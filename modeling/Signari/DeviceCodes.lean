import Signari.GoTime
import Signari.LabelledRuns

/-!
# Device codes

`internal/store/devicecode.go`, with the back-channel requests of `internal/store/ciba.go` that live
in the same table. `Step` has one constructor for each statement of a poll and one for each run of
plain code between two: the row a poll has read stays locked until the transaction ends, a statement
that would change it waits, and an end of transaction publishes or drops what the poll wrote.

`now()` is the instant its transaction began, also for a statement that had to wait. What the poll
finds in the session table is free. The database may fail any statement, and a commit that took
effect may be reported as failed.
-/
namespace Signari.DeviceCodes
open GoTime Function

inductive Flow where
  | device | ciba
  deriving DecidableEq

inductive Status where
  | pending | approved | denied
  deriving DecidableEq

variable {D : Type}

structure Row (D : Type) where
  orgID : String
  clientID : String
  scope : String
  resource : List String
  deviceHash : D
  userHash : Option D
  flow : Flow
  status : Status := .pending
  userID : Option String := none
  sid : Option String := none
  interval : ℤ
  expiresAt : ℤ
  lastPolledAt : Option ℤ := none
  redeemedAt : Option ℤ := none
  deriving DecidableEq

structure DeviceAuthorization where
  id : String
  orgID : String
  clientID : String
  scope : String
  resource : List String
  status : Status
  userID : String
  sid : String
  interval : ℤ
  expiresAt : ℤ
  deriving DecidableEq

def Row.authorization (d : Row D) (id : String) : DeviceAuthorization where
  id := id
  orgID := d.orgID
  clientID := d.clientID
  scope := d.scope
  resource := d.resource
  status := d.status
  userID := d.userID.getD ""
  sid := d.sid.getD ""
  interval := d.interval
  expiresAt := d.expiresAt

/-- The row `CreateDeviceAuthorization` inserts; the lifetime is in whole seconds. -/
def newDevice (orgID clientID scope : String) (resource : List String) (deviceHash userHash : D)
    (interval lifetime now : ℤ) : Row D where
  orgID := orgID
  clientID := clientID
  scope := scope
  resource := resource
  deviceHash := deviceHash
  userHash := some userHash
  flow := .device
  interval := interval
  expiresAt := now + lifetime * nanosPerSecond

/-- The row `CreateBackchannelAuthentication` inserts: it names its subject at once. -/
def newBackchannel (orgID clientID userID scope : String) (authReqHash : D)
    (interval lifetime now : ℤ) : Row D where
  orgID := orgID
  clientID := clientID
  scope := scope
  resource := []
  deviceHash := authReqHash
  userHash := none
  flow := .ciba
  userID := some userID
  interval := interval
  expiresAt := now + lifetime * nanosPerSecond

/-- The UPDATE of `ApproveDeviceAuthorization`, on the row with the id. -/
def Row.approve (r : Row D) (userID sid : String) (now : ℤ) : Option (Row D) :=
  if r.status = .pending ∧ now < r.expiresAt then
    some { r with status := .approved, userID := some userID, sid := some sid }
  else none

def Row.deny (r : Row D) : Option (Row D) :=
  if r.status = .pending then some { r with status := .denied } else none

/-- The UPDATE of `DecideBackchannel`. -/
def Row.decideBackchannel (r : Row D) (userID sid : String) (approve : Bool) (now : ℤ) :
    Option (Row D) :=
  if r.userID = some userID ∧ r.flow = .ciba ∧ r.status = .pending ∧ now < r.expiresAt then
    some { r with status := if approve then .approved else .denied, sid := some sid }
  else none

def Row.slowed (d : Row D) (now : ℤ) : Row D :=
  { d with lastPolledAt := some now, interval := d.interval + 5 }

def Row.polled (d : Row D) (now : ℤ) : Row D := { d with lastPolledAt := some now }

def Row.redeemed (d : Row D) (now : ℤ) : Row D := { d with redeemedAt := some now }

/-- Rows that `PurgeExpiredDeviceCodes` deletes. -/
def Row.purged (r : Row D) (now : ℤ) : Bool := decide (r.expiresAt < now - 3600 * nanosPerSecond)

/-- What a poll is answered. `failed` stands for an error of the database. -/
inductive Answer where
  | unknown | wrongClient | slowDown | pending | denied | sessionGone | failed
  | granted (d : DeviceAuthorization)

inductive Verdict where
  | refused (a : Answer)
  | tooEarly
  | due

/-- The checks of `PollDeviceCode` on the row it has read, with the two instants at which it
looks at the clock. -/
def inspect (d : Row D) (clientID : String) (checked paced : ℤ) : Verdict :=
  if d.clientID ≠ clientID then .refused .wrongClient
  else if d.expiresAt < checked then .refused .unknown
  else if d.redeemedAt.isSome then .refused .unknown
  else if d.lastPolledAt.any fun t => decide (sub paced t < seconds d.interval) then .tooEarly
  else .due

structure PollCall (D : Type) where
  deviceHash : D
  clientID : String
  flow : Flow

/-- Where a poll stands. From `reading` on it has the row locked; `closing` has nothing left
to do but to commit what it wrote and answer. -/
inductive Phase (D : Type) where
  | began
  | reading (id : String) (d : Row D)
  | refused (id : String) (d : Row D) (a : Answer)
  | tooEarly (id : String) (d : Row D)
  | due (id : String) (d : Row D) (checked : ℤ)
  | touched (id : String) (d : Row D) (checked : ℤ)
  | redeeming (id : String) (d : Row D) (checked : ℤ)
  | closing (id : String) (d draft : Row D) (a : Answer)
  | done

def Phase.held : Phase D → Option (String × Row D)
  | .began | .done => none
  | .reading id d | .refused id d _ | .tooEarly id d | .due id d _ | .touched id d _
  | .redeeming id d _ | .closing id d _ _ => some (id, d)

def Phase.afterInspect (id : String) (d : Row D) (checked : ℤ) : Verdict → Phase D
  | .refused a => .refused id d a
  | .tooEarly => .tooEarly id d
  | .due => .due id d checked

/-- The switch on the status, after `last_polled_at` is written. -/
def Phase.afterTouch (id : String) (d : Row D) (checked since : ℤ) : Phase D := match d.status with
  | .pending => .closing id d (d.polled since) .pending
  | .denied => .closing id d (d.polled since) .denied
  | .approved => .touched id d checked

def Phase.afterSession (id : String) (d : Row D) (checked since : ℤ) (live : Bool) : Phase D :=
  if live then .redeeming id d checked
  else .closing id d (d.polled since) .sessionGone

structure Tx (D : Type) where
  call : PollCall D
  since : ℤ
  phase : Phase D

/-- The committed table, its row locks, the polls, the clock, and the ids drawn so far: an id is
a random uuid, and no two are alike. -/
structure State (D : Type) where
  rows : String → Option (Row D) := fun _ => none
  locks : String → Option ℕ := fun _ => none
  txs : ℕ → Option (Tx D) := fun _ => none
  clock : ℤ := 0
  drawn : List String := []

inductive PollEvent (D : Type) where
  | began (since : ℤ)
  | found (id : String) (d : Row D)
  | inspected (v : Verdict) (checked paced : ℤ)
  | slowed
  | touched
  | session (live : Bool)
  | redeemed
  | answered (a : Answer)

inductive Obs (D : Type) where
  | created (id : String) (row : Row D)
  | approved (id userID sid : String)
  | denied (id : String)
  | deleted
  | waited
  | poll (i : ℕ) (call : PollCall D) (e : PollEvent D)

/-- Statements and checks of a poll that touch nothing but its own transaction. -/
inductive Local (since : ℤ) : Phase D → PollEvent D → Phase D → Prop
  | slow {id : String} {d : Row D} :
      Local since (.tooEarly id d) .slowed (.closing id d (d.slowed since) .slowDown)
  | touch {id : String} {d : Row D} {checked : ℤ} :
      Local since (.due id d checked) .touched (.afterTouch id d checked since)
  | session {id : String} {d : Row D} {checked : ℤ} {live : Bool} :
      Local since (.touched id d checked) (.session live) (.afterSession id d checked since live)
  | redeem {id : String} {d : Row D} {checked : ℤ} :
      Local since (.redeeming id d checked) .redeemed
        (.closing id d ((d.polled since).redeemed since) (.granted (d.authorization id)))

def State.setPhase (s : State D) (i : ℕ) (tx : Tx D) (p : Phase D) : State D :=
  { s with txs := update s.txs i (some { tx with phase := p }) }

/-- The end of a transaction: its lock is free again. -/
def State.close (s : State D) (i : ℕ) (tx : Tx D) : State D :=
  { s.setPhase i tx .done with locks := fun id => if s.locks id = some i then none else s.locks id }

def State.write (s : State D) (id : String) (r : Row D) : State D :=
  { s with rows := update s.rows id (some r) }

def State.remove (s : State D) (gone : String → Row D → Bool) : State D :=
  { s with rows := fun id => (s.rows id).filter fun r => !gone id r }

inductive Step : State D → Obs D → State D → Prop
  | create {s : State D} {id : String} {row : Row D} :
      id ∉ s.drawn → (∀ j r, s.rows j = some r → r.deviceHash ≠ row.deviceHash) →
      ((∃ orgID clientID scope resource userHash interval lifetime, row = newDevice orgID clientID
          scope resource row.deviceHash userHash interval lifetime s.clock) ∨
        ∃ orgID clientID userID scope interval lifetime, row = newBackchannel orgID clientID userID
          scope row.deviceHash interval lifetime s.clock) →
      Step s (.created id row) { s.write id row with drawn := id :: s.drawn }
  | approve {s : State D} {id userID sid : String} {since : ℤ} {r r' : Row D} :
      s.rows id = some r → s.locks id = none → since ≤ s.clock →
      r.approve userID sid since = some r' →
      Step s (.approved id userID sid) (s.write id r')
  | deny {s : State D} {id : String} {r r' : Row D} :
      s.rows id = some r → s.locks id = none → r.deny = some r' →
      Step s (.denied id) (s.write id r')
  | decideBackchannel {s : State D} {id userID sid : String} {approve : Bool} {since : ℤ}
      {r r' : Row D} :
      s.rows id = some r → s.locks id = none → since ≤ s.clock →
      r.decideBackchannel userID sid approve since = some r' →
      Step s (if approve then .approved id userID sid else .denied id) (s.write id r')
  | purge {s : State D} {since : ℤ} :
      since ≤ s.clock →
      (∀ id r, s.rows id = some r → r.purged since = true → s.locks id = none) →
      Step s .deleted (s.remove fun _ r => r.purged since)
  | cascade {s : State D} {gone : String → Row D → Bool} :
      (∀ id r, s.rows id = some r → gone id r = true → s.locks id = none) →
      Step s .deleted (s.remove gone)
  | wait {s : State D} {t : ℤ} : s.clock ≤ t → Step s .waited { s with clock := t }
  | begin {s : State D} {i : ℕ} {call : PollCall D} :
      s.txs i = none →
      Step s (.poll i call (.began s.clock))
        { s with txs := update s.txs i (some ⟨call, s.clock, .began⟩) }
  | miss {s : State D} {i : ℕ} {tx : Tx D} :
      s.txs i = some tx → tx.phase = .began →
      (∀ id r, s.rows id = some r → ¬(r.deviceHash = tx.call.deviceHash ∧ r.flow = tx.call.flow)) →
      Step s (.poll i tx.call (.answered .unknown)) (s.close i tx)
  | find {s : State D} {i : ℕ} {tx : Tx D} {id : String} {d : Row D} :
      s.txs i = some tx → tx.phase = .began → s.rows id = some d → s.locks id = none →
      d.deviceHash = tx.call.deviceHash → d.flow = tx.call.flow →
      Step s (.poll i tx.call (.found id d))
        { s.setPhase i tx (.reading id d) with locks := update s.locks id (some i) }
  | inspect {s : State D} {i : ℕ} {tx : Tx D} {id : String} {d : Row D} {checked paced : ℤ} :
      s.txs i = some tx → tx.phase = .reading id d → s.clock ≤ checked → checked ≤ paced →
      Step s (.poll i tx.call (.inspected (inspect d tx.call.clientID checked paced) checked paced))
        { s.setPhase i tx (.afterInspect id d checked
            (DeviceCodes.inspect d tx.call.clientID checked paced)) with clock := paced }
  | statement {s : State D} {i : ℕ} {tx : Tx D} {e : PollEvent D} {p : Phase D} :
      s.txs i = some tx → Local tx.since tx.phase e p →
      Step s (.poll i tx.call e) (s.setPhase i tx p)
  | rollback {s : State D} {i : ℕ} {tx : Tx D} {id : String} {d : Row D} {a : Answer} :
      s.txs i = some tx → tx.phase = .refused id d a →
      Step s (.poll i tx.call (.answered a)) (s.close i tx)
  | commit {s : State D} {i : ℕ} {tx : Tx D} {id : String} {d draft : Row D} {a : Answer} :
      s.txs i = some tx → tx.phase = .closing id d draft a →
      Step s (.poll i tx.call (.answered a)) ((s.write id draft).close i tx)
  | commitLost {s : State D} {i : ℕ} {tx : Tx D} {id : String} {d draft : Row D} {a : Answer} :
      s.txs i = some tx → tx.phase = .closing id d draft a →
      Step s (.poll i tx.call (.answered .failed)) ((s.write id draft).close i tx)
  | fail {s : State D} {i : ℕ} {tx : Tx D} :
      s.txs i = some tx → tx.phase ≠ .done →
      Step s (.poll i tx.call (.answered .failed)) (s.close i tx)

end Signari.DeviceCodes
