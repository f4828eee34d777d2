import Mathlib.Algebra.BigOperators.Group.Finset.Piecewise
import Mathlib.Data.List.Sort
import Mathlib.Data.Fintype.Basic
import Signari.GoTime
import Signari.LabelledRuns

/-!
# Draining the outbox

`internal/outbox/drain.go` with the four topics that are drained through `drainTopic`, and the
statements of `internal/store` that write rows of these topics. A claim is one transaction that
locks what it reads, so it is one step; so is every other statement. The deliveries of a batch
end in any order, and their outcomes are recorded in the order of the batch after the last
of them has ended.

A drain stops at any point: because it is done, because a statement failed, because its process
died, or because the outcome is a failure and the topic has no `backoff` to call. Event
subscriptions live in the same table under a topic of their own and have another drain, which is not
modelled.
-/
namespace Signari.OutboxDrain
open GoTime LabelledRuns Function

def maxAttempts : ℕ := 8

/-- One minute. -/
def claimLease : ℤ := 60 * nanosPerSecond

inductive Topic where
  | backchannelLogout | ssfEvent | cibaPing | cibaPush
  deriving DecidableEq

/-- The topics whose rows wait for the decision of a person. -/
def Topic.parks : Topic → Bool
  | .cibaPing | .cibaPush => true
  | .backchannelLogout | .ssfEvent => false

/-- A `timestamptz`. -/
inductive Timestamp where
  | moment (t : ℤ)
  | infinity

def Timestamp.reached (now : ℤ) : Timestamp → Bool
  | .moment t => decide (t ≤ now)
  | .infinity => false

variable {P : Type}

/-- A row of `core.outbox`. `subjectKey` names the request that a parked row belongs to. -/
structure Row (P : Type) where
  topic : Topic
  payload : P
  subjectKey : String
  attempts : ℕ
  nextAttemptAt : Timestamp
  deliveredAt : Option ℤ
  lastError : Option String

def insertedRow (topic : Topic) (payload : P) (key : String) (due : Timestamp) : Row P :=
  ⟨topic, payload, key, 0, due, none, none⟩

/-- The condition of the claim query. -/
def Row.claimable (topic : Topic) (now : ℤ) (row : Row P) : Bool :=
  decide (row.topic = topic) && row.deliveredAt.isNone && decide (row.attempts < maxAttempts) &&
    row.nextAttemptAt.reached now

def Row.waitsFor (topic : Topic) (key : String) (row : Row P) : Bool :=
  decide (row.topic = topic) && decide (row.subjectKey = key) && row.deliveredAt.isNone

def Row.postpone (t : ℤ) (row : Row P) : Row P := { row with nextAttemptAt := .moment t }

def Row.delivered (now : ℤ) (row : Row P) : Row P :=
  { row with deliveredAt := some now, lastError := none }

def Row.failed (now wait : ℤ) (err : String) (row : Row P) : Row P :=
  { row with
    attempts := row.attempts + 1, nextAttemptAt := .moment (now + wait), lastError := some err }

structure DrainSpec where
  topic : Topic
  batch : ℕ
  backoff : Option (ℕ → ℤ)

/-- `2^attempts` seconds, five minutes at most. -/
def backoffFor (attempts : ℕ) : ℤ := (min (Nat.pow 2 attempts) 300 : ℕ) * nanosPerSecond

def drainOnce : DrainSpec := ⟨.backchannelLogout, 25, some backoffFor⟩

def drainSSF : DrainSpec := ⟨.ssfEvent, 25, some backoffFor⟩

def drainCIBAPings : DrainSpec := ⟨.cibaPing, 25, some backoffFor⟩

/-- The one drain that does not say how long to wait after a failure. -/
def drainCIBAPushes : DrainSpec := ⟨.cibaPush, 25, none⟩

def drains : List DrainSpec := [drainOnce, drainSSF, drainCIBAPings, drainCIBAPushes]

structure Claimed (P : Type) where
  id : ℕ
  raw : P
  attempts : ℕ

/-- A row taken for delivery, and what the delivery returned once it has. -/
structure Call (P : Type) where
  row : Claimed P
  result : Option (Except String Unit)

inductive Worker (P : Type) where
  | idle
  | working (spec : DrainSpec) (calls : List (Call P))

def Worker.calls : Worker P → List (Call P)
  | .idle => []
  | .working _ calls => calls

variable {ι : Type}

/-- The table, the numbers its sequence has handed out to committed rows, the requests whose
approval has been recorded, and what each worker is at. -/
structure State (ι P : Type) where
  rows : ℕ → Option (Row P)
  drawn : List ℕ
  approved : List String
  workers : ι → Worker P

def State.empty : State ι P := ⟨fun _ => none, [], [], fun _ => .idle⟩

/-- An `UPDATE` of the rows that meet a condition. -/
def updateWhere (p : ℕ → Row P → Bool) (f : Row P → Row P) (rows : ℕ → Option (Row P)) :
    ℕ → Option (Row P) :=
  fun id => (rows id).map fun row => if p id row then f row else row

def State.due (s : State ι P) (topic : Topic) (now : ℤ) (locked : ℕ → Bool) (id : ℕ) : Bool :=
  (s.rows id).any (Row.claimable topic now) && !locked id

def State.claimedIDs (s : State ι P) (spec : DrainSpec) (now : ℤ) (locked : ℕ → Bool) : List ℕ :=
  ((s.drawn.insertionSort (· ≤ ·)).filter (s.due spec.topic now locked)).take spec.batch

/-- The batch that a claim returns. -/
def State.claimTopic (s : State ι P) (spec : DrainSpec) (now : ℤ) (locked : ℕ → Bool) :
    List (Claimed P) :=
  (s.claimedIDs spec now locked).filterMap fun id =>
    (s.rows id).map fun row => ⟨id, row.payload, row.attempts⟩

/-- The table after a claim. -/
def State.leased (s : State ι P) (spec : DrainSpec) (now : ℤ) (locked : ℕ → Bool) :
    ℕ → Option (Row P) :=
  updateWhere (fun id _ => decide (id ∈ s.claimedIDs spec now locked))
    (Row.postpone (now + claimLease)) s.rows

/-- What is seen of a run. -/
inductive Obs (P : Type) where
  | queued (id : ℕ)
  | released (topic : Topic) (key : String)
  | returned (id : ℕ) (raw : P) (result : Except String Unit)
  | quiet

def Obs.failedOn (id : ℕ) : Obs P → Bool
  | .returned j _ (.error _) => decide (j = id)
  | _ => false

variable [DecidableEq ι]

/-- One step. `releasePush` runs after an approval, and a request is approved once. -/
inductive Step : State ι P → Obs P → State ι P → Prop
  | queue {s : State ι P} (id : ℕ) (topic : Topic) (payload : P) (now : ℤ)
      (hfresh : id ∉ s.drawn) (htopic : topic.parks = false) :
      Step s (.queued id)
        { s with
          rows := update s.rows id (some (insertedRow topic payload "" (.moment now))),
          drawn := id :: s.drawn }
  | park {s : State ι P} (id : ℕ) (topic : Topic) (payload : P) (key : String)
      (hfresh : id ∉ s.drawn) (htopic : topic.parks = true) :
      Step s (.queued id)
        { s with
          rows := update s.rows id (some (insertedRow topic payload key .infinity)),
          drawn := id :: s.drawn }
  | releasePing {s : State ι P} (key : String) (now : ℤ) :
      Step s (.released .cibaPing key)
        { s with
          rows := updateWhere (fun _ => Row.waitsFor .cibaPing key) (Row.postpone now) s.rows }
  | releasePush {s : State ι P} (key : String) (now : ℤ) (addSealed : P → P)
      (honce : key ∉ s.approved) :
      Step s (.released .cibaPush key)
        { s with
          rows := updateWhere (fun _ => Row.waitsFor .cibaPush key)
            (fun row => { row.postpone now with payload := addSealed row.payload }) s.rows,
          approved := key :: s.approved }
  | discardPush {s : State ι P} (key : String) :
      Step s .quiet
        { s with rows := fun id => (s.rows id).filter fun row => !row.waitsFor .cibaPush key }
  | claim {s : State ι P} (w : ι) (spec : DrainSpec) (now : ℤ) (locked : ℕ → Bool)
      (hspec : spec ∈ drains) (hidle : s.workers w = .idle) :
      Step s .quiet
        { s with
          rows := s.leased spec now locked,
          workers := update s.workers w
            (.working spec ((s.claimTopic spec now locked).map fun c => ⟨c, none⟩)) }
  | claimLost {s : State ι P} (spec : DrainSpec) (now : ℤ) (locked : ℕ → Bool)
      (hspec : spec ∈ drains) :
      Step s .quiet { s with rows := s.leased spec now locked }
  | deliver {s : State ι P} (w : ι) (spec : DrainSpec) (before after : List (Call P))
      (c : Claimed P) (result : Except String Unit)
      (hcall : s.workers w = .working spec (before ++ ⟨c, none⟩ :: after)) :
      Step s (.returned c.id c.raw result)
        { s with
          workers := update s.workers w (.working spec (before ++ ⟨c, some result⟩ :: after)) }
  | recordSuccess {s : State ι P} (w : ι) (spec : DrainSpec) (c : Claimed P)
      (rest : List (Call P)) (now : ℤ)
      (hcall : s.workers w = .working spec (⟨c, some (.ok ())⟩ :: rest))
      (hended : ∀ call ∈ rest, call.result.isSome) :
      Step s .quiet
        { s with
          rows := updateWhere (fun id _ => decide (id = c.id)) (Row.delivered now) s.rows,
          workers := update s.workers w (.working spec rest) }
  | recordFailure {s : State ι P} (w : ι) (spec : DrainSpec) (c : Claimed P) (err : String)
      (rest : List (Call P)) (backoff : ℕ → ℤ) (now : ℤ)
      (hcall : s.workers w = .working spec (⟨c, some (.error err)⟩ :: rest))
      (hended : ∀ call ∈ rest, call.result.isSome) (hbackoff : spec.backoff = some backoff) :
      Step s .quiet
        { s with
          rows := updateWhere (fun id _ => decide (id = c.id))
            (Row.failed now (backoff c.attempts) err) s.rows,
          workers := update s.workers w (.working spec rest) }
  | stop {s : State ι P} (w : ι) :
      Step s .quiet { s with workers := update s.workers w .idle }

end Signari.OutboxDrain
