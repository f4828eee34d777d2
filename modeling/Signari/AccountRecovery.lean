import Signari.GoTime
import Signari.RowLocks

/-!
# Account recovery

The recovery requests of `internal/store/recovery.go` and the handlers of
`internal/httpapi/recovery.go` that create, cancel and use them, with the sweep that drops expired
ones, as transactions that run at once. A request that did not prove a second factor is delayed, so
that the owner of the account can cancel it in the meantime.

An update changes the rows that it has seen when it began and that still match when it comes to
them; a statement that waits for a lock has not executed yet. Whatever a handler has waited for, a
password is reset by a request that was live until then: `recovery_honoured`.
-/
namespace Signari.AccountRecovery
open GoTime LabelledRuns StatementPrograms RowLocks List
open Prog

/-- What is inserted into `recovery_requests`. -/
structure Draft where
  userID : String
  orgID : String
  tokenHash : String
  cancelHash : String
  effectiveAt : ℤ
  expiresAt : ℤ
  waivedBy : Option String := none
  deriving DecidableEq

/-- A row of `recovery_requests`. Of `cancelled_at` and `consumed_at` all that is ever looked at is
whether they are set. Identifiers are drawn at random; here they count up. -/
structure Row extends Draft where
  id : ℕ
  cancelled : Bool := false
  consumed : Bool := false
  deriving DecidableEq

/-- What the index on live requests asks of a row. -/
def Row.Live (r : Row) : Prop := r.cancelled = false ∧ r.consumed = false

instance (r : Row) : Decidable r.Live := inferInstanceAs (Decidable (_ ∧ _))

/-- What the recovery flow of an organisation comes to. -/
inductive Plan where
  | unsupported | denied | unchanging | changing

inductive Op
  | begin
  | now
  | supersede (tx : ℕ) (userID : String)
  | insert (tx : ℕ) (draft : Draft)
  | lookup (tx : ℕ) (tokenHash : String)
  | cancel (tx : ℕ) (cancelHash : String)
  | plan (orgID : String)
  | history (tx : ℕ) (userID : String) (depth : ℕ)
  | identity (tx : ℕ) (userID : String)
  | checkPolicy (password identity : String) (previous : List String)
  | retire (tx : ℕ) (userID orgID : String)
  | hash (password : String)
  | consume (tx : ℕ) (id : ℕ)
  | setPassword (tx : ℕ) (userID newHash : String)
  | terminate (tx : ℕ) (userID : String)
  | audit (tx : ℕ) (event userID : String)
  | purge (tx : ℕ)
  | commit (tx : ℕ)
  | rollback (tx : ℕ)

/-- The response to a statement; none, or false, is an error. -/
@[reducible] def Res : Op → Type
  | .begin => Option ℕ
  | .now => ℤ
  | .supersede .. => Bool
  | .insert .. => Option ℕ
  | .lookup .. => Option (Option Row)
  | .cancel .. => Option (Option String)
  | .plan _ => Plan
  | .history .. => Option (List String)
  | .identity .. => Option String
  | .checkPolicy .. => Option String
  | .retire .. => Bool
  | .hash _ => Option String
  | .consume .. => Option Bool
  | .setPassword .. => Bool
  | .terminate .. => Bool
  | .audit .. => Bool
  | .purge _ => Option ℕ
  | .commit _ => Commit
  | .rollback _ => Unit

inductive Answer where
  | unavailable
  | sent
  | cancelled
  | invalidLink
  | expired
  | pending (effectiveAt : ℤ)
  | ready
  | stageRefused
  | recoveryClosed
  | misconfigured
  | policy (err : String)
  | done
  | purged (n : ℕ)

abbrev Handler (α : Type) := Prog Op Res α

abbrev query (o : Op) : Handler (Res o) := call o

/-- The transaction is given up. -/
def refuse (tx : ℕ) (a : Answer) : Handler Answer := do
  let _ ← query (.rollback tx)
  pure a

def recoveryDelay : ℤ := 30 * 60 * nanosPerSecond

def recoveryLifetime : ℤ := 24 * 60 * 60 * nanosPerSecond

/-- What a request for a reset is made of. -/
structure NewRequest where
  userID : String
  orgID : String
  tokenHash : String
  cancelHash : String
  waivedBy : String := ""

def NewRequest.draft (q : NewRequest) (now : ℤ) : Draft where
  userID := q.userID
  orgID := q.orgID
  tokenHash := q.tokenHash
  cancelHash := q.cancelHash
  effectiveAt := micros (if q.waivedBy = "" then now + recoveryDelay else now)
  expiresAt := micros (now + recoveryLifetime)
  waivedBy := if q.waivedBy = "" then none else some q.waivedBy

def createRecoveryRequest (tx : ℕ) (q : NewRequest) (now : ℤ) : Handler (Option ℕ) := do
  match ← query (.supersede tx q.userID) with
  | false => pure none
  | true => query (.insert tx (q.draft now))

/-- The page that follows is the same whatever happens. -/
def beginRecovery (q : NewRequest) : Handler Answer := do
  match ← query .begin with
  | none => pure .sent
  | some tx =>
    let now ← query .now
    match ← createRecoveryRequest tx q now with
    | none => refuse tx .sent
    | some _ =>
      match ← query (.audit tx "account.recovery_requested" q.userID) with
      | false => refuse tx .sent
      | true =>
        let _ ← query (.commit tx)
        refuse tx .sent

/-- How a token is resolved. -/
inductive Lookup where
  | failed
  | notFound
  | pending (r : Row)
  | found (r : Row)

def Row.judge (r : Row) (now : ℤ) : Lookup := if ¬ r.Live ∨ r.expiresAt * 1000 < now then .notFound
  else if now < r.effectiveAt * 1000 then .pending r
  else .found r

def lookupRecovery (tx : ℕ) (tokenHash : String) (now : ℤ) : Handler Lookup := do
  match ← query (.lookup tx tokenHash) with
  | none => pure .failed
  | some none => pure .notFound
  | some (some r) => pure (r.judge now)

def cancelWith (tx : ℕ) (cancelHash : String) : Handler Answer := do
  match ← query (.cancel tx cancelHash) with
  | none => refuse tx .unavailable
  | some none => refuse tx .cancelled
  | some (some userID) =>
    let _ ← query (.audit tx "account.recovery_cancelled" userID)
    let _ ← query (.commit tx)
    refuse tx .cancelled

/-- A token is known by its hash; there is none for a token of another shape. -/
def handleRecoverCancel : Option String → Handler Answer
  | none => pure .cancelled
  | some cancelHash => do
    match ← query .begin with
    | none => pure .unavailable
    | some tx => cancelWith tx cancelHash

def handleResetGet : Option String → Handler Answer
  | none => pure .invalidLink
  | some tokenHash => do
    match ← query .begin with
    | none => pure .unavailable
    | some tx =>
      let now ← query .now
      match ← lookupRecovery tx tokenHash now with
      | .pending r => refuse tx (.pending r.effectiveAt)
      | .found _ => refuse tx .ready
      | _ => refuse tx .expired

/-- Whether the request is spent, the password set and every session ended. -/
def consumeRecovery (tx id : ℕ) (userID newHash : String) : Handler Bool := do
  match ← query (.consume tx id) with
  | none => pure false
  | some false => pure false
  | some true =>
    match ← query (.setPassword tx userID newHash) with
    | false => pure false
    | true => query (.terminate tx userID)

def finishReset (tx : ℕ) (r : Row) (newHash : String) : Handler Answer := do
  match ← consumeRecovery tx r.id r.userID newHash with
  | false => refuse tx .expired
  | true =>
    match ← query (.audit tx "account.password_reset" r.userID) with
    | false => refuse tx .unavailable
    | true =>
      match ← query (.commit tx) with
      | .confirmed => pure .done
      | _ => refuse tx .unavailable

/-- The outgoing password is filed where a history is kept, and an error there is only logged. -/
def retirePassword (depth tx : ℕ) (r : Row) : Handler Bool :=
  if 0 < depth then query (.retire tx r.userID r.orgID) else pure true

def replacePassword (depth tx : ℕ) (r : Row) (password : String) : Handler Answer := do
  let previous ← query (.history tx r.userID depth)
  let identity ← query (.identity tx r.userID)
  match ← query (.checkPolicy password (identity.getD "") (previous.getD [])) with
  | some err => refuse tx (.policy err)
  | none =>
    let _ ← retirePassword depth tx r
    match ← query (.hash password) with
    | none => refuse tx .unavailable
    | some newHash => finishReset tx r newHash

def resetWith (depth tx : ℕ) (r : Row) (password : String) : Handler Answer := do
  match ← query (.plan r.orgID) with
  | .unsupported => refuse tx .stageRefused
  | .denied => refuse tx .recoveryClosed
  | .unchanging => refuse tx .misconfigured
  | .changing => replacePassword depth tx r password

/-- The time at which a post is received is read before its token is looked up. -/
def handleResetPost (depth : ℕ) (password : String) : Option String → Handler Answer
  | none => pure .invalidLink
  | some tokenHash => do
    match ← query .begin with
    | none => pure .unavailable
    | some tx =>
      let now ← query .now
      match ← lookupRecovery tx tokenHash now with
      | .found r => resetWith depth tx r password
      | _ => refuse tx .expired

def purgeExpiredRecoveries : Handler Answer := do
  match ← query .begin with
  | none => pure .unavailable
  | some tx =>
    match ← query (.purge tx) with
    | none => refuse tx .unavailable
    | some n =>
      match ← query (.commit tx) with
      | .confirmed => pure (.purged n)
      | _ => refuse tx .unavailable

inductive Req where
  | recover (q : NewRequest)
  | cancel (cancelHash : Option String)
  | look (tokenHash : Option String)
  | reset (tokenHash : Option String) (password : String)
  | purge

/-- `depth` is the number of passwords that the policy keeps. -/
def handle (depth : ℕ) : Req → Handler Answer
  | .recover q => beginRecovery q
  | .cancel cancelHash => handleRecoverCancel cancelHash
  | .look tokenHash => handleResetGet tokenHash
  | .reset tokenHash password => handleResetPost depth password tokenHash
  | .purge => purgeExpiredRecoveries

/-- What a transaction holds locked, what it has changed, and whether a statement of it has failed.
Rows are as they were when they were locked. -/
structure Txn where
  locked : List Row := []
  cancelled : List Row := []
  consumed : List Row := []
  deleted : List Row := []
  inserted : List Row := []
  passwords : List (String × String) := []
  aborted : Bool := false

namespace Txn

def holds (t : Txn) (id : ℕ) : Prop := t.aborted = false ∧ ∃ r ∈ t.locked, r.id = id

/-- A row as the transaction leaves it, if it does not delete it. -/
def settle (t : Txn) (r : Row) : Row :=
  { r with
    cancelled := r.cancelled || decide (r ∈ t.cancelled)
    consumed := r.consumed || decide (r ∈ t.consumed) }

def cancel (t : Txn) (rows : List Row) : Txn :=
  { t with locked := rows ++ t.locked, cancelled := rows ++ t.cancelled }

def consume (t : Txn) (rows : List Row) : Txn :=
  { t with locked := rows ++ t.locked, consumed := rows ++ t.consumed }

def delete (t : Txn) (rows : List Row) : Txn :=
  { t with locked := rows ++ t.locked, deleted := rows ++ t.deleted }

end Txn

/-- `passwords` are the hashes of `password_credentials`. -/
structure Store where
  rows : List Row := []
  passwords : String → Option String
  nextID : ℕ := 0
  sessions : Sessions Txn := {}

namespace Store

def put (s : Store) (tx : ℕ) (t : Txn) : Store := { s with sessions := s.sessions.put tx t }

def close (s : Store) (tx : ℕ) : Store := { s with sessions := s.sessions.close tx }

def replaced (s : Store) (t : Txn) (userID : String) : Option String :=
  match t.passwords.find? fun p => p.1 = userID with
  | some p => (s.passwords userID).map fun _ => p.2
  | none => s.passwords userID

def commit (s : Store) (tx : ℕ) (t : Txn) : Store :=
  { s.close tx with
    rows := (s.rows.filter fun r => decide (r ∉ t.deleted)).map t.settle ++ t.inserted
    passwords := s.replaced t }

/-- The transaction is open, and no statement of it has failed. -/
def Live (s : Store) (tx : ℕ) (t : Txn) : Prop := s.sessions.txs tx = some t ∧ t.aborted = false

/-- The rows that a statement has seen and that match its conditions. No transaction selects a row
that it has inserted itself. -/
def matching (s : Store) (t : Txn) (seen : Row → Bool) (p : Row → Prop) [DecidablePred p] :
    List Row :=
  s.rows.filter fun r => seen r && decide (r ∉ t.deleted ∧ p (t.settle r))

/-- No other transaction has locked any of the rows. -/
def Free (s : Store) (tx : ℕ) (rows : List Row) : Prop :=
  ∀ r ∈ rows, s.sessions.Free Txn.holds tx r.id

/-- Two rows that a unique index does not let stand side by side. -/
def Clash (d d' : Draft) : Prop := d.tokenHash = d'.tokenHash ∨ d.cancelHash = d'.cancelHash

/-- An insertion succeeds when no row is in its way, that is committed or that an open transaction
has inserted. -/
structure Admits (s : Store) (t : Txn) (d : Draft) : Prop where
  ordered : d.effectiveAt ≤ d.expiresAt
  committed : ∀ r ∈ s.rows, r ∉ t.deleted → ¬ Clash r.toDraft d ∧
    (r.userID = d.userID → ¬ (t.settle r).Live)
  pending : ∀ tx' t', s.Live tx' t' → ∀ n ∈ t'.inserted, ¬ Clash n.toDraft d ∧ n.userID ≠ d.userID

end Store

/-- A statement that reports an error may have aborted its transaction. -/
def Fails (s : Store) (tx : ℕ) (s' : Store) : Prop :=
  s' = s ∨ ∃ t, s.sessions.txs tx = some t ∧ s' = s.put tx { t with aborted := true }

/-- The statement executes in an open transaction, on the rows that it matches. -/
def Selects (s : Store) (tx : ℕ) (p : Row → Prop) [DecidablePred p]
    (then_ : Txn → List Row → Prop) : Prop :=
  ∃ t seen, s.Live tx t ∧ s.Free tx (s.matching t seen p) ∧ then_ t (s.matching t seen p)

def Exec (s : Store) : (o : Op) → Res o → Store → Prop
  | .begin, r, s' => (r = none ∧ s' = s) ∨
      (r = some s.sessions.next ∧ s' = { s with sessions := s.sessions.start {} })
  | .now, _, s' => s' = s
  | .supersede tx userID, r, s' => (r = false ∧ Fails s tx s') ∨
      (r = true ∧ Selects s tx (fun row => row.userID = userID ∧ row.Live) fun t rows =>
        s' = s.put tx (t.cancel rows))
  | .insert tx draft, r, s' => (r = none ∧ Fails s tx s') ∨
      (r = some s.nextID ∧ ∃ t, s.Live tx t ∧ s.Admits t draft ∧
        s' = { s.put tx { t with inserted := { draft with id := s.nextID } :: t.inserted } with
          nextID := s.nextID + 1 })
  | .lookup tx tokenHash, r, s' => (r = none ∧ Fails s tx s') ∨
      (Selects s tx (fun row => row.tokenHash = tokenHash) fun t rows =>
        r = some (rows.head?.map t.settle) ∧ s' = s.put tx { t with locked := rows ++ t.locked })
  | .cancel tx cancelHash, r, s' => (r = none ∧ Fails s tx s') ∨
      (Selects s tx (fun row => row.cancelHash = cancelHash ∧ row.Live) fun t rows =>
        r = some (rows.head?.map fun row => row.userID) ∧ s' = s.put tx (t.cancel rows))
  | .plan _, _, s' => s' = s
  | .history tx _ _, _, s' => Fails s tx s'
  | .identity tx _, _, s' => Fails s tx s'
  | .checkPolicy .., _, s' => s' = s
  | .retire tx _ _, _, s' => Fails s tx s'
  | .hash _, _, s' => s' = s
  | .consume tx id, r, s' => (r = none ∧ Fails s tx s') ∨
      (Selects s tx (fun row => row.id = id ∧ row.Live) fun t rows =>
        r = some (decide (rows ≠ [])) ∧ s' = s.put tx (t.consume rows))
  | .setPassword tx userID newHash, r, s' => (r = false ∧ Fails s tx s') ∨
      (r = true ∧ ∃ t, s.Live tx t ∧
        s' = s.put tx { t with passwords := (userID, newHash) :: t.passwords })
  | .terminate tx _, r, s' => (r = false ∧ Fails s tx s') ∨ (r = true ∧ s' = s)
  | .audit tx _ _, r, s' => (r = false ∧ Fails s tx s') ∨ (r = true ∧ s' = s)
  | .purge tx, r, s' => (r = none ∧ Fails s tx s') ∨
      (∃ now, Selects s tx (fun row => row.expiresAt < now) fun t rows =>
        r = some rows.length ∧ s' = s.put tx (t.delete rows))
  | .commit tx, r, s' => (r.happened = true ∧ ∃ t, s.Live tx t ∧ s' = s.commit tx t) ∨
      (r.happened = false ∧ s' = s.close tx)
  | .rollback tx, _, s' => s' = s.close tx

/-- A transaction loses its connection. -/
inductive Change
  | lost (tx : ℕ)

def Changes (s : Store) (e : Change) (s' : Store) : Prop := match e with
  | .lost tx => s' = s.close tx

abbrev Ev := Event Op Res Req Answer Change

abbrev World := Pool Op Res Answer Store

abbrev Moving (depth : ℕ) : World → Ev → World → Prop := Step (handle depth) Exec Changes

abbrev RecoveryRun (depth : ℕ) (passwords : String → Option String) (es : List Ev) (w : World) :
    Prop :=
  Run (Moving depth) (Pool.start { passwords }) es w

/-- At most one request of an account is live. -/
def OneLive (rows : List Row) : Prop :=
  ∀ r ∈ rows, ∀ r' ∈ rows, r.Live → r'.Live → r.userID = r'.userID → r = r'

/-- The row was inserted by a request for a reset, and without a waiver it takes effect after the
delay. -/
def Created (es : List Ev) (r : Row) : Prop :=
  ∃ j tx now, .ran j .now now ∈ es ∧ .ran j (.insert tx r.toDraft) (some r.id) ∈ es ∧
    (r.waivedBy = none → micros now + micros recoveryDelay ≤ r.effectiveAt)

/-- The reset of a post comes to pass, by the request with this identifier. -/
def ResetAt (es : List Ev) (e : Ev) (k id : ℕ) : Prop :=
  ∃ tx r, e = .ran k (.commit tx) r ∧ r.happened = true ∧ .ran k (.consume tx id) (some true) ∈ es

/-- A cancellation of the request comes to pass, or a request that supersedes it. -/
def EndsAt (es : List Ev) (s : Store) (e : Ev) (id : ℕ) : Prop :=
  ∃ j tx r, e = .ran j (.commit tx) r ∧ r.happened = true ∧ ∃ row ∈ s.rows, row.id = id ∧
    (.began j (.cancel (some row.cancelHash)) ∈ es ∨
      ∃ q, .began j (.recover q) ∈ es ∧ q.userID = row.userID)

def Made (es : List Ev) (s : Store) (k id : ℕ) : Prop :=
  ∃ row ∈ s.rows, row.id = id ∧ row.Live ∧
    (∃ password, .began k (.reset (some row.tokenHash) password) ∈ es) ∧
    ∃ now, .ran k .now now ∈ es ∧ row.effectiveAt * 1000 ≤ now ∧ now ≤ row.expiresAt * 1000

/-- What holds when a run has come to a state, and of the step that it takes from there. -/
structure Honoured (depth : ℕ) (es : List Ev) (w : World) : Prop where
  one_live : OneLive w.state.rows
  delayed : ∀ r ∈ w.state.rows, Created es r
  changed : ∀ e w', Moving depth w e w' → w'.state.passwords ≠ w.state.passwords →
    ∃ k id, ResetAt es e k id
  made : ∀ e w' k id, Moving depth w e w' → ResetAt es e k id → Made es w.state k id
  once : ∀ e w' id, Moving depth w e w' → (∃ j, ResetAt es e j id) ∨ EndsAt es w.state e id →
    ∀ ys u, Run (Moving depth) w' ys u → ∀ e' u' k, Moving depth u e' u' →
      ¬ ResetAt (es ++ e :: ys) e' k id

section

variable {q : Req} {xs : Trace Op Res} {tx : ℕ}

abbrev Entry := (o : Op) × Res o

/-- What a handler knows when it comes to a statement. -/
def Before (q : Req) (xs : Trace Op Res) : Op → Prop
  | .insert tx draft => (⟨.begin, some tx⟩ : Entry) ∈ xs ∧
      ∃ n now, q = .recover n ∧ (⟨.now, now⟩ : Entry) ∈ xs ∧ draft = n.draft now
  | .lookup tx _ => (⟨.begin, some tx⟩ : Entry) ∈ xs
  | .cancel tx _ => (⟨.begin, some tx⟩ : Entry) ∈ xs
  | .consume tx id => (⟨.begin, some tx⟩ : Entry) ∈ xs ∧ ∃ tokenHash password now r,
      q = .reset (some tokenHash) password ∧ (⟨.now, now⟩ : Entry) ∈ xs ∧
      (⟨.lookup tx tokenHash, some (some r)⟩ : Entry) ∈ xs ∧ r.id = id ∧ r.judge now = .found r
  | .setPassword tx _ _ => (⟨.begin, some tx⟩ : Entry) ∈ xs ∧
      ∃ id, (⟨.consume tx id, some true⟩ : Entry) ∈ xs
  | .commit tx => (⟨.begin, some tx⟩ : Entry) ∈ xs ∧
      (∀ n, q = .recover n → ∃ now id, (⟨.insert tx (n.draft now), some id⟩ : Entry) ∈ xs) ∧
      ∀ cancelHash, q = .cancel (some cancelHash) →
        ∃ userID, (⟨.cancel tx cancelHash, some (some userID)⟩ : Entry) ∈ xs
  | _ => True

abbrev Leads (q : Req) (xs : Trace Op Res) (p : Handler Answer) : Prop :=
  Holds (fun _ _ => True) (Before q) (fun _ _ => True) xs p

theorem refuse_leads {a : Answer} : Leads q xs (refuse tx a) :=
  holds_call.2 ⟨trivial, fun _ _ => trivial⟩

theorem judge_found {r r' : Row} {now : ℤ} (h : r.judge now = .found r') :
    r' = r ∧ r.Live ∧ r.effectiveAt * 1000 ≤ now ∧ now ≤ r.expiresAt * 1000 := by
  unfold Row.judge at h
  split_ifs at h with hover hearly
  obtain ⟨hlive, hexpires⟩ := not_or.1 hover
  exact ⟨(Lookup.found.inj h).symm, not_not.1 hlive, not_lt.1 hearly, not_lt.1 hexpires⟩

theorem createRecoveryRequest_holds {n : NewRequest} {now : ℤ} (hq : q = .recover n)
    (htx : (⟨.begin, some tx⟩ : Entry) ∈ xs) (hnow : (⟨.now, now⟩ : Entry) ∈ xs) :
    Holds (fun _ _ => True) (Before q) (fun ys r => (⟨.begin, some tx⟩ : Entry) ∈ ys ∧
      ∀ id, r = some id → (⟨.insert tx (n.draft now), some id⟩ : Entry) ∈ ys) xs
      (createRecoveryRequest tx n now) := by
  refine holds_call.2 ⟨trivial, fun r _ => ?_⟩
  cases r with
  | false => exact ⟨mem_append_left _ htx, fun id h => nomatch h⟩
  | true =>
    refine ⟨⟨mem_append_left _ htx, n, now, hq, mem_append_left _ hnow, rfl⟩,
      fun r _ => ⟨by simp [htx], fun id hid => ?_⟩⟩
    subst hid
    simp

theorem beginRecovery_leads (n : NewRequest) : Leads (.recover n) [] (beginRecovery n) := by
  refine holds_call.2 ⟨trivial, fun r _ => ?_⟩
  cases r with
  | none => trivial
  | some tx =>
    refine holds_call.2 ⟨trivial, fun now _ => ?_⟩
    refine holds_bind.2 ((createRecoveryRequest_holds rfl (by simp) (by simp)).mono
      fun ys r hr => ?_)
    cases r with
    | none => exact refuse_leads
    | some id =>
      refine holds_call.2 ⟨trivial, fun r _ => ?_⟩
      cases r with
      | false => exact refuse_leads
      | true =>
        refine holds_call.2 ⟨⟨by simp [hr.1], fun m hm => ?_, fun c hc => nomatch hc⟩,
          fun _ _ => refuse_leads⟩
        cases hm
        exact ⟨now, id, mem_append_left _ (hr.2 id rfl)⟩

theorem handleRecoverCancel_leads (c : Option String) :
    Leads (.cancel c) [] (handleRecoverCancel c) := by
  cases c with
  | none => trivial
  | some cancelHash =>
    refine holds_call.2 ⟨trivial, fun r _ => ?_⟩
    cases r with
    | none => trivial
    | some tx =>
      refine holds_call.2 ⟨by simp [Before], fun r _ => ?_⟩
      match r with
      | none => exact refuse_leads
      | some none => exact refuse_leads
      | some (some userID) =>
        refine holds_call.2 ⟨trivial, fun _ _ => ?_⟩
        refine holds_call.2 ⟨⟨by simp, fun m hm => (nomatch hm), fun c hc => ?_⟩,
          fun _ _ => refuse_leads⟩
        cases hc
        exact ⟨userID, by simp⟩

theorem lookupRecovery_holds {tokenHash : String} {now : ℤ}
    (htx : (⟨.begin, some tx⟩ : Entry) ∈ xs) : Holds (fun _ _ => True) (Before q)
      (fun ys l => xs ⊆ ys ∧ ∀ r, l = .found r → r.judge now = .found r ∧
        (⟨.lookup tx tokenHash, some (some r)⟩ : Entry) ∈ ys) xs
      (lookupRecovery tx tokenHash now) := by
  refine holds_call.2 ⟨htx, fun r _ => ?_⟩
  match r with
  | none => exact ⟨subset_append_left _ _, fun _ h => nomatch h⟩
  | some none => exact ⟨subset_append_left _ _, fun _ h => nomatch h⟩
  | some (some row) =>
    refine ⟨subset_append_left _ _, fun r hfound => ?_⟩
    obtain ⟨rfl, -⟩ := judge_found hfound
    exact ⟨hfound, mem_append_right _ (mem_singleton_self _)⟩

theorem handleResetGet_leads (token : Option String) :
    Leads (.look token) [] (handleResetGet token) := by
  cases token with
  | none => trivial
  | some tokenHash =>
    refine holds_call.2 ⟨trivial, fun r _ => ?_⟩
    cases r with
    | none => trivial
    | some tx =>
      refine holds_call.2 ⟨trivial, fun now _ => ?_⟩
      refine holds_bind.2 ((lookupRecovery_holds (by simp)).mono fun ys l _ => ?_)
      cases l with
      | failed | notFound | pending | found => exact refuse_leads

/-- What a post has found out when it goes on with a request. -/
structure Found (q : Req) (tx : ℕ) (r : Row) (xs : Trace Op Res) : Prop where
  begun : (⟨.begin, some tx⟩ : Entry) ∈ xs
  looked : ∃ tokenHash password now, q = .reset (some tokenHash) password ∧
    (⟨.now, now⟩ : Entry) ∈ xs ∧ (⟨.lookup tx tokenHash, some (some r)⟩ : Entry) ∈ xs ∧
    r.judge now = .found r

theorem Found.mono {r : Row} {ys : Trace Op Res} (h : Found q tx r xs) (hsub : xs ⊆ ys) :
    Found q tx r ys := by
  obtain ⟨tokenHash, password, now, hq, hnow, hlookup, hfound⟩ := h.looked
  exact ⟨hsub h.begun, tokenHash, password, now, hq, hsub hnow, hsub hlookup, hfound⟩

theorem Found.snoc {r : Row} {x : Entry} (h : Found q tx r xs) : Found q tx r (xs ++ [x]) :=
  h.mono (subset_append_left _ _)

theorem consumeRecovery_holds {r : Row} {newHash : String} (h : Found q tx r xs) :
    Holds (fun _ _ => True) (Before q) (fun ys _ => Found q tx r ys) xs
      (consumeRecovery tx r.id r.userID newHash) := by
  obtain ⟨tokenHash, password, now, hq, hnow, hlookup, hfound⟩ := h.looked
  refine holds_call.2 ⟨⟨h.begun, tokenHash, password, now, r, hq, hnow, hlookup, rfl, hfound⟩,
    fun res _ => ?_⟩
  match res with
  | none => exact h.snoc
  | some false => exact h.snoc
  | some true =>
    refine holds_call.2 ⟨⟨mem_append_left _ h.begun, r.id, by simp⟩, fun res _ => ?_⟩
    cases res with
    | false => exact h.snoc.snoc
    | true => exact ⟨trivial, fun _ _ => h.snoc.snoc.snoc⟩

theorem finishReset_leads {r : Row} {newHash : String} (h : Found q tx r xs) :
    Leads q xs (finishReset tx r newHash) := by
  refine holds_bind.2 ((consumeRecovery_holds h).mono fun ys res hys => ?_)
  cases res with
  | false => exact refuse_leads
  | true =>
    refine holds_call.2 ⟨trivial, fun res _ => ?_⟩
    cases res with
    | false => exact refuse_leads
    | true =>
      obtain ⟨tokenHash, password, now, rfl, -⟩ := hys.looked
      refine holds_call.2 ⟨⟨mem_append_left _ hys.begun, fun m hm => (nomatch hm),
        fun c hc => nomatch hc⟩, fun res _ => ?_⟩
      cases res with
      | confirmed => trivial
      | refused | lost => exact refuse_leads

theorem retirePassword_holds {depth : ℕ} {r : Row} (h : Found q tx r xs) :
    Holds (fun _ _ => True) (Before q) (fun ys _ => Found q tx r ys) xs
      (retirePassword depth tx r) := by
  unfold retirePassword
  split
  · exact ⟨trivial, fun _ _ => h.snoc⟩
  · exact h

theorem resetWith_leads {depth : ℕ} {r : Row} {password : String} (h : Found q tx r xs) :
    Leads q xs (resetWith depth tx r password) := by
  refine holds_call.2 ⟨trivial, fun plan _ => ?_⟩
  cases plan with
  | unsupported | denied | unchanging => exact refuse_leads
  | changing =>
    refine holds_call.2 ⟨trivial, fun previous _ => ?_⟩
    refine holds_call.2 ⟨trivial, fun identity _ => ?_⟩
    refine holds_call.2 ⟨trivial, fun res _ => ?_⟩
    cases res with
    | some err => exact refuse_leads
    | none =>
      refine holds_bind.2 ((retirePassword_holds (h.mono fun x hx => by simp [hx])).mono
        fun ys _ hys => ?_)
      refine holds_call.2 ⟨trivial, fun res _ => ?_⟩
      cases res with
      | none => exact refuse_leads
      | some newHash => exact finishReset_leads hys.snoc

theorem handleResetPost_leads {depth : ℕ} (token : Option String) (password : String) :
    Leads (.reset token password) [] (handleResetPost depth password token) := by
  cases token with
  | none => trivial
  | some tokenHash =>
    refine holds_call.2 ⟨trivial, fun r _ => ?_⟩
    cases r with
    | none => trivial
    | some tx =>
      refine holds_call.2 ⟨trivial, fun now _ => ?_⟩
      refine holds_bind.2 ((lookupRecovery_holds (by simp)).mono fun ys l hl => ?_)
      obtain ⟨hsub, hfound⟩ := hl
      cases l with
      | failed | notFound | pending => exact refuse_leads
      | found r =>
        obtain ⟨hjudge, hlookup⟩ := hfound r rfl
        exact resetWith_leads ⟨hsub (by simp), tokenHash, password, now, rfl,
          hsub (by simp), hlookup, hjudge⟩

theorem purgeExpiredRecoveries_leads : Leads .purge [] purgeExpiredRecoveries := by
  refine holds_call.2 ⟨trivial, fun r _ => ?_⟩
  cases r with
  | none => trivial
  | some tx =>
    refine holds_call.2 ⟨trivial, fun r _ => ?_⟩
    cases r with
    | none => exact refuse_leads
    | some n =>
      refine holds_call.2 ⟨⟨by simp, fun m hm => (nomatch hm), fun c hc => nomatch hc⟩,
        fun r _ => ?_⟩
      cases r with
      | confirmed => trivial
      | refused | lost => exact refuse_leads

theorem handle_leads (depth : ℕ) (q : Req) : Leads q [] (handle depth q) := by
  cases q with
  | recover n => exact beginRecovery_leads n
  | cancel c => exact handleRecoverCancel_leads c
  | look token => exact handleResetGet_leads token
  | reset token password => exact handleResetPost_leads token password
  | purge => exact purgeExpiredRecoveries_leads

end

end Signari.AccountRecovery
