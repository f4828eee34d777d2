import Mathlib.Data.List.Nodup
import Signari.GoStrings
import Signari.RowLocks

/-!
# Removing passkeys

`handlePasskeyDelete` of `internal/httpapi/passkey.go` with `DeleteCredential` of
`internal/store/webauthn.go`, as transactions that run at once. The row of the passkey is selected
`FOR UPDATE`; then the passkeys and the passwords of the account are counted, and the last way in is
not deleted. Each statement reads what is committed when it executes, and what its transaction has
deleted itself.

The lock is on the passkey that is deleted and on no other, so the count may be out of date when
the transaction commits. An account without a password keeps a passkey exactly if the deletions
that overtake one leave two of the passkeys it has counted: `key_remains_iff_spared`.
-/
namespace Signari.PasskeyRemoval
open GoStrings LabelledRuns StatementPrograms RowLocks
open Prog

/-- A row of `webauthn_credentials`. -/
structure Key where
  id : String
  userID : String
  friendlyName : String := ""
  rpID : String := ""
  deriving DecidableEq

inductive Op
  | begin
  | describe (tx : ℕ) (id userID : String)
  | lockKey (tx : ℕ) (id userID : String)
  | count (tx : ℕ) (userID : String)
  | delete (tx : ℕ) (id userID : String)
  | audit (tx : ℕ) (userID name rpID : String)
  | commit (tx : ℕ)
  | rollback (tx : ℕ)

/-- The response to a statement; none, or false, is an error. -/
@[reducible] def Res : Op → Type
  | .begin => Option ℕ
  | .describe .. => Option (Option (String × String))
  | .lockKey .. => Option Bool
  | .count .. => Option (ℕ × ℕ)
  | .delete .. => Bool
  | .audit .. => Bool
  | .commit _ => Commit
  | .rollback _ => Unit

inductive Answer where
  | invalidRequest (detail : String)
  | unavailable
  | wouldLockOut
  | notFound
  | removed (id : String)

abbrev Handler (α : Type) := Prog Op Res α

abbrev query (o : Op) : Handler (Res o) := call o

/-- An error after which the transaction is given up. -/
def refuse (tx : ℕ) (a : Answer) : Handler Answer := do
  let _ ← query (.rollback tx)
  pure a

/-- How `DeleteCredential` ends. -/
inductive Deleted where
  | deleted | credentialNotFound | wouldLockOut | failed

def deleteCredential (tx : ℕ) (userID id : String) : Handler Deleted := do
  match ← query (.lockKey tx id userID) with
  | none => pure .failed
  | some false => pure .credentialNotFound
  | some true =>
    match ← query (.count tx userID) with
    | none => pure .failed
    | some (total, withPassword) =>
      if total ≤ 1 ∧ withPassword = 0 then pure .wouldLockOut
      else match ← query (.delete tx id userID) with
        | false => pure .failed
        | true => pure .deleted

def finishDelete (tx : ℕ) (userID id : String) (described : String × String) : Handler Answer := do
  match ← query (.audit tx userID described.1 described.2) with
  | false => refuse tx .unavailable
  | true =>
    match ← query (.commit tx) with
    | .confirmed => pure (.removed id)
    | _ => refuse tx .unavailable

/-- The name is read for the notice alone, and an error there is not looked at. -/
def removeKey (userID id : String) : Handler Answer := do
  match ← query .begin with
  | none => pure .unavailable
  | some tx =>
    let described ← query (.describe tx id userID)
    match ← deleteCredential tx userID id with
    | .wouldLockOut => refuse tx .wouldLockOut
    | .credentialNotFound => refuse tx .notFound
    | .failed => refuse tx .unavailable
    | .deleted => finishDelete tx userID id ((described.getD none).getD ("", ""))

/-- A request of the account's own session, with the form field `id`. -/
def handlePasskeyDelete (userID field : String) : Handler Answer :=
  if trimSpace field = "" then pure (.invalidRequest "id is required")
  else removeKey userID (trimSpace field)

section

/-- The rows of the table; the identifier is its primary key. -/
structure Keys where
  rows : List Key
  unique : (rows.map Key.id).Nodup

def Keys.remove (ks : Keys) (gone : List Key) : Keys where
  rows := ks.rows.filter fun k => decide (k ∉ gone)
  unique := (List.filter_sublist.map _).nodup ks.unique

/-- How many passkeys an account has. -/
def Keys.held (ks : Keys) (userID : String) : ℕ :=
  ks.rows.countP fun k => decide (k.userID = userID)

/-- What a transaction holds locked, what it has deleted, and whether a statement of it has
failed. -/
structure Txn where
  locked : List Key := []
  deleted : List Key := []
  aborted : Bool := false

def Txn.holds (t : Txn) (key : Key) : Prop := t.aborted = false ∧ key ∈ t.locked

/-- `passwords` are the owners of the rows of `password_credentials`. -/
structure Store where
  keys : Keys
  passwords : List String := []
  sessions : Sessions Txn := {}

def Store.put (s : Store) (tx : ℕ) (t : Txn) : Store := { s with sessions := s.sessions.put tx t }

def Store.close (s : Store) (tx : ℕ) : Store := { s with sessions := s.sessions.close tx }

def Store.commit (s : Store) (tx : ℕ) (t : Txn) : Store :=
  { s.close tx with keys := s.keys.remove t.deleted }

/-- A statement that reports an error may have aborted its transaction. -/
def Fails (s : Store) (tx : ℕ) (s' : Store) : Prop :=
  s' = s ∨ ∃ t, s.sessions.txs tx = some t ∧ s' = s.put tx { t with aborted := true }

/-- The transaction is open, and no statement of it has failed. -/
def Store.Live (s : Store) (tx : ℕ) (t : Txn) : Prop :=
  s.sessions.txs tx = some t ∧ t.aborted = false

/-- The row that the conditions of a statement single out, which no other transaction has locked. -/
def Store.Selects (s : Store) (tx : ℕ) (id userID : String) (key : Key) : Prop :=
  key ∈ s.keys.rows ∧ key.id = id ∧ key.userID = userID ∧ s.sessions.Free Txn.holds tx key

def Store.SelectsNone (s : Store) (id userID : String) : Prop :=
  ∀ key ∈ s.keys.rows, ¬ (key.id = id ∧ key.userID = userID)

def Exec (s : Store) : (o : Op) → Res o → Store → Prop
  | .begin, r, s' => (r = none ∧ s' = s) ∨
      (r = some s.sessions.next ∧ s' = { s with sessions := s.sessions.start {} })
  | .describe tx id userID, r, s' => (r = none ∧ Fails s tx s') ∨
      (s' = s ∧ r = some ((s.keys.rows.find? fun k => decide (k.id = id ∧ k.userID = userID)).map
        fun k => (k.friendlyName, k.rpID)))
  | .lockKey tx id userID, r, s' => (r = none ∧ Fails s tx s') ∨
      (r = some false ∧ (∃ t, s.Live tx t) ∧ s.SelectsNone id userID ∧ s' = s) ∨
      (r = some true ∧ ∃ t key, s.Live tx t ∧ s.Selects tx id userID key ∧
        s' = s.put tx { t with locked := key :: t.locked })
  | .count tx userID, r, s' => (r = none ∧ Fails s tx s') ∨
      (s' = s ∧ ∃ t, s.Live tx t ∧
        r = some ((s.keys.remove t.deleted).held userID, s.passwords.count userID))
  | .delete tx id userID, r, s' => (r = false ∧ Fails s tx s') ∨
      (r = true ∧ (∃ t, s.Live tx t) ∧ s.SelectsNone id userID ∧ s' = s) ∨
      (r = true ∧ ∃ t key, s.Live tx t ∧ s.Selects tx id userID key ∧
        s' = s.put tx { t with locked := key :: t.locked, deleted := key :: t.deleted })
  | .audit tx _ _ _, r, s' => (r = false ∧ Fails s tx s') ∨ (r = true ∧ s' = s)
  | .commit tx, r, s' => (r.happened = true ∧ ∃ t, s.Live tx t ∧ s' = s.commit tx t) ∨
      (r.happened = false ∧ s' = s.close tx)
  | .rollback tx, _, s' => s' = s.close tx

/-- A transaction loses its connection. -/
inductive Change
  | lost (tx : ℕ)

def Changes (s : Store) (e : Change) (s' : Store) : Prop := match e with
  | .lost tx => s' = s.close tx

abbrev Ev := Event Op Res String Answer Change

abbrev World := Pool Op Res Answer Store

abbrev DeletionRun (userID : String) (keys : Keys) (passwords : List String) (es : List Ev)
    (w : World) : Prop :=
  Run (Step (handlePasskeyDelete userID) Exec Changes)
    (Pool.start { keys := keys, passwords := passwords }) es w

/-- Whether a deletion comes to pass at this event. -/
def commits : Ev → Bool
  | .ran _ (.commit _) r => r.happened
  | _ => false

variable (userID : String) (keys : Keys) (passwords : List String) (es : List Ev)

def KeyRemains (w : World) : Prop := ∃ key ∈ w.state.keys.rows, key.userID = userID

/-- The deletions that come to pass between the count of another and its own commit leave two of
the passkeys that there were at the count. -/
def Spared : Prop := ∀ k tx xs ys zs counted r v,
  es = xs ++ .ran k (.count tx userID) counted :: (ys ++ .ran k (.commit tx) r :: zs) →
    r.happened = true → DeletionRun userID keys passwords xs v → 0 < ys.countP commits →
    ys.countP commits + 2 ≤ v.state.keys.held userID

end

section

variable {userID : String} {expect : (o : Op) → Res o → Prop} {xs : Trace Op Res}

abbrev Entry := (o : Op) × Res o

def Before (userID : String) (xs : Trace Op Res) : Op → Prop
  | .lockKey tx _ _ => (⟨.begin, some tx⟩ : Entry) ∈ xs
  | .delete tx id u => u = userID ∧ (⟨.begin, some tx⟩ : Entry) ∈ xs ∧
      (⟨.lockKey tx id userID, some true⟩ : Entry) ∈ xs
  | .commit tx => (⟨.begin, some tx⟩ : Entry) ∈ xs ∧
      (∃ total pw, (⟨.count tx userID, some (total, pw)⟩ : Entry) ∈ xs ∧ ¬ (total ≤ 1 ∧ pw = 0)) ∧
      ∃ id, (⟨.delete tx id userID, true⟩ : Entry) ∈ xs ∧
        ∀ tx' id' u r, (⟨.delete tx' id' u, r⟩ : Entry) ∈ xs → id' = id
  | _ => True

theorem refuse_holds {tx : ℕ} {a : Answer} :
    Holds expect (Before userID) (fun _ _ => True) xs (refuse tx a) :=
  holds_call.2 ⟨trivial, fun _ _ => trivial⟩

def Counted (userID : String) (tx : ℕ) (id : String) (xs ys : Trace Op Res) : Prop :=
  ∃ counted : ℕ × ℕ, ¬ (counted.1 ≤ 1 ∧ counted.2 = 0) ∧
    ys = xs ++ [⟨.lockKey tx id userID, some true⟩, ⟨.count tx userID, some counted⟩,
      ⟨.delete tx id userID, true⟩]

theorem deleteCredential_holds {tx : ℕ} {id : String}
    (htx : (⟨.begin, some tx⟩ : Entry) ∈ xs) : Holds expect (Before userID)
      (fun ys r => r = .deleted → Counted userID tx id xs ys) xs (deleteCredential tx userID id) := by
  unfold deleteCredential
  refine holds_call.2 ⟨htx, fun r _ => ?_⟩
  rcases r with _ | _ | _
  · exact fun h => nomatch h
  · exact fun h => nomatch h
  refine holds_call.2 ⟨trivial, fun r _ => ?_⟩
  rcases r with _ | ⟨total, withPassword⟩
  · exact fun h => nomatch h
  dsimp only
  split
  · exact fun h => nomatch h
  rename_i henough
  refine holds_call.2 ⟨⟨rfl, by simp [htx], by simp⟩, fun r _ => ?_⟩
  cases r with
  | false => exact fun h => nomatch h
  | true => exact fun _ => ⟨(total, withPassword), henough, by simp⟩

theorem removeKey_holds {id : String} :
    Holds expect (Before userID) (fun _ _ => True) [] (removeKey userID id) := by
  unfold removeKey
  refine holds_call.2 ⟨trivial, fun r _ => ?_⟩
  rcases r with _ | tx
  · trivial
  refine holds_call.2 ⟨trivial, fun described _ => ?_⟩
  refine holds_bind.2 ((deleteCredential_holds (by simp)).mono fun ys r hr => ?_)
  cases r with
  | wouldLockOut | credentialNotFound | failed => exact refuse_holds
  | deleted =>
    obtain ⟨counted, henough, rfl⟩ := hr rfl
    unfold finishDelete
    refine holds_call.2 ⟨trivial, fun r _ => ?_⟩
    cases r with
    | false => exact refuse_holds
    | true =>
      refine holds_call.2 ⟨⟨by simp, ?_, id, by simp, by simp +contextual⟩, fun r _ => ?_⟩
      · exact ⟨counted.1, counted.2, by simp, henough⟩
      · cases r with
        | confirmed => trivial
        | refused | lost => exact refuse_holds

theorem handlePasskeyDelete_holds {field : String} : Holds expect (Before userID)
    (fun _ _ => True) [] (handlePasskeyDelete userID field) := by
  unfold handlePasskeyDelete
  split
  · trivial
  · exact removeKey_holds

end

section

variable {s s' : Store} {tx : ℕ} {t t' : Txn} {o : Op} {e : Change}

/-- What a statement, or a change from elsewhere, does to the store. -/
inductive Moves (s : Store) : Option Op → Store → Prop
  | same {o : Option Op} : Moves s o s
  | opened : Moves s (some .begin) { s with sessions := s.sessions.start {} }
  | aborted {o : Option Op} (tx : ℕ) (t : Txn) : s.sessions.txs tx = some t →
      Moves s o (s.put tx { t with aborted := true })
  | locked (tx : ℕ) (t : Txn) (key : Key) : s.Live tx t →
      s.Selects tx key.id key.userID key →
      Moves s (some (.lockKey tx key.id key.userID)) (s.put tx { t with locked := key :: t.locked })
  | deleted (tx : ℕ) (t : Txn) (key : Key) : s.Live tx t → s.Selects tx key.id key.userID key →
      Moves s (some (.delete tx key.id key.userID))
        (s.put tx { t with locked := key :: t.locked, deleted := key :: t.deleted })
  | closed {o : Option Op} (tx : ℕ) : Moves s o (s.close tx)
  | committed (tx : ℕ) (t : Txn) : s.Live tx t → Moves s (some (.commit tx)) (s.commit tx t)

theorem Fails.moves (h : Fails s tx s') (o : Option Op) : Moves s o s' := by
  rcases h with rfl | ⟨t, ht, rfl⟩
  · exact .same
  · exact .aborted tx t ht

theorem Exec.moves {r : Res o} (h : Exec s o r s') : Moves s (some o) s' := by
  cases o with
  | begin =>
    rcases h with ⟨-, rfl⟩ | ⟨-, rfl⟩
    · exact .same
    · exact .opened
  | describe =>
    rcases h with ⟨-, h⟩ | ⟨rfl, -⟩
    · exact h.moves _
    · exact .same
  | lockKey tx id userID =>
    rcases h with ⟨-, h⟩ | ⟨-, -, -, rfl⟩ | ⟨-, t, key, hlive, hkey, rfl⟩
    · exact h.moves _
    · exact .same
    · have hmoves := Moves.locked tx t key hlive ⟨hkey.1, rfl, rfl, hkey.2.2.2⟩
      rwa [hkey.2.1, hkey.2.2.1] at hmoves
  | count =>
    rcases h with ⟨-, h⟩ | ⟨rfl, -⟩
    · exact h.moves _
    · exact .same
  | delete tx id userID =>
    rcases h with ⟨-, h⟩ | ⟨-, -, -, rfl⟩ | ⟨-, t, key, hlive, hkey, rfl⟩
    · exact h.moves _
    · exact .same
    · have hmoves := Moves.deleted tx t key hlive ⟨hkey.1, rfl, rfl, hkey.2.2.2⟩
      rwa [hkey.2.1, hkey.2.2.1] at hmoves
  | audit =>
    rcases h with ⟨-, h⟩ | ⟨-, rfl⟩
    · exact h.moves _
    · exact .same
  | commit tx =>
    rcases h with ⟨-, t, hlive, rfl⟩ | ⟨-, rfl⟩
    · exact .committed tx t hlive
    · exact .closed tx
  | rollback tx =>
    obtain rfl : s' = s.close tx := h
    exact .closed tx

theorem Changes.moves (h : Changes s e s') : Moves s none s' := by
  cases e with
  | lost tx =>
    obtain rfl : s' = s.close tx := h
    exact .closed tx

/-- What a transaction keeps as long as it is open. -/
structure Grows (t t' : Txn) : Prop where
  locked : t.locked ⊆ t'.locked
  deleted : t.deleted ⊆ t'.deleted
  aborted : t'.aborted = false → t.aborted = false

theorem Moves.retains {o : Option Op} {P : Txn → Prop} (h : Moves s o s')
    (hP : ∀ t t', Grows t t' → P t → P t') (hs : s.sessions.Retains P tx) :
    s'.sessions.Retains P tx := by
  cases h with
  | same => exact hs
  | opened => exact hs.start
  | aborted tx' t ht =>
    refine hs.put fun htx => hP t _ ⟨?_, ?_, ?_⟩ (hs.kept t (htx ▸ ht))
    · exact List.Subset.refl _
    · exact List.Subset.refl _
    · exact fun h => nomatch h
  | locked tx' t key hlive _ =>
    refine hs.put fun htx => hP t _ ⟨?_, ?_, ?_⟩ (hs.kept t (htx ▸ hlive.1))
    · exact List.subset_cons_self _ _
    · exact List.Subset.refl _
    · exact fun h => h
  | deleted tx' t key hlive _ =>
    refine hs.put fun htx => hP t _ ⟨?_, ?_, ?_⟩ (hs.kept t (htx ▸ hlive.1))
    · exact List.subset_cons_self _ _
    · exact List.subset_cons_self _ _
    · exact fun h => h
  | closed => exact hs.close
  | committed => exact hs.close

/-- What is locked is in the table, and nobody else has locked it. What is deleted is locked. -/
structure Sound (s : Store) : Prop where
  exclusive : s.sessions.Exclusive Txn.holds
  rows : ∀ tx t, s.Live tx t → ∀ key ∈ t.locked, key ∈ s.keys.rows
  deleted : ∀ tx t, s.sessions.txs tx = some t → t.deleted ⊆ t.locked

theorem Sound.put (h : Sound s) (hkeys : ∀ key, t.holds key → key ∈ s.keys.rows ∧
    s.sessions.Free Txn.holds tx key) (hdeleted : t.deleted ⊆ t.locked) : Sound (s.put tx t) := by
  refine ⟨h.exclusive.put fun key hkey => (hkeys key hkey).2, fun tx' t' hlive key hkey => ?_,
    fun tx' t' ht' => ?_⟩
  · rcases Sessions.txs_put hlive.1 with ⟨rfl, rfl⟩ | ⟨-, ht'⟩
    · exact (hkeys key ⟨hlive.2, hkey⟩).1
    · exact h.rows tx' t' ⟨ht', hlive.2⟩ key hkey
  · rcases Sessions.txs_put ht' with ⟨rfl, rfl⟩ | ⟨-, ht'⟩
    · exact hdeleted
    · exact h.deleted tx' t' ht'

/-- A transaction comes to hold one more row. -/
theorem Sound.selected (h : Sound s) {key : Key} (hlive : s.Live tx t)
    (hkey : s.Selects tx key.id key.userID key) (hlocked : t'.locked = key :: t.locked)
    (hdeleted : t'.deleted ⊆ t'.locked) : Sound (s.put tx t') := by
  refine h.put (fun key' hkey' => ?_) hdeleted
  have hmem : key' ∈ t'.locked := hkey'.2
  rw [hlocked] at hmem
  rcases List.mem_cons.1 hmem with rfl | hmem
  · exact ⟨hkey.1, hkey.2.2.2⟩
  · exact ⟨h.rows tx t hlive key' hmem, h.exclusive.free hlive.1 ⟨hlive.2, hmem⟩⟩

theorem Sound.close (h : Sound s) : Sound (s.close tx) where
  exclusive := h.exclusive.close
  rows tx' t' hlive := h.rows tx' t' ⟨(Sessions.txs_close hlive.1).2, hlive.2⟩
  deleted tx' t' ht' := h.deleted tx' t' (Sessions.txs_close ht').2

theorem Sound.moves {o : Option Op} (h : Sound s) (hmoves : Moves s o s') : Sound s' := by
  cases hmoves with
  | same => exact h
  | opened =>
    refine ⟨h.exclusive.start fun key hkey => absurd hkey.2 List.not_mem_nil,
      fun tx t hlive key hkey => ?_, fun tx t ht => ?_⟩
    · rcases Sessions.txs_start hlive.1 with ⟨-, rfl⟩ | ⟨-, ht⟩
      · exact absurd hkey List.not_mem_nil
      · exact h.rows tx t ⟨ht, hlive.2⟩ key hkey
    · rcases Sessions.txs_start ht with ⟨-, rfl⟩ | ⟨-, ht⟩
      · exact List.nil_subset _
      · exact h.deleted tx t ht
  | aborted tx t ht => exact h.put (fun key hkey => nomatch hkey.1) (h.deleted tx t ht)
  | locked tx t key hlive hkey =>
    exact h.selected hlive hkey rfl (List.subset_cons_of_subset _ (h.deleted tx t hlive.1))
  | deleted tx t key hlive hkey =>
    exact h.selected hlive hkey rfl (List.cons_subset_cons _ (h.deleted tx t hlive.1))
  | closed => exact h.close
  | committed tx t hlive =>
    refine ⟨h.exclusive.close, fun tx' t' hlive' key hkey => ?_, h.close.deleted⟩
    obtain ⟨hne, ht'⟩ := Sessions.txs_close hlive'.1
    have hrow := h.rows tx' t' ⟨ht', hlive'.2⟩ key hkey
    refine List.mem_filter.2 ⟨hrow, decide_eq_true fun hgone => hne ?_⟩
    exact h.exclusive tx' tx t' t key ht' hlive.1 ⟨hlive'.2, hkey⟩
      ⟨hlive.2, h.deleted tx t hlive.1 hgone⟩

end

section

variable {userID : String} {s₀ s s' : Store} {tx : ℕ} {t : Txn} {h es : List Ev} {w : World}
  {table : Keys} {owners : List String}

/-- The number that a statement opens a transaction with. -/
def opens : (o : Op) → Res o → Option ℕ
  | .begin, r => r
  | _, _ => none

def HasLocked (id userID : String) (t : Txn) : Prop :=
  t.aborted = false → ∃ key ∈ t.locked, key.id = id ∧ key.userID = userID

def HasDeleted (id userID : String) (t : Txn) : Prop :=
  t.aborted = false → ∃ key ∈ t.deleted, key.id = id ∧ key.userID = userID

theorem HasLocked.grows {id u : String} {t t' : Txn} (hgrows : Grows t t') (ht : HasLocked id u t) :
    HasLocked id u t' := fun hlive =>
  let ⟨key, hkey, heq⟩ := ht (hgrows.aborted hlive)
  ⟨key, hgrows.locked hkey, heq⟩

theorem HasDeleted.grows {id u : String} {t t' : Txn} (hgrows : Grows t t')
    (ht : HasDeleted id u t) : HasDeleted id u t' := fun hlive =>
  let ⟨key, hkey, heq⟩ := ht (hgrows.aborted hlive)
  ⟨key, hgrows.deleted hkey, heq⟩

/-- Every deletion that has come to pass has taken one passkey of the account. -/
structure Inv (userID : String) (s₀ : Store) (h : List Ev) (s : Store) : Prop where
  sound : Sound s
  numbered : Numbered opens h s.sessions.next
  owned : ∀ j tx id u r, .ran j (.delete tx id u) r ∈ h → .ran j .begin (some tx) ∈ h ∧ u = userID
  locked : ∀ k tx id u, .ran k (.lockKey tx id u) (some true) ∈ h →
    s.sessions.Retains (HasLocked id u) tx
  deleted : ∀ k tx id u, .ran k (.delete tx id u) true ∈ h → s.sessions.Retains (HasDeleted id u) tx
  deletedBy : ∀ tx t key, s.sessions.txs tx = some t → key ∈ t.deleted →
    ∃ j, .ran j (.delete tx key.id key.userID) true ∈ h
  total : s.keys.held userID + h.countP commits = s₀.keys.held userID
  passwords : s.passwords = s₀.passwords

theorem inv_start :
    Inv userID { keys := table, passwords := owners } [] { keys := table, passwords := owners } where
  sound := ⟨Sessions.exclusive_empty, fun _ _ hlive => (nomatch hlive.1), fun _ _ h => nomatch h⟩
  numbered := ⟨fun _ _ _ _ h => absurd h List.not_mem_nil,
    fun _ _ _ _ _ _ _ h => absurd h List.not_mem_nil⟩
  owned _ _ _ _ _ h := absurd h List.not_mem_nil
  locked _ _ _ _ h := absurd h List.not_mem_nil
  deleted _ _ _ _ h := absurd h List.not_mem_nil
  deletedBy _ _ _ h := nomatch h
  total := rfl
  passwords := rfl

theorem Keys.nodup (ks : Keys) : ks.rows.Nodup := ks.unique.of_map _

theorem Keys.eq_of_id (ks : Keys) {key key' : Key} (hkey : key ∈ ks.rows) (hkey' : key' ∈ ks.rows)
    (hid : key.id = key'.id) : key = key' :=
  List.inj_on_of_nodup_map ks.unique hkey hkey' hid

theorem Keys.held_remove {ks : Keys} {gone : List Key} {key : Key} (hkey : key ∈ ks.rows)
    (hgone : key ∈ gone) (honly : ∀ key' ∈ gone, key' = key) (huser : key.userID = userID) :
    (ks.remove gone).held userID + 1 = ks.held userID := by
  have hrows : (ks.remove gone).rows = ks.rows.erase key := by
    rw [ks.nodup.erase_eq_filter]
    refine List.filter_congr fun k _ => ?_
    have hiff : k ∈ gone ↔ k = key := ⟨honly k, fun heq => heq ▸ hgone⟩
    simp [hiff, bne, beq_eq_decide]
  have hperm : ks.rows.Perm (key :: ks.rows.erase key) := List.perm_cons_erase hkey
  unfold Keys.held
  rw [hrows, hperm.countP_eq, List.countP_cons_of_pos]
  exact decide_eq_true huser

theorem Moves.passwords {o : Option Op} (hmoves : Moves s o s') : s'.passwords = s.passwords := by
  cases hmoves <;> rfl

theorem Moves.next {o : Option Op} (hmoves : Moves s o s') :
    s.sessions.next ≤ s'.sessions.next := by
  cases hmoves with
  | opened => exact Nat.le_succ _
  | same | aborted | locked | deleted | closed | committed => exact Nat.le_refl _

theorem Moves.keys {o : Option Op} (hmoves : Moves s o s') (ho : ∀ tx, o ≠ some (.commit tx)) :
    s'.keys = s.keys := by
  cases hmoves with
  | committed tx => exact absurd rfl (ho tx)
  | same | opened | aborted | locked | deleted | closed => rfl

theorem Moves.deletedBy {o : Option Op} (hmoves : Moves s o s') {key : Key}
    (ht : s'.sessions.txs tx = some t) (hkey : key ∈ t.deleted) :
    (∃ t₀, s.sessions.txs tx = some t₀ ∧ key ∈ t₀.deleted) ∨
      o = some (.delete tx key.id key.userID) := by
  cases hmoves with
  | same => exact .inl ⟨t, ht, hkey⟩
  | opened =>
    rcases Sessions.txs_start ht with ⟨-, rfl⟩ | ⟨-, ht⟩
    · exact absurd hkey List.not_mem_nil
    · exact .inl ⟨t, ht, hkey⟩
  | aborted tx₀ t₀ ht₀ =>
    rcases Sessions.txs_put ht with ⟨rfl, rfl⟩ | ⟨-, ht⟩
    · exact .inl ⟨t₀, ht₀, hkey⟩
    · exact .inl ⟨t, ht, hkey⟩
  | locked tx₀ t₀ key₀ hlive =>
    rcases Sessions.txs_put ht with ⟨rfl, rfl⟩ | ⟨-, ht⟩
    · exact .inl ⟨t₀, hlive.1, hkey⟩
    · exact .inl ⟨t, ht, hkey⟩
  | deleted tx₀ t₀ key₀ hlive =>
    rcases Sessions.txs_put ht with ⟨rfl, rfl⟩ | ⟨-, ht⟩
    · rcases List.mem_cons.1 hkey with rfl | hkey
      · exact .inr rfl
      · exact .inl ⟨t₀, hlive.1, hkey⟩
    · exact .inl ⟨t, ht, hkey⟩
  | closed | committed => exact .inl ⟨t, (Sessions.txs_close ht).2, hkey⟩

theorem before_of {k : ℕ} {o : Op} {next : Res o → Handler Answer}
    (hbegun : Begun (handlePasskeyDelete userID) h k (.stmt o next)) :
    Before userID (own k h) o := by
  obtain ⟨field, -, hreach⟩ := hbegun
  have hholds : Holds (fun _ _ => True) (Before userID) (fun _ _ => True) (own k h)
      (.stmt o next) := handlePasskeyDelete_holds.reaches hreach fun _ _ => trivial
  exact hholds.1

theorem Inv.deletes (hinv : Inv userID s₀ h s) {k : ℕ} {next : Commit → Handler Answer}
    (hbegun : Begun (handlePasskeyDelete userID) h k (.stmt (.commit tx) next))
    (hlive : s.Live tx t) : ∃ key ∈ s.keys.rows, key ∈ t.deleted ∧
      (∀ key' ∈ t.deleted, key' = key) ∧ key.userID = userID := by
  obtain ⟨hbegin, -, id, hdelete, honly⟩ := before_of hbegun
  have hrow : ∀ key ∈ t.deleted, key ∈ s.keys.rows := fun key hkey =>
    hinv.sound.rows tx t hlive key (hinv.sound.deleted tx t hlive.1 hkey)
  obtain ⟨key, hkey, hid, huser⟩ :=
    (hinv.deleted k tx id userID (mem_own.1 hdelete)).kept t hlive.1 hlive.2
  refine ⟨key, hrow key hkey, hkey, fun key' hkey' => ?_, huser⟩
  obtain ⟨j, hj⟩ := hinv.deletedBy tx t key' hlive.1 hkey'
  obtain ⟨hbegin', -⟩ := hinv.owned j tx key'.id key'.userID true hj
  obtain rfl := hinv.numbered.once j k _ _ _ _ tx hbegin' (mem_own.1 hbegin) rfl rfl
  have hid' : key'.id = id := honly tx key'.id key'.userID true (mem_own.2 hj)
  exact s.keys.eq_of_id (hrow key' hkey') (hrow key hkey) (hid'.trans hid.symm)

theorem Inv.ran {k : ℕ} {o : Op} {r : Res o} {next : Res o → Handler Answer}
    (hinv : Inv userID s₀ h s) (hbegun : Begun (handlePasskeyDelete userID) h k (.stmt o next))
    (hexec : Exec s o r s') : Inv userID s₀ (h ++ [Event.ran k o r]) s' := by
  have hmoves := hexec.moves
  have hbefore := before_of hbegun
  refine ⟨hinv.sound.moves hmoves, hinv.numbered.snoc hmoves.next fun k' o' r' tx heq htx => ?_,
    fun j tx id u r' hmem => ?_, fun k' tx id u hmem => ?_, fun k' tx id u hmem => ?_,
    fun tx t key ht hkey => ?_, ?_, hmoves.passwords.trans hinv.passwords⟩
  · cases heq
    cases o with
    | begin =>
      rcases hexec with ⟨rfl, -⟩ | ⟨rfl, rfl⟩
      · cases htx
      · cases htx
        exact ⟨rfl, Nat.lt_succ_self _⟩
    | describe | lockKey | count | delete | audit | commit | rollback => cases htx
  · rcases List.mem_append.1 hmem with hmem | hmem
    · exact ⟨List.mem_append_left _ (hinv.owned j tx id u r' hmem).1,
        (hinv.owned j tx id u r' hmem).2⟩
    · cases List.mem_singleton.1 hmem
      exact ⟨List.mem_append_left _ (mem_own.1 hbefore.2.1), hbefore.1⟩
  · rcases List.mem_append.1 hmem with hmem | hmem
    · exact hmoves.retains (fun _ _ => HasLocked.grows) (hinv.locked k' tx id u hmem)
    · cases List.mem_singleton.1 hmem
      have hlt := hinv.numbered.below k _ _ tx (mem_own.1 hbefore) rfl
      rcases hexec with ⟨hr, -⟩ | ⟨hr, -⟩ | ⟨-, t, key, hlive, hkey, rfl⟩
      · cases hr
      · cases hr
      · exact Sessions.retains_put hlt fun _ => ⟨key, List.mem_cons_self, hkey.2.1, hkey.2.2.1⟩
  · rcases List.mem_append.1 hmem with hmem | hmem
    · exact hmoves.retains (fun _ _ => HasDeleted.grows) (hinv.deleted k' tx id u hmem)
    · cases List.mem_singleton.1 hmem
      obtain ⟨rfl, hbegin, hlock⟩ := hbefore
      have hlt := hinv.numbered.below k _ _ tx (mem_own.1 hbegin) rfl
      rcases hexec with ⟨hr, -⟩ | ⟨-, ⟨t, hlive⟩, hnone, rfl⟩ | ⟨-, t, key, hlive, hkey, rfl⟩
      · cases hr
      · obtain ⟨key, hkey, hid, huser⟩ :=
          (hinv.locked k tx id u (mem_own.1 hlock)).kept t hlive.1 hlive.2
        exact absurd ⟨hid, huser⟩ (hnone key (hinv.sound.rows tx t hlive key hkey))
      · exact Sessions.retains_put hlt fun _ => ⟨key, List.mem_cons_self, hkey.2.1, hkey.2.2.1⟩
  · rcases hmoves.deletedBy ht hkey with ⟨t₀, ht₀, hkey₀⟩ | heq
    · obtain ⟨j, hj⟩ := hinv.deletedBy tx t₀ key ht₀ hkey₀
      exact ⟨j, List.mem_append_left _ hj⟩
    · cases heq
      cases r with
      | true => exact ⟨k, List.mem_append_right _ (List.mem_singleton_self _)⟩
      | false =>
        rcases hexec with ⟨-, hfails⟩ | ⟨hr, -⟩ | ⟨hr, -⟩
        · rcases (hfails.moves none).deletedBy ht hkey with ⟨t₀, ht₀, hkey₀⟩ | heq
          · obtain ⟨j, hj⟩ := hinv.deletedBy tx t₀ key ht₀ hkey₀
            exact ⟨j, List.mem_append_left _ hj⟩
          · cases heq
        · cases hr
        · cases hr
  · rw [List.countP_append, ← hinv.total]
    cases o with
    | commit tx =>
      have hone : List.countP commits [.ran k (.commit tx) r] = if r.happened then 1 else 0 :=
        List.countP_singleton
      rw [hone]
      rcases hexec with ⟨hr, t, hlive, rfl⟩ | ⟨hr, rfl⟩
      · obtain ⟨key, hrow, hkey, honly, huser⟩ := hinv.deletes hbegun hlive
        have hheld := Keys.held_remove hrow hkey honly huser
        rw [hr, if_pos rfl]
        change (s.keys.remove t.deleted).held userID + _ = _
        omega
      · rw [hr]
        rfl
    | begin | describe | lockKey | count | delete | audit | rollback =>
      rw [hmoves.keys (fun tx heq => nomatch heq)]
      rfl

theorem Inv.other (hinv : Inv userID s₀ h s) (hmoves : Moves s none s') {e : Ev}
    (he : ∀ k o r, e ≠ .ran k o r) : Inv userID s₀ (h ++ [e]) s' := by
  have hmem : ∀ {k : ℕ} {o : Op} {r : Res o}, .ran k o r ∈ h ++ [e] → .ran k o r ∈ h := by
    intro k o r hran
    rcases List.mem_append.1 hran with hran | hran
    · exact hran
    · exact absurd (List.mem_singleton.1 hran).symm (he k o r)
  refine ⟨hinv.sound.moves hmoves, hinv.numbered.snoc hmoves.next fun k o r tx heq _ =>
      absurd heq (he k o r), fun j tx id u r hran => ?_,
    fun k tx id u hran => hmoves.retains (fun _ _ => HasLocked.grows) (hinv.locked k tx id u (hmem hran)),
    fun k tx id u hran => hmoves.retains (fun _ _ => HasDeleted.grows)
      (hinv.deleted k tx id u (hmem hran)), fun tx t key ht hkey => ?_, ?_,
    hmoves.passwords.trans hinv.passwords⟩
  · obtain ⟨hbegin, huser⟩ := hinv.owned j tx id u r (hmem hran)
    exact ⟨List.mem_append_left _ hbegin, huser⟩
  · rcases hmoves.deletedBy ht hkey with ⟨t₀, ht₀, hkey₀⟩ | heq
    · obtain ⟨j, hj⟩ := hinv.deletedBy tx t₀ key ht₀ hkey₀
      exact ⟨j, List.mem_append_left _ hj⟩
    · cases heq
  · have hnone : commits e = false := by
      cases e with
      | ran k o r => exact absurd rfl (he k o r)
      | began | answered | env => rfl
    rw [List.countP_append, List.countP_singleton, hnone, hmoves.keys (fun _ heq => nomatch heq)]
    exact hinv.total

theorem deletionRun_inv (hrun : DeletionRun userID table owners es w) :
    Inv userID { keys := table, passwords := owners } es w.state := by
  refine Run.tables hrun inv_start (fun hinv => ?_) (fun hinv hbegun hexec => hinv.ran hbegun hexec)
    (fun hinv => ?_) (fun hinv hchange => ?_)
  · exact hinv.other .same fun _ _ _ h => nomatch h
  · exact hinv.other .same fun _ _ _ h => nomatch h
  · exact hinv.other hchange.moves fun _ _ _ h => nomatch h

theorem exists_last {α : Type} {p : α → Bool} {l : List α} (h : 0 < l.countP p) :
    ∃ xs x ys, l = xs ++ x :: ys ∧ p x = true ∧ ys.countP p = 0 := by
  induction l using List.reverseRecOn with
  | nil => cases h
  | append_singleton l a ih =>
    by_cases ha : p a = true
    · exact ⟨l, a, [], rfl, ha, rfl⟩
    · rw [List.countP_append, List.countP_singleton, if_neg ha] at h
      obtain ⟨xs, x, ys, rfl, hx, hys⟩ := ih h
      refine ⟨xs, x, ys ++ [a], by simp, hx, ?_⟩
      rw [List.countP_append, List.countP_singleton, if_neg ha, hys]

theorem keyRemains_iff : KeyRemains userID w ↔ 0 < w.state.keys.held userID := by
  unfold KeyRemains Keys.held
  rw [List.countP_pos_iff]
  simp only [decide_eq_true_eq]

theorem two_held {k : ℕ} {total pw : ℕ} {v v' : World} (hinv : Inv userID s₀ h v.state)
    (hpw : userID ∉ s₀.passwords) (henough : ¬ (total ≤ 1 ∧ pw = 0))
    (hstep : Step (handlePasskeyDelete userID) Exec Changes v
      (.ran k (.count tx userID) (some (total, pw))) v') : 2 ≤ v.state.keys.held userID := by
  cases hstep with
  | ran _ hexec =>
    rcases hexec with ⟨hr, -⟩ | ⟨-, t, -, hr⟩
    · cases hr
    obtain ⟨rfl, rfl⟩ := Prod.mk.inj (Option.some.inj hr)
    have hzero : v.state.passwords.count userID = 0 := by
      rw [hinv.passwords]
      exact List.count_eq_zero.2 hpw
    have hle : (v.state.keys.remove t.deleted).held userID ≤ v.state.keys.held userID :=
      List.filter_sublist.countP_le
    omega

/-- An account without a password that has a passkey keeps one exactly if the deletions that
overtake another, between its count and its commit, leave two of the passkeys that were there. -/
theorem key_remains_iff_spared (hrun : DeletionRun userID table owners es w)
    (hpw : userID ∉ owners) (hkey : ∃ key ∈ table.rows, key.userID = userID) :
    KeyRemains userID w ↔ Spared userID table owners es := by
  have hinv := deletionRun_inv hrun
  have htotal := hinv.total
  have hpos : 0 < table.held userID := by
    obtain ⟨key, hmem, huser⟩ := hkey
    exact List.countP_pos_iff.2 ⟨key, hmem, decide_eq_true huser⟩
  rw [keyRemains_iff]
  constructor
  · intro hremains k tx xs ys zs counted r v heq hr hpre _
    have htotal' := (deletionRun_inv hpre).total
    have hcount : es.countP commits = xs.countP commits + (ys.countP commits + (zs.countP commits + 1)) := by
      have hone : commits (.ran k (.commit tx) r) = true := hr
      have hnone : commits (.ran k (.count tx userID) counted) = false := rfl
      rw [heq, List.countP_append, List.countP_cons_of_neg (by simp [hnone]), List.countP_append,
        List.countP_cons_of_pos hone]
    omega
  · intro hspared
    rcases Nat.eq_zero_or_pos (es.countP commits) with hnone | hsome
    · change w.state.keys.held userID + es.countP commits = table.held userID at htotal
      omega
    -- The last deletion that comes to pass has counted what is left, but for those in between.
    obtain ⟨pre, e, zs, rfl, he, hzs⟩ := exists_last hsome
    obtain ⟨a, b, hpre, hstep, -⟩ := hrun.split
    cases hstep with
    | began | answered | env => cases he
    | ran hk hexec =>
      rename_i k o next r s'
      cases o with
      | begin | describe | lockKey | count | delete | audit | rollback => cases he
      | commit tx =>
        obtain ⟨-, ⟨total, pw, hcount, henough⟩, -⟩ := before_of ((Run.booked hpre).begun k _ hk)
        obtain ⟨xs, ys, rfl⟩ := List.append_of_mem (mem_own.1 hcount)
        obtain ⟨v, v', hxs, hcounted, -⟩ := hpre.split
        have hinv' := deletionRun_inv hxs
        have htwo := two_held hinv' hpw henough hcounted
        have htotal' := hinv'.total
        have hleft : ys.countP commits + 2 ≤ v.state.keys.held userID := by
          rcases Nat.eq_zero_or_pos (ys.countP commits) with hno | hover
          · omega
          · exact hspared k tx xs ys zs (some (total, pw)) r v
              (by rw [List.append_assoc, List.cons_append]) he hxs hover
        rw [List.countP_append, List.countP_append, List.countP_cons_of_neg, List.countP_cons_of_pos he,
          hzs] at htotal
        · omega
        · exact fun h => nomatch h

end

def keyA : Key := { id := "a", userID := "u" }

def keyB : Key := { id := "b", userID := "u" }

def twoKeys : Store := { keys := ⟨[keyA, keyB], by decide⟩ }

def Store.locking (s : Store) (key : Key) : Store :=
  Store.put { s with sessions := s.sessions.start {} } s.sessions.next { locked := [key] }

def Store.deleting (s : Store) (tx : ℕ) (key : Key) : Store :=
  Store.commit (s.put tx { locked := [key, key], deleted := [key] }) tx
    { locked := [key, key], deleted := [key] }

def countTrace (tx : ℕ) (id : String) : Trace Op Res :=
  [⟨.begin, some tx⟩, ⟨.describe tx id "u", some (some ("", ""))⟩, ⟨.lockKey tx id "u", some true⟩,
    ⟨.count tx "u", some (2, 0)⟩]

def deleteTrace (tx : ℕ) (id : String) : Trace Op Res :=
  [⟨.delete tx id "u", true⟩, ⟨.audit tx "u" "" "", true⟩, ⟨.commit tx, .confirmed⟩]

def raceRun : List Ev :=
  [Event.began 0 "a"] ++ [Event.began 1 "b"] ++
    (countTrace 0 "a").map (fun x => Event.ran 0 x.1 x.2) ++
    (countTrace 1 "b").map (fun x => Event.ran 1 x.1 x.2) ++
    (deleteTrace 0 "a").map (fun x => Event.ran 0 x.1 x.2) ++
    [Event.answered 0 (Answer.removed "a")] ++
    (deleteTrace 1 "b").map (fun x => Event.ran 1 x.1 x.2) ++
    [Event.answered 1 (Answer.removed "b")]

theorem removes (id : String) (htrim : trimSpace id = id) (hid : id ≠ "") :
    handlePasskeyDelete "u" id = removeKey "u" id := by
  rw [handlePasskeyDelete, htrim, if_neg hid]

theorem free_start {s : Store} {tx : ℕ} {key : Key} (h : s.sessions.Free Txn.holds tx key) :
    (s.sessions.start {}).Free Txn.holds tx key := by
  intro tx' t htx ht hholds
  rcases Sessions.txs_start ht with ⟨-, rfl⟩ | ⟨-, hopen⟩
  · exact absurd hholds.2 List.not_mem_nil
  · exact h tx' t htx hopen hholds

theorem free_locking {s : Store} {tx : ℕ} {key key' : Key}
    (hkey : tx ≠ s.sessions.next → key ≠ key') (h : s.sessions.Free Txn.holds tx key) :
    (s.locking key').sessions.Free Txn.holds tx key := by
  intro tx' t htx ht hholds
  rcases Sessions.txs_put ht with ⟨rfl, rfl⟩ | ⟨-, hstarted⟩
  · exact hkey (Ne.symm htx) (List.mem_singleton.1 hholds.2)
  · exact free_start h tx' t htx hstarted hholds

theorem raceRun_run : ∃ w, DeletionRun "u" twoKeys.keys [] raceRun w ∧
    (∀ k, w.flights k = none) ∧ w.state.keys.rows = [] := by
  have hempty : ∀ tx key, twoKeys.sessions.Free Txn.holds tx key := fun _ _ _ _ _ h => nomatch h
  have hlockB : (twoKeys.locking keyA).sessions.Free Txn.holds 1 keyB :=
    free_locking (fun _ => by decide) (hempty 1 keyB)
  have hdeleteA : ((twoKeys.locking keyA).locking keyB).sessions.Free Txn.holds 0 keyA :=
    free_locking (fun _ => by decide) (free_locking (fun h => absurd rfl h) (hempty 0 keyA))
  have hdeleteB : (((twoKeys.locking keyA).locking keyB).deleting 0 keyA).sessions.Free
      Txn.holds 1 keyB := by
    intro tx t htx ht hholds
    obtain ⟨hne, hput⟩ := Sessions.txs_close ht
    rcases Sessions.txs_put hput with ⟨rfl, -⟩ | ⟨-, hopen⟩
    · exact hne rfl
    · exact free_locking (fun h => absurd rfl h) hlockB tx t htx hopen hholds
  obtain ⟨restA, hcountA, hremoveA⟩ : ∃ rest, Advances Exec twoKeys (removeKey "u" "a")
      (countTrace 0 "a") (twoKeys.locking keyA) rest ∧
      Advances Exec ((twoKeys.locking keyA).locking keyB) rest (deleteTrace 0 "a")
        (((twoKeys.locking keyA).locking keyB).deleting 0 keyA) (.ret (.removed "a")) :=
    ⟨_, .stmt (.inr ⟨rfl, rfl⟩) (.stmt (.inr ⟨rfl, rfl⟩)
      (.stmt (.inr (.inr ⟨rfl, {}, keyA, ⟨rfl, rfl⟩,
          ⟨by decide, rfl, rfl, free_start (hempty 0 keyA)⟩, rfl⟩))
        (.stmt (.inr ⟨rfl, _, ⟨rfl, rfl⟩, rfl⟩) .nil))),
      .stmt (.inr (.inr ⟨rfl, _, keyA, ⟨rfl, rfl⟩, ⟨by decide, rfl, rfl, hdeleteA⟩, rfl⟩))
        (.stmt (.inr ⟨rfl, rfl⟩) (.stmt (.inl ⟨rfl, _, ⟨rfl, rfl⟩, rfl⟩) .nil))⟩
  obtain ⟨restB, hcountB, hremoveB⟩ : ∃ rest, Advances Exec (twoKeys.locking keyA)
      (removeKey "u" "b") (countTrace 1 "b") ((twoKeys.locking keyA).locking keyB) rest ∧
      Advances Exec (((twoKeys.locking keyA).locking keyB).deleting 0 keyA) rest (deleteTrace 1 "b")
        ((((twoKeys.locking keyA).locking keyB).deleting 0 keyA).deleting 1 keyB)
        (.ret (.removed "b")) :=
    ⟨_, .stmt (.inr ⟨rfl, rfl⟩) (.stmt (.inr ⟨rfl, rfl⟩)
      (.stmt (.inr (.inr ⟨rfl, {}, keyB, ⟨rfl, rfl⟩,
          ⟨by decide, rfl, rfl, free_start hlockB⟩, rfl⟩))
        (.stmt (.inr ⟨rfl, _, ⟨rfl, rfl⟩, rfl⟩) .nil))),
      .stmt (.inr (.inr ⟨rfl, _, keyB, ⟨rfl, rfl⟩, ⟨by decide, rfl, rfl, hdeleteB⟩, rfl⟩))
        (.stmt (.inr ⟨rfl, rfl⟩) (.stmt (.inl ⟨rfl, _, ⟨rfl, rfl⟩, rfl⟩) .nil))⟩
  have h₀ : DeletionRun "u" twoKeys.keys [] [] (Pool.start twoKeys) := .nil
  have h₁ := ((h₀.snoc (.began "a")).snoc (.began "b")).append (hcountA.run (k := 0)
    (congrArg some (removes "a" rfl (by decide))))
  have h₂ := (h₁.append (hcountB.run (k := 1)
    (congrArg some (removes "b" rfl (by decide))))).append (hremoveA.run (k := 0) rfl)
  have h₃ := (h₂.snoc (.answered (k := 0) rfl)).append (hremoveB.run (k := 1) rfl)
  refine ⟨_, h₃.snoc (.answered (k := 1) rfl), fun k => ?_, rfl⟩
  match k with
  | 0 => rfl
  | 1 => rfl
  | k + 2 => rfl

/-- The account is left without any way in. -/
theorem no_key_remains : ∃ w, DeletionRun "u" twoKeys.keys [] raceRun w ∧ "u" ∉ twoKeys.passwords ∧
    (∃ key ∈ twoKeys.keys.rows, key.userID = "u") ∧ (∀ k, w.flights k = none) ∧
    ¬ KeyRemains "u" w := by
  obtain ⟨w, hrun, hdone, hrows⟩ := raceRun_run
  refine ⟨w, hrun, List.not_mem_nil, ⟨keyA, by decide, rfl⟩, hdone, ?_⟩
  rintro ⟨key, hkey, -⟩
  rw [hrows] at hkey
  exact List.not_mem_nil hkey

theorem race_remains_iff_spared : ∃ w, DeletionRun "u" twoKeys.keys [] raceRun w ∧
    (KeyRemains "u" w ↔ Spared "u" twoKeys.keys [] raceRun) := by
  obtain ⟨w, hrun, -⟩ := raceRun_run
  exact ⟨w, hrun, key_remains_iff_spared hrun List.not_mem_nil ⟨keyA, by decide, rfl⟩⟩

end Signari.PasskeyRemoval
