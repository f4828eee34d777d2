import Signari.AuditTrail
import Signari.LabelledRuns

/-!
# Transactions that write the audit trail

Any number of transactions call `Write`, commit and roll back in any order. A `Write` that reaches
the chain takes the advisory lock and keeps it to the end of its transaction, so a step of another
transaction that needs the lock waits; ids come from a sequence that a rollback does not wind back.

The trail every transaction sees stays chained (`Consistent`) as long as the uuids of the
events are spelled as the database prints them, whatever the interleaving; then `Verify`
accepts the committed rows in every state.
-/
namespace Signari.AuditRuns
open ByteCodecs HashChains JsonValues LabelledRuns AuditTrail List

structure Tx where
  rows : List Row := []
  aborted : Bool := false

structure State where
  committed : List Row := []
  sequence : ℤ := 0
  holder : Option ℕ := none
  txs : ℕ → Tx := fun _ => {}

/-- The rows a statement of a transaction sees under `READ COMMITTED`. -/
def State.visible (s : State) (i : ℕ) : List Row := s.committed ++ (s.txs i).rows

def State.setTx (s : State) (i : ℕ) (tx : Tx) : State :=
  { s with txs := Function.update s.txs i tx }

/-- The end of a transaction: its rows and its lock are gone. -/
def State.finish (s : State) (i : ℕ) : State :=
  { s.setTx i {} with holder := if s.holder = some i then none else s.holder }

def State.lockFree (s : State) (i : ℕ) : Prop := s.holder = none ∨ s.holder = some i

inductive Act where
  | write (tx : ℕ) (id now : ℤ) (e : Event)
  | commit (tx : ℕ)
  | rollback (tx : ℕ)

section
variable (jb : Jsonb)

inductive Step : State → Act → State → Prop
  | typeRequired {s : State} {i : ℕ} {id now : ℤ} {e : Event} :
      write jb (s.visible i) id now e = .error .typeRequired → Step s (.write i id now e) s
  | alreadyAborted {s : State} {i : ℕ} {id now : ℤ} {e : Event} :
      (s.txs i).aborted = true → Step s (.write i id now e) s
  | canonicalising {s : State} {i : ℕ} {id now : ℤ} {e : Event} :
      (s.txs i).aborted = false → write jb (s.visible i) id now e = .error .canonicalising →
      Step s (.write i id now e) (s.setTx i { s.txs i with aborted := true })
  | refused {s : State} {i : ℕ} {id now : ℤ} {e : Event} :
      (s.txs i).aborted = false → s.lockFree i →
      write jb (s.visible i) id now e = .error (.appending e.type) →
      Step s (.write i id now e)
        { s.setTx i { s.txs i with aborted := true } with holder := some i }
  | appended {s : State} {i : ℕ} {id now : ℤ} {e : Event} {row : Row} :
      (s.txs i).aborted = false → s.lockFree i → s.sequence < id →
      write jb (s.visible i) id now e = .ok row →
      Step s (.write i id now e)
        { s.setTx i { s.txs i with rows := (s.txs i).rows ++ [row] } with
          holder := some i, sequence := id }
  | committed {s : State} {i : ℕ} : (s.txs i).aborted = false →
      Step s (.commit i) { s.finish i with committed := s.visible i }
  | commitAborted {s : State} {i : ℕ} : (s.txs i).aborted = true → Step s (.commit i) (s.finish i)
  | rolledBack {s : State} {i : ℕ} : Step s (.rollback i) (s.finish i)

end

/-! ## What a write appends -/

/-- The uuids of the event are spelled as the database prints them. -/
structure Event.Printed (e : Event) : Prop where
  orgID : Canonical e.orgID
  subjectID : Canonical e.subjectID
  actorID : Canonical e.actorID
  correlationID : Canonical e.correlationID
  adminTokenID : Canonical e.adminTokenID

theorem insertRow_some {jb : Jsonb} {id now : ℤ} {e : Event} {detail : String}
    {prev entry : List UInt8} {row : Row}
    (h : insertRow jb id now e detail prev entry = some row) :
    row.id = id ∧ row.prevHash = prev ∧ row.entryHash = entry ∧
      jb.canonical detail = some row.detail ∧ row.eventType = e.type ∧
      row.clientID.getD "" = e.clientID ∧ row.retentionClass = e.retention ∧
      uuidColumn e.orgID = some row.orgID ∧ uuidColumn e.subjectID = some row.subjectID ∧
      uuidColumn e.actorID = some row.actorID ∧
      uuidColumn e.correlationID = some row.correlationID ∧
      uuidColumn e.adminTokenID = some row.adminTokenID := by
  simp only [insertRow, Option.bind_eq_bind, Option.bind_eq_some_iff] at h
  obtain ⟨orgID, horg, subjectID, hsubject, actorID, hactor, correlationID, hcorrelation,
    adminTokenID, hadmin, stored, hstored, h⟩ := h
  split_ifs at h
  obtain rfl := Option.some.inj h
  exact ⟨rfl, rfl, rfl, hstored, rfl, nullIfEmpty_getD _, rfl, horg, hsubject, hactor,
    hcorrelation, hadmin⟩

theorem write_inv {jb : Jsonb} {rows : List Row} {id now : ℤ} {e : Event} {row : Row}
    (h : write jb rows id now e = .ok row) :
    ∃ detail, jb.canonical (marshal (.obj e.detail)) = some detail ∧
      insertRow jb id now (classified e) detail (chainHead rows)
        (chainHash (chainHead rows) (classified e) detail) = some row := by
  unfold write at h
  split_ifs at h
  split at h
  · cases h
  · rename_i detail hdetail
    split at h
    · cases h
    · rename_i stored hinsert
      obtain rfl := Except.ok.inj h
      exact ⟨detail, hdetail, hinsert⟩

theorem write_id {jb : Jsonb} {rows : List Row} {id now : ℤ} {e : Event} {row : Row}
    (h : write jb rows id now e = .ok row) : row.id = id := by
  obtain ⟨detail, -, hinsert⟩ := write_inv h
  exact (insertRow_some hinsert).1

/-- The row of a printed event names the head of the rows it was written over and is sealed
over what the database prints. -/
theorem write_ok {jb : Jsonb} {rows : List Row} {id now : ℤ} {e : Event} {row : Row}
    (hp : Event.Printed e) (h : write jb rows id now e = .ok row) :
    row.prevHash = chainHead rows ∧ links.Sealed row := by
  obtain ⟨detail, hdetail, hinsert⟩ := write_inv h
  obtain ⟨-, hprev, hentry, hcanon, htype, hclient, hretention, horg, hsubject, hactor,
    hcorrelation, hadmin⟩ := insertRow_some hinsert
  have hdetail' : row.detail = detail :=
    Option.some.inj (hcanon.symm.trans (jb.canonical_idem hdetail))
  have hfields : hashedFields row.event = hashedFields (classified e) := by
    simp only [hashedFields, Row.event, htype, hclient, hretention,
      uuidText_of_canonical hp.orgID horg, uuidText_of_canonical hp.subjectID hsubject,
      uuidText_of_canonical hp.actorID hactor,
      uuidText_of_canonical hp.correlationID hcorrelation,
      uuidText_of_canonical hp.adminTokenID hadmin]
    rfl
  refine ⟨hprev, ?_⟩
  change chainHash row.prevHash row.event row.detail = row.entryHash
  rw [hentry, hprev, hdetail', chainHash, chainHash, hashInput, hashInput, hfields]

/-! ## The invariant -/

/-- Every transaction sees a chained trail in the order of its ids, and only the holder of
the lock has rows of its own. -/
structure Consistent (s : State) : Prop where
  chained : ∀ i, links.Chained [] (s.visible i)
  sorted : ∀ i, (s.visible i).Pairwise fun a b => a.id < b.id
  issued : ∀ i, ∀ r ∈ s.visible i, r.id ≤ s.sequence
  locked : ∀ i, (s.txs i).rows ≠ [] → s.holder = some i

theorem Consistent.initial : Consistent {} :=
  ⟨fun _ => trivial, fun _ => .nil, fun _ _ hr => by simp [State.visible] at hr,
    fun _ h => (h rfl).elim⟩

section
variable {s t : State} {i j : ℕ}

@[simp] theorem setTx_txs_self (tx : Tx) : (s.setTx i tx).txs i = tx := by simp [State.setTx]

@[simp] theorem setTx_holder (tx : Tx) : (s.setTx i tx).holder = s.holder := rfl

@[simp] theorem setTx_txs_of_ne (h : j ≠ i) (tx : Tx) : (s.setTx i tx).txs j = s.txs j := by
  simp [State.setTx, h]

/-- A state in which nobody sees more than somebody saw before is consistent. -/
theorem Consistent.restrict (hs : Consistent s) (hsee : ∀ j, ∃ k, t.visible j <+: s.visible k)
    (hseq : t.sequence = s.sequence) (hlocked : ∀ j, (t.txs j).rows ≠ [] → t.holder = some j) :
    Consistent t where
  chained j := by
    obtain ⟨k, rest, hk⟩ := hsee j
    exact (chained_append.mp (hk ▸ hs.chained k)).1
  sorted j := by
    obtain ⟨k, hk⟩ := hsee j
    exact (hs.sorted k).sublist hk.sublist
  issued j r hr := by
    obtain ⟨k, hk⟩ := hsee j
    exact hseq ▸ hs.issued k r (hk.subset hr)
  locked := hlocked

theorem Consistent.rows_of_lockFree (hs : Consistent s) (hfree : s.lockFree i) (hj : j ≠ i) :
    (s.txs j).rows = [] := by
  by_contra hne
  have hheld := hs.locked j hne
  rcases hfree with hfree | hfree
  · rw [hfree] at hheld
    cases hheld
  · rw [hfree, Option.some.injEq] at hheld
    exact hj hheld.symm

theorem Consistent.abort (hs : Consistent s) :
    Consistent (s.setTx i { s.txs i with aborted := true }) := by
  refine hs.restrict (fun j => ⟨j, ?_⟩) rfl fun j => ?_
  · by_cases hj : j = i
    · simp [State.visible, hj, State.setTx]
    · simp [State.visible, hj, State.setTx]
  · by_cases hj : j = i
    · subst hj
      simpa using hs.locked j
    · simpa [hj] using hs.locked j

theorem Consistent.finish (hs : Consistent s) {rows : List Row}
    (hrows : rows = s.committed ∨ rows = s.visible i) :
    Consistent { s.finish i with committed := rows } := by
  refine hs.restrict (fun j => ?_) rfl fun j hj => ?_
  · by_cases hj : j = i
    · subst hj
      refine ⟨j, ?_⟩
      rcases hrows with rfl | rfl
      · simp [State.visible, State.finish]
      · simp [State.visible, State.finish]
    · rcases hrows with rfl | rfl
      · exact ⟨j, by simp [State.visible, State.finish, hj]⟩
      · by_cases hi : (s.txs i).rows = []
        · exact ⟨j, by simp [State.visible, State.finish, hj, hi]⟩
        · have hempty := hs.rows_of_lockFree (.inr (hs.locked i hi)) hj
          exact ⟨i, by simp [State.visible, State.finish, hj, hempty]⟩
  · by_cases hji : j = i
    · simp [State.finish, hji] at hj
    · have hheld := hs.locked j (by simpa [State.finish, hji] using hj)
      simp [State.finish, hheld, hji]

theorem Consistent.append (hs : Consistent s) (hfree : s.lockFree i) {row : Row}
    (hid : s.sequence < row.id) (hprev : row.prevHash = chainHead (s.visible i))
    (hseal : links.Sealed row) :
    Consistent { s.setTx i { s.txs i with rows := (s.txs i).rows ++ [row] } with
      holder := some i, sequence := row.id } := by
  have hself : ({ s.setTx i { s.txs i with rows := (s.txs i).rows ++ [row] } with
      holder := some i, sequence := row.id } : State).visible i = s.visible i ++ [row] := by
    simp [State.visible, State.setTx]
  have hother : ∀ j, j ≠ i → ({ s.setTx i { s.txs i with rows := (s.txs i).rows ++ [row] } with
      holder := some i, sequence := row.id } : State).visible j = s.visible j := by
    intro j hj
    simp [State.visible, State.setTx, hj]
  refine ⟨fun j => ?_, fun j => ?_, fun j r hr => ?_, fun j hj => ?_⟩
  · by_cases hj : j = i
    · rw [hj, hself, chained_append]
      rw [chainHead_of_sorted (hs.sorted i)] at hprev
      exact ⟨hs.chained i, hprev, hseal, trivial⟩
    · rw [hother j hj]
      exact hs.chained j
  · by_cases hj : j = i
    · rw [hj, hself, pairwise_append]
      refine ⟨hs.sorted i, pairwise_singleton _ _, fun a ha b hb => ?_⟩
      rw [mem_singleton.mp hb]
      exact lt_of_le_of_lt (hs.issued i a ha) hid
    · rw [hother j hj]
      exact hs.sorted j
  · by_cases hj : j = i
    · rw [hj, hself, mem_append, mem_singleton] at hr
      rcases hr with hr | rfl
      · exact (hs.issued i r hr).trans (le_of_lt hid)
      · exact le_refl _
    · rw [hother j hj] at hr
      exact (hs.issued j r hr).trans (le_of_lt hid)
  · by_cases hji : j = i
    · rw [hji]
    · refine (hj ?_).elim
      simpa [hji] using hs.rows_of_lockFree hfree hji

end

/-- The spelling a write is made with; commits and rollbacks ask for none. -/
def Act.Printed : Act → Prop
  | .write _ _ _ e => Event.Printed e
  | _ => True

theorem Step.consistent {jb : Jsonb} {s t : State} {a : Act} (hs : Consistent s)
    (hp : a.Printed) (h : Step jb s a t) : Consistent t := by
  cases h with
  | typeRequired _ => exact hs
  | alreadyAborted _ => exact hs
  | canonicalising _ _ => exact hs.abort
  | @refused i _ _ _ _ hfree _ =>
    refine (hs.abort (i := i)).restrict (fun j => ⟨j, prefix_refl _⟩) rfl fun j hj => ?_
    by_cases hji : j = i
    · rw [hji]
    · refine (hj ?_).elim
      simpa [hji] using hs.rows_of_lockFree hfree hji
  | appended _ hfree hid hwrite =>
    obtain ⟨hprev, hseal⟩ := write_ok hp hwrite
    obtain rfl := write_id hwrite
    exact hs.append hfree hid hprev hseal
  | committed _ => exact hs.finish (.inr rfl)
  | commitAborted _ | rolledBack => exact hs.finish (.inl rfl)

/-- In every run whose writes spell their uuids as the database prints them, `Verify`
accepts all the committed rows. -/
theorem verify_committed {jb : Jsonb} {acts : List Act} {s : State}
    (hrun : Run (Step jb) {} acts s) (hp : ∀ a ∈ acts, a.Printed) :
    verify s.committed = (0, s.committed.length) := by
  have hs : (∀ a ∈ acts, a.Printed) → Consistent s := by
    refine hrun.invariant (I := fun acts s => (∀ a ∈ acts, a.Printed) → Consistent s)
      (fun _ => Consistent.initial) fun ih hstep hall => ?_
    refine Step.consistent (ih fun a ha => hall a (mem_append_left _ ha)) ?_ hstep
    exact hall _ (by simp)
  have hcommitted : links.Chained [] s.committed ∧ s.committed.Pairwise fun a b => a.id < b.id :=
    ⟨(chained_append.mp ((hs hp).chained 0)).1,
      ((hs hp).sorted 0).sublist (sublist_append_left _ _)⟩
  rw [verify, byId_of_sorted hcommitted.2, walk_of_chained hcommitted.1, Nat.zero_add]

/-! ## One user, two spellings -/

/-- `jsonb` on the empty object. -/
def emptyObject : Jsonb where
  canonical raw := if raw = "\x7b\x7d" then some raw else none
  canonical_idem h := by
    split_ifs at h with hraw
    obtain rfl := Option.some.inj h
    exact if_pos hraw
  decode _ := []
  int64 _ := 0

def userUpdated (subjectID : String) : Event :=
  { type := "admin.user_updated", subjectID := subjectID }

def userUpdatedRow (subjectID : String) : Row where
  id := 1
  occurredAt := 0
  eventType := "admin.user_updated"
  orgID := none
  subjectID := uuidIn subjectID
  actorID := none
  clientID := none
  correlationID := none
  retentionClass := "security"
  detail := "\x7b\x7d"
  prevHash := []
  entryHash := chainHash [] (classified (userUpdated subjectID)) "\x7b\x7d"
  adminTokenID := none

def afterCommit (row : Row) : State := { committed := [row], sequence := 1 }

theorem run_write_commit {jb : Jsonb} {e : Event} {row : Row} (h : write jb [] 1 0 e = .ok row) :
    Run (Step jb) {} [.write 0 1 0 e, .commit 0] (afterCommit row) := by
  have hwrite : Step jb {} (.write 0 1 0 e)
      { ({} : State).setTx 0 { rows := [row] } with holder := some 0, sequence := 1 } :=
    .appended rfl (.inl rfl) (by decide) h
  have hcommit : Step jb
      { ({} : State).setTx 0 { rows := [row] } with holder := some 0, sequence := 1 }
      (.commit 0) (afterCommit row) := by
    convert (Step.committed rfl : Step jb { ({} : State).setTx 0 { rows := [row] } with
      holder := some 0, sequence := 1 } (.commit 0) _) using 1
    simp [afterCommit, State.finish, State.setTx, State.visible]
  exact (Run.nil.snoc hwrite).snoc hcommit

def printedID : String := "a0eebc99-9c0b-4ef8-bb6d-6bb9bd380a11"

/-- A second transaction writes once the first has committed, and is rolled back. -/
theorem verify_printed_subject : ∃ s, Run (Step emptyObject) {}
    [.write 0 1 0 (userUpdated printedID), .commit 0, .write 1 2 0 (userUpdated printedID),
      .rollback 1] s ∧ verify s.committed = (0, 1) := by
  have hfirst : Run (Step emptyObject) {} [.write 0 1 0 (userUpdated printedID), .commit 0]
      (afterCommit (userUpdatedRow printedID)) := run_write_commit (by rfl)
  obtain ⟨row, hwrite⟩ : ∃ row, write emptyObject [userUpdatedRow printedID] 2 0
    (userUpdated printedID) = .ok row := ⟨_, rfl⟩
  have hrun := (hfirst.snoc (.appended (i := 1) rfl (.inl rfl) (by decide) hwrite)).snoc
    (.rolledBack (i := 1))
  have hprinted : Event.Printed (userUpdated printedID) :=
    ⟨by decide, by decide +kernel, by decide, by decide, by decide⟩
  refine ⟨_, hrun, verify_committed hrun fun a ha => ?_⟩
  simp only [cons_append, nil_append, mem_cons, not_mem_nil, or_false] at ha
  rcases ha with rfl | rfl | rfl | rfl
  · exact hprinted
  · trivial
  · exact hprinted
  · trivial

/-- A `PATCH` whose path spells the user's id in capitals leaves a trail that no longer
verifies, with nobody having touched it. -/
theorem capitals_break_trail :
    ∃ s, Run (Step emptyObject) {}
        [.write 0 1 0 (userUpdated "A0EEBC99-9C0B-4EF8-BB6D-6BB9BD380A11"), .commit 0] s ∧
      verify s.committed = (1, 1) :=
  ⟨afterCommit (userUpdatedRow "A0EEBC99-9C0B-4EF8-BB6D-6BB9BD380A11"),
    run_write_commit (by rfl), by decide +kernel⟩

end Signari.AuditRuns
