import Signari.AccountRecovery

/-!
# The delay of a reset and its cancellation

What any interleaving of the transactions of account recovery keeps. A row that a transaction has
locked stays in the table as it was (`Locks`), and what is about to be inserted stands in nobody's
way (`Index`).
-/
namespace Signari.AccountRecovery
open GoTime LabelledRuns StatementPrograms RowLocks List
open Prog

section

variable {s s' : Store} {tx tx' : ℕ} {t t' : Txn} {o : Op} {e : Change} {r r' n : Row}

/-- The transaction changes the row. -/
def Txn.Marks (t : Txn) (r : Row) : Prop := r ∈ t.cancelled ∨ r ∈ t.consumed ∨ r ∈ t.deleted

/-- What a transaction keeps as long as it is open. -/
structure Grows (t t' : Txn) : Prop where
  locked : t.locked ⊆ t'.locked
  cancelled : t.cancelled ⊆ t'.cancelled
  consumed : t.consumed ⊆ t'.consumed
  deleted : t.deleted ⊆ t'.deleted
  inserted : t.inserted ⊆ t'.inserted
  aborted : t'.aborted = false → t.aborted = false

theorem Grows.refl (t : Txn) : Grows t t where
  locked := Subset.refl _
  cancelled := Subset.refl _
  consumed := Subset.refl _
  deleted := Subset.refl _
  inserted := Subset.refl _
  aborted h := h

/-- A transaction locks rows that nobody else has locked, and changes none but these. -/
structure Takes (s : Store) (tx : ℕ) (t : Txn) (rows : List Row) (t' : Txn) : Prop where
  live : s.Live tx t
  selected : rows ⊆ s.rows
  free : s.Free tx rows
  grows : Grows t t'
  locked : ∀ r ∈ t'.locked, r ∈ rows ∨ r ∈ t.locked
  marks : ∀ r, t'.Marks r → r ∈ rows ∨ t.Marks r
  taken : rows ⊆ t'.locked
  inserted : t'.inserted = t.inserted
  passwords : t'.passwords = t.passwords
  aborted : t'.aborted = false

/-- What a statement, or a change from elsewhere, does to the store. -/
inductive Moves (s : Store) : Option Op → Store → Prop
  | same {o : Option Op} : Moves s o s
  | opened : Moves s (some .begin) { s with sessions := s.sessions.start {} }
  | aborted {o : Option Op} (tx : ℕ) (t : Txn) : s.sessions.txs tx = some t →
      Moves s o (s.put tx { t with aborted := true })
  | taken {o : Option Op} (tx : ℕ) (t t' : Txn) (rows : List Row) : Takes s tx t rows t' →
      Moves s o (s.put tx t')
  | inserted (tx : ℕ) (t : Txn) (draft : Draft) : s.Live tx t → s.Admits t draft →
      Moves s (some (.insert tx draft))
        { s.put tx { t with inserted := { draft with id := s.nextID } :: t.inserted } with
          nextID := s.nextID + 1 }
  | hashed (tx : ℕ) (t : Txn) (userID newHash : String) : s.Live tx t →
      Moves s (some (.setPassword tx userID newHash))
        (s.put tx { t with passwords := (userID, newHash) :: t.passwords })
  | closed {o : Option Op} (tx : ℕ) : Moves s o (s.close tx)
  | committed (tx : ℕ) (t : Txn) : s.Live tx t → Moves s (some (.commit tx)) (s.commit tx t)

theorem Fails.moves (h : Fails s tx s') (o : Option Op) : Moves s o s' := by
  rcases h with rfl | ⟨t, ht, rfl⟩
  · exact .same
  · exact .aborted tx t ht

theorem matching_subset {seen : Row → Bool} {p : Row → Prop} [DecidablePred p] :
    s.matching t seen p ⊆ s.rows := filter_sublist.subset

theorem Selects.moves {p : Row → Prop} [DecidablePred p] {then_ : Txn → List Row → Prop}
    (h : Selects s tx p then_) (o : Option Op) (hthen : ∀ t rows, then_ t rows →
      s' = s.put tx { t with locked := rows ++ t.locked } ∨ s' = s.put tx (t.cancel rows) ∨
      s' = s.put tx (t.consume rows) ∨ s' = s.put tx (t.delete rows)) : Moves s o s' := by
  obtain ⟨t, seen, hlive, hfree, h⟩ := h
  have hrows : s.matching t seen p ⊆ s.rows := matching_subset
  generalize s.matching t seen p = rows at hfree h hrows
  have hmem : ∀ {l : List Row} {r : Row}, r ∈ rows ++ l → r ∈ rows ∨ r ∈ l :=
    fun hr => mem_append.1 hr
  have hsub : ∀ l : List Row, l ⊆ rows ++ l := fun l => subset_append_right _ _
  rcases hthen t rows h with rfl | rfl | rfl | rfl
  · exact .taken tx t _ rows ⟨hlive, hrows, hfree, { Grows.refl t with locked := hsub _ },
      fun r => hmem, fun r hr => .inr hr, subset_append_left _ _, rfl, rfl, hlive.2⟩
  · refine .taken tx t _ rows ⟨hlive, hrows, hfree,
      { Grows.refl t with locked := hsub _, cancelled := hsub _ }, fun r => hmem, fun r hr => ?_,
      subset_append_left _ _, rfl, rfl, hlive.2⟩
    rcases hr with hr | hr
    · exact (hmem hr).imp_right .inl
    · exact .inr (.inr hr)
  · refine .taken tx t _ rows ⟨hlive, hrows, hfree,
      { Grows.refl t with locked := hsub _, consumed := hsub _ }, fun r => hmem, fun r hr => ?_,
      subset_append_left _ _, rfl, rfl, hlive.2⟩
    rcases hr with hr | hr | hr
    · exact .inr (.inl hr)
    · exact (hmem hr).imp_right fun hr => .inr (.inl hr)
    · exact .inr (.inr (.inr hr))
  · refine .taken tx t _ rows ⟨hlive, hrows, hfree,
      { Grows.refl t with locked := hsub _, deleted := hsub _ }, fun r => hmem, fun r hr => ?_,
      subset_append_left _ _, rfl, rfl, hlive.2⟩
    rcases hr with hr | hr | hr
    · exact .inr (.inl hr)
    · exact .inr (.inr (.inl hr))
    · exact (hmem hr).imp_right fun hr => .inr (.inr hr)

theorem Exec.moves {res : Res o} (h : Exec s o res s') : Moves s (some o) s' := by
  cases o with
  | begin =>
    rcases h with ⟨-, rfl⟩ | ⟨-, rfl⟩
    · exact .same
    · exact .opened
  | now | plan | checkPolicy | hash =>
    obtain rfl : s' = s := h
    exact .same
  | history | identity | retire => exact Fails.moves h _
  | supersede =>
    rcases h with ⟨-, h⟩ | ⟨-, h⟩
    · exact h.moves _
    · exact h.moves _ fun t rows heq => .inr (.inl heq)
  | insert tx draft =>
    rcases h with ⟨-, h⟩ | ⟨-, t, hlive, hadmits, rfl⟩
    · exact h.moves _
    · exact .inserted tx t draft hlive hadmits
  | lookup =>
    rcases h with ⟨-, h⟩ | h
    · exact h.moves _
    · exact h.moves _ fun t rows heq => .inl heq.2
  | cancel =>
    rcases h with ⟨-, h⟩ | h
    · exact h.moves _
    · exact h.moves _ fun t rows heq => .inr (.inl heq.2)
  | consume =>
    rcases h with ⟨-, h⟩ | h
    · exact h.moves _
    · exact h.moves _ fun t rows heq => .inr (.inr (.inl heq.2))
  | setPassword tx userID newHash =>
    rcases h with ⟨-, h⟩ | ⟨-, t, hlive, rfl⟩
    · exact h.moves _
    · exact .hashed tx t userID newHash hlive
  | terminate | audit =>
    rcases h with ⟨-, h⟩ | ⟨-, rfl⟩
    · exact h.moves _
    · exact .same
  | purge =>
    rcases h with ⟨-, h⟩ | ⟨_, h⟩
    · exact h.moves _
    · exact h.moves _ fun t rows heq => .inr (.inr (.inr heq.2))
  | commit tx =>
    rcases h with ⟨-, t, hlive, rfl⟩ | ⟨-, rfl⟩
    · exact .committed tx t hlive
    · exact .closed tx
  | rollback tx =>
    obtain rfl : s' = s.close tx := h
    exact .closed tx

theorem Changes.moves (h : Changes s e s') : Moves s none s' := by
  cases e with
  | lost tx =>
    obtain rfl : s' = s.close tx := h
    exact .closed tx

theorem Moves.retains {o : Option Op} {P : Txn → Prop} (h : Moves s o s')
    (hP : ∀ t t', Grows t t' → P t → P t') (hs : s.sessions.Retains P tx) :
    s'.sessions.Retains P tx := by
  cases h with
  | same => exact hs
  | opened => exact hs.start
  | aborted tx' t ht =>
    refine hs.put fun htx => hP t _ { Grows.refl t with aborted := ?_ } (hs.kept t (htx ▸ ht))
    exact fun h => nomatch h
  | taken tx' t t' rows htakes =>
    exact hs.put fun htx => hP t _ htakes.grows (hs.kept t (htx ▸ htakes.live.1))
  | inserted tx' t draft hlive _ =>
    refine hs.put fun htx => hP t _ { Grows.refl t with inserted := ?_ } (hs.kept t (htx ▸ hlive.1))
    exact subset_cons_self _ _
  | hashed tx' t userID newHash hlive =>
    exact hs.put fun htx => hP t _ { Grows.refl t with } (hs.kept t (htx ▸ hlive.1))
  | closed => exact hs.close
  | committed => exact hs.close

theorem Moves.next {o : Option Op} (hmoves : Moves s o s') :
    s.sessions.next ≤ s'.sessions.next := by
  cases hmoves with
  | opened => exact Nat.le_succ _
  | same | aborted | taken | inserted | hashed | closed | committed => exact Nat.le_refl _

theorem settle_live : (t.settle r).Live ↔ r.Live ∧ r ∉ t.cancelled ∧ r ∉ t.consumed := by
  simp only [Txn.settle, Row.Live, Bool.or_eq_false_iff, decide_eq_false_iff_not]
  exact and_and_and_comm

theorem settle_unmarked (h : ¬ t.Marks r) : t.settle r = r := by
  obtain ⟨hcancelled, hconsumed, -⟩ := not_or.1 h |>.imp_right not_or.1
  simp [Txn.settle, hcancelled, hconsumed]

theorem Grows.settle_live (h : Grows t t') (hlive : (t'.settle r).Live) : (t.settle r).Live := by
  rw [AccountRecovery.settle_live] at hlive ⊢
  exact ⟨hlive.1, fun hr => hlive.2.1 (h.cancelled hr), fun hr => hlive.2.2 (h.consumed hr)⟩

/-- What a transaction has locked is in the table as it was then, and nobody else has locked it.
What it changes it has locked. -/
structure Locks (s : Store) : Prop where
  exclusive : s.sessions.Exclusive Txn.holds
  rows : ∀ tx t, s.Live tx t → ∀ r ∈ t.locked, r ∈ s.rows
  marked : ∀ tx t, s.Live tx t → ∀ r, t.Marks r → r ∈ t.locked

theorem Locks.put (h : Locks s) (hlocked : t.aborted = false → ∀ r ∈ t.locked, r ∈ s.rows ∧
    s.sessions.Free Txn.holds tx r.id)
    (hmarked : t.aborted = false → ∀ r, t.Marks r → r ∈ t.locked) : Locks (s.put tx t) := by
  refine ⟨h.exclusive.put fun id hid => ?_, fun tx' t' hlive r hr => ?_,
    fun tx' t' hlive r hr => ?_⟩
  · obtain ⟨haborted, r, hr, rfl⟩ := hid
    exact (hlocked haborted r hr).2
  · rcases Sessions.txs_put hlive.1 with ⟨rfl, rfl⟩ | ⟨-, ht'⟩
    · exact (hlocked hlive.2 r hr).1
    · exact h.rows tx' t' ⟨ht', hlive.2⟩ r hr
  · rcases Sessions.txs_put hlive.1 with ⟨rfl, rfl⟩ | ⟨-, ht'⟩
    · exact hmarked hlive.2 r hr
    · exact h.marked tx' t' ⟨ht', hlive.2⟩ r hr

theorem Locks.own (h : Locks s) (hlive : s.Live tx t) (hr : r ∈ t.locked) :
    r ∈ s.rows ∧ s.sessions.Free Txn.holds tx r.id :=
  ⟨h.rows tx t hlive r hr, h.exclusive.free hlive.1 ⟨hlive.2, r, hr, rfl⟩⟩

theorem Locks.unmarked (h : Locks s) (hlive : s.Live tx t) (hlive' : s.Live tx' t')
    (hne : tx' ≠ tx) (hr : r ∈ t'.locked) : ¬ t.Marks r := fun hmarks =>
  hne (h.exclusive tx' tx t' t r.id hlive'.1 hlive.1 ⟨hlive'.2, r, hr, rfl⟩
    ⟨hlive.2, r, h.marked tx t hlive r hmarks, rfl⟩)

theorem Locks.close (h : Locks s) : Locks (s.close tx) where
  exclusive := h.exclusive.close
  rows tx' t' hlive := h.rows tx' t' ⟨(Sessions.txs_close hlive.1).2, hlive.2⟩
  marked tx' t' hlive := h.marked tx' t' ⟨(Sessions.txs_close hlive.1).2, hlive.2⟩

theorem mem_commit : r ∈ (s.commit tx t).rows ↔
    (∃ r₀ ∈ s.rows, r₀ ∉ t.deleted ∧ t.settle r₀ = r) ∨ r ∈ t.inserted := by
  simp [Store.commit, and_assoc]

theorem Locks.moves {o : Option Op} (h : Locks s) (hmoves : Moves s o s') : Locks s' := by
  cases hmoves with
  | same => exact h
  | opened =>
    have hnew : ∀ {tx t}, ({ s with sessions := s.sessions.start {} } : Store).Live tx t →
        t = {} ∨ s.Live tx t := fun hlive => by
      rcases Sessions.txs_start hlive.1 with ⟨-, rfl⟩ | ⟨-, ht⟩
      · exact .inl rfl
      · exact .inr ⟨ht, hlive.2⟩
    refine ⟨h.exclusive.start fun id hid => ?_, fun tx t hlive r hr => ?_,
      fun tx t hlive r hr => ?_⟩
    · obtain ⟨-, r, hr, -⟩ := hid
      exact absurd hr not_mem_nil
    · rcases hnew hlive with rfl | hlive
      · exact absurd hr not_mem_nil
      · exact h.rows tx t hlive r hr
    · rcases hnew hlive with rfl | hlive
      · rcases hr with hr | hr | hr <;> exact absurd hr not_mem_nil
      · exact h.marked tx t hlive r hr
  | aborted tx t ht => exact h.put (fun hlive => nomatch hlive) (fun hlive => nomatch hlive)
  | taken tx t t' rows htakes =>
    refine h.put (fun _ r hr => ?_) (fun _ r hr => ?_)
    · rcases htakes.locked r hr with hr | hr
      · exact ⟨htakes.selected hr, htakes.free r hr⟩
      · exact h.own htakes.live hr
    · rcases htakes.marks r hr with hr | hr
      · exact htakes.taken hr
      · exact htakes.grows.locked (h.marked tx t htakes.live r hr)
  | inserted tx t draft hlive _ =>
    have hput : Locks (s.put tx { t with
        inserted := { draft with id := s.nextID } :: t.inserted }) :=
      h.put (fun _ r hr => h.own (t := t) hlive hr) (fun _ => h.marked tx t hlive)
    exact ⟨hput.exclusive, hput.rows, hput.marked⟩
  | hashed tx t userID newHash hlive =>
    exact h.put (fun _ r hr => h.own (t := t) hlive hr) (fun _ => h.marked tx t hlive)
  | closed => exact h.close
  | committed tx t hlive =>
    refine ⟨h.exclusive.close, fun tx' t' hlive' r hr => ?_, h.close.marked⟩
    obtain ⟨hne, ht'⟩ := Sessions.txs_close hlive'.1
    have hunmarked := h.unmarked hlive ⟨ht', hlive'.2⟩ hne hr
    refine mem_commit.2 (.inl ⟨r, h.rows tx' t' ⟨ht', hlive'.2⟩ r hr, fun hgone => ?_,
      settle_unmarked hunmarked⟩)
    exact hunmarked (.inr (.inr hgone))

/-- The keys of the table and of what is about to be inserted into it. -/
structure Index (s : Store) : Prop where
  below : ∀ r ∈ s.rows, r.id < s.nextID
  ids : ∀ r ∈ s.rows, ∀ r' ∈ s.rows, r.id = r'.id → r = r'
  cancels : ∀ r ∈ s.rows, ∀ r' ∈ s.rows, r.cancelHash = r'.cancelHash → r = r'
  oneLive : OneLive s.rows
  drawn : ∀ tx t, s.Live tx t → ∀ n ∈ t.inserted, n.id < s.nextID ∧ ∀ r ∈ s.rows, r.id ≠ n.id
  pending : ∀ tx t, s.Live tx t → ∀ n ∈ t.inserted, ∀ r ∈ s.rows, r ∉ t.deleted →
    r.cancelHash ≠ n.cancelHash ∧ (r.userID = n.userID → ¬ (t.settle r).Live)
  apart : ∀ tx tx' t t', s.Live tx t → s.Live tx' t' → ∀ n ∈ t.inserted, ∀ n' ∈ t'.inserted,
    n.id = n'.id ∨ n.cancelHash = n'.cancelHash ∨ n.userID = n'.userID → tx = tx' ∧ n = n'

theorem Index.grow (h : Index s) (hrows : s'.rows = s.rows) (hnext : s'.nextID = s.nextID)
    (hlive : ∀ tx t', s'.Live tx t' → t'.inserted = [] ∨
      ∃ t, s.Live tx t ∧ t'.inserted = t.inserted ∧ Grows t t') : Index s' := by
  have hold : ∀ {tx t' n}, s'.Live tx t' → n ∈ t'.inserted →
      ∃ t, s.Live tx t ∧ n ∈ t.inserted ∧ Grows t t' := by
    intro tx t' n ht' hn
    rcases hlive tx t' ht' with hnone | ⟨t, ht, hsame, hgrows⟩
    · exact absurd (hnone ▸ hn) not_mem_nil
    · exact ⟨t, ht, hsame ▸ hn, hgrows⟩
  refine ⟨?_, ?_, ?_, ?_, ?_, ?_, ?_⟩
  · rw [hrows, hnext]
    exact h.below
  · rw [hrows]
    exact h.ids
  · rw [hrows]
    exact h.cancels
  · rw [hrows]
    exact h.oneLive
  · intro tx t' ht' n hn
    obtain ⟨t, ht, hn, -⟩ := hold ht' hn
    rw [hrows, hnext]
    exact h.drawn tx t ht n hn
  · intro tx t' ht' n hn r hr hkept
    obtain ⟨t, ht, hn, hgrows⟩ := hold ht' hn
    rw [hrows] at hr
    obtain ⟨hcancel, huser⟩ := h.pending tx t ht n hn r hr fun hgone => hkept (hgrows.deleted hgone)
    exact ⟨hcancel, fun heq hsettled => huser heq (hgrows.settle_live hsettled)⟩
  · intro tx₁ tx₂ t₁' t₂' ht₁' ht₂' n₁ hn₁ n₂ hn₂ hsame
    obtain ⟨t₁, ht₁, hn₁, -⟩ := hold ht₁' hn₁
    obtain ⟨t₂, ht₂, hn₂, -⟩ := hold ht₂' hn₂
    exact h.apart tx₁ tx₂ t₁ t₂ ht₁ ht₂ n₁ hn₁ n₂ hn₂ hsame

theorem Index.put (h : Index s) (ht : t'.aborted = false → s.Live tx t ∧
    t'.inserted = t.inserted ∧ Grows t t') : Index (s.put tx t') := by
  refine h.grow rfl rfl fun tx₀ t₀ hlive => .inr ?_
  rcases Sessions.txs_put hlive.1 with ⟨rfl, rfl⟩ | ⟨-, ht₀⟩
  · exact ⟨t, ht hlive.2⟩
  · exact ⟨t₀, ⟨ht₀, hlive.2⟩, rfl, Grows.refl t₀⟩

theorem Index.close (h : Index s) : Index (s.close tx) :=
  h.grow rfl rfl fun _ t₀ hlive =>
    .inr ⟨t₀, ⟨(Sessions.txs_close hlive.1).2, hlive.2⟩, rfl, Grows.refl t₀⟩

theorem Index.insert (h : Index s) {draft : Draft} (hlive : s.Live tx t)
    (hadmits : s.Admits t draft) : Index
      { s.put tx { t with inserted := { draft with id := s.nextID } :: t.inserted } with
        nextID := s.nextID + 1 } := by
  have hold : ∀ {tx₀ t₀ n}, (s.put tx { t with
      inserted := { draft with id := s.nextID } :: t.inserted }).Live tx₀ t₀ → n ∈ t₀.inserted →
      (tx₀ = tx ∧ n = { draft with id := s.nextID } ∧ t₀.deleted = t.deleted ∧
        ∀ r, (t₀.settle r).Live ↔ (t.settle r).Live) ∨
      ∃ t₁, s.Live tx₀ t₁ ∧ n ∈ t₁.inserted ∧ t₀.deleted = t₁.deleted ∧
        ∀ r, (t₀.settle r).Live ↔ (t₁.settle r).Live := by
    intro tx₀ t₀ n ht₀ hn
    rcases Sessions.txs_put ht₀.1 with ⟨rfl, rfl⟩ | ⟨-, hother⟩
    · rcases mem_cons.1 hn with rfl | hn
      · exact .inl ⟨rfl, rfl, rfl, fun _ => Iff.rfl⟩
      · exact .inr ⟨t, hlive, hn, rfl, fun _ => Iff.rfl⟩
    · exact .inr ⟨t₀, ⟨hother, ht₀.2⟩, hn, rfl, fun _ => Iff.rfl⟩
  have hfresh : ∀ {tx₁ t₁ n}, s.Live tx₁ t₁ → n ∈ t₁.inserted → ¬ (n.id = s.nextID ∨
      n.cancelHash = draft.cancelHash ∨ n.userID = draft.userID) := by
    rintro tx₁ t₁ n ht₁ hn (hid | hcancel | huser)
    · exact absurd (h.drawn tx₁ t₁ ht₁ n hn).1 (by omega)
    · exact (hadmits.pending tx₁ t₁ ht₁ n hn).1 (.inr hcancel)
    · exact (hadmits.pending tx₁ t₁ ht₁ n hn).2 huser
  refine ⟨fun r hr => Nat.lt_succ_of_lt (h.below r hr), h.ids, h.cancels, h.oneLive, ?_, ?_, ?_⟩
  · intro tx₀ t₀ ht₀ n hn
    rcases hold ht₀ hn with ⟨-, rfl, -⟩ | ⟨t₁, ht₁, hn, -⟩
    · exact ⟨Nat.lt_succ_self _, fun r hr => Nat.ne_of_lt (h.below r hr)⟩
    · exact ⟨Nat.lt_succ_of_lt (h.drawn tx₀ t₁ ht₁ n hn).1, (h.drawn tx₀ t₁ ht₁ n hn).2⟩
  · intro tx₀ t₀ ht₀ n hn r hr hkept
    rcases hold ht₀ hn with ⟨-, rfl, hdeleted, hsettle⟩ | ⟨t₁, ht₁, hn, hdeleted, hsettle⟩
    · rw [hdeleted] at hkept
      obtain ⟨hclash, huser⟩ := hadmits.committed r hr hkept
      exact ⟨fun heq => hclash (.inr heq), fun heq hlive => huser heq ((hsettle r).1 hlive)⟩
    · rw [hdeleted] at hkept
      rw [hsettle]
      exact h.pending tx₀ t₁ ht₁ n hn r hr hkept
  · intro tx₁ tx₂ t₁ t₂ ht₁ ht₂ n₁ hn₁ n₂ hn₂ hsame
    rcases hold ht₁ hn₁ with ⟨rfl, rfl, -⟩ | ⟨u₁, hu₁, hn₁, -⟩ <;>
      rcases hold ht₂ hn₂ with ⟨rfl, rfl, -⟩ | ⟨u₂, hu₂, hn₂, -⟩
    · exact ⟨rfl, rfl⟩
    · exact absurd (hsame.imp Eq.symm (Or.imp Eq.symm Eq.symm)) (hfresh hu₂ hn₂)
    · exact absurd hsame (hfresh hu₁ hn₁)
    · exact h.apart tx₁ tx₂ u₁ u₂ hu₁ hu₂ n₁ hn₁ n₂ hn₂ hsame

theorem Index.commit (h : Index s) (hlocks : Locks s) (hlive : s.Live tx t) :
    Index (s.commit tx t) := by
  have hold : ∀ {tx₀ t₀}, (s.commit tx t).Live tx₀ t₀ → tx₀ ≠ tx ∧ s.Live tx₀ t₀ := fun hlive₀ =>
    ⟨(Sessions.txs_close hlive₀.1).1, (Sessions.txs_close hlive₀.1).2, hlive₀.2⟩
  have hrows : ∀ {r}, r ∈ (s.commit tx t).rows →
      (∃ r₀ ∈ s.rows, r₀ ∉ t.deleted ∧ r = t.settle r₀) ∨ r ∈ t.inserted := fun hr =>
    (mem_commit.1 hr).imp_left fun ⟨r₀, hr₀, hkept, heq⟩ => ⟨r₀, hr₀, hkept, heq.symm⟩
  refine ⟨?_, ?_, ?_, ?_, ?_, ?_, ?_⟩
  · intro r hr
    rcases hrows hr with ⟨r₀, hr₀, -, rfl⟩ | hr
    · exact h.below r₀ hr₀
    · exact (h.drawn tx t hlive r hr).1
  · intro r hr r' hr' hid
    rcases hrows hr with ⟨r₀, hr₀, -, rfl⟩ | hr <;> rcases hrows hr' with ⟨r₀', hr₀', -, rfl⟩ | hr'
    · rw [h.ids r₀ hr₀ r₀' hr₀' hid]
    · exact absurd hid ((h.drawn tx t hlive r' hr').2 r₀ hr₀)
    · exact absurd hid.symm ((h.drawn tx t hlive r hr).2 r₀' hr₀')
    · exact (h.apart tx tx t t hlive hlive r hr r' hr' (.inl hid)).2
  · intro r hr r' hr' hsame
    rcases hrows hr with ⟨r₀, hr₀, hkept, rfl⟩ | hr <;>
      rcases hrows hr' with ⟨r₀', hr₀', hkept', rfl⟩ | hr'
    · rw [h.cancels r₀ hr₀ r₀' hr₀' hsame]
    · exact absurd hsame (h.pending tx t hlive r' hr' r₀ hr₀ hkept).1
    · exact absurd hsame.symm (h.pending tx t hlive r hr r₀' hr₀' hkept').1
    · exact (h.apart tx tx t t hlive hlive r hr r' hr' (.inr (.inl hsame))).2
  · intro r hr r' hr' hl hl' huser
    rcases hrows hr with ⟨r₀, hr₀, hkept, rfl⟩ | hr <;>
      rcases hrows hr' with ⟨r₀', hr₀', hkept', rfl⟩ | hr'
    · rw [h.oneLive r₀ hr₀ r₀' hr₀' (settle_live.1 hl).1 (settle_live.1 hl').1 huser]
    · exact absurd hl ((h.pending tx t hlive r' hr' r₀ hr₀ hkept).2 huser)
    · exact absurd hl' ((h.pending tx t hlive r hr r₀' hr₀' hkept').2 huser.symm)
    · exact (h.apart tx tx t t hlive hlive r hr r' hr' (.inr (.inr huser))).2
  · intro tx₀ t₀ ht₀ n hn
    obtain ⟨hne, ht₀⟩ := hold ht₀
    refine ⟨(h.drawn tx₀ t₀ ht₀ n hn).1, fun r hr hid => ?_⟩
    rcases hrows hr with ⟨r₀, hr₀, -, rfl⟩ | hr
    · exact (h.drawn tx₀ t₀ ht₀ n hn).2 r₀ hr₀ hid
    · exact hne (h.apart tx₀ tx t₀ t ht₀ hlive n hn r hr (.inl hid.symm)).1
  · intro tx₀ t₀ ht₀ n hn r hr hkept₀
    obtain ⟨hne, ht₀⟩ := hold ht₀
    rcases hrows hr with ⟨r₀, hr₀, -, rfl⟩ | hr
    · -- What the other transaction has deleted this one has left alone.
      have hkept : r₀ ∉ t₀.deleted := fun hgone => by
        have hlocked := hlocks.marked tx₀ t₀ ht₀ r₀ (.inr (.inr hgone))
        rw [settle_unmarked (hlocks.unmarked hlive ht₀ hne hlocked)] at hkept₀
        exact hkept₀ hgone
      obtain ⟨hcancel, huser⟩ := h.pending tx₀ t₀ ht₀ n hn r₀ hr₀ hkept
      refine ⟨hcancel, fun heq hsettled => huser heq ?_⟩
      obtain ⟨hl, hcancelled, hconsumed⟩ := settle_live.1 hsettled
      obtain ⟨hl₀, hncancelled, hnconsumed⟩ := settle_live.1 hl
      have hsame : t.settle r₀ = r₀ := by simp [Txn.settle, hncancelled, hnconsumed]
      rw [hsame] at hcancelled hconsumed
      exact settle_live.2 ⟨hl₀, hcancelled, hconsumed⟩
    · have hapart := fun hsame => hne (h.apart tx₀ tx t₀ t ht₀ hlive n hn r hr hsame).1
      exact ⟨fun heq => hapart (.inr (.inl heq.symm)),
        fun heq => (hapart (.inr (.inr heq.symm))).elim⟩
  · intro tx₁ tx₂ t₁ t₂ ht₁ ht₂ n₁ hn₁ n₂ hn₂ hsame
    exact h.apart tx₁ tx₂ t₁ t₂ (hold ht₁).2 (hold ht₂).2 n₁ hn₁ n₂ hn₂ hsame

theorem Index.moves {o : Option Op} (h : Index s) (hlocks : Locks s) (hmoves : Moves s o s') :
    Index s' := by
  cases hmoves with
  | same => exact h
  | opened =>
    refine h.grow rfl rfl fun tx t hlive => ?_
    rcases Sessions.txs_start hlive.1 with ⟨-, rfl⟩ | ⟨-, ht⟩
    · exact .inl rfl
    · exact .inr ⟨t, ⟨ht, hlive.2⟩, rfl, Grows.refl t⟩
  | aborted tx t ht => exact h.put (t := t) fun hlive => nomatch hlive
  | taken tx t t' rows htakes =>
    exact h.put fun _ => ⟨htakes.live, htakes.inserted, htakes.grows⟩
  | inserted tx t draft hlive hadmits => exact h.insert hlive hadmits
  | hashed tx t userID newHash hlive =>
    exact h.put fun _ => ⟨hlive, rfl, { Grows.refl t with }⟩
  | closed => exact h.close
  | committed tx t hlive => exact h.commit hlocks hlive

/-- No request with this identifier is live, and none will be. -/
structure Over (id : ℕ) (s : Store) : Prop where
  drawn : id < s.nextID
  dead : ∀ r ∈ s.rows, r.id = id → ¬ r.Live
  pending : ∀ tx t, s.Live tx t → ∀ n ∈ t.inserted, n.id ≠ id

theorem Over.put {id : ℕ} (h : Over id s) (ht : t'.aborted = false → s.Live tx t ∧
    t'.inserted = t.inserted) : Over id (s.put tx t') := by
  refine ⟨h.drawn, h.dead, fun tx₀ t₀ hlive n hn => ?_⟩
  rcases Sessions.txs_put hlive.1 with ⟨rfl, rfl⟩ | ⟨-, ht₀⟩
  · obtain ⟨hlive, hsame⟩ := ht hlive.2
    exact h.pending tx₀ t hlive n (hsame ▸ hn)
  · exact h.pending tx₀ t₀ ⟨ht₀, hlive.2⟩ n hn

theorem Over.close {id : ℕ} (h : Over id s) : Over id (s.close tx) :=
  ⟨h.drawn, h.dead, fun tx₀ t₀ hlive =>
    h.pending tx₀ t₀ ⟨(Sessions.txs_close hlive.1).2, hlive.2⟩⟩

theorem Over.moves {o : Option Op} {id : ℕ} (h : Over id s) (hmoves : Moves s o s') :
    Over id s' := by
  cases hmoves with
  | same => exact h
  | opened =>
    refine ⟨h.drawn, h.dead, fun tx t hlive n hn => ?_⟩
    rcases Sessions.txs_start hlive.1 with ⟨-, rfl⟩ | ⟨-, ht⟩
    · exact absurd hn not_mem_nil
    · exact h.pending tx t ⟨ht, hlive.2⟩ n hn
  | aborted tx t ht => exact h.put (t := t) fun hlive => nomatch hlive
  | taken tx t t' rows htakes => exact h.put fun _ => ⟨htakes.live, htakes.inserted⟩
  | inserted tx t draft hlive _ =>
    refine ⟨Nat.lt_succ_of_lt h.drawn, h.dead, fun tx₀ t₀ ht₀ n hn => ?_⟩
    rcases Sessions.txs_put ht₀.1 with ⟨rfl, rfl⟩ | ⟨-, hother⟩
    · rcases mem_cons.1 hn with rfl | hn
      · exact Nat.ne_of_gt h.drawn
      · exact h.pending tx₀ t hlive n hn
    · exact h.pending tx₀ t₀ ⟨hother, ht₀.2⟩ n hn
  | hashed tx t userID newHash hlive => exact h.put fun _ => ⟨hlive, rfl⟩
  | closed => exact h.close
  | committed tx t hlive =>
    refine ⟨h.drawn, fun r hr hid hl => ?_, h.close.pending⟩
    rcases mem_commit.1 hr with ⟨r₀, hr₀, -, rfl⟩ | hn
    · exact h.dead r₀ hr₀ hid (settle_live.1 hl).1
    · exact h.pending tx t hlive r hn hid

theorem Index.over (h : Index s) (hlive : s.Live tx t) (hr : r ∈ s.rows)
    (hends : r ∉ t.deleted → ¬ (t.settle r).Live) : Over r.id (s.commit tx t) := by
  refine ⟨h.below r hr, fun r' hr' hid hl => ?_, fun tx₀ t₀ ht₀ n hn hid => ?_⟩
  · rcases mem_commit.1 hr' with ⟨r₀, hr₀, hkept, rfl⟩ | hn
    · obtain rfl := h.ids r₀ hr₀ r hr hid
      exact hends hkept hl
    · exact (h.drawn tx t hlive r' hn).2 r hr hid.symm
  · exact (h.drawn tx₀ t₀ ⟨(Sessions.txs_close ht₀.1).2, ht₀.2⟩ n hn).2 r hr hid.symm

theorem Moves.rows {o : Option Op} (hmoves : Moves s o s') (hr : r ∈ s'.rows) :
    (∃ r₀ ∈ s.rows, r.toDraft = r₀.toDraft ∧ r.id = r₀.id) ∨
      ∃ tx t, s.Live tx t ∧ r ∈ t.inserted := by
  cases hmoves with
  | committed tx t hlive =>
    rcases mem_commit.1 hr with ⟨r₀, hr₀, -, rfl⟩ | hn
    · exact .inl ⟨r₀, hr₀, rfl, rfl⟩
    · exact .inr ⟨tx, t, hlive, hn⟩
  | same | opened | aborted | taken | inserted | hashed | closed => exact .inl ⟨r, hr, rfl, rfl⟩

/-- What an open transaction has inserted, and that it has set a password, is from its own
statements. -/
theorem Moves.own {o : Option Op} (hmoves : Moves s o s') (hlive' : s'.Live tx t') :
    (∃ t, s.Live tx t ∧
      (t'.inserted = t.inserted ∨ ∃ draft, o = some (.insert tx draft) ∧
        t'.inserted = { draft with id := s.nextID } :: t.inserted) ∧
      (t'.passwords = t.passwords ∨ ∃ userID newHash, o = some (.setPassword tx userID newHash))) ∨
    t' = {} := by
  cases hmoves with
  | same => exact .inl ⟨t', hlive', .inl rfl, .inl rfl⟩
  | opened =>
    rcases Sessions.txs_start hlive'.1 with ⟨-, rfl⟩ | ⟨-, ht⟩
    · exact .inr rfl
    · exact .inl ⟨t', ⟨ht, hlive'.2⟩, .inl rfl, .inl rfl⟩
  | aborted tx₀ t₀ ht₀ =>
    rcases Sessions.txs_put hlive'.1 with ⟨rfl, rfl⟩ | ⟨-, ht⟩
    · exact nomatch hlive'.2
    · exact .inl ⟨t', ⟨ht, hlive'.2⟩, .inl rfl, .inl rfl⟩
  | taken tx₀ t₀ t₁ rows htakes =>
    rcases Sessions.txs_put hlive'.1 with ⟨rfl, rfl⟩ | ⟨-, ht⟩
    · exact .inl ⟨t₀, htakes.live, .inl htakes.inserted, .inl htakes.passwords⟩
    · exact .inl ⟨t', ⟨ht, hlive'.2⟩, .inl rfl, .inl rfl⟩
  | inserted tx₀ t₀ draft hlive _ =>
    rcases Sessions.txs_put hlive'.1 with ⟨rfl, rfl⟩ | ⟨-, ht⟩
    · exact .inl ⟨t₀, hlive, .inr ⟨draft, rfl, rfl⟩, .inl rfl⟩
    · exact .inl ⟨t', ⟨ht, hlive'.2⟩, .inl rfl, .inl rfl⟩
  | hashed tx₀ t₀ userID newHash hlive =>
    rcases Sessions.txs_put hlive'.1 with ⟨rfl, rfl⟩ | ⟨-, ht⟩
    · exact .inl ⟨t₀, hlive, .inl rfl, .inr ⟨userID, newHash, rfl⟩⟩
    · exact .inl ⟨t', ⟨ht, hlive'.2⟩, .inl rfl, .inl rfl⟩
  | closed | committed =>
    exact .inl ⟨t', ⟨(Sessions.txs_close hlive'.1).2, hlive'.2⟩, .inl rfl, .inl rfl⟩

theorem Moves.passwords {o : Option Op} (hmoves : Moves s o s')
    (hchanged : s'.passwords ≠ s.passwords) :
    ∃ tx t, o = some (.commit tx) ∧ s.Live tx t ∧ t.passwords ≠ [] := by
  cases hmoves with
  | committed tx t hlive =>
    refine ⟨tx, t, rfl, hlive, fun hnone => hchanged ?_⟩
    funext userID
    change s.replaced t userID = _
    rw [Store.replaced, hnone]
    rfl
  | same | opened | aborted | taken | inserted | hashed | closed => exact absurd rfl hchanged

end

section

variable {s s' : Store} {tx : ℕ} {t : Txn} {es : List Ev} {k : ℕ} {o : Op} {res : Res o}
  {P : Txn → Prop} {depth : ℕ} {passwords : String → Option String} {w : World} {row : Row}

/-- The number that a statement opens a transaction with. -/
def opens : (o : Op) → Res o → Option ℕ
  | .begin, r => r
  | _, _ => none

/-- What a transaction has come to satisfy by a statement. -/
inductive Gains : (o : Op) → Res o → ℕ → (Txn → Prop) → Prop
  | lookup {tx : ℕ} {tokenHash : String} {row : Row} : row.Live →
      Gains (.lookup tx tokenHash) (some (some row)) tx fun t =>
        t.aborted = false → row ∈ t.locked ∧ row.tokenHash = tokenHash
  | cancel {tx : ℕ} {cancelHash userID : String} :
      Gains (.cancel tx cancelHash) (some (some userID)) tx fun t =>
        t.aborted = false → ∃ r ∈ t.cancelled, r.cancelHash = cancelHash
  | consume {tx id : ℕ} : Gains (.consume tx id) (some true) tx fun t =>
    t.aborted = false → ∃ r ∈ t.consumed, r.id = id
  | insert {tx id : ℕ} {draft : Draft} : Gains (.insert tx draft) (some id) tx fun t =>
    t.aborted = false → ∃ n ∈ t.inserted, n.toDraft = draft

theorem Gains.grows {t' : Txn} (h : Gains o res tx P) (hgrows : Grows t t') (ht : P t) : P t' := by
  cases h with
  | lookup hlive =>
    intro haborted
    obtain ⟨hlocked, htoken⟩ := ht (hgrows.aborted haborted)
    exact ⟨hgrows.locked hlocked, htoken⟩
  | cancel =>
    intro haborted
    obtain ⟨r, hr, hcancel⟩ := ht (hgrows.aborted haborted)
    exact ⟨r, hgrows.cancelled hr, hcancel⟩
  | consume =>
    intro haborted
    obtain ⟨r, hr, hid⟩ := ht (hgrows.aborted haborted)
    exact ⟨r, hgrows.consumed hr, hid⟩
  | insert =>
    intro haborted
    obtain ⟨n, hn, hdraft⟩ := ht (hgrows.aborted haborted)
    exact ⟨n, hgrows.inserted hn, hdraft⟩

theorem mem_matching {seen : Row → Bool} {p : Row → Prop} [DecidablePred p] :
    row ∈ s.matching t seen p ↔
      row ∈ s.rows ∧ seen row = true ∧ row ∉ t.deleted ∧ p (t.settle row) := by
  simp [Store.matching]

theorem Gains.retains (h : Gains o res tx P) (hexec : Exec s o res s')
    (htx : tx < s.sessions.next) : s'.sessions.Retains P tx := by
  cases h with
  | lookup hl =>
    rcases hexec with ⟨hr, -⟩ | ⟨t, seen, hlive, hfree, hr, rfl⟩
    · cases hr
    · refine Sessions.retains_put htx fun _ => ?_
      obtain ⟨r, hhead, rfl⟩ := Option.map_eq_some_iff.1 (Option.some.inj hr).symm
      have hr := mem_of_head? hhead
      obtain ⟨-, hcancelled, hconsumed⟩ := settle_live.1 hl
      have hsame : t.settle r = r := by simp [Txn.settle, hcancelled, hconsumed]
      have htoken : (t.settle r).tokenHash = _ := (mem_matching.1 hr).2.2.2
      exact ⟨mem_append_left _ (hsame.symm ▸ hr), htoken⟩
  | cancel =>
    rcases hexec with ⟨hr, -⟩ | ⟨t, seen, hlive, hfree, hr, rfl⟩
    · cases hr
    · refine Sessions.retains_put htx fun _ => ?_
      obtain ⟨r, hhead, -⟩ := Option.map_eq_some_iff.1 (Option.some.inj hr).symm
      have hr := mem_of_head? hhead
      exact ⟨r, mem_append_left _ hr, (mem_matching.1 hr).2.2.2.1⟩
  | consume =>
    rcases hexec with ⟨hr, -⟩ | ⟨t, seen, hlive, hfree, hr, rfl⟩
    · cases hr
    · refine Sessions.retains_put htx fun _ => ?_
      have hsome := of_decide_eq_true (Option.some.inj hr).symm
      obtain ⟨r, hr⟩ := exists_mem_of_ne_nil _ hsome
      exact ⟨r, mem_append_left _ hr, (mem_matching.1 hr).2.2.2.1⟩
  | insert =>
    rcases hexec with ⟨hr, -⟩ | ⟨-, t, hlive, -, rfl⟩
    · cases hr
    · exact Sessions.retains_put htx fun _ => ⟨_, mem_cons_self, rfl⟩

structure Inv (es : List Ev) (s : Store) : Prop where
  locks : Locks s
  index : Index s
  numbered : Numbered opens es s.sessions.next
  gained : ∀ k o r tx P, .ran k o r ∈ es → Gains o r tx P → s.sessions.Retains P tx
  created : ∀ r ∈ s.rows, Created es r
  drafted : ∀ tx t, s.Live tx t → ∀ n ∈ t.inserted, Created es n
  hashed : ∀ tx t, s.Live tx t → t.passwords ≠ [] →
    ∃ j id, .ran j .begin (some tx) ∈ es ∧ .ran j (.consume tx id) (some true) ∈ es

theorem inv_start : Inv [] { passwords } where
  locks := ⟨Sessions.exclusive_empty, fun _ _ h => (nomatch h.1), fun _ _ h => nomatch h.1⟩
  index := ⟨fun _ h => (nomatch h), fun _ h => (nomatch h), fun _ h => (nomatch h),
    fun _ h => (nomatch h), fun _ _ h => (nomatch h.1), fun _ _ h => (nomatch h.1),
    fun _ _ _ _ h => nomatch h.1⟩
  numbered := ⟨fun _ _ _ _ h => absurd h not_mem_nil, fun _ _ _ _ _ _ _ h => absurd h not_mem_nil⟩
  gained _ _ _ _ _ h := absurd h not_mem_nil
  created _ h := nomatch h
  drafted _ _ h := nomatch h.1
  hashed _ _ h := nomatch h.1

theorem Created.append {es' : List Ev} (h : Created es row) : Created (es ++ es') row := by
  obtain ⟨j, tx, now, hnow, hinsert, hdelay⟩ := h
  exact ⟨j, tx, now, mem_append_left _ hnow, mem_append_left _ hinsert, hdelay⟩

theorem draft_delayed {n : NewRequest} {now : ℤ} (h : (n.draft now).waivedBy = none) :
    micros now + micros recoveryDelay ≤ (n.draft now).effectiveAt := by
  have hwaived : n.waivedBy = "" := by
    by_contra hne
    rw [NewRequest.draft] at h
    simp [hne] at h
  simp only [NewRequest.draft, if_pos hwaived]
  have hdelay : recoveryDelay = 1800000000000 := rfl
  unfold micros
  omega

theorem before_of {next : Res o → Handler Answer} {c : Req}
    (hreach : (handle depth c).Reaches (own k es) (.stmt o next)) : Before c (own k es) o := by
  have hholds : Holds (fun _ _ => True) (Before c) (fun _ _ => True) (own k es) (.stmt o next) :=
    (handle_leads depth c).reaches hreach fun _ _ => trivial
  exact hholds.1

theorem Inv.ran {next : Res o → Handler Answer} (hinv : Inv es s)
    (hbegun : Begun (handle depth) es k (.stmt o next)) (hexec : Exec s o res s') :
    Inv (es ++ [Event.ran k o res]) s' := by
  have hmoves := hexec.moves
  obtain ⟨c, hc, hreach⟩ := hbegun
  have hbefore := before_of hreach
  have hkept : ∀ {j : ℕ} {o' : Op} {r' : Res o'}, .ran j o' r' ∈ es →
      .ran j o' r' ∈ es ++ [Event.ran k o res] := fun h => mem_append_left _ h
  refine ⟨hinv.locks.moves hmoves, hinv.index.moves hinv.locks hmoves,
    hinv.numbered.snoc hmoves.next fun k' o' r' tx heq htx => ?_, fun j o' r' tx P hmem hgains => ?_,
    fun r hr => ?_, fun tx t' hlive' n hn => ?_, fun tx t' hlive' hset => ?_⟩
  · cases heq
    cases o with
    | begin =>
      rcases hexec with ⟨rfl, -⟩ | ⟨rfl, rfl⟩
      · cases htx
      · cases htx
        exact ⟨rfl, Nat.lt_succ_self _⟩
    | now | supersede | insert | lookup | cancel | plan | history | identity | checkPolicy
    | retire | hash | consume | setPassword | terminate | audit | purge | commit
    | rollback => cases htx
  · rcases mem_append.1 hmem with hmem | hmem
    · exact hmoves.retains (fun _ _ => hgains.grows) (hinv.gained j o' r' tx P hmem hgains)
    · cases mem_singleton.1 hmem
      refine hgains.retains hexec (hinv.numbered.below k .begin (some tx) tx (mem_own.1 ?_) rfl)
      cases hgains with
      | lookup | cancel => exact hbefore
      | consume | insert => exact hbefore.1
  · rcases hmoves.rows hr with ⟨r₀, hr₀, hdraft, hid⟩ | ⟨tx, t, hlive, hn⟩
    · obtain ⟨j, tx, now, hnow, hinsert, hdelay⟩ := hinv.created r₀ hr₀
      exact ⟨j, tx, now, hkept hnow, hkept (by rwa [hdraft, hid]), by rwa [hdraft]⟩
    · exact (hinv.drafted tx t hlive r hn).append
  · rcases hmoves.own hlive' with ⟨t, hlive, hinserted, -⟩ | rfl
    · rcases hinserted with hsame | ⟨draft, heq, hcons⟩
      · exact (hinv.drafted tx t hlive n (hsame ▸ hn)).append
      · cases heq
        rw [hcons] at hn
        rcases mem_cons.1 hn with rfl | hn
        · obtain ⟨-, q, now, -, hnow, rfl⟩ := hbefore
          rcases hexec with ⟨-, hfails⟩ | ⟨rfl, -⟩
          · -- A statement that fails inserts nothing.
            rcases (hfails.moves none).own hlive' with ⟨t₁, hlive₁, hsame | ⟨_, heq, -⟩, -⟩ | rfl
            · obtain rfl : t = t₁ := Option.some.inj (hlive.1.symm.trans hlive₁.1)
              exact absurd (hcons.symm.trans hsame) (cons_ne_self _ _)
            · cases heq
            · cases hcons
          · exact ⟨k, tx, now, hkept (mem_own.1 hnow),
              mem_append_right _ (mem_singleton_self _), draft_delayed⟩
        · exact (hinv.drafted tx t hlive n hn).append
    · exact absurd hn not_mem_nil
  · rcases hmoves.own hlive' with ⟨t, hlive, -, hpasswords⟩ | rfl
    · rcases hpasswords with hsame | ⟨userID, newHash, heq⟩
      · obtain ⟨j, id, hbegin, hconsume⟩ := hinv.hashed tx t hlive (hsame ▸ hset)
        exact ⟨j, id, hkept hbegin, hkept hconsume⟩
      · cases heq
        obtain ⟨hbegin, id, hconsume⟩ := hbefore
        exact ⟨k, id, hkept (mem_own.1 hbegin), hkept (mem_own.1 hconsume)⟩
    · exact absurd rfl hset

theorem Inv.other (hinv : Inv es s) (hmoves : Moves s none s') {e : Ev}
    (he : ∀ k o r, e ≠ .ran k o r) : Inv (es ++ [e]) s' := by
  have hmem : ∀ {k : ℕ} {o : Op} {r : Res o}, .ran k o r ∈ es ++ [e] → .ran k o r ∈ es := by
    intro k o r hran
    rcases mem_append.1 hran with hran | hran
    · exact hran
    · exact absurd (mem_singleton.1 hran).symm (he k o r)
  refine ⟨hinv.locks.moves hmoves, hinv.index.moves hinv.locks hmoves,
    hinv.numbered.snoc hmoves.next fun k o r tx heq _ => absurd heq (he k o r),
    fun j o r tx P hran hgains =>
      hmoves.retains (fun _ _ => hgains.grows) (hinv.gained j o r tx P (hmem hran) hgains),
    fun r hr => ?_, fun tx t' hlive' n hn => ?_, fun tx t' hlive' hset => ?_⟩
  · rcases hmoves.rows hr with ⟨r₀, hr₀, hdraft, hid⟩ | ⟨tx, t, hlive, hn⟩
    · obtain ⟨j, tx, now, hnow, hinsert, hdelay⟩ := hinv.created r₀ hr₀
      exact ⟨j, tx, now, mem_append_left _ hnow,
        mem_append_left _ (by rwa [hdraft, hid]), by rwa [hdraft]⟩
    · exact (hinv.drafted tx t hlive r hn).append
  · rcases hmoves.own hlive' with ⟨t, hlive, hsame | ⟨_, heq, -⟩, -⟩ | rfl
    · exact (hinv.drafted tx t hlive n (hsame ▸ hn)).append
    · cases heq
    · exact absurd hn not_mem_nil
  · rcases hmoves.own hlive' with ⟨t, hlive, -, hsame | ⟨_, _, heq⟩⟩ | rfl
    · obtain ⟨j, id, hbegin, hconsume⟩ := hinv.hashed tx t hlive (hsame ▸ hset)
      exact ⟨j, id, mem_append_left _ hbegin, mem_append_left _ hconsume⟩
    · cases heq
    · exact absurd rfl hset

theorem recoveryRun_inv (hrun : RecoveryRun depth passwords es w) : Inv es w.state := by
  refine Run.tables hrun inv_start (fun hinv => ?_)
    (fun hinv hbegun hexec => hinv.ran hbegun hexec) (fun hinv => ?_) (fun hinv hchange => ?_)
  · exact hinv.other .same fun _ _ _ h => nomatch h
  · exact hinv.other .same fun _ _ _ h => nomatch h
  · exact hinv.other hchange.moves fun _ _ _ h => nomatch h

theorem own_subset {hs : List Ev} (h : hs ⊆ es) : own k hs ⊆ own k es := fun _ hx =>
  mem_own.2 (h (mem_own.1 hx))

theorem Inv.resets (hinv : Inv es w.state) (hrun : RecoveryRun depth passwords es w) {id : ℕ}
    (hlive : w.state.Live tx t) (hconsume : .ran k (.consume tx id) (some true) ∈ es) :
    ∃ row ∈ w.state.rows, row.id = id ∧ row ∈ t.consumed ∧ row.Live ∧
      (∃ password, .began k (.reset (some row.tokenHash) password) ∈ es) ∧
      ∃ now, .ran k .now now ∈ es ∧ row.effectiveAt * 1000 ≤ now ∧ now ≤ row.expiresAt * 1000 := by
  obtain ⟨hs, next, hsub, c, hc, hreach⟩ := Run.stated hrun hconsume
  obtain ⟨-, tokenHash, password, now, row, rfl, hnow, hlookup, hid, hjudge⟩ := before_of hreach
  obtain ⟨-, hl, heffective, hexpires⟩ := judge_found hjudge
  have hlooked := mem_own.1 (own_subset hsub hlookup)
  obtain ⟨hlocked, htoken⟩ := (hinv.gained k _ _ tx _ hlooked (.lookup hl)).kept t hlive.1 hlive.2
  obtain ⟨r, hr, hrid⟩ := (hinv.gained k _ _ tx _ hconsume .consume).kept t hlive.1 hlive.2
  have hrow := hinv.locks.rows tx t hlive row hlocked
  have hmarked := hinv.locks.marked tx t hlive r (.inr (.inl hr))
  obtain rfl := hinv.index.ids r (hinv.locks.rows tx t hlive r hmarked) row hrow
    (hrid.trans hid.symm)
  exact ⟨r, hrow, hid, hr, hl, ⟨password, htoken ▸ hsub hc⟩, now,
    mem_own.1 (own_subset hsub hnow), heffective, hexpires⟩

theorem commit_step {res : Commit} {w' : World} (hrun : RecoveryRun depth passwords es w)
    (hstep : Moving depth w (.ran k (.commit tx) res) w') (hres : res.happened = true) :
    ∃ t, w.state.Live tx t ∧ w'.state = w.state.commit tx t ∧
      ∃ c, .began k c ∈ es ∧ Before c (own k es) (.commit tx) := by
  cases hstep with
  | ran hk hexec =>
    obtain ⟨c, hc, hreach⟩ := (Run.booked hrun).begun k _ hk
    rcases hexec with ⟨-, t, hlive, hcommit⟩ | ⟨hno, -⟩
    · exact ⟨t, hlive, hcommit, c, hc, before_of hreach⟩
    · exact absurd (hno.symm.trans hres) Bool.false_ne_true

theorem resetAt_over {e : Ev} {w' : World} {id : ℕ} (hrun : RecoveryRun depth passwords es w)
    (hstep : Moving depth w e w') (hreset : ResetAt es e k id) : Over id w'.state := by
  obtain ⟨tx, res, rfl, hres, hconsume⟩ := hreset
  have hinv := recoveryRun_inv hrun
  obtain ⟨t, hlive, hcommit, -⟩ := commit_step hrun hstep hres
  obtain ⟨row, hrow, rfl, hconsumed, -⟩ := hinv.resets hrun hlive hconsume
  rw [hcommit]
  exact hinv.index.over hlive hrow fun _ hl => (settle_live.1 hl).2.2 hconsumed

theorem endsAt_over {e : Ev} {w' : World} {id : ℕ} (hrun : RecoveryRun depth passwords es w)
    (hstep : Moving depth w e w') (hends : EndsAt es w.state e id) : Over id w'.state := by
  obtain ⟨j, tx, res, rfl, hres, row, hrow, rfl, hwhy⟩ := hends
  have hinv := recoveryRun_inv hrun
  obtain ⟨t, hlive, hcommit, c, hc, -, hrecover, hcancel⟩ := commit_step hrun hstep hres
  rw [hcommit]
  refine hinv.index.over hlive hrow fun hkept hl => ?_
  rcases hwhy with hbegan | ⟨q, hbegan, huser⟩
  · have hsame := (Run.booked hrun).once j _ _ hc hbegan
    obtain ⟨userID, hran⟩ := hcancel _ hsame
    obtain ⟨r, hr, hhash⟩ :=
      (hinv.gained j _ _ tx _ (mem_own.1 hran) .cancel).kept t hlive.1 hlive.2
    have hmarked := hinv.locks.marked tx t hlive r (.inl hr)
    obtain rfl := hinv.index.cancels r (hinv.locks.rows tx t hlive r hmarked) row hrow hhash
    exact (settle_live.1 hl).2.1 hr
  · have hsame := (Run.booked hrun).once j _ _ hc hbegan
    obtain ⟨now, id, hran⟩ := hrecover q hsame
    obtain ⟨n, hn, hdraft⟩ :=
      (hinv.gained j _ _ tx _ (mem_own.1 hran) .insert).kept t hlive.1 hlive.2
    refine (hinv.index.pending tx t hlive n hn row hrow hkept).2 ?_ hl
    rw [hdraft]
    exact huser.symm

theorem changed_by_reset {e : Ev} {w' : World} (hrun : RecoveryRun depth passwords es w)
    (hstep : Moving depth w e w') (hchanged : w'.state.passwords ≠ w.state.passwords) :
    ∃ k id, ResetAt es e k id := by
  have hinv := recoveryRun_inv hrun
  cases hstep with
  | began c => exact absurd rfl hchanged
  | answered hk => exact absurd rfl hchanged
  | env hchange =>
    obtain ⟨_, _, heq, -⟩ := hchange.moves.passwords hchanged
    cases heq
  | @ran k o next res s hk hexec =>
    obtain ⟨tx, t, heq, hlive, hset⟩ := hexec.moves.passwords hchanged
    cases heq
    obtain ⟨j, id, hbegin, hconsume⟩ := hinv.hashed tx t hlive hset
    obtain ⟨c, hc, hreach⟩ := (Run.booked hrun).begun k _ hk
    have hown := mem_own.1 (before_of hreach).1
    obtain rfl := hinv.numbered.once j k _ _ _ _ tx hbegin hown rfl rfl
    rcases hexec with ⟨hres, -⟩ | ⟨-, hclose⟩
    · exact ⟨j, id, tx, res, rfl, hres, hconsume⟩
    · exact absurd (congrArg Store.passwords hclose) hchanged

/-- At most one request of an account is live, and one without a waiver is delayed. A password is
reset by a request that is live and in effect, and by each of them once. A request that a
cancellation or a newer request has ended resets nothing any more. -/
theorem recovery_honoured (hrun : RecoveryRun depth passwords es w) : Honoured depth es w := by
  have hinv := recoveryRun_inv hrun
  refine ⟨hinv.index.oneLive, hinv.created, fun e w' hstep => changed_by_reset hrun hstep, ?_, ?_⟩
  · rintro e w' k id hstep ⟨tx, res, rfl, hres, hconsume⟩
    obtain ⟨t, hlive, -⟩ := commit_step hrun hstep hres
    obtain ⟨row, hrow, hid, -, hl, hmade⟩ := hinv.resets hrun hlive hconsume
    exact ⟨row, hrow, hid, hl, hmade⟩
  · intro e w' id hstep hover ys u hmore e' u' k hstep' hreset
    have hended : Over id w'.state := by
      rcases hover with ⟨j, hreset⟩ | hends
      · exact resetAt_over hrun hstep hreset
      · exact endsAt_over hrun hstep hends
    have hstill : Over id u.state := Run.keeps hmore hended
      (fun hexec h => h.moves hexec.moves) (fun hchange h => h.moves hchange.moves)
    have hlater : RecoveryRun depth passwords (es ++ e :: ys) u := by
      have hjoined := (hrun.snoc hstep).append hmore
      rwa [List.append_assoc, singleton_append] at hjoined
    obtain ⟨tx, res, rfl, hres, hconsume⟩ := hreset
    obtain ⟨t, hlive, -⟩ := commit_step hlater hstep' hres
    obtain ⟨row, hrow, hid, -, hl, -⟩ := (recoveryRun_inv hlater).resets hlater hlive hconsume
    exact hstill.dead row hrow hid hl

end

def ana : NewRequest where
  userID := "ana"
  orgID := "org"
  tokenHash := "token"
  cancelHash := "cancel"

def anaRow : Row := { ana.draft 0 with id := 0 }

def anaTables : Store := { passwords := fun _ => some "old" }

def requesting : Trace Op Res :=
  [⟨.begin, some 0⟩, ⟨.now, (0 : ℤ)⟩, ⟨.supersede 0 "ana", true⟩, ⟨.insert 0 (ana.draft 0), some 0⟩,
    ⟨.audit 0 "account.recovery_requested" "ana", true⟩, ⟨.commit 0, .confirmed⟩, ⟨.rollback 0, ()⟩]

theorem request_plays : ∃ s, Plays Exec anaTables (handle 0 (.recover ana)) requesting s .sent ∧
    (∀ tx, s.sessions.txs tx = none) ∧ s.rows = [anaRow] ∧ s.sessions.next = 1 := by
  have hadmits : Store.Admits
      (Store.put { anaTables with sessions := anaTables.sessions.start {} } 0 (Txn.cancel {} []))
      (Txn.cancel {} []) (ana.draft 0) := by
    refine ⟨by decide, fun r hr => (nomatch hr), fun tx t hlive n hn => ?_⟩
    rcases Sessions.txs_put hlive.1 with ⟨-, rfl⟩ | ⟨-, ht⟩
    · exact nomatch hn
    · rcases Sessions.txs_start ht with ⟨-, rfl⟩ | ⟨-, ht⟩
      · exact nomatch hn
      · exact nomatch ht
  refine ⟨_, .stmt (.inr ⟨rfl, rfl⟩) (.stmt rfl (.stmt
    (.inr ⟨rfl, {}, fun _ => true, ⟨rfl, rfl⟩, fun r hr => (nomatch hr), rfl⟩)
    (.stmt (.inr ⟨rfl, _, ⟨rfl, rfl⟩, hadmits, rfl⟩) (.stmt (.inr ⟨rfl, rfl⟩)
    (.stmt (.inl ⟨rfl, _, ⟨rfl, rfl⟩, rfl⟩) (.stmt rfl .ret)))))), fun tx => ?_, rfl, rfl⟩
  match tx with
  | 0 => rfl
  | tx + 1 => rfl

def resetting (tx : ℕ) : Trace Op Res :=
  [⟨.begin, some tx⟩, ⟨.now, recoveryDelay⟩, ⟨.lookup tx "token", some (some anaRow)⟩,
    ⟨.plan "org", .changing⟩, ⟨.history tx "ana" 0, some []⟩, ⟨.identity tx "ana", some ""⟩,
    ⟨.checkPolicy "new" "" [], none⟩, ⟨.hash "new", some "hash"⟩, ⟨.consume tx 0, some true⟩,
    ⟨.setPassword tx "ana" "hash", true⟩, ⟨.terminate tx "ana", true⟩,
    ⟨.audit tx "account.password_reset" "ana", true⟩, ⟨.commit tx, .confirmed⟩]

def Alone (s : Store) (tx : ℕ) : Prop := ∀ tx', tx' ≠ tx → s.sessions.txs tx' = none

theorem alone_start {s : Store} (hidle : ∀ tx, s.sessions.txs tx = none) :
    Alone { s with sessions := s.sessions.start {} } s.sessions.next := fun tx htx =>
  (Function.update_of_ne htx _ _).trans (hidle tx)

theorem Alone.put {s : Store} {tx : ℕ} {t : Txn} (h : Alone s tx) : Alone (s.put tx t) tx :=
  fun tx' htx => (Function.update_of_ne htx _ _).trans (h tx' htx)

theorem Alone.free {s : Store} {tx : ℕ} (h : Alone s tx) (rows : List Row) : s.Free tx rows :=
  fun _ _ tx' _ htx ht => nomatch (h tx' htx).symm.trans ht

/-- A post half an hour after the request. -/
theorem reset_plays {s : Store} (hidle : ∀ tx, s.sessions.txs tx = none)
    (hrows : s.rows = [anaRow]) : ∃ s', Plays Exec s
      (handle 0 (.reset (some "token") "new")) (resetting s.sessions.next) s' .done := by
  obtain ⟨rows, passwords, nextID, sessions⟩ := s
  obtain rfl : rows = [anaRow] := hrows
  have hopened := alone_start hidle
  have hlive : ∀ {t : Txn} {u : Store}, t.aborted = false → (u.put sessions.next t).Live
      sessions.next t := fun haborted => ⟨Function.update_self _ _ _, haborted⟩
  exact ⟨_, .stmt (.inr ⟨rfl, rfl⟩) (.stmt rfl
    (.stmt (.inr ⟨{}, fun _ => true, hlive rfl, hopened.free _, rfl, rfl⟩)
    (.stmt rfl (.stmt (.inl rfl) (.stmt (.inl rfl) (.stmt rfl (.stmt rfl
    (.stmt (.inr ⟨_, fun _ => true, hlive rfl, hopened.put.free _, rfl, rfl⟩)
    (.stmt (.inr ⟨rfl, _, hlive rfl, rfl⟩) (.stmt (.inr ⟨rfl, rfl⟩) (.stmt (.inr ⟨rfl, rfl⟩)
    (.stmt (.inl ⟨rfl, _, hlive rfl, rfl⟩) .ret))))))))))))⟩

def delayedReset : List Ev :=
  alone 0 (Req.recover ana) requesting Answer.sent ++
    alone 1 (Req.reset (some "token") "new") (resetting 1) Answer.done

theorem delayedReset_run : ∃ w, RecoveryRun 0 (fun _ => some "old") delayedReset w := by
  obtain ⟨s, hrequest, hidle, hrows, hnext⟩ := request_plays
  obtain ⟨s', hreset⟩ := reset_plays hidle hrows
  have hstart : RecoveryRun 0 (fun _ => some "old") [] (Pool.start anaTables) := .nil
  obtain ⟨_, hrun⟩ := Plays.serve hstart hrequest
  rw [hnext] at hreset
  obtain ⟨_, hrun⟩ := Plays.serve hrun hreset
  exact ⟨_, hrun⟩

theorem recovery_honoured_delayedReset : ∃ w,
    RecoveryRun 0 (fun _ => some "old") delayedReset w ∧ Honoured 0 delayedReset w := by
  obtain ⟨w, hrun⟩ := delayedReset_run
  exact ⟨w, hrun, recovery_honoured hrun⟩

end Signari.AccountRecovery
