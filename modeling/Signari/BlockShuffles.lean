import Mathlib.Data.List.Perm.Basic

/-!
# Writes in blocks of free order

A run writes fields block after block, but within one block the writes come in any order:
a walk over a hash map, a batch that is executed concurrently. The blocks of a run are a
list of lists, and the runs with the same blocks are its shuffles.

`Ranges` describes what a field may hold in the end: one of its candidates, and each of them in some
shuffle. The last writer wins among the writes of the last block that writes the field at all, and
the first writer among those of the first such block; a fallback has the candidates of the field it
falls back to.
-/
namespace Signari.BlockShuffles
open List

variable {α β : Type}

/-- The same blocks in the same order, each in any order. -/
abbrev Shuffle : List (List α) → List (List α) → Prop := List.Forall₂ List.Perm

theorem shuffle_refl (bs : List (List α)) : Shuffle bs bs := by
  induction bs with
  | nil => exact .nil
  | cons b bs ih => exact .cons (.refl b) ih

theorem Shuffle.symm {bs bs' : List (List α)} (h : Shuffle bs bs') : Shuffle bs' bs :=
  h.flip.imp fun _ _ hp => hp.symm

/-- All elements are the same. -/
def Constant (l : List β) : Prop := ∀ x ∈ l, ∀ y ∈ l, x = y

theorem exists_perm_concat {l : List α} {a : α} (h : a ∈ l) : ∃ l', l.Perm (l' ++ [a]) := by
  obtain ⟨s, t, rfl⟩ := mem_iff_append.mp h
  exact ⟨s ++ t, perm_middle.trans (perm_append_singleton a (s ++ t)).symm⟩

theorem exists_perm_cons {l : List α} {a : α} (h : a ∈ l) : ∃ l', l.Perm (a :: l') := by
  obtain ⟨s, t, rfl⟩ := mem_iff_append.mp h
  exact ⟨s ++ t, perm_middle⟩

theorem Constant.perm_eq {l l' : List β} (h : Constant l) (hp : l.Perm l') : l' = l := by
  cases l with
  | nil => exact nil_perm.mp hp
  | cons x xs =>
    have hrep : x :: xs = List.replicate (xs.length + 1) x :=
      eq_replicate_iff.mpr ⟨rfl, fun y hy => h y hy x mem_cons_self⟩
    rw [hrep] at hp ⊢
    exact perm_replicate.mp hp.symm

/-- What a field may hold after a shuffle: nothing when it has no candidate, one of them
otherwise, and each of them after some shuffle. -/
structure Ranges (g : List (List α) → Option β) (ws : List (List α) → List β) : Prop where
  none : ∀ {bs bs'}, Shuffle bs bs' → (g bs' = none ↔ ws bs = [])
  some : ∀ {bs bs' x}, Shuffle bs bs' → g bs' = some x → x ∈ ws bs
  reach : ∀ {bs x}, x ∈ ws bs → ∃ bs', Shuffle bs bs' ∧ g bs' = Option.some x

theorem Ranges.fixed_iff {g : List (List α) → Option β} {ws : List (List α) → List β}
    (h : Ranges g ws) (bs : List (List α)) :
    (∀ bs', Shuffle bs bs' → g bs' = g bs) ↔ Constant (ws bs) := by
  constructor
  · intro hfixed x hx y hy
    obtain ⟨bs', hbs', hgx⟩ := h.reach hx
    obtain ⟨bs'', hbs'', hgy⟩ := h.reach hy
    have heq := (hfixed bs' hbs').trans (hfixed bs'' hbs'').symm
    rw [hgx, hgy] at heq
    exact Option.some.inj heq
  · intro hconst bs' hbs'
    cases hg' : g bs' with
    | none => exact ((h.none (shuffle_refl bs)).mpr ((h.none hbs').mp hg')).symm
    | some y =>
      cases hg : g bs with
      | none =>
        have hnone := (h.none hbs').mpr ((h.none (shuffle_refl bs)).mp hg)
        exact absurd (hg'.symm.trans hnone) (Option.some_ne_none y)
      | some x =>
        exact congrArg Option.some (hconst y (h.some hbs' hg') x (h.some (shuffle_refl bs) hg))

/-- A field that falls back to another one. -/
theorem Ranges.or {g g' : List (List α) → Option β} {ws ws' : List (List α) → List β}
    (h : Ranges g ws) (h' : Ranges g' ws') :
    Ranges (fun bs => (g bs).or (g' bs)) fun bs => if ws bs = [] then ws' bs else ws bs where
  none {bs bs'} hbs := by
    simp only [Option.or_eq_none_iff, h.none hbs, h'.none hbs]
    split_ifs with hws <;> simp [hws]
  some {bs bs' x} hbs hx := by
    split_ifs with hws
    · simp only [(h.none hbs).mpr hws, Option.none_or] at hx
      exact h'.some hbs hx
    · cases hg : g bs' with
      | none => exact absurd ((h.none hbs).mp hg) hws
      | some y =>
        simp only [hg, Option.some_or] at hx
        exact h.some hbs (hg.trans hx)
  reach {bs x} hx := by
    split_ifs at hx with hws
    · obtain ⟨bs', hbs', hg'⟩ := h'.reach hx
      exact ⟨bs', hbs', by simp only [(h.none hbs').mpr hws, Option.none_or, hg']⟩
    · obtain ⟨bs', hbs', hg⟩ := h.reach hx
      exact ⟨bs', hbs', by simp only [hg, Option.some_or]⟩

section

variable (pick : α → Option β)

def lastWrite (l : List α) : Option β := (l.filterMap pick).getLast?

def firstWrite (l : List α) : Option β := (l.filterMap pick).head?

def lastWriters : List (List α) → List β
  | [] => []
  | b :: bs => if lastWriters bs = [] then b.filterMap pick else lastWriters bs

def firstWriters : List (List α) → List β
  | [] => []
  | b :: bs => if b.filterMap pick = [] then firstWriters bs else b.filterMap pick

theorem lastWrite_append (l l' : List α) :
    lastWrite pick (l ++ l') = (lastWrite pick l').or (lastWrite pick l) := by
  rw [lastWrite, filterMap_append, getLast?_append]
  rfl

theorem firstWrite_append (l l' : List α) :
    firstWrite pick (l ++ l') = (firstWrite pick l).or (firstWrite pick l') := by
  rw [firstWrite, filterMap_append, head?_append]
  rfl

/-- What one block of writes may leave: nothing when it has none, else any of them. -/
structure Picks (e : List α → Option β) : Prop where
  none : ∀ {b b' : List α}, b.Perm b' → (e b' = none ↔ b.filterMap pick = [])
  some : ∀ {b b' : List α} {x : β}, b.Perm b' → e b' = some x → x ∈ b.filterMap pick
  reach : ∀ {b : List α} {x : β}, x ∈ b.filterMap pick → ∃ b', b.Perm b' ∧ e b' = Option.some x

theorem filterMap_eq_nil_iff {b b' : List α} (h : b.Perm b') :
    b'.filterMap pick = [] ↔ b.filterMap pick = [] := by
  rw [← length_eq_zero_iff, ← length_eq_zero_iff, (h.filterMap pick).length_eq]

theorem lastWrite_picks : Picks pick (lastWrite pick) where
  none h := by rw [lastWrite, getLast?_eq_none_iff, filterMap_eq_nil_iff pick h]
  some h hx := (h.filterMap pick).mem_iff.mpr (mem_of_getLast? hx)
  reach {b x} hx := by
    obtain ⟨a, ha, hax⟩ := mem_filterMap.mp hx
    obtain ⟨b', hb'⟩ := exists_perm_concat ha
    refine ⟨b' ++ [a], hb', ?_⟩
    rw [lastWrite_append, lastWrite, filterMap_cons_some hax]
    rfl

theorem firstWrite_picks : Picks pick (firstWrite pick) where
  none h := by rw [firstWrite, head?_eq_none_iff, filterMap_eq_nil_iff pick h]
  some h hx := (h.filterMap pick).mem_iff.mpr (mem_of_head? hx)
  reach {b x} hx := by
    obtain ⟨a, ha, hax⟩ := mem_filterMap.mp hx
    obtain ⟨b', hb'⟩ := exists_perm_cons ha
    refine ⟨a :: b', hb', ?_⟩
    rw [firstWrite, filterMap_cons_some hax]
    rfl

theorem lastWrite_none {bs bs' : List (List α)} (h : Shuffle bs bs') :
    lastWrite pick bs'.flatten = none ↔ lastWriters pick bs = [] := by
  induction h with
  | nil => simp [lastWrite, lastWriters]
  | @cons b b' bs bs' hb _ ih =>
    rw [flatten_cons, lastWrite_append, Option.or_eq_none_iff, ih,
      (lastWrite_picks pick).none hb, lastWriters]
    split_ifs with hlast <;> simp [hlast]

theorem firstWrite_none {bs bs' : List (List α)} (h : Shuffle bs bs') :
    firstWrite pick bs'.flatten = none ↔ firstWriters pick bs = [] := by
  induction h with
  | nil => simp [firstWrite, firstWriters]
  | @cons b b' bs bs' hb _ ih =>
    rw [flatten_cons, firstWrite_append, Option.or_eq_none_iff, ih,
      (firstWrite_picks pick).none hb, firstWriters]
    split_ifs with hfirst <;> simp [hfirst]

theorem lastWrite_ranges : Ranges (fun bs => lastWrite pick bs.flatten) (lastWriters pick) where
  none := lastWrite_none pick
  some {bs bs' x} hbs hx := by
    induction hbs with
    | nil => exact nomatch hx
    | @cons b b' bs bs' hb hbs ih =>
      simp only [flatten_cons, lastWrite_append] at hx
      rw [lastWriters]
      cases hlast : lastWrite pick bs'.flatten with
      | none =>
        rw [hlast, Option.none_or] at hx
        rw [if_pos ((lastWrite_none pick hbs).mp hlast)]
        exact (lastWrite_picks pick).some hb hx
      | some y =>
        rw [hlast, Option.some_or] at hx
        rw [if_neg fun hnil => by simp [(lastWrite_none pick hbs).mpr hnil] at hlast]
        exact ih (hlast.trans hx)
  reach {bs x} hx := by
    induction bs with
    | nil => exact nomatch hx
    | cons b bs ih =>
      rw [lastWriters] at hx
      split_ifs at hx with hnil
      · obtain ⟨b', hb', hlast⟩ := (lastWrite_picks pick).reach hx
        refine ⟨b' :: bs, .cons hb' (shuffle_refl bs), ?_⟩
        rw [flatten_cons, lastWrite_append, (lastWrite_none pick (shuffle_refl bs)).mpr hnil,
          Option.none_or, hlast]
      · obtain ⟨bs', hbs', hlast⟩ := ih hx
        refine ⟨b :: bs', .cons (.refl b) hbs', ?_⟩
        rw [flatten_cons, lastWrite_append, hlast, Option.some_or]

theorem firstWrite_ranges : Ranges (fun bs => firstWrite pick bs.flatten) (firstWriters pick) where
  none := firstWrite_none pick
  some {bs bs' x} hbs hx := by
    induction hbs with
    | nil => exact nomatch hx
    | @cons b b' bs bs' hb hbs ih =>
      simp only [flatten_cons, firstWrite_append] at hx
      rw [firstWriters]
      cases hfirst : firstWrite pick b' with
      | none =>
        rw [hfirst, Option.none_or] at hx
        rw [if_pos (((firstWrite_picks pick).none hb).mp hfirst)]
        exact ih hx
      | some y =>
        rw [hfirst, Option.some_or] at hx
        rw [if_neg fun hnil => by simp [((firstWrite_picks pick).none hb).mpr hnil] at hfirst]
        exact (firstWrite_picks pick).some hb (hfirst.trans hx)
  reach {bs x} hx := by
    induction bs with
    | nil => exact nomatch hx
    | cons b bs ih =>
      rw [firstWriters] at hx
      split_ifs at hx with hnil
      · obtain ⟨bs', hbs', hfirst⟩ := ih hx
        refine ⟨b :: bs', .cons (.refl b) hbs', ?_⟩
        have hnone := ((firstWrite_picks pick).none (.refl b)).mpr hnil
        rw [flatten_cons, firstWrite_append, hnone, Option.none_or, hfirst]
      · obtain ⟨b', hb', hfirst⟩ := (firstWrite_picks pick).reach hx
        refine ⟨b' :: bs, .cons hb' (shuffle_refl bs), ?_⟩
        rw [flatten_cons, firstWrite_append, hfirst, Option.some_or]

theorem log_fixed_iff (bs : List (List α)) :
    (∀ bs', Shuffle bs bs' → bs'.flatten.filterMap pick = bs.flatten.filterMap pick) ↔
      ∀ b ∈ bs, Constant (b.filterMap pick) := by
  constructor
  · intro h
    induction bs with
    | nil => exact forall_mem_nil _
    | cons b bs ih =>
      refine forall_mem_cons.mpr ⟨fun x hx y hy => ?_, ih fun bs' hbs' => ?_⟩
      · obtain ⟨b', hb', hfirst⟩ := (firstWrite_picks pick).reach hx
        obtain ⟨b'', hb'', hfirst'⟩ := (firstWrite_picks pick).reach hy
        have heq := (h (b' :: bs) (.cons hb' (shuffle_refl bs))).trans
          (h (b'' :: bs) (.cons hb'' (shuffle_refl bs))).symm
        have hheads := congrArg List.head? heq
        change firstWrite pick _ = firstWrite pick _ at hheads
        rw [flatten_cons, flatten_cons, firstWrite_append, firstWrite_append, hfirst,
          hfirst', Option.some_or, Option.some_or] at hheads
        exact Option.some.inj hheads
      · have heq := h (b :: bs') (.cons (.refl b) hbs')
        rw [flatten_cons, flatten_cons, filterMap_append, filterMap_append] at heq
        exact append_cancel_left heq
  · intro h bs' hbs'
    induction hbs' with
    | nil => rfl
    | @cons b b' bs bs' hb _ ih =>
      obtain ⟨hconst, hrest⟩ := forall_mem_cons.mp h
      rw [flatten_cons, flatten_cons, filterMap_append, filterMap_append,
        ih hrest, hconst.perm_eq (hb.filterMap pick)]

end

end Signari.BlockShuffles
