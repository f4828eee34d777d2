import Mathlib.Data.List.Forall2
import Mathlib.Data.List.Induction

/-!
# Hash chains

A chain is a list of rows each of which names the entry hash of its predecessor and carries
an entry hash of its own. `Chained` says that every row is linked and sealed; it splits
along appends, and a chain's last entry hash determines the whole chain row by row as soon
as a row's entry hash determines its content and its link (`Chained.determined`).

What a seal hashes is usually a list of fields, each followed by a separator, and a rest.
-/
namespace Signari.HashChains
open List

section
variable {ρ H : Type}

/-- The link and the seal of a row. -/
structure Links (ρ H : Type) where
  prev : ρ → H
  entry : ρ → H
  Sealed : ρ → Prop

def Links.Chained (L : Links ρ H) : H → List ρ → Prop
  | _, [] => True
  | h, r :: rs => L.prev r = h ∧ L.Sealed r ∧ L.Chained (L.entry r) rs

/-- The entry hash the next row has to name. -/
def Links.last (L : Links ρ H) (h : H) (rs : List ρ) : H := rs.foldl (fun _ r => L.entry r) h

variable {L : Links ρ H} {h h' : H} {r : ρ} {rs qs : List ρ}

@[simp] theorem last_nil : L.last h [] = h := rfl

@[simp] theorem last_cons : L.last h (r :: rs) = L.last (L.entry r) rs := rfl

theorem last_append : L.last h (rs ++ qs) = L.last (L.last h rs) qs := by
  simp [Links.last]

theorem last_eq_getLast? : L.last h rs = (rs.getLast?.map L.entry).getD h := by
  induction rs using List.reverseRecOn with
  | nil => rfl
  | append_singleton rs r ih => simp [last_append]

theorem chained_append : L.Chained h (rs ++ qs) ↔ L.Chained h rs ∧ L.Chained (L.last h rs) qs := by
  induction rs generalizing h with
  | nil => simp [Links.Chained]
  | cons r rs ih => simp [Links.Chained, ih, and_assoc]

theorem Links.Chained.sealed_of_mem (hc : L.Chained h rs) (hr : r ∈ rs) : L.Sealed r := by
  induction rs generalizing h with
  | nil => simp at hr
  | cons q rs ih =>
    rcases mem_cons.mp hr with rfl | hr
    · exact hc.2.1
    · exact ih hc.2.2 hr

/-- A row that does not follow from the rows before it. -/
def Links.Breaks (L : Links ρ H) (h : H) (before : List ρ) (r : ρ) : Prop :=
  L.prev r ≠ L.last h before ∨ ¬L.Sealed r

theorem chained_iff : L.Chained h rs ↔
    ∀ before r after, rs = before ++ r :: after → ¬L.Breaks h before r := by
  constructor
  · rintro hc before r after rfl
    obtain ⟨hprev, hseal, -⟩ := (chained_append.mp hc).2
    rintro (hne | hne)
    · exact hne hprev
    · exact hne hseal
  · intro hall
    induction rs generalizing h with
    | nil => trivial
    | cons r rs ih =>
      have hr := hall [] r rs rfl
      simp only [Links.Breaks, not_or, not_not, last_nil] at hr
      refine ⟨hr.1, hr.2, ih fun before q after hq => ?_⟩
      exact hall (r :: before) q after (by rw [hq]; rfl)

/-- Two chains of one length with the same last hash agree row by row, where equal entry
hashes of rows with comparable links mean equal links and agreement. -/
theorem Links.Chained.determined {R : ρ → ρ → Prop} {C : H → H → Prop}
    (hr : L.Chained h rs) (hq : L.Chained h' qs) (hlen : rs.length = qs.length)
    (hlast : L.last h rs = L.last h' qs) (hstart : C h h')
    (hentry : ∀ a b, L.Sealed a → L.Sealed b → C (L.entry a) (L.entry b))
    (hpair : ∀ a ∈ rs, ∀ b ∈ qs, C (L.prev a) (L.prev b) → L.entry a = L.entry b →
      L.prev a = L.prev b ∧ R a b) : h = h' ∧ List.Forall₂ R rs qs := by
  induction rs generalizing h h' qs with
  | nil =>
    obtain rfl : qs = [] := length_eq_zero_iff.mp hlen.symm
    exact ⟨hlast, .nil⟩
  | cons a rs ih =>
    cases qs with
    | nil => simp at hlen
    | cons b qs =>
      obtain ⟨rfl, hsa, hra⟩ := hr
      obtain ⟨rfl, hsb, hqb⟩ := hq
      obtain ⟨hab, hrest⟩ := ih hra hqb (by simpa using hlen) hlast (hentry a b hsa hsb)
        fun x hx y hy => hpair x (mem_cons_of_mem _ hx) y (mem_cons_of_mem _ hy)
      obtain ⟨hprev, hagree⟩ := hpair a mem_cons_self b mem_cons_self hstart hab
      exact ⟨hprev, .cons hagree hrest⟩

end

section
variable {α : Type} {sep : α}

/-- Each field, followed by the separator. -/
def terminated (sep : α) (fs : List (List α)) : List α := fs.flatMap fun f => f ++ [sep]

theorem append_sep_inj {f g u v : List α} (hf : sep ∉ f) (hg : sep ∉ g)
    (h : f ++ sep :: u = g ++ sep :: v) : f = g ∧ u = v := by
  induction f generalizing g with
  | nil =>
    cases g with
    | nil => exact ⟨rfl, by simpa using h⟩
    | cons b g =>
      obtain ⟨rfl, -⟩ : sep = b ∧ u = g ++ sep :: v := by simpa using h
      exact (hg mem_cons_self).elim
  | cons a f ih =>
    cases g with
    | nil =>
      obtain ⟨rfl, -⟩ : a = sep ∧ f ++ sep :: u = v := by simpa using h
      exact (hf mem_cons_self).elim
    | cons b g =>
      obtain ⟨rfl, hrest⟩ : a = b ∧ f ++ sep :: u = g ++ sep :: v := by simpa using h
      obtain ⟨rfl, huv⟩ := ih (fun hm => hf (mem_cons_of_mem _ hm))
        (fun hm => hg (mem_cons_of_mem _ hm)) hrest
      exact ⟨rfl, huv⟩

theorem terminated_append_inj {fs gs : List (List α)} {u v : List α} (hfs : ∀ f ∈ fs, sep ∉ f)
    (hgs : ∀ g ∈ gs, sep ∉ g) (hu : sep ∉ u) (hv : sep ∉ v)
    (h : terminated sep fs ++ u = terminated sep gs ++ v) : fs = gs ∧ u = v := by
  induction fs generalizing gs with
  | nil =>
    cases gs with
    | nil => exact ⟨rfl, by simpa [terminated] using h⟩
    | cons g gs =>
      have hmem : sep ∈ u := by
        have hu' : u = g ++ sep :: (terminated sep gs ++ v) := by simpa [terminated] using h
        simp [hu']
      exact (hu hmem).elim
  | cons f fs ih =>
    cases gs with
    | nil =>
      have hmem : sep ∈ v := by
        have hv' : f ++ sep :: (terminated sep fs ++ u) = v := by simpa [terminated] using h
        simp [← hv']
      exact (hv hmem).elim
    | cons g gs =>
      have hsplit : f ++ sep :: (terminated sep fs ++ u) =
          g ++ sep :: (terminated sep gs ++ v) := by simpa [terminated] using h
      obtain ⟨rfl, hrest⟩ := append_sep_inj (hfs f mem_cons_self) (hgs g mem_cons_self) hsplit
      obtain ⟨rfl, huv⟩ := ih (fun x hx => hfs x (mem_cons_of_mem _ hx))
        (fun x hx => hgs x (mem_cons_of_mem _ hx)) hrest
      exact ⟨rfl, huv⟩

end

end Signari.HashChains
