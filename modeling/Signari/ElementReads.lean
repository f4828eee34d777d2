import Mathlib.Data.List.Perm.Basic
import Signari.IndexedChecks

/-!
# Lists read element by element

A decoder that reads every element of a list and stops at the first that it cannot read.
A list it accepts is related element by element to what was read, so the same
elements in another order are read to the same results in that order.
-/
namespace Signari.ElementReads
open IndexedChecks List

variable {α β ε : Type}

theorem mapM_ok {f : α → Except ε β} {l : List α} {r : List β} :
    l.mapM f = .ok r ↔ List.Forall₂ (fun a b => f a = .ok b) l r := by
  induction l generalizing r with
  | nil =>
    constructor
    · rintro h
      cases h
      exact .nil
    · rintro ⟨⟩
      rfl
  | cons a l ih =>
    rw [mapM_cons, bind_ok]
    constructor
    · rintro ⟨b, hb, h⟩
      obtain ⟨bs, hbs, heq⟩ := bind_ok.mp h
      cases heq
      exact .cons hb (ih.mp hbs)
    · rintro (_ | ⟨hb, hbs⟩)
      exact ⟨_, hb, bind_ok.mpr ⟨_, ih.mpr hbs, rfl⟩⟩

theorem forall₂_of_mapM {f : α → Option β} {xs : List α} {ys : List β}
    (h : xs.mapM f = some ys) : List.Forall₂ (fun x y => f x = some y) xs ys := by
  induction xs generalizing ys with
  | nil =>
    obtain rfl : [] = ys := by simpa using h
    exact .nil
  | cons x xs ih =>
    simp only [mapM_cons, Option.bind_eq_bind, Option.bind_eq_some_iff,
      Option.pure_def, Option.some.injEq] at h
    obtain ⟨y, hy, zs, hzs, rfl⟩ := h
    exact .cons hy (ih hzs)

theorem forall₂_mem {R : α → β → Prop} {l : List α} {r : List β} (h : List.Forall₂ R l r)
    {a : α} (ha : a ∈ l) : ∃ b ∈ r, R a b := by
  induction h with
  | nil => exact absurd ha not_mem_nil
  | @cons x y l r hxy _ ih =>
    rcases mem_cons.mp ha with rfl | ha
    · exact ⟨y, mem_cons_self, hxy⟩
    · obtain ⟨b, hb, hab⟩ := ih ha
      exact ⟨b, mem_cons_of_mem y hb, hab⟩

theorem mapM_mem {f : α → Except ε β} {as : List α} {bs : List β}
    (h : as.mapM f = .ok bs) {a : α} (ha : a ∈ as) : ∃ b ∈ bs, f a = .ok b :=
  forall₂_mem (mapM_ok.mp h) ha

theorem mapM_perm {f : α → Except ε β} {l l' : List α} {r : List β} (h : l.mapM f = .ok r)
    (hp : l.Perm l') : ∃ r', l'.mapM f = .ok r' ∧ r.Perm r' := by
  obtain ⟨r', hr', hperm⟩ := List.perm_comp_forall₂ hp.symm (mapM_ok.mp h)
  exact ⟨r', mapM_ok.mpr hr', hperm.symm⟩

theorem mapM_reach {f : α → Except ε β} {l : List α} {r r' : List β} (h : l.mapM f = .ok r)
    (hp : r.Perm r') : ∃ l' : List α, l'.mapM f = .ok r' ∧ l'.Perm l := by
  obtain ⟨l', hl', hperm⟩ := List.perm_comp_forall₂ hp.symm (mapM_ok.mp h).flip
  exact ⟨l', mapM_ok.mpr hl'.flip, hperm⟩

end Signari.ElementReads
