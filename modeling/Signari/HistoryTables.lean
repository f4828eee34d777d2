import Mathlib.Data.List.Basic

/-!
# Tables that record a history

A table and a history of events belong together when each row was written by an event of the
history under its key, and each such event still has its row. `emits x k a` says that the event
`x` writes something under the key `k`, and `agrees b a` what the row keeps of it; a row
may change as long as it keeps that. As a key has one row, two events that
write under one key agree with the same row.
-/
namespace Signari.HistoryTables
open List Function

variable {l κ α β : Type} {emits : l → κ → α → Prop} {agrees : β → α → Prop}

section
variable {table : κ → Option β} {j k : κ} {b c : β}

theorem ne_of_fresh (hk : table k = none) (hj : table j = some b) : j ≠ k := by
  intro he
  rw [he, hk] at hj
  simp at hj

variable [DecidableEq κ]

theorem update_of_fresh (hk : table k = none) (hj : table j = some b) (x : Option β) :
    update table k x j = some b := by
  rw [update_of_ne (ne_of_fresh hk hj), hj]

theorem update_eq_some (h : update table k (some c) j = some b) :
    (j = k ∧ b = c) ∨ (j ≠ k ∧ table j = some b) := by
  by_cases hj : j = k
  · rw [hj, update_self, Option.some.injEq] at h
    exact .inl ⟨hj, h.symm⟩
  · rw [update_of_ne hj] at h
    exact .inr ⟨hj, h⟩

end

structure Recorded (emits : l → κ → α → Prop) (agrees : β → α → Prop) (xs : List l)
    (table : κ → Option β) : Prop where
  written : ∀ k b, table k = some b → ∃ x ∈ xs, ∃ a, emits x k a ∧ agrees b a
  kept : ∀ x ∈ xs, ∀ k a, emits x k a → ∃ b, table k = some b ∧ agrees b a

theorem Recorded.empty : Recorded emits agrees [] fun _ => none := by
  refine ⟨?_, ?_⟩
  · intro k b hb
    simp at hb
  · intro x hx
    simp at hx

variable {xs : List l} {x : l} {table table' : κ → Option β}

/-- An event that writes nothing, while rows keep what they agree with. -/
theorem Recorded.frame (h : Recorded emits agrees xs table)
    (hrows : ∀ k, table' k = table k ∨
      ∃ b b', table k = some b ∧ table' k = some b' ∧ ∀ a, agrees b a → agrees b' a)
    (hx : ∀ k a, ¬emits x k a) : Recorded emits agrees (xs ++ [x]) table' := by
  refine ⟨?_, ?_⟩
  · intro k c hc
    obtain heq | ⟨b, b', hb, hb', hkeep⟩ := hrows k
    · rw [heq] at hc
      obtain ⟨y, hy, a, hemit, hagree⟩ := h.written k c hc
      exact ⟨y, mem_append_left _ hy, a, hemit, hagree⟩
    · obtain ⟨y, hy, a, hemit, hagree⟩ := h.written k b hb
      rw [hb', Option.some.injEq] at hc
      subst hc
      exact ⟨y, mem_append_left _ hy, a, hemit, hkeep a hagree⟩
  · intro y hy k a hemit
    obtain hy | hy := mem_append.mp hy
    · obtain ⟨c, hc, hagree⟩ := h.kept y hy k a hemit
      obtain heq | ⟨b, b', hb, hb', hkeep⟩ := hrows k
      · exact ⟨c, by rw [heq, hc], hagree⟩
      · rw [hb, Option.some.injEq] at hc
        subst hc
        exact ⟨b', hb', hkeep a hagree⟩
    · rw [mem_singleton.mp hy] at hemit
      exact absurd hemit (hx k a)

/-- An event that writes one row under a key that had none. -/
theorem Recorded.insert [DecidableEq κ] (h : Recorded emits agrees xs table) {k : κ} {a : α}
    {b : β} (hfresh : table k = none) (hx : ∀ k' a', emits x k' a' ↔ k' = k ∧ a' = a)
    (hb : agrees b a) :
    Recorded emits agrees (xs ++ [x]) (update table k (some b)) := by
  refine ⟨?_, ?_⟩
  · intro j c hc
    obtain ⟨rfl, rfl⟩ | ⟨-, hc⟩ := update_eq_some hc
    · exact ⟨x, mem_append_right _ (mem_singleton.mpr rfl), a, (hx j a).mpr ⟨rfl, rfl⟩, hb⟩
    · obtain ⟨y, hy, a', hemit, hagree⟩ := h.written j c hc
      exact ⟨y, mem_append_left _ hy, a', hemit, hagree⟩
  · intro y hy j a' hemit
    obtain hy | hy := mem_append.mp hy
    · obtain ⟨c, hc, hagree⟩ := h.kept y hy j a' hemit
      exact ⟨c, update_of_fresh hfresh hc _, hagree⟩
    · rw [mem_singleton.mp hy] at hemit
      obtain ⟨rfl, rfl⟩ := (hx j a').mp hemit
      exact ⟨b, update_self .., hb⟩

section
variable {R : α → α → Prop} {a b c : κ → Option α}

def Grows (R : α → α → Prop) (a b : κ → Option α) : Prop :=
  ∀ k x, a k = some x → ∃ y, b k = some y ∧ R x y

theorem Grows.refl (hR : ∀ x, R x x) (a : κ → Option α) : Grows R a a := fun _ x hx => ⟨x, hx, hR x⟩

theorem Grows.trans (hR : ∀ x y z, R x y → R y z → R x z) (hab : Grows R a b)
    (hbc : Grows R b c) : Grows R a c := by
  intro k x hx
  obtain ⟨y, hy, hxy⟩ := hab k x hx
  obtain ⟨z, hz, hyz⟩ := hbc k y hy
  exact ⟨z, hz, hR x y z hxy hyz⟩

variable [DecidableEq κ]

theorem Grows.insert (hR : ∀ x, R x x) {k : κ} (hk : a k = none) (x : Option α) :
    Grows R a (update a k x) := by
  intro j y hy
  exact ⟨y, update_of_fresh hk hy x, hR y⟩

theorem Grows.modify (hR : ∀ x, R x x) {k : κ} {f : α → α} (hf : ∀ x, a k = some x → R x (f x)) :
    Grows R a (update a k ((a k).map f)) := by
  intro j x hx
  by_cases hj : j = k
  · subst hj
    exact ⟨f x, by rw [update_self, hx, Option.map_some], hf x hx⟩
  · exact ⟨x, by rw [update_of_ne hj, hx], hR x⟩

end

end Signari.HistoryTables
