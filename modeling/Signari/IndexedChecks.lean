import Mathlib.Data.List.Basic

/-!
# Checks that stop at the first failure

A loop `for i, x := range xs { if err := f(i, x); err != nil { return err } }` as a
recursion on the list, with the index carried along, and the guards such loops are made
of. A check succeeds exactly when none of its guards fires.
-/
namespace Signari.IndexedChecks

variable {α ε : Type}

/-- `if c { return e }`. -/
def refuseIf (c : Prop) [Decidable c] (e : ε) : Except ε Unit := if c then .error e else .ok ()

@[simp] theorem refuseIf_ok {c : Prop} [Decidable c] {e : ε} {u : Unit} :
    refuseIf c e = .ok u ↔ ¬c := by
  unfold refuseIf
  split_ifs with h <;> simp [h]

/-- Runs `f` on each element with its index, starting at `k`, up to the first error. -/
def checkAll (f : ℕ → α → Except ε Unit) : ℕ → List α → Except ε Unit
  | _, [] => .ok ()
  | k, x :: xs =>
    match f k x with
    | .error e => .error e
    | .ok () => checkAll f (k + 1) xs

@[simp] theorem checkAll_nil (f : ℕ → α → Except ε Unit) (k : ℕ) : checkAll f k [] = .ok () := rfl

@[simp] theorem checkAll_cons (f : ℕ → α → Except ε Unit) (k : ℕ) (x : α) (xs : List α) :
    checkAll f k (x :: xs) = .ok () ↔ f k x = .ok () ∧ checkAll f (k + 1) xs = .ok () := by
  rw [checkAll]
  cases h : f k x <;> simp

theorem checkAll_ok {f : ℕ → α → Except ε Unit} {k : ℕ} {xs : List α} :
    checkAll f k xs = .ok () ↔ ∀ i x, xs[i]? = some x → f (k + i) x = .ok () := by
  induction xs generalizing k with
  | nil => simp
  | cons x xs ih =>
    rw [checkAll_cons, ih]
    constructor
    · rintro ⟨h₀, h⟩ i y hy
      cases i with
      | zero =>
        obtain rfl : x = y := by simpa using hy
        exact h₀
      | succ i =>
        rw [← Nat.add_assoc, Nat.add_right_comm]
        exact h i y (by simpa using hy)
    · intro h
      refine ⟨h 0 x rfl, fun i y hy => ?_⟩
      rw [Nat.add_right_comm, Nat.add_assoc]
      exact h (i + 1) y (by simpa using hy)

theorem checkAll_mem {f : ℕ → α → Except ε Unit} {k : ℕ} {xs : List α}
    (h : checkAll f k xs = .ok ()) {x : α} (hx : x ∈ xs) : ∃ i, f i x = .ok () := by
  obtain ⟨i, hi⟩ := List.getElem?_of_mem hx
  exact ⟨k + i, checkAll_ok.mp h i x hi⟩

/-- A check that does not look at the index. -/
theorem checkAll_forall {f : α → Except ε Unit} {k : ℕ} {xs : List α} :
    checkAll (fun _ x => f x) k xs = .ok () ↔ ∀ x ∈ xs, f x = .ok () := by
  rw [checkAll_ok, List.forall_mem_iff_getElem]
  constructor
  · intro h i hi
    exact h i _ (List.getElem?_eq_getElem hi)
  · intro h i x hx
    obtain ⟨hi, rfl⟩ := List.getElem?_eq_some_iff.mp hx
    exact h i hi

@[simp] theorem mapError_ok {δ : Type} (g : ε → δ) (r : Except ε α) (a : α) :
    r.mapError g = .ok a ↔ r = .ok a := by
  cases r <;> simp [Except.mapError]

theorem bind_ok {β : Type} {r : Except ε α} {f : α → Except ε β} {b : β} :
    (r >>= f) = .ok b ↔ ∃ a, r = .ok a ∧ f a = .ok b := by
  cases r <;> simp [bind, Except.bind]

/-- Two statements in sequence, the first for its error only. -/
theorem seq_ok {β : Type} {r : Except ε Unit} {s : Except ε β} {b : β} :
    (r >>= fun _ => s) = .ok b ↔ r = .ok () ∧ s = .ok b := by
  cases r <;> simp [bind, Except.bind]

end Signari.IndexedChecks
