import Mathlib.Data.List.Induction

/-!
# Runs of a labelled transition system

A system is a relation `step s l t` between two states and what was observed in between. A
run keeps the observations in order, so that an invariant may relate the state to
everything that has happened before it (`Run.invariant`), and a statement about one
observation of a run is a statement about one step from a state reached earlier
(`Run.split`).
-/
namespace Signari.LabelledRuns
open List

variable {σ l : Type}

inductive Run (step : σ → l → σ → Prop) : σ → List l → σ → Prop
  | nil {s : σ} : Run step s [] s
  | snoc {s t u : σ} {xs : List l} {x : l} :
      Run step s xs t → step t x u → Run step s (xs ++ [x]) u

variable {step : σ → l → σ → Prop} {s t u : σ} {xs ys : List l} {x : l}

/-- A relation between the history and the state that every step keeps. -/
theorem Run.invariant {I : List l → σ → Prop} (hrun : Run step s xs t) (hnil : I [] s)
    (hstep : ∀ {ys : List l} {a b : σ} {y : l}, I ys a → step a y b → I (ys ++ [y]) b) :
    I xs t := by
  induction hrun with
  | nil => exact hnil
  | snoc _ hx ih => exact hstep ih hx

theorem Run.cons (hx : step s x t) (hrun : Run step t xs u) : Run step s (x :: xs) u := by
  induction hrun with
  | nil => exact Run.nil.snoc hx
  | snoc _ hy ih => exact ih.snoc hy

theorem Run.append (hrun : Run step s xs t) (hmore : Run step t ys u) :
    Run step s (xs ++ ys) u := by
  induction hmore with
  | nil => rwa [append_nil]
  | snoc _ hx ih =>
    rw [← List.append_assoc]
    exact ih.snoc hx

theorem Run.mono {step' : σ → l → σ → Prop} (hstep : ∀ a y b, step a y b → step' a y b)
    (hrun : Run step s xs t) : Run step' s xs t := by
  induction hrun with
  | nil => exact .nil
  | snoc _ hx ih => exact ih.snoc (hstep _ _ _ hx)

theorem Run.split (hrun : Run step s (xs ++ x :: ys) t) :
    ∃ a b, Run step s xs a ∧ step a x b ∧ Run step b ys t := by
  induction ys using List.reverseRecOn generalizing t with
  | nil =>
    generalize hzs : xs ++ [x] = zs at hrun
    cases hrun with
    | nil => simp at hzs
    | snoc hpre hx =>
      obtain ⟨rfl, hlast⟩ := append_inj' hzs rfl
      obtain rfl : x = _ := by simpa using hlast
      exact ⟨_, _, hpre, hx, .nil⟩
  | append_singleton ys y ih =>
    generalize hzs : xs ++ x :: (ys ++ [y]) = zs at hrun
    cases hrun with
    | nil => simp at hzs
    | snoc hpre hy =>
      rw [← cons_append, ← List.append_assoc] at hzs
      obtain ⟨rfl, hlast⟩ := append_inj' hzs rfl
      obtain rfl : y = _ := by simpa using hlast
      obtain ⟨a, b, hrun, hx, hpost⟩ := ih hpre
      exact ⟨a, b, hrun, hx, .snoc hpost hy⟩

end Signari.LabelledRuns
