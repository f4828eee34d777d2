import Mathlib.Tactic.Common

/-!
# Three-valued logic

Kleene's strong connectives on true, false and undefined. A value is known by two bounds:
`must`, that it is true, and `may`, that it is not false. The connectives act on the bounds
one by one, and negation swaps them, so a formula's value is found by two classical
evaluations, one with what is undefined taken against the formula and one with it taken in
its favour.
-/
namespace Signari.KleeneLogic

inductive Truth where
  | false
  | undefined
  | true
  deriving DecidableEq

namespace Truth

def ofBool (b : Bool) : Truth := if b then .true else .false

def not : Truth → Truth
  | .false => .true
  | .undefined => .undefined
  | .true => .false

def and : Truth → Truth → Truth
  | .false, _ => .false
  | .undefined, .false => .false
  | .undefined, _ => .undefined
  | .true, b => b

def or : Truth → Truth → Truth
  | .true, _ => .true
  | .undefined, .true => .true
  | .undefined, _ => .undefined
  | .false, b => b

/-- True, whatever the undefined parts are. -/
def must (t : Truth) : Bool := t = .true

/-- Not false, whatever the undefined parts are. -/
def may (t : Truth) : Bool := t ≠ .false

theorem must_eq_true {t : Truth} : t.must = Bool.true ↔ t = .true := by
  simp [must]

@[simp] theorem must_ofBool (b : Bool) : (ofBool b).must = b := by
  cases b <;> rfl

@[simp] theorem may_ofBool (b : Bool) : (ofBool b).may = b := by
  cases b <;> rfl

@[simp] theorem must_undefined : undefined.must = Bool.false := rfl

@[simp] theorem may_undefined : undefined.may = Bool.true := rfl

@[simp] theorem must_not (t : Truth) : t.not.must = !t.may := by
  cases t <;> rfl

@[simp] theorem may_not (t : Truth) : t.not.may = !t.must := by
  cases t <;> rfl

@[simp] theorem must_and (s t : Truth) : (s.and t).must = (s.must && t.must) := by
  cases s <;> cases t <;> rfl

@[simp] theorem may_and (s t : Truth) : (s.and t).may = (s.may && t.may) := by
  cases s <;> cases t <;> rfl

@[simp] theorem must_or (s t : Truth) : (s.or t).must = (s.must || t.must) := by
  cases s <;> cases t <;> rfl

@[simp] theorem may_or (s t : Truth) : (s.or t).may = (s.may || t.may) := by
  cases s <;> cases t <;> rfl

end Truth

end Signari.KleeneLogic
