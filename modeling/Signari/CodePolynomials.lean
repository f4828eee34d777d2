import Mathlib.Algebra.BigOperators.Ring.List
import Mathlib.Data.List.GetD
import Mathlib.Tactic.Ring

/-!
# Polynomials as lists of coefficients

A list of ring elements is a polynomial, highest power first, and `value` is what it takes at
a point. A product of factors is built one factor after another, and a remainder is found by
adding multiples of a divisor into the array, place by place from the front.

A divisor with leading coefficient one then clears one place after the other without changing the
value at its roots, so that a message followed by its remainder vanishes there.
-/
namespace Signari.CodePolynomials
open List

variable {K : Type*} [CommRing K]

/-- The value at `a`, with the highest power first. -/
@[simp] def value (a : K) : List K → K
  | [] => 0
  | c :: cs => c * a ^ cs.length + value a cs

/-- The product with `X + r`. -/
def timesFactor (g : List K) (r : K) : List K :=
  List.zipWith (· + ·) (g ++ [0]) (0 :: g.map (· * r))

/-- The product of `X + r` for all the roots. -/
def product (roots : List K) : List K := roots.foldl timesFactor [1]

/-- A row added into the front of an array. -/
@[simp] def addFrom : List K → List K → List K
  | r :: rs, g :: gs => (r + g) :: addFrom rs gs
  | rs, _ => rs

/-- A multiple of the divisor is added at place `i`, by what stands there. -/
def divideStep (divisor rem : List K) (i : ℕ) : List K :=
  rem.take i ++ addFrom (rem.drop i) (divisor.map (· * rem.getD i 0))

theorem value_append (a : K) (xs ys : List K) :
    value a (xs ++ ys) = value a xs * a ^ ys.length + value a ys := by
  induction xs with
  | nil => simp
  | cons x rest ih =>
    rw [cons_append, value, value, ih, length_append, pow_add]
    ring

theorem value_zero {xs : List K} (h : ∀ x ∈ xs, x = 0) (a : K) : value a xs = 0 := by
  induction xs with
  | nil => rfl
  | cons x rest ih =>
    rw [forall_mem_cons] at h
    rw [value, h.1, ih h.2]
    ring

theorem value_map_mul (a k : K) (xs : List K) : value a (xs.map (· * k)) = value a xs * k := by
  induction xs with
  | nil => simp
  | cons x rest ih =>
    rw [map_cons, value, value, ih, length_map]
    ring

theorem value_zipWith {xs ys : List K} (h : xs.length = ys.length) (a : K) :
    value a (List.zipWith (· + ·) xs ys) = value a xs + value a ys := by
  induction xs generalizing ys with
  | nil =>
    obtain rfl := length_eq_zero_iff.mp h.symm
    simp
  | cons x rest ih =>
    cases ys with
    | nil => cases h
    | cons y ys =>
      have hrest : rest.length = ys.length := Nat.succ.inj h
      rw [zipWith_cons_cons, value, value, value, ih hrest, length_zipWith, hrest, min_self]
      ring

theorem value_timesFactor (a r : K) (g : List K) :
    value a (timesFactor g r) = value a g * (a + r) := by
  have hshift : value a (0 :: g.map (· * r)) = value a g * r := by
    rw [value, value_map_mul]
    ring
  rw [timesFactor, value_zipWith (by simp), value_append, hshift]
  simp only [value, length_singleton, length_nil]
  ring

theorem value_product (a : K) (roots : List K) :
    value a (product roots) = (roots.map (a + ·)).prod := by
  have hfold : ∀ g : List K, value a (roots.foldl timesFactor g) =
      value a g * (roots.map (a + ·)).prod := by
    induction roots with
    | nil => simp
    | cons r rest ih =>
      intro g
      rw [foldl_cons, ih, value_timesFactor, map_cons, prod_cons]
      ring
  rw [product, hfold]
  simp

theorem product_length (roots : List K) : (product roots).length = roots.length + 1 := by
  have hfold : ∀ g : List K, (roots.foldl timesFactor g).length = g.length + roots.length := by
    induction roots with
    | nil => simp
    | cons r rest ih =>
      intro g
      rw [foldl_cons, ih, timesFactor]
      simp only [length_zipWith, length_append, length_cons, length_map]
      omega
  rw [product, hfold, length_singleton]
  omega

theorem product_head (roots : List K) : (product roots).head? = some 1 := by
  have hfold : ∀ g : List K, g.head? = some 1 → (roots.foldl timesFactor g).head? = some 1 := by
    induction roots with
    | nil => exact fun g hg => hg
    | cons r rest ih =>
      intro g hg
      rw [foldl_cons]
      refine ih _ ?_
      cases g with
      | nil => cases hg
      | cons c cs =>
        obtain rfl := Option.some.inj hg
        simp [timesFactor]
  exact hfold [1] rfl

section

theorem addFrom_length (rem row : List K) : (addFrom rem row).length = rem.length := by
  induction rem generalizing row with
  | nil => cases row <;> rfl
  | cons r rs ih =>
    cases row with
    | nil => rfl
    | cons g gs => rw [addFrom, length_cons, length_cons, ih]

theorem addFrom_zero {row : List K} (h : ∀ g ∈ row, g = 0) (rem : List K) :
    addFrom rem row = rem := by
  induction rem generalizing row with
  | nil => cases row <;> rfl
  | cons r rs ih =>
    cases row with
    | nil => rfl
    | cons g gs =>
      rw [forall_mem_cons] at h
      rw [addFrom, h.1, add_zero, ih h.2]

theorem value_addFrom {rem row : List K} (h : row.length ≤ rem.length) (a : K) :
    value a (addFrom rem row) = value a rem + value a row * a ^ (rem.length - row.length) := by
  induction rem generalizing row with
  | nil =>
    obtain rfl := length_eq_zero_iff.mp (Nat.le_zero.mp h)
    simp
  | cons r rs ih =>
    cases row with
    | nil => simp
    | cons g gs =>
      have hrest : gs.length ≤ rs.length := Nat.le_of_succ_le_succ h
      have hpow : a ^ rs.length = a ^ gs.length * a ^ (rs.length - gs.length) := by
        rw [← pow_add, Nat.add_sub_cancel' hrest]
      rw [addFrom, value, value, value, ih hrest, addFrom_length, length_cons,
        length_cons, Nat.add_sub_add_right, hpow]
      ring

theorem divideStep_length (divisor rem : List K) (i : ℕ) :
    (divideStep divisor rem i).length = rem.length := by
  rw [divideStep, length_append, addFrom_length, ← length_append, take_append_drop]

theorem value_divideStep {divisor rem : List K} {i : ℕ} {a : K} (hroot : value a divisor = 0)
    (hfits : i + divisor.length ≤ rem.length) :
    value a (divideStep divisor rem i) = value a rem := by
  have hrow : (divisor.map (· * rem.getD i 0)).length ≤ (rem.drop i).length := by
    rw [length_map, length_drop]
    omega
  have hsplit := value_append a (rem.take i) (rem.drop i)
  rw [take_append_drop] at hsplit
  rw [divideStep, value_append, value_addFrom hrow, value_map_mul, hroot, addFrom_length, hsplit]
  ring

variable (htwo : (2 : K) = 0)

include htwo

theorem add_self (x : K) : x + x = 0 := by
  rw [← two_mul, htwo, zero_mul]

theorem value_product_root {roots : List K} {r : K} (hr : r ∈ roots) :
    value r (product roots) = 0 := by
  rw [value_product]
  exact prod_eq_zero (mem_map.mpr ⟨r, hr, add_self htwo r⟩)

theorem divideStep_clears {divisor rem : List K} {i : ℕ} (hhead : divisor.head? = some 1)
    (hi : i < rem.length) : (divideStep divisor rem i).take (i + 1) = rem.take i ++ [0] := by
  cases divisor with
  | nil => cases hhead
  | cons c cs =>
    obtain rfl := Option.some.inj hhead
    have hdrop : rem.drop i = rem.getD i 0 :: rem.drop (i + 1) := by
      rw [drop_eq_getElem_cons hi, getD_eq_getElem _ _ hi]
    have hlen : (rem.take i).length = i := length_take_of_le hi.le
    rw [divideStep, hdrop, map_cons, one_mul, addFrom, add_self htwo, take_append,
      take_of_length_le (by omega), hlen, Nat.add_sub_cancel_left]
    rfl

/-- The steps up to place `d` keep the value and clear the front. -/
theorem divide_spec {divisor start : List K} {a : K} {d : ℕ} (hhead : divisor.head? = some 1)
    (hroot : value a divisor = 0) (hfits : d + divisor.length ≤ start.length + 1) :
    ((List.range d).foldl (divideStep divisor) start).length = start.length ∧
      value a ((List.range d).foldl (divideStep divisor) start) = value a start ∧
      ((List.range d).foldl (divideStep divisor) start).take d = List.replicate d 0 := by
  have hpos : 0 < divisor.length := by
    cases divisor with
    | nil => cases hhead
    | cons c cs => exact Nat.succ_pos _
  induction d with
  | zero => simp
  | succ d ih =>
    obtain ⟨hlength, hvalue, hfront⟩ := ih (by omega)
    rw [range_succ, foldl_append, foldl_cons, foldl_nil]
    refine ⟨by rw [divideStep_length, hlength], ?_, ?_⟩
    · rw [value_divideStep hroot (by omega), hvalue]
    · rw [divideStep_clears htwo hhead (by omega), hfront, replicate_succ']

theorem value_message_remainder {divisor message : List K} {a : K}
    (hhead : divisor.head? = some 1) (hroot : value a divisor = 0) {n : ℕ}
    (hn : divisor.length = n + 1) :
    value a (message ++ ((List.range message.length).foldl (divideStep divisor)
      (message ++ List.replicate n 0)).drop message.length) = 0 := by
  obtain ⟨hlength, hvalue, hfront⟩ := divide_spec htwo hhead hroot
    (show message.length + divisor.length ≤ (message ++ List.replicate n 0).length + 1 by
      simp only [length_append, length_replicate]
      omega)
  generalize (List.range message.length).foldl (divideStep divisor)
    (message ++ List.replicate n 0) = out at hlength hvalue hfront ⊢
  have hzeros : ∀ k, value a (List.replicate k (0 : K)) = 0 := fun k =>
    value_zero (fun x hx => (mem_replicate.mp hx).2) a
  have hrest : value a (out.drop message.length) = value a out := by
    have hsplit := value_append a (out.take message.length) (out.drop message.length)
    rw [take_append_drop, hfront, hzeros, zero_mul, zero_add] at hsplit
    exact hsplit.symm
  have hlen : (out.drop message.length).length = n := by
    rw [length_drop, hlength, length_append, length_replicate, Nat.add_sub_cancel_left]
  have hstart : value a (message ++ List.replicate n 0) = value a message * a ^ n := by
    rw [value_append, hzeros, length_replicate, add_zero]
  rw [value_append, hlen, hrest, hvalue, hstart]
  exact add_self htwo _

end

end Signari.CodePolynomials
