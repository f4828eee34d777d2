import Mathlib.Algebra.Field.ZMod
import Mathlib.RingTheory.AdjoinRoot
import Signari.CodePolynomials

/-!
# Error correction of a QR symbol

`galois.go` without its bit stream: the logarithm tables of GF(256), multiplication by them,
the generator polynomial, and the codewords that are appended to a block of data.

The field is the binary polynomials modulo `0x11D`, and a byte is the element whose
coefficients are its bits. One turn of the loop that fills the tables multiplies by the root
`alpha`, so a table entry is a power of `alpha` and `gfMul` multiplies; a block with its error
correction then vanishes at the powers of `alpha` from which the generator is built.
-/
namespace Signari.QrReedSolomon
open CodePolynomials Polynomial

/-- One turn of the loop over the powers. -/
def gfStep (x : ℕ) : ℕ := if (x <<< 1) &&& 0x100 ≠ 0 then (x <<< 1) ^^^ 0x11D else x <<< 1

structure Tables where
  exp : List UInt8
  log : List UInt8

/-- The first loop of `init`, with the turns that are left. -/
def fillTables : ℕ → ℕ → ℕ → Tables → Tables
  | 0, _, _, t => t
  | n + 1, i, x, t =>
    fillTables n (i + 1) (gfStep x) ⟨t.exp.set i (UInt8.ofNat x), t.log.set x (UInt8.ofNat i)⟩

/-- The second loop: the powers once more, so that logarithms can be added. -/
def doubleExp (exp : List UInt8) : List UInt8 :=
  (List.range' 255 257).foldl (fun e i => e.set i (e.getD (i - 255) 0)) exp

def gfTables : Tables := let t := fillTables 255 0 1 ⟨List.replicate 512 0, List.replicate 256 0⟩
  ⟨doubleExp t.exp, t.log⟩

def gfExp (i : ℕ) : UInt8 := gfTables.exp.getD i 0

def gfLog (a : UInt8) : UInt8 := gfTables.log.getD a.toNat 0

def gfMul (a b : UInt8) : UInt8 :=
  if a = 0 ∨ b = 0 then 0 else gfExp ((gfLog a).toNat + (gfLog b).toNat)

/-- The product with `x - r`. -/
def timesRoot (g : List UInt8) (r : UInt8) : List UInt8 :=
  List.zipWith (· ^^^ ·) (g ++ [0]) (0 :: g.map fun c => gfMul c r)

def rsGenerator (n : ℕ) : List UInt8 := (List.range n).foldl (fun g i => timesRoot g (gfExp i)) [1]

/-- `rem[i+j] ^= row[j]`, for an array from `i` on. -/
def xorFrom : List UInt8 → List UInt8 → List UInt8
  | r :: rs, g :: gs => (r ^^^ g) :: xorFrom rs gs
  | rs, _ => rs

def rsStep (gen rem : List UInt8) (i : ℕ) : List UInt8 := let lead := rem.getD i 0
  if lead = 0 then rem
  else rem.take i ++ xorFrom (rem.drop i) (gen.map fun g => gfMul g lead)

def reedSolomon (data : List UInt8) (n : ℕ) : List UInt8 :=
  ((List.range data.length).foldl (rsStep (rsGenerator n)) (data ++ List.replicate n 0)).drop
    data.length

noncomputable section Field

/-- `0x11D`. -/
def modulus : (ZMod 2)[X] := X ^ 8 + X ^ 4 + X ^ 3 + X ^ 2 + 1

abbrev Field256 : Type := AdjoinRoot modulus

def alpha : Field256 := AdjoinRoot.root modulus

theorem two_eq_zero : (2 : Field256) = 0 := by
  have h : AdjoinRoot.of modulus 2 = 0 := by
    rw [show (2 : ZMod 2) = 0 from rfl, map_zero]
  rw [← h, map_ofNat]

theorem alpha_eight : alpha ^ 8 + alpha ^ 4 + alpha ^ 3 + alpha ^ 2 + 1 = 0 := by
  have h : AdjoinRoot.mk modulus (X ^ 8 + X ^ 4 + X ^ 3 + X ^ 2 + 1) = 0 := AdjoinRoot.mk_self
  simp only [map_add, map_pow, map_one, AdjoinRoot.mk_X] at h
  exact h

def bitSum (n x : ℕ) : Field256 := ∑ i ∈ Finset.range n, if x.testBit i then alpha ^ i else 0

def element (b : UInt8) : Field256 := bitSum 8 b.toNat

theorem bitSum_xor (n x y : ℕ) : bitSum n (x ^^^ y) = bitSum n x + bitSum n y := by
  rw [bitSum, bitSum, bitSum, ← Finset.sum_add_distrib]
  refine Finset.sum_congr rfl fun i _ => ?_
  rw [Nat.testBit_xor]
  cases x.testBit i with
  | false => simp
  | true =>
    cases y.testBit i with
    | false => simp
    | true => simpa using (add_self two_eq_zero (alpha ^ i)).symm

theorem element_xor (a b : UInt8) : element (a ^^^ b) = element a + element b := by
  rw [element, element, element, UInt8.toNat_xor, bitSum_xor]

theorem bitSum_shift (n x : ℕ) : bitSum (n + 1) (x <<< 1) = alpha * bitSum n x := by
  rw [bitSum, Finset.sum_range_succ', bitSum, Finset.mul_sum]
  simp only [Nat.testBit_shiftLeft]
  rw [show (decide (0 ≥ 1) && x.testBit (0 - 1)) = false from rfl, if_neg Bool.false_ne_true,
    add_zero]
  refine Finset.sum_congr rfl fun i _ => ?_
  rw [Nat.add_sub_cancel, decide_eq_true (Nat.le_add_left 1 i), Bool.true_and, pow_succ']
  split
  · rfl
  · rw [mul_zero]

theorem bitSum_modulus : bitSum 9 0x11D = 0 := by
  have hbits : (Finset.range 9).filter (fun i => (0x11D).testBit i) = {0, 2, 3, 4, 8} := by decide
  rw [← alpha_eight, bitSum, ← Finset.sum_filter, hbits]
  simp
  ring

theorem bitSum_small {x : ℕ} (hx : x < 256) : bitSum 9 x = bitSum 8 x := by
  rw [bitSum, Finset.sum_range_succ, Nat.testBit_lt_two_pow (by norm_num; omega),
    if_neg Bool.false_ne_true, add_zero]
  rfl

theorem gfStep_lt : ∀ x < 256, gfStep x < 256 := by
  decide +kernel

/-- One turn multiplies by the root. -/
theorem bitSum_gfStep {x : ℕ} (hx : x < 256) : bitSum 8 (gfStep x) = alpha * bitSum 8 x := by
  rw [← bitSum_small (gfStep_lt x hx), gfStep]
  split
  · rw [bitSum_xor, bitSum_modulus, add_zero, bitSum_shift]
  · rw [bitSum_shift]

theorem power_lt (i : ℕ) : gfStep^[i] 1 < 256 := by
  induction i with
  | zero => simp
  | succ i ih =>
    rw [Function.iterate_succ_apply']
    exact gfStep_lt _ ih

theorem bitSum_power (i : ℕ) : bitSum 8 (gfStep^[i] 1) = alpha ^ i := by
  induction i with
  | zero =>
    have hbits : (Finset.range 8).filter (fun i => (1).testBit i) = {0} := by decide
    rw [Function.iterate_zero_apply, bitSum, ← Finset.sum_filter, hbits, Finset.sum_singleton]
  | succ i ih => rw [Function.iterate_succ_apply', bitSum_gfStep (power_lt i), ih, pow_succ']

theorem power_period : gfStep^[255] 1 = 1 := by
  decide +kernel

theorem alpha_period : alpha ^ 255 = 1 := by
  rw [← bitSum_power, power_period]
  exact bitSum_power 0

end Field

theorem fillTables_lengths (n i x : ℕ) (t : Tables) :
    (fillTables n i x t).exp.length = t.exp.length ∧
      (fillTables n i x t).log.length = t.log.length := by
  induction n generalizing i x t with
  | zero => exact ⟨rfl, rfl⟩
  | succ n ih =>
    rw [fillTables]
    simpa using ih (i + 1) (gfStep x) ⟨t.exp.set i (UInt8.ofNat x), t.log.set x (UInt8.ofNat i)⟩

theorem getD_set {l : List UInt8} {i j : ℕ} {b : UInt8} (hi : i < l.length) :
    (l.set i b).getD j 0 = if j = i then b else l.getD j 0 := by
  rw [List.getD_eq_getElem?_getD, List.getElem?_set, List.getD_eq_getElem?_getD]
  by_cases hj : i = j
  · subst hj
    simp [hi]
  · simp [hj, Ne.symm hj]

/-- The turns from `i` on write the powers from `x` on. -/
theorem fillTables_exp {n i x : ℕ} {t : Tables} (hlen : i + n ≤ t.exp.length) (j : ℕ) :
    (fillTables n i x t).exp.getD j 0 =
      if i ≤ j ∧ j < i + n then UInt8.ofNat (gfStep^[j - i] x) else t.exp.getD j 0 := by
  induction n generalizing i x t with
  | zero => rw [fillTables, if_neg (by omega)]
  | succ n ih =>
    have hi : i < t.exp.length := by omega
    rw [fillTables, ih (by simp only [List.length_set]; omega), getD_set hi]
    by_cases hij : j = i
    · subst hij
      rw [if_neg (by omega), if_pos rfl, if_pos (by omega), Nat.sub_self]
      rfl
    · by_cases hin : i + 1 ≤ j ∧ j < i + 1 + n
      · rw [if_pos hin, if_pos (by omega), ← Function.iterate_succ_apply,
          show j - i = (j - (i + 1)).succ by omega]
      · rw [if_neg hin, if_neg hij, if_neg (by omega)]

theorem fillTables_log {n i x : ℕ} {t : Tables} (hexp : i + n ≤ t.exp.length)
    (hbyte : i + n ≤ 256) (hlog : t.log.length = 256) (hx : ∀ k, gfStep^[k] x < 256) (y : ℕ) :
    (y ∉ (List.range n).map (gfStep^[·] x) ∧ (fillTables n i x t).log.getD y 0 = t.log.getD y 0) ∨
      ∃ k < n, (fillTables n i x t).log.getD y 0 = UInt8.ofNat (i + k) ∧ gfStep^[k] x = y := by
  induction n generalizing i x t with
  | zero => exact .inl ⟨by simp, rfl⟩
  | succ n ih =>
    have hx' : ∀ k, gfStep^[k] (gfStep x) < 256 := fun k => by
      rw [← Function.iterate_succ_apply]
      exact hx (k + 1)
    have hx0 : x < t.log.length := by
      rw [hlog]
      exact hx 0
    rw [fillTables]
    rcases ih (i := i + 1) (x := gfStep x) (t := ⟨t.exp.set i (UInt8.ofNat x),
      t.log.set x (UInt8.ofNat i)⟩) (by simp only [List.length_set]; omega) (by omega)
      (by simpa using hlog) hx' with ⟨hnot, hsame⟩ | ⟨k, hk, hval, hpow⟩
    · by_cases hy : y = x
      · refine .inr ⟨0, by omega, ?_, hy.symm⟩
        rw [hsame, getD_set hx0, if_pos hy, Nat.add_zero]
      · refine .inl ⟨?_, ?_⟩
        · rw [List.range_succ_eq_map, List.map_cons, List.mem_cons, not_or, List.map_map]
          refine ⟨hy, ?_⟩
          intro hin
          obtain ⟨k, hk, hpow⟩ := List.mem_map.mp hin
          exact hnot (List.mem_map.mpr ⟨k, hk, by rw [← hpow]; rfl⟩)
        · rw [hsame, getD_set hx0, if_neg hy]
    · refine .inr ⟨k + 1, by omega, ?_, ?_⟩
      · rw [hval, show i + 1 + k = i + (k + 1) by omega]
      · rw [Function.iterate_succ_apply, hpow]

theorem doubleExp_getD {exp : List UInt8} (hlen : exp.length = 512) {j : ℕ} (hj : j < 512) :
    (doubleExp exp).getD j 0 = exp.getD (j % 255) 0 := by
  have hfold : ∀ k ≤ 257, ∀ j,
      (((List.range' 255 k).foldl (fun e i => e.set i (e.getD (i - 255) 0)) exp).length = 512) ∧
      ((List.range' 255 k).foldl (fun e i => e.set i (e.getD (i - 255) 0)) exp).getD j 0 =
        if j < 255 + k then exp.getD (j % 255) 0 else exp.getD j 0 := by
    intro k hk
    induction k with
    | zero =>
      intro j
      refine ⟨hlen, ?_⟩
      split
      · rename_i hj
        rw [Nat.mod_eq_of_lt hj]
        rfl
      · rfl
    | succ k ih =>
      intro j
      obtain ⟨hlength, -⟩ := ih (by omega) 0
      rw [List.range'_1_concat, List.foldl_append, List.foldl_cons, List.foldl_nil, List.length_set]
      refine ⟨hlength, ?_⟩
      rw [getD_set (by omega), (ih (by omega) _).2, (ih (by omega) _).2]
      by_cases hj : j = 255 + k
      · subst hj
        rw [if_pos rfl, if_pos (by omega), if_pos (by omega), Nat.add_sub_cancel_left,
          Nat.add_mod_left]
      · rw [if_neg hj]
        by_cases hlt : j < 255 + k
        · rw [if_pos hlt, if_pos (by omega)]
        · rw [if_neg hlt, if_neg (by omega)]
  rw [doubleExp, (hfold 257 le_rfl j).2, if_pos (by omega)]

/-- Which numbers a run of powers meets, as the bits of one number. -/
def powersMask : ℕ → ℕ → ℕ → ℕ
  | 0, _, acc => acc
  | n + 1, x, acc => powersMask n (gfStep x) (acc ||| (1 <<< x))

theorem powersMask_testBit {n x acc y : ℕ} (h : (powersMask n x acc).testBit y = true) :
    acc.testBit y = true ∨ y ∈ (List.range n).map (gfStep^[·] x) := by
  induction n generalizing x acc with
  | zero => exact .inl h
  | succ n ih =>
    rw [List.range_succ_eq_map, List.map_cons, List.map_map, List.mem_cons]
    rcases ih h with hacc | hlater
    · rw [Nat.testBit_or, Bool.or_eq_true] at hacc
      rcases hacc with hacc | hx
      · exact .inl hacc
      · rw [Nat.one_shiftLeft, Nat.testBit_two_pow, decide_eq_true_eq] at hx
        exact .inr (.inl hx.symm)
    · exact .inr (.inr hlater)

theorem powersMask_all : ∀ y < 256, y ≠ 0 → (powersMask 255 1 0).testBit y = true := by
  decide +kernel

theorem mem_powers {y : ℕ} (hy : y < 256) (hne : y ≠ 0) :
    y ∈ (List.range 255).map (gfStep^[·] 1) := by
  rcases powersMask_testBit (powersMask_all y hy hne) with hzero | hin
  · simp at hzero
  · exact hin

theorem gfExp_eq {i : ℕ} (hi : i < 512) : gfExp i = UInt8.ofNat (gfStep^[i % 255] 1) := by
  have hmod := Nat.mod_lt i (show 0 < 255 by decide)
  have hlen : (fillTables 255 0 1 ⟨List.replicate 512 0, List.replicate 256 0⟩).exp.length = 512 :=
    (fillTables_lengths _ _ _ _).1.trans List.length_replicate
  rw [gfExp, gfTables, doubleExp_getD hlen hi,
    fillTables_exp (by simp only [List.length_replicate]; omega),
    if_pos (by omega), Nat.sub_zero]

theorem toNat_power (k : ℕ) : (UInt8.ofNat (gfStep^[k] 1)).toNat = gfStep^[k] 1 := by
  rw [UInt8.toNat_ofNat']
  exact Nat.mod_eq_of_lt (power_lt k)

theorem element_gfExp {i : ℕ} (hi : i < 512) : element (gfExp i) = alpha ^ i := by
  rw [gfExp_eq hi, element, toNat_power, bitSum_power]
  conv_rhs => rw [← Nat.div_add_mod i 255, pow_add, pow_mul, alpha_period, one_pow, one_mul]

theorem element_eq_pow {a : UInt8} (ha : a ≠ 0) :
    (gfLog a).toNat < 255 ∧ element a = alpha ^ (gfLog a).toNat := by
  have hne : a.toNat ≠ 0 := fun h => ha (UInt8.toNat_inj.mp h)
  have hin := mem_powers a.toNat_lt hne
  rcases fillTables_log (t := ⟨List.replicate 512 0, List.replicate 256 0⟩) (n := 255) (i := 0)
    (by rw [List.length_replicate]; omega) (by omega) List.length_replicate power_lt a.toNat with
    ⟨hnot, -⟩ | ⟨k, hk, hlog, hpow⟩
  · exact absurd hin hnot
  · have hval : (gfLog a).toNat = k := by
      rw [gfLog, gfTables, hlog, Nat.zero_add, UInt8.toNat_ofNat']
      exact Nat.mod_eq_of_lt (by omega)
    rw [hval, element, ← hpow, bitSum_power]
    exact ⟨hk, rfl⟩

theorem element_zero : element 0 = 0 := by
  rw [element, bitSum]
  simp

theorem element_gfMul (a b : UInt8) : element (gfMul a b) = element a * element b := by
  unfold gfMul
  split
  · rename_i hzero
    rcases hzero with rfl | rfl
    · rw [element_zero, zero_mul]
    · rw [element_zero, mul_zero]
  · rename_i hne
    obtain ⟨hla, ha⟩ := element_eq_pow (not_or.mp hne).1
    obtain ⟨hlb, hb⟩ := element_eq_pow (not_or.mp hne).2
    rw [element_gfExp (by omega), ha, hb, pow_add]

theorem map_timesRoot (g : List UInt8) (r : UInt8) :
    (timesRoot g r).map element = timesFactor (g.map element) (element r) := by
  rw [timesRoot, timesFactor, List.map_zipWith]
  simp only [element_xor, ← List.zipWith_map, List.map_append, List.map_cons, List.map_nil,
    element_zero, List.map_map, Function.comp_def, element_gfMul]

theorem element_one : element 1 = 1 := bitSum_power 0

theorem map_rsGenerator {n : ℕ} (hn : n ≤ 512) :
    (rsGenerator n).map element = product ((List.range n).map (alpha ^ ·)) := by
  rw [rsGenerator, product, List.foldl_map]
  induction n with
  | zero => simp [element_one]
  | succ n ih =>
    rw [List.range_succ, List.foldl_append, List.foldl_append, List.foldl_cons, List.foldl_cons,
      List.foldl_nil, List.foldl_nil, map_timesRoot, ih (by omega), element_gfExp (by omega)]

theorem map_xorFrom (rem row : List UInt8) :
    (xorFrom rem row).map element = addFrom (rem.map element) (row.map element) := by
  induction rem generalizing row with
  | nil => cases row <;> rfl
  | cons r rs ih =>
    cases row with
    | nil => rfl
    | cons g gs =>
      simp only [xorFrom, List.map_cons, addFrom, ih, element_xor]

theorem getD_map (rem : List UInt8) (i : ℕ) :
    (rem.map element).getD i 0 = element (rem.getD i 0) := by
  rw [← element_zero, List.getD_map]

theorem map_rsStep (gen rem : List UInt8) (i : ℕ) :
    (rsStep gen rem i).map element = divideStep (gen.map element) (rem.map element) i := by
  rw [rsStep, divideStep, getD_map]
  split
  · rename_i hlead
    rw [hlead, element_zero, addFrom_zero, List.take_append_drop]
    intro g hg
    obtain ⟨c, -, rfl⟩ := List.mem_map.mp hg
    rw [mul_zero]
  · rw [List.map_append, map_xorFrom, List.map_take, List.map_drop, List.map_map, List.map_map]
    simp only [Function.comp_def, element_gfMul]

theorem reedSolomon_codeword (data : List UInt8) {n i : ℕ} (hn : n ≤ 512) (hi : i < n) :
    value (alpha ^ i) ((data ++ reedSolomon data n).map element) = 0 := by
  have hfold : ∀ (ks : List ℕ) (rem : List UInt8),
      (ks.foldl (rsStep (rsGenerator n)) rem).map element =
        ks.foldl (divideStep ((rsGenerator n).map element)) (rem.map element) := by
    intro ks
    induction ks with
    | nil => exact fun rem => rfl
    | cons k ks ih =>
      intro rem
      rw [List.foldl_cons, List.foldl_cons, ih, map_rsStep]
  have hroot : value (alpha ^ i) (product ((List.range n).map (alpha ^ ·))) = 0 :=
    value_product_root two_eq_zero (List.mem_map.mpr ⟨i, List.mem_range.mpr hi, rfl⟩)
  have hlength : (product ((List.range n).map (alpha ^ ·))).length = n + 1 := by
    rw [product_length, List.length_map, List.length_range]
  rw [List.map_append, reedSolomon, List.map_drop, hfold, map_rsGenerator hn, List.map_append,
    List.map_replicate, element_zero]
  have hcodeword := @value_message_remainder Field256 _ two_eq_zero _ (data.map element) _
    (product_head _) hroot n hlength
  rwa [List.length_map] at hcodeword

theorem xorFrom_length (rem row : List UInt8) : (xorFrom rem row).length = rem.length := by
  induction rem generalizing row with
  | nil => cases row <;> rfl
  | cons r rs ih =>
    cases row with
    | nil => rfl
    | cons g gs => rw [xorFrom, List.length_cons, List.length_cons, ih]

theorem rsStep_length (gen rem : List UInt8) (i : ℕ) : (rsStep gen rem i).length = rem.length := by
  rw [rsStep]
  split
  · rfl
  · rw [List.length_append, xorFrom_length, ← List.length_append, List.take_append_drop]

theorem reedSolomon_length (data : List UInt8) (n : ℕ) : (reedSolomon data n).length = n := by
  have hfold : ∀ (ks : List ℕ) (rem : List UInt8),
      (ks.foldl (rsStep (rsGenerator n)) rem).length = rem.length := by
    intro ks
    induction ks with
    | nil => exact fun rem => rfl
    | cons k ks ih =>
      intro rem
      rw [List.foldl_cons, ih, rsStep_length]
  rw [reedSolomon, List.length_drop, hfold, List.length_append, List.length_replicate,
    Nat.add_sub_cancel_left]

end Signari.QrReedSolomon
