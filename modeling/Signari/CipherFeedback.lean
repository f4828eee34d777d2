import Mathlib.Data.List.DropRight

/-!
# Ciphers with feedback

Hiding a text block by block: each block is combined with a key that depends on the hidden block
before it, and the first with a key that depends on a start value. Combining twice with one key
gives the block back, so the hidden text reveals the text, given the start value and the keys.
-/
namespace Signari.CipherFeedback
open List

section
variable {α : Type} (comb : α → α → α) (key : List α → List α) (b : ℕ)

/-- Hides `k` blocks. -/
def hide : ℕ → List α → List α → List α
  | 0, _, _ => []
  | k + 1, prev, plain =>
    let block := List.zipWith comb (plain.take b) (key prev)
    block ++ hide k block (plain.drop b)

/-- Reveals `k` blocks. -/
def reveal : ℕ → List α → List α → List α
  | 0, _, _ => []
  | k + 1, prev, hidden =>
    List.zipWith comb (hidden.take b) (key prev) ++ reveal k (hidden.take b) (hidden.drop b)

variable {comb key b}

theorem zipWith_zipWith_cancel (hcomb : ∀ x k, comb (comb x k) k = x) {xs ks : List α}
    (h : xs.length ≤ ks.length) :
    List.zipWith comb (List.zipWith comb xs ks) ks = xs := by
  induction xs generalizing ks with
  | nil => rfl
  | cons x xs ih =>
    cases ks with
    | nil => simp at h
    | cons k ks =>
      rw [length_cons, length_cons, Nat.add_le_add_iff_right] at h
      rw [zipWith_cons_cons, zipWith_cons_cons, hcomb, ih h]

theorem hide_length (hkey : ∀ prev, (key prev).length = b) {k : ℕ} {prev plain : List α}
    (h : plain.length = k * b) : (hide comb key b k prev plain).length = k * b := by
  induction k generalizing prev plain with
  | zero => simp [hide]
  | succ k ih =>
    have hrest : (plain.drop b).length = k * b := by
      rw [length_drop, h, Nat.succ_mul, Nat.add_sub_cancel]
    rw [hide, length_append, ih hrest, length_zipWith, hkey, length_take, h, Nat.succ_mul]
    omega

theorem reveal_hide (hcomb : ∀ x k, comb (comb x k) k = x) (hkey : ∀ prev, (key prev).length = b)
    {k : ℕ} {prev plain : List α} (h : plain.length = k * b) :
    reveal comb key b k prev (hide comb key b k prev plain) = plain := by
  induction k generalizing prev plain with
  | zero => exact (length_eq_zero_iff.mp (by rw [h, Nat.zero_mul])).symm
  | succ k ih =>
    have hrest : (plain.drop b).length = k * b := by
      rw [length_drop, h, Nat.succ_mul, Nat.add_sub_cancel]
    have htake : (plain.take b).length = b := by
      rw [length_take, h, Nat.succ_mul]
      omega
    have hblock : (List.zipWith comb (plain.take b) (key prev)).length = b := by
      rw [length_zipWith, htake, hkey, Nat.min_self]
    rw [hide, reveal, take_left' hblock, drop_left' hblock, ih hrest,
      zipWith_zipWith_cancel hcomb (by rw [htake, hkey]), take_append_drop]

end

section
variable {α : Type} (z : α) (b : ℕ)

/-- Filled up with `z` to a whole number of blocks. -/
def padded (text : List α) : List α := text ++ List.replicate ((b - text.length % b) % b) z

variable {z b}

theorem padded_length (hb : 0 < b) (text : List α) :
    (padded z b text).length = (text.length + b - 1) / b * b := by
  have hlt := Nat.mod_lt text.length hb
  have hdiv := Nat.div_add_mod text.length b
  rw [padded, length_append, length_replicate]
  by_cases h : text.length % b = 0
  · have hq : (text.length + b - 1) / b = text.length / b := by
      have h1 : text.length + b - 1 = b - 1 + b * (text.length / b) := by omega
      rw [h1, Nat.add_mul_div_left _ _ hb, Nat.div_eq_of_lt (by omega), Nat.zero_add]
    rw [hq, h, Nat.sub_zero, Nat.mod_self, Nat.mul_comm]
    omega
  · have hq : (text.length + b - 1) / b = text.length / b + 1 := by
      have h1 : text.length + b - 1 = text.length % b - 1 + b * (text.length / b + 1) := by
        rw [Nat.mul_add, Nat.mul_one]
        omega
      rw [h1, Nat.add_mul_div_left _ _ hb, Nat.div_eq_of_lt (by omega), Nat.zero_add]
    rw [hq, Nat.mod_eq_of_lt (by omega), Nat.add_mul, Nat.one_mul, Nat.mul_comm]
    omega

theorem rdropWhile_padded [DecidableEq α] {text : List α} (h : ∀ c ∈ text.getLast?, c ≠ z) :
    (padded z b text).rdropWhile (· = z) = text := by
  have hdrop : ∀ n, (text ++ List.replicate n z).rdropWhile (· = z) = text := by
    intro n
    induction n with
    | zero =>
      cases text using List.reverseRecOn with
      | nil => rfl
      | append_singleton init c =>
        rw [replicate_zero, append_nil, rdropWhile_concat_neg]
        simpa using h c (by simp)
    | succ n ih =>
      rw [replicate_succ', ← List.append_assoc, rdropWhile_concat_pos _ _ _ (by simp), ih]
  exact hdrop _

end

end Signari.CipherFeedback
