import Mathlib.Data.List.Basic
import Mathlib.Data.Nat.Bits
import Mathlib.Tactic.Ring

/-!
# Streams of bits

Numbers and bytes written into a stream of bits with the most significant bit first, and read back
from it.
-/
namespace Signari.BitStreams
open List

/-- The low `n` bits of a number, most significant first. -/
def bitsOf (value n : ℕ) : List Bool := (List.range n).reverse.map value.testBit

/-- The number that a stream is, most significant bit first. -/
def numberOf (bits : List Bool) : ℕ := bits.foldl (fun acc b => 2 * acc + b.toNat) 0

def byteBits (b : UInt8) : List Bool := bitsOf b.toNat 8

/-- A stream in bytes; a last byte that is not full has zeros at the end. -/
def pack : List Bool → List UInt8
  | b₇ :: b₆ :: b₅ :: b₄ :: b₃ :: b₂ :: b₁ :: b₀ :: rest =>
    UInt8.ofNat (numberOf [b₇, b₆, b₅, b₄, b₃, b₂, b₁, b₀]) :: pack rest
  | [] => []
  | bits => [UInt8.ofNat (numberOf bits * 2 ^ (8 - bits.length))]

theorem bitsOf_length (value n : ℕ) : (bitsOf value n).length = n := by
  rw [bitsOf, length_map, length_reverse, length_range]

theorem bitsOf_succ (value n : ℕ) : bitsOf value (n + 1) = value.testBit n :: bitsOf value n := by
  rw [bitsOf, range_succ, reverse_append]
  rfl

theorem numberOf_append (xs ys : List Bool) :
    numberOf (xs ++ ys) = numberOf xs * 2 ^ ys.length + numberOf ys := by
  have hfold : ∀ (bits : List Bool) (acc : ℕ),
      bits.foldl (fun acc b => 2 * acc + b.toNat) acc = acc * 2 ^ bits.length + numberOf bits := by
    intro bits
    induction bits with
    | nil => intro acc; simp [numberOf]
    | cons b bits ih =>
      intro acc
      have hcons : numberOf (b :: bits) = b.toNat * 2 ^ bits.length + numberOf bits := by
        have hhead := ih (2 * 0 + b.toNat)
        rw [Nat.mul_zero, Nat.zero_add b.toNat] at hhead
        rw [numberOf, foldl_cons, Nat.mul_zero, Nat.zero_add b.toNat, hhead]
      rw [foldl_cons, ih, hcons, length_cons, pow_succ]
      ring
  rw [numberOf, foldl_append, hfold]
  rfl

/-- Reading what was written. -/
theorem numberOf_bitsOf (value n : ℕ) : numberOf (bitsOf value n) = value % 2 ^ n := by
  induction n with
  | zero => simp [bitsOf, numberOf, Nat.mod_one]
  | succ n ih =>
    rw [bitsOf_succ, ← singleton_append, numberOf_append, ih, bitsOf_length,
      Nat.mod_pow_succ, ← Nat.toNat_testBit]
    have hbit : numberOf [value.testBit n] = (value.testBit n).toNat := by
      simp [numberOf]
    rw [hbit]
    ring

theorem byteBits_length (b : UInt8) : (byteBits b).length = 8 := bitsOf_length _ _

theorem numberOf_byteBits (b : UInt8) : UInt8.ofNat (numberOf (byteBits b)) = b := by
  rw [byteBits, numberOf_bitsOf, Nat.mod_eq_of_lt (by simpa using b.toNat_lt)]
  exact UInt8.ofNat_toNat

theorem byteBits_eight (b₇ b₆ b₅ b₄ b₃ b₂ b₁ b₀ : Bool) :
    byteBits (UInt8.ofNat (numberOf [b₇, b₆, b₅, b₄, b₃, b₂, b₁, b₀])) =
      [b₇, b₆, b₅, b₄, b₃, b₂, b₁, b₀] := by
  cases b₇ <;> cases b₆ <;> cases b₅ <;> cases b₄ <;> cases b₃ <;> cases b₂ <;> cases b₁ <;>
    cases b₀ <;> rfl

theorem bits_length (bytes : List UInt8) : (bytes.flatMap byteBits).length = 8 * bytes.length := by
  rw [length_flatMap]
  simp [byteBits_length, Nat.mul_comm]

theorem pack_append_byte (b : UInt8) (bits : List Bool) : pack (byteBits b ++ bits) = b :: pack bits := by
  have hnumber := numberOf_byteBits b
  simp only [byteBits, bitsOf_succ] at hnumber ⊢
  simp only [cons_append, pack, bitsOf, range_zero, reverse_nil, map_nil, nil_append] at hnumber ⊢
  rw [hnumber]

theorem pack_bits (bytes : List UInt8) : pack (bytes.flatMap byteBits) = bytes := by
  induction bytes with
  | nil => rfl
  | cons b bytes ih => rw [flatMap_cons, pack_append_byte, ih]

/-- A stream of whole bytes is what its bytes write. -/
theorem bits_pack {n : ℕ} {bits : List Bool} (h : bits.length = 8 * n) :
    (pack bits).flatMap byteBits = bits := by
  induction n generalizing bits with
  | zero =>
    obtain rfl := length_eq_zero_iff.mp h
    rfl
  | succ n ih =>
    match bits, h with
    | b₇ :: b₆ :: b₅ :: b₄ :: b₃ :: b₂ :: b₁ :: b₀ :: rest, h =>
      have hrest : rest.length = 8 * n := by
        simp only [length_cons] at h
        omega
      rw [pack, flatMap_cons, byteBits_eight, ih hrest]
      rfl

theorem pack_length {n : ℕ} {bits : List Bool} (h : bits.length = 8 * n) :
    (pack bits).length = n := by
  have hlength := congrArg List.length (bits_pack h)
  rw [bits_length] at hlength
  omega

end Signari.BitStreams
