import Mathlib
import Signari.GoStrings

/-!
# Time-based codes

`Counter`, `Code` and `Verify` of the second factor. An instant is its nanoseconds since the
epoch; HMAC-SHA1 is a parameter with twenty bytes of output.
-/
namespace Signari.TotpCodes
open GoStrings List

/-- What HMAC-SHA1 returns. -/
def Sum : Type := { bytes : List UInt8 // bytes.length = 20 }

def defaultDigits : ℤ := 6

/-- In seconds, as every period below. -/
def defaultPeriod : ℤ := 30

def defaultSkew : ℤ := 1

def unix (t : ℤ) : ℤ := t / 1000000000

def counter (t period : ℤ) : ℤ := (unix t).tdiv (if period ≤ 0 then defaultPeriod else period)

/-- `binary.BigEndian.PutUint64` of `uint64(n)`. -/
def putUint64 (n : ℤ) : List UInt8 :=
  [56, 48, 40, 32, 24, 16, 8, 0].map fun shift =>
    UInt8.ofNat ((n % 18446744073709551616).toNat >>> shift)

def truncate (sum : Sum) : UInt32 := let offset := (sum.val.getD 19 0 &&& 0x0f).toNat
  ((sum.val.getD offset 0).toUInt32 &&& 0x7f) <<< 24 |||
    (sum.val.getD (offset + 1) 0).toUInt32 <<< 16 |||
    (sum.val.getD (offset + 2) 0).toUInt32 <<< 8 |||
    (sum.val.getD (offset + 3) 0).toUInt32

/-- The modulus wraps as a 32-bit number does. -/
def powerOfTen : ℕ → UInt32
  | 0 => 1
  | n + 1 => powerOfTen n * 10

/-- `%0*d`. -/
def zeroPadded (width n : ℕ) : String := let digits := (Nat.toDigits 10 n)
  String.ofList (List.replicate (width - digits.length) '0' ++ digits)

/-- The length of a string in bytes. -/
def byteLen (s : String) : ℕ := (s.toList.map Char.utf8Size).sum

section

variable (hmac : List UInt8 → List UInt8 → Sum)

def code (secret : List UInt8) (counter digits : ℤ) : String :=
  let digits := if digits ≤ 0 then defaultDigits else digits
  let value := truncate (hmac secret (putUint64 counter))
  zeroPadded digits.toNat (value % powerOfTen digits.toNat).toNat

inductive VerifyError where
  | replay
  | invalidCode

/-- `-skew, …, skew`. -/
def window (skew : ℤ) : List ℤ := (List.range (2 * skew + 1).toNat).map fun i => (i : ℤ) - skew

/-- The last step of the window with this code, or `-1`. -/
def lastMatch (secret : List UInt8) (submitted : String) (current digits skew : ℤ) : ℤ :=
  (window skew).foldl
    (fun matched i => if code hmac secret (current + i) digits = submitted then current + i
      else matched) (-1)

def verify (secret : List UInt8) (submitted : String) (now digits period skew lastUsed : ℤ) :
    Except VerifyError ℤ :=
  let submitted := trimSpace submitted
  let digits := if digits ≤ 0 then defaultDigits else digits
  if (byteLen submitted : ℤ) ≠ digits then .error .invalidCode
  else if atoi submitted = none then .error .invalidCode
  else let skew := if skew < 0 then 0 else skew
    let matched := lastMatch hmac secret submitted (counter now period) digits skew
    if matched < 0 then .error .invalidCode
    else if matched ≤ lastUsed then .error .replay
    else .ok matched

theorem lastMatch_spec {secret : List UInt8} {submitted : String} {current digits skew : ℤ}
    (h : 0 ≤ lastMatch hmac secret submitted current digits skew) :
    code hmac secret (lastMatch hmac secret submitted current digits skew) digits = submitted := by
  unfold lastMatch at h ⊢
  generalize window skew = steps at h ⊢
  induction steps using List.reverseRecOn with
  | nil =>
    rw [foldl_nil] at h
    omega
  | append_singleton steps i ih =>
    rw [foldl_append, foldl_cons, foldl_nil] at h ⊢
    split_ifs at h ⊢ with hcode
    · exact hcode
    · exact ih h

theorem error_else_ok {p : Prop} [Decidable p] {e : VerifyError} {x : Except VerifyError ℤ}
    {step : ℤ} : (if p then .error e else x) = .ok step ↔ ¬p ∧ x = .ok step := by
  by_cases hp : p <;> simp [hp]

theorem verify_ok {secret : List UInt8} {submitted : String}
    {now digits period skew lastUsed step : ℤ}
    (h : verify hmac secret submitted now digits period skew lastUsed = .ok step) :
    lastUsed < step ∧ 0 ≤ step ∧
      code hmac secret step (if digits ≤ 0 then defaultDigits else digits) =
        trimSpace submitted := by
  obtain ⟨-, h⟩ := error_else_ok.mp h
  obtain ⟨-, h⟩ := error_else_ok.mp h
  obtain ⟨hfound, h⟩ := error_else_ok.mp h
  obtain ⟨hlater, h⟩ := error_else_ok.mp h
  have hcode := lastMatch_spec hmac (Int.not_lt.mp hfound)
  rw [Except.ok.inj h] at hfound hlater hcode
  exact ⟨Int.not_le.mp hlater, Int.not_lt.mp hfound, hcode⟩

end

end Signari.TotpCodes
