import Mathlib.Algebra.Order.Ring.Nat

/-!
# Digests and base64url text

Byte-level functions of the Go standard library: the bytes of a string, SHA-256 (`crypto/sha256`,
with words as naturals below 2^32), and the unpadded URL-safe base64 alphabet
(`base64.RawURLEncoding`), whose decoder skips line breaks and ignores the unused low bits of the
last symbol.
-/
namespace Signari.ByteCodecs
open List

def textBytes (s : String) : List UInt8 := s.toList.flatMap String.utf8EncodeChar

def bytesText (bytes : List UInt8) : Option String := String.fromUTF8? bytes.toByteArray

/-- `strings.Cut` at a one-byte separator. -/
def cutByte (sep : UInt8) : List UInt8 → Option (List UInt8 × List UInt8)
  | [] => none
  | b :: bs => if b = sep then some ([], bs) else
      (cutByte sep bs).map fun parts => (b :: parts.1, parts.2)

/-- `utf8.DecodeRune`: the first character and its size; the replacement character with size
one where no valid encoding stands. -/
def decodeRune (bytes : List UInt8) : Char × ℕ := match bytes.toByteArray.utf8DecodeChar? 0 with
  | some c => (c, c.utf8Size)
  | none => (Char.ofNat 0xFFFD, 1)

theorem textBytes_append (s t : String) : textBytes (s ++ t) = textBytes s ++ textBytes t := by
  simp [textBytes]

/-- Characters below 128 are one byte each. -/
theorem textBytes_ascii {s : String} (h : ∀ c ∈ s.toList, c.toNat < 128) :
    textBytes s = s.toList.map fun c => c.toNat.toUInt8 := by
  have hchar : ∀ w : List Char, (∀ c ∈ w, c.toNat < 128) →
      w.flatMap String.utf8EncodeChar = w.map fun c => c.toNat.toUInt8 := by
    intro w hw
    induction w with
    | nil => rfl
    | cons c w ih =>
      have hc : c.val.toNat ≤ 0x7f := Nat.le_of_lt_succ (hw c mem_cons_self)
      have hencode : String.utf8EncodeChar c = [c.toNat.toUInt8] := by
        rw [String.utf8EncodeChar, if_pos hc]
        rfl
      rw [flatMap_cons, hencode, ih fun c' hc' => hw c' (mem_cons_of_mem c hc')]
      rfl
  exact hchar s.toList h

theorem toByteArray_textBytes (s : String) : (textBytes s).toByteArray = s.toByteArray :=
  String.utf8Encode_toList

theorem bytesText_textBytes (s : String) : bytesText (textBytes s) = some s := by
  rw [bytesText, toByteArray_textBytes, String.fromUTF8?, dif_pos s.isValidUTF8]
  rfl

theorem textBytes_injective : Function.Injective textBytes := by
  intro s t h
  have := congrArg bytesText h
  rw [bytesText_textBytes, bytesText_textBytes] at this
  exact Option.some.inj this

theorem cutByte_append {sep : UInt8} (pre post : List UInt8) (h : sep ∉ pre) :
    cutByte sep (pre ++ sep :: post) = some (pre, post) := by
  induction pre with
  | nil => simp [cutByte]
  | cons b pre ih =>
    rw [mem_cons, not_or] at h
    simp [cutByte, ih h.2, Ne.symm h.1]

theorem decodeRune_encode (c : Char) (r : List UInt8) :
    decodeRune (String.utf8EncodeChar c ++ r) = (c, c.utf8Size) := by
  rw [decodeRune, toByteArray_append, ByteArray.utf8DecodeChar?_utf8EncodeChar_append]

theorem decodeRune_pos (bytes : List UInt8) : 1 ≤ (decodeRune bytes).2 := by
  unfold decodeRune
  split
  · exact Char.utf8Size_pos _
  · exact le_rfl

def wordMod : ℕ := 4294967296

def rotr (n x : ℕ) : ℕ := (x >>> n) ||| ((x <<< (32 - n)) % wordMod)

def complement (x : ℕ) : ℕ := x ^^^ 0xffffffff

def bigSigma0 (x : ℕ) : ℕ := rotr 2 x ^^^ rotr 13 x ^^^ rotr 22 x

def bigSigma1 (x : ℕ) : ℕ := rotr 6 x ^^^ rotr 11 x ^^^ rotr 25 x

def smallSigma0 (x : ℕ) : ℕ := rotr 7 x ^^^ rotr 18 x ^^^ (x >>> 3)

def smallSigma1 (x : ℕ) : ℕ := rotr 17 x ^^^ rotr 19 x ^^^ (x >>> 10)

def choose (x y z : ℕ) : ℕ := (x &&& y) ^^^ (complement x &&& z)

def majority (x y z : ℕ) : ℕ := (x &&& y) ^^^ (x &&& z) ^^^ (y &&& z)

def roundConstants : List ℕ := [
  0x428a2f98, 0x71374491, 0xb5c0fbcf, 0xe9b5dba5, 0x3956c25b, 0x59f111f1, 0x923f82a4, 0xab1c5ed5,
  0xd807aa98, 0x12835b01, 0x243185be, 0x550c7dc3, 0x72be5d74, 0x80deb1fe, 0x9bdc06a7, 0xc19bf174,
  0xe49b69c1, 0xefbe4786, 0x0fc19dc6, 0x240ca1cc, 0x2de92c6f, 0x4a7484aa, 0x5cb0a9dc, 0x76f988da,
  0x983e5152, 0xa831c66d, 0xb00327c8, 0xbf597fc7, 0xc6e00bf3, 0xd5a79147, 0x06ca6351, 0x14292967,
  0x27b70a85, 0x2e1b2138, 0x4d2c6dfc, 0x53380d13, 0x650a7354, 0x766a0abb, 0x81c2c92e, 0x92722c85,
  0xa2bfe8a1, 0xa81a664b, 0xc24b8b70, 0xc76c51a3, 0xd192e819, 0xd6990624, 0xf40e3585, 0x106aa070,
  0x19a4c116, 0x1e376c08, 0x2748774c, 0x34b0bcb5, 0x391c0cb3, 0x4ed8aa4a, 0x5b9cca4f, 0x682e6ff3,
  0x748f82ee, 0x78a5636f, 0x84c87814, 0x8cc70208, 0x90befffa, 0xa4506ceb, 0xbef9a3f7, 0xc67178f2]

structure Working where
  (a b c d e f g h : ℕ)

def initial : Working :=
  ⟨0x6a09e667, 0xbb67ae85, 0x3c6ef372, 0xa54ff53a, 0x510e527f, 0x9b05688c, 0x1f83d9ab, 0x5be0cd19⟩

def Working.round (s : Working) (k w : ℕ) : Working :=
  let t1 := s.h + bigSigma1 s.e + choose s.e s.f s.g + k + w
  let t2 := bigSigma0 s.a + majority s.a s.b s.c
  ⟨(t1 + t2) % wordMod, s.a, s.b, s.c, (s.d + t1) % wordMod, s.e, s.f, s.g⟩

def Working.add (s t : Working) : Working :=
  ⟨(s.a + t.a) % wordMod, (s.b + t.b) % wordMod, (s.c + t.c) % wordMod, (s.d + t.d) % wordMod,
    (s.e + t.e) % wordMod, (s.f + t.f) % wordMod, (s.g + t.g) % wordMod, (s.h + t.h) % wordMod⟩

/-- The first `n` words of the message schedule, from a window of the sixteen latest ones. -/
def schedule : ℕ → List ℕ → List ℕ
  | 0, _ => []
  | n + 1, window =>
    let next := (smallSigma1 (window.getD 14 0) + window.getD 9 0 +
      smallSigma0 (window.getD 1 0) + window.getD 0 0) % wordMod
    window.getD 0 0 :: schedule n (window.drop 1 ++ [next])

def compress (s : Working) (block : List ℕ) : Working :=
  s.add ((roundConstants.zip (schedule 64 block)).foldl (fun v kw => v.round kw.1 kw.2) s)

def wordsOf : List UInt8 → List ℕ
  | a :: b :: c :: d :: rest =>
    (a.toNat * 16777216 + b.toNat * 65536 + c.toNat * 256 + d.toNat) :: wordsOf rest
  | _ => []

/-- The low `n` bytes of a number, most significant first. -/
def bytesOf (w n : ℕ) : List UInt8 := (List.range n).reverse.map fun i => UInt8.ofNat (w / 256 ^ i)

def padding (message : List UInt8) : List UInt8 :=
  message ++ 0x80 :: List.replicate ((119 - message.length % 64) % 64) 0 ++
    bytesOf (8 * message.length) 8

def compressBlocks : ℕ → List ℕ → Working → Working
  | 0, _, s => s
  | n + 1, words, s => compressBlocks n (words.drop 16) (compress s (words.take 16))

/-- `sha256.Sum256`. -/
def sum256 (message : List UInt8) : List UInt8 := let padded := padding message
  let s := compressBlocks (padded.length / 64) (wordsOf padded) initial
  [s.a, s.b, s.c, s.d, s.e, s.f, s.g, s.h].flatMap fun w => bytesOf w 4

example : (sum256 [97, 98, 99]).take 4 = [0xba, 0x78, 0x16, 0xbf] := by decide +kernel

def alphabet : List Char :=
  "ABCDEFGHIJKLMNOPQRSTUVWXYZabcdefghijklmnopqrstuvwxyz0123456789-_".toList

def symbol (n : ℕ) : Char := alphabet.getD n 'A'

def symbolValue (c : Char) : Option ℕ := alphabet.idxOf? c

/-- The six-bit digits of a byte string; a final group of one or two bytes is filled with
zero bits. -/
@[simp] def toDigits : List UInt8 → List ℕ
  | [] => []
  | [a] => [a.toNat / 4, a.toNat % 4 * 16]
  | [a, b] => [a.toNat / 4, a.toNat % 4 * 16 + b.toNat / 16, b.toNat % 16 * 4]
  | a :: b :: c :: rest =>
    a.toNat / 4 :: (a.toNat % 4 * 16 + b.toNat / 16) :: (b.toNat % 16 * 4 + c.toNat / 64) ::
      c.toNat % 64 :: toDigits rest

@[simp] def ofDigits : List ℕ → Option (List UInt8)
  | [] => some []
  | [_] => none
  | [x, y] => some [UInt8.ofNat (x * 4 + y / 16)]
  | [x, y, z] => some [UInt8.ofNat (x * 4 + y / 16), UInt8.ofNat (y % 16 * 16 + z / 4)]
  | x :: y :: z :: w :: rest => do
      let bytes ← ofDigits rest
      return UInt8.ofNat (x * 4 + y / 16) :: UInt8.ofNat (y % 16 * 16 + z / 4) ::
        UInt8.ofNat (z % 4 * 64 + w) :: bytes

/-- `base64.RawURLEncoding.EncodeToString`. -/
def encode (bytes : List UInt8) : String := String.ofList ((toDigits bytes).map symbol)

/-- `base64.RawURLEncoding.DecodeString`. -/
def decode (text : String) : Option (List UInt8) := do
  let digits ← (text.toList.filter fun c => c ≠ '\r' ∧ c ≠ '\n').mapM symbolValue
  ofDigits digits

theorem symbolValue_symbol : ∀ n < 64, symbolValue (symbol n) = some n := by
  decide +kernel

theorem symbol_not_break : ∀ n < 64, symbol n ≠ '\r' ∧ symbol n ≠ '\n' := by
  decide +kernel

theorem dot_not_mem_symbol : ∀ n < 64, 46 ∉ String.utf8EncodeChar (symbol n) := by
  decide +kernel

theorem toDigits_lt (bytes : List UInt8) : ∀ n ∈ toDigits bytes, n < 64 := by
  induction bytes using toDigits.induct with
  | case1 => simp
  | case2 a =>
    have ha := a.toNat_lt
    simp only [toDigits, mem_cons, not_mem_nil, or_false]
    omega
  | case3 a b =>
    have ha := a.toNat_lt
    have hb := b.toNat_lt
    simp only [toDigits, mem_cons, not_mem_nil, or_false]
    omega
  | case4 a b c rest ih =>
    have ha := a.toNat_lt
    have hb := b.toNat_lt
    have hc := c.toNat_lt
    intro n hn
    simp only [toDigits, mem_cons] at hn
    rcases hn with h | h | h | h | h
    · omega
    · omega
    · omega
    · omega
    · exact ih n h

theorem byte_eq {a : UInt8} {n : ℕ} (h : n = a.toNat) : UInt8.ofNat n = a := by
  rw [h, UInt8.ofNat_toNat]

theorem ofDigits_toDigits (bytes : List UInt8) : ofDigits (toDigits bytes) = some bytes := by
  induction bytes using toDigits.induct with
  | case1 => rfl
  | case2 a =>
    simp only [toDigits, ofDigits]
    rw [byte_eq (a := a) (by omega)]
  | case3 a b =>
    have hb := b.toNat_lt
    simp only [toDigits, ofDigits]
    rw [byte_eq (a := a) (by omega), byte_eq (a := b) (by omega)]
  | case4 a b c rest ih =>
    have hb := b.toNat_lt
    have hc := c.toNat_lt
    simp only [toDigits, ofDigits, ih, Option.bind_eq_bind, Option.bind_some, Option.pure_def]
    rw [byte_eq (a := a) (by omega), byte_eq (a := b) (by omega), byte_eq (a := c) (by omega)]

theorem mapM_symbolValue {digits : List ℕ} (h : ∀ n ∈ digits, n < 64) :
    (digits.map symbol).mapM symbolValue = some digits := by
  induction digits with
  | nil => rfl
  | cons n digits ih =>
    rw [forall_mem_cons] at h
    simp [symbolValue_symbol n h.1, ih h.2]

theorem decode_encode (bytes : List UInt8) : decode (encode bytes) = some bytes := by
  have hlt := toDigits_lt bytes
  have hkeep : ((toDigits bytes).map symbol).filter (fun c => c ≠ '\r' ∧ c ≠ '\n') =
      (toDigits bytes).map symbol := by
    apply filter_eq_self.mpr
    intro c hc
    obtain ⟨n, hn, rfl⟩ := mem_map.mp hc
    have := symbol_not_break n (hlt n hn)
    simp [this.1, this.2]
  rw [decode, encode, String.toList_ofList, hkeep, mapM_symbolValue hlt]
  exact ofDigits_toDigits bytes

theorem encode_injective : Function.Injective encode := by
  intro a b h
  have := congrArg decode h
  rw [decode_encode, decode_encode] at this
  exact Option.some.inj this

theorem dot_not_mem_encode (bytes : List UInt8) : 46 ∉ textBytes (encode bytes) := by
  rw [textBytes, encode, String.toList_ofList, mem_flatMap]
  rintro ⟨c, hc, hdot⟩
  obtain ⟨n, hn, rfl⟩ := mem_map.mp hc
  exact dot_not_mem_symbol n (toDigits_lt bytes n hn) hdot

end Signari.ByteCodecs
