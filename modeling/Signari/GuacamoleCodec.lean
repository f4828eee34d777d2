import Signari.ByteCodecs
import Signari.ByteStreams
import Signari.GoStrings

/-!
# The Guacamole codec

Instructions as `protocol.go` writes and reads them: elements with their length in
characters in front, commas between and a semicolon behind. `ReadInstruction` decodes what
it reads and `ReadRaw` keeps the bytes; the two walk over the elements in the same way and
differ in how they read n characters, one with `bufio`'s `ReadRune`, the other by the lead
byte of each.

`ReadRune` decodes what is left of it, and an encoding that is cut off gives the replacement
character for each byte.
-/
namespace Signari.GuacamoleCodec
open ByteCodecs ByteStreams GoStrings List

def maxInstructionRunes : ℕ := 1048576

structure Instruction where
  opcode : String := ""
  args : List String := []

def element (s : String) : List UInt8 := textBytes (toString s.toList.length) ++ 46 :: textBytes s

/-- `String`, the wire form. -/
def Instruction.string (i : Instruction) : List UInt8 :=
  element i.opcode ++ i.args.flatMap (fun a => 44 :: element a) ++ [59]

/-- An error of a reader: `io.EOF` itself, or another one, which may wrap it and is told apart
by `==`; `outOfFuel` is never met, as a reader has fuel for every byte. -/
inductive ReadError where
  | eof
  | failed (text : String)
  | outOfFuel

/-- The `%q` verb on a byte. -/
def quoteByte (b : UInt8) : String := if b = 39 then "'\\''"
  else if b = 34 then "'\"'"
  else if 128 ≤ b ∧ (b < 161 ∨ b = 173) then
    String.ofList
      ['\'', '\\', 'u', '0', '0', hexDigit (b.toNat / 16), hexDigit (b.toNat % 16), '\'']
  else String.ofList ('\'' :: quoteChar (Char.ofNat b.toNat) ++ ['\''])

/-- The `%#x` verb on a byte. -/
def hexByte (b : UInt8) : String := if b < 16 then String.ofList ['0', 'x', hexDigit b.toNat]
  else String.ofList ['0', 'x', hexDigit (b.toNat / 16), hexDigit (b.toNat % 16)]

/-- `strconv.Atoi` on digits. -/
def lengthOf (digits : List UInt8) : ℕ :=
  Nat.ofDigitChars 10 (digits.map fun b => Char.ofNat b.toNat) 0

def checkedLength (digits : List UInt8) : Except ReadError ℕ :=
  if digits = [] then .error (.failed "element with no length")
  else if lengthOf digits > maxInstructionRunes then
    .error (.failed ("element declares " ++ toString (lengthOf digits) ++
      " characters, over the " ++ toString maxInstructionRunes ++ " limit"))
  else .ok (lengthOf digits)

section
variable {σ : Type} (S : Stream σ)

/-- The digits up to the dot; `room` is how many more there may be. -/
def readDigits (atStart : Bool) : ℕ → List UInt8 → σ → Except ReadError (List UInt8 × σ)
  | room, digits, s =>
    match S.next s with
    | none =>
      if atStart ∧ digits = [] then .error .eof
      else .error (.failed "reading an element length: EOF")
    | some (b, s') =>
      if b = 46 then .ok (digits, s')
      else if b < 48 ∨ 57 < b then
        .error (.failed ("expected a digit in an element length, got " ++ quoteByte b))
      else match room with
        | 0 => .error (.failed "element length is absurd")
        | room + 1 => readDigits atStart room (digits ++ [b]) s'

/-- The walk over the elements of an instruction, with what `content` makes of n characters
put into what has been read by `push`, and the error when the separator is missing. -/
def readElements {α β : Type} (content : ℕ → σ → Except ReadError (β × σ)) (missing : β → String)
    (push : α → List UInt8 → β → UInt8 → α) : ℕ → Bool → α → σ → Except ReadError (α × σ)
  | 0, _, _, _ => .error .outOfFuel
  | fuel + 1, atStart, acc, s => do
      let (digits, s) ← readDigits S atStart 8 [] s
      let n ← checkedLength digits
      let (value, s) ← content n s
      match S.next s with
      | none => .error (.failed (missing value))
      | some (sep, s) =>
        if sep = 59 then .ok (push acc digits value sep, s)
        else if sep = 44 then
          readElements content missing push fuel false (push acc digits value sep) s
        else .error (.failed ("expected ',' or ';' after an element, got " ++ quoteByte sep))

/-- `bufio.Reader.ReadRune`. -/
def readRune (s : σ) : Option (Char × σ) := match S.bytes s with
  | [] => none
  | b :: bs => some ((decodeRune (b :: bs)).1, S.skip (decodeRune (b :: bs)).2 s)

def readRunes : ℕ → σ → Except ReadError (String × σ)
  | 0, s => .ok ("", s)
  | n + 1, s =>
    match readRune S s with
    | none => .error (.failed "reading element content: EOF")
    | some (c, s) => do
        let (rest, s) ← readRunes n s
        return (String.ofList [c] ++ rest, s)

/-- The first element is the opcode, unless it is empty and nothing has followed it. -/
def pushElement (inst : Instruction) (_ : List UInt8) (value : String) (_ : UInt8) : Instruction :=
  if inst.opcode = "" ∧ inst.args = [] then { inst with opcode := value }
  else { inst with args := inst.args ++ [value] }

def readInstruction (s : σ) : Except ReadError (Instruction × σ) :=
  readElements S (readRunes S)
    (fun value => "truncated instruction after " ++ quote value ++ ": EOF")
    pushElement ((S.bytes s).length + 1) true {} s

/-- The continuation bytes of a character. -/
def rawContinuation : ℕ → σ → Except ReadError (List UInt8 × σ)
  | 0, s => .ok ([], s)
  | k + 1, s =>
    match S.next s with
    | none => .error (.failed "reading element content: EOF")
    | some (c, s) =>
      if c &&& 0xC0 ≠ 0x80 then
        .error (.failed ("invalid UTF-8 continuation byte " ++ hexByte c))
      else do
        let (rest, s) ← rawContinuation k s
        return (c :: rest, s)

/-- How many continuation bytes a lead byte asks for. -/
def extraBytes (b : UInt8) : Option ℕ := if b < 0x80 then some 0
  else if b &&& 0xE0 = 0xC0 then some 1
  else if b &&& 0xF0 = 0xE0 then some 2
  else if b &&& 0xF8 = 0xF0 then some 3
  else none

def rawRunes : ℕ → σ → Except ReadError (List UInt8 × σ)
  | 0, s => .ok ([], s)
  | n + 1, s =>
    match S.next s with
    | none => .error (.failed "reading element content: EOF")
    | some (b, s) =>
      match extraBytes b with
      | none => .error (.failed ("invalid UTF-8 lead byte " ++ hexByte b ++ " in an element"))
      | some extra => do
          let (more, s) ← rawContinuation S extra s
          let (rest, s) ← rawRunes n s
          return (b :: more ++ rest, s)

/-- The bytes of an element are kept as they were read. -/
def pushRaw (out digits value : List UInt8) (sep : UInt8) : List UInt8 :=
  out ++ digits ++ 46 :: value ++ [sep]

def readRaw (s : σ) : Except ReadError (List UInt8 × σ) :=
  readElements S (rawRunes S) (fun _ => "truncated instruction: EOF") pushRaw
    ((S.bytes s).length + 1) true [] s

def drain {α : Type} (read : σ → Except ReadError (α × σ)) : ℕ → σ → List α × ReadError
  | 0, _ => ([], .outOfFuel)
  | fuel + 1, s =>
    match read s with
    | .error e => ([], e)
    | .ok (x, s') => (x :: (drain read fuel s').1, (drain read fuel s').2)

/-- Reading until an error, with fuel for every byte. -/
def readAll {α : Type} (read : σ → Except ReadError (α × σ)) (s : σ) : List α × ReadError :=
  drain read ((S.bytes s).length + 1) s

end

/-! ## Lengths -/

theorem digit_range {c : Char} {n : ℕ} (hc : c ∈ Nat.toDigits 10 n) :
    48 ≤ c.toNat ∧ c.toNat ≤ 57 := by
  have hdigit := Nat.isDigit_of_mem_toDigits (by decide) (by decide) hc
  simpa [Char.isDigit, UInt32.le_iff_toNat_le] using hdigit

theorem digits_map (n : ℕ) : textBytes (toString n) =
    (Nat.toDigits 10 n).map fun c => c.toNat.toUInt8 := by
  have hlist : (toString n).toList = Nat.toDigits 10 n := by
    rw [Nat.toString_eq_ofList_toDigits, String.toList_ofList]
  rw [textBytes_ascii, hlist]
  intro c hc
  rw [hlist] at hc
  exact (digit_range hc).2.trans_lt (by decide)

theorem digits_range {n : ℕ} {b : UInt8} (hb : b ∈ textBytes (toString n)) :
    ¬(b < 48 ∨ 57 < b) ∧ b ≠ 46 := by
  rw [digits_map, mem_map] at hb
  obtain ⟨c, hc, rfl⟩ := hb
  obtain ⟨hlow, hhigh⟩ := digit_range hc
  have hnat : c.toNat.toUInt8.toNat = c.toNat := by
    rw [UInt8.toNat_ofNat', Nat.mod_eq_of_lt (by omega)]
  constructor
  · rw [UInt8.lt_iff_toNat_lt, UInt8.lt_iff_toNat_lt, hnat]
    simp
    omega
  · intro h
    have h := congrArg UInt8.toNat h
    rw [hnat] at h
    simp at h
    omega

theorem digits_ne_nil (n : ℕ) : textBytes (toString n) ≠ [] := by
  rw [digits_map]
  simp [Nat.toDigits_ne_nil]

theorem digits_short {n : ℕ} (h : n ≤ maxInstructionRunes) :
    (textBytes (toString n)).length ≤ 8 := by
  rw [digits_map, length_map, Nat.length_toDigits_le_iff (by decide) (by decide)]
  unfold maxInstructionRunes at h
  omega

theorem lengthOf_digits (n : ℕ) : lengthOf (textBytes (toString n)) = n := by
  have hchars : (textBytes (toString n)).map (fun b => Char.ofNat b.toNat) = Nat.toDigits 10 n := by
    rw [digits_map, map_map]
    refine (map_congr_left ?_).trans (map_id _)
    intro c hc
    obtain ⟨_, hhigh⟩ := digit_range hc
    have hnat : c.toNat.toUInt8.toNat = c.toNat := by
      rw [UInt8.toNat_ofNat', Nat.mod_eq_of_lt (by omega)]
    simp only [Function.comp_apply, hnat, Char.ofNat_toNat, id_eq]
  rw [lengthOf, hchars, Nat.ofDigitChars_ten_toDigits]

theorem checkedLength_digits {n : ℕ} (h : n ≤ maxInstructionRunes) :
    checkedLength (textBytes (toString n)) = .ok n := by
  rw [checkedLength, if_neg (digits_ne_nil n), lengthOf_digits, if_neg (Nat.not_lt.mpr h)]

section
variable {σ : Type} {S : Stream σ} {s : σ}

theorem readDigits_whole {atStart : Bool} {room : ℕ} {acc ds r : List UInt8}
    (hb : S.bytes s = ds ++ 46 :: r) (hds : ∀ b ∈ ds, ¬(b < 48 ∨ 57 < b) ∧ b ≠ 46)
    (hroom : ds.length ≤ room) :
    readDigits S atStart room acc s = .ok (acc ++ ds, S.skip (ds.length + 1) s) := by
  induction ds generalizing room acc s with
  | nil =>
    rw [readDigits, Stream.next_cons hb]
    simp
  | cons d ds ih =>
    obtain ⟨room, rfl⟩ : ∃ k, room = k + 1 := ⟨room - 1, by simp at hroom; omega⟩
    obtain ⟨hd, hdot⟩ := hds d (by simp)
    have hnext : S.bytes (S.skip 1 s) = ds ++ 46 :: r := by
      rw [Stream.bytes_skip, hb]
      rfl
    rw [readDigits, Stream.next_cons hb]
    simp only [hdot, hd, if_false]
    rw [ih hnext (fun b hb => hds b (by simp [hb])) (by simpa using hroom), List.append_assoc,
      ← Stream.skip_add]
    simp [Nat.add_comm 1]

/-- Digits that end with the stream are an error, and none at all `io.EOF`. -/
theorem readDigits_cut {atStart : Bool} {room : ℕ} {acc ds : List UInt8}
    (hb : S.bytes s = ds) (hds : ∀ b ∈ ds, ¬(b < 48 ∨ 57 < b) ∧ b ≠ 46)
    (hroom : ds.length ≤ room) (hstart : atStart = true → acc ++ ds ≠ []) :
    readDigits S atStart room acc s = .error (.failed "reading an element length: EOF") := by
  induction ds generalizing room acc s with
  | nil =>
    rw [readDigits, Stream.next_nil hb]
    have hne : ¬(atStart = true ∧ acc = []) := by
      rintro ⟨h, hacc⟩
      exact hstart h (by simp [hacc])
    simp [hne]
  | cons d ds ih =>
    obtain ⟨room, rfl⟩ : ∃ k, room = k + 1 := ⟨room - 1, by simp at hroom; omega⟩
    obtain ⟨hd, hdot⟩ := hds d (by simp)
    have hnext : S.bytes (S.skip 1 s) = ds := by
      rw [Stream.bytes_skip, hb]
      rfl
    rw [readDigits, Stream.next_cons hb]
    simp only [hdot, hd, if_false]
    exact ih hnext (fun b hb => hds b (by simp [hb])) (by simpa using hroom) (by simp)

end

/-! ## Characters -/

theorem prefix_append_cases {α : Type} {p w r : List α} (h : p <+: w ++ r) :
    p <+: w ∧ p ≠ w ∨ ∃ q, p = w ++ q ∧ q <+: r := by
  rcases prefix_or_prefix_of_prefix h (prefix_append w r) with hp | ⟨q, rfl⟩
  · by_cases hw : p = w
    · exact .inr ⟨[], by simp [hw], nil_prefix⟩
    · exact .inl ⟨hp, hw⟩
  · exact .inr ⟨q, rfl, (prefix_append_right_inj w).mp h⟩

/-- A mask sees only the bits that were put in place of those another mask has cleared. -/
theorem masked {m t k u : UInt8} (x : UInt8) (hclear : m &&& k = 0) (hset : t &&& k = u) :
    (x &&& m ||| t) &&& k = u := by
  have hsplit : (x &&& m ||| t) &&& k = x &&& (m &&& k) ||| t &&& k :=
    UInt8.toBitVec_inj.mp (by simp [BitVec.and_or_distrib_right, BitVec.and_assoc])
  rw [hsplit, hclear, hset, UInt8.and_zero, UInt8.zero_or]

theorem continuation_byte (x : UInt8) : (x &&& 0x3f ||| 0x80) &&& 0xC0 = 0x80 := masked x rfl rfl

theorem high_bit {b : UInt8} (h : b &&& 0x80 = 0x80) : ¬b < 0x80 :=
  UInt8.not_lt.mpr (h ▸ UInt8.and_le_left)

theorem lead_byte (x : UInt8) :
    extraBytes (x &&& 0x1f ||| 0xc0) = some 1 ∧ extraBytes (x &&& 0x0f ||| 0xe0) = some 2 ∧
      extraBytes (x &&& 0x07 ||| 0xf0) = some 3 := by
  refine ⟨?_, ?_, ?_⟩ <;> rw [extraBytes, if_neg (high_bit (masked x rfl rfl)), masked x rfl rfl]
  · rfl
  · rw [if_neg (by decide), masked x rfl rfl]
    rfl
  · rw [if_neg (by decide), masked x rfl rfl, if_neg (by decide), masked x rfl rfl]
    rfl

theorem encode_shape (c : Char) : ∃ b conts, String.utf8EncodeChar c = b :: conts ∧
    extraBytes b = some conts.length ∧ ∀ x ∈ conts, x &&& 0xC0 = 0x80 := by
  obtain h | h | h | h := c.utf8Size_eq
  · refine ⟨_, _, String.utf8EncodeChar_eq_singleton h, ?_, by simp⟩
    have hlow := Char.utf8Size_eq_one_iff.mp h
    have hbyte : c.val.toUInt8 < 0x80 := by
      rw [UInt8.lt_iff_toNat_lt, UInt32.toNat_toUInt8]
      rw [UInt32.le_iff_toNat_le] at hlow
      simp at hlow ⊢
      omega
    rw [extraBytes, if_pos hbyte, length_nil]
  · exact ⟨_, _, String.utf8EncodeChar_eq_cons_cons h, (lead_byte _).1, by
      simp [continuation_byte]⟩
  · exact ⟨_, _, String.utf8EncodeChar_eq_cons_cons_cons h, (lead_byte _).2.1, by
      simp [continuation_byte]⟩
  · exact ⟨_, _, String.utf8EncodeChar_eq_cons_cons_cons_cons h, (lead_byte _).2.2, by
      simp [continuation_byte]⟩

theorem not_separator {x : UInt8} (h : x &&& 0xC0 = 0x80) : x ≠ 59 ∧ x ≠ 44 := by
  constructor
  · rintro rfl
    revert h
    decide
  · rintro rfl
    revert h
    decide

section
variable {σ : Type} {S : Stream σ} {s s' : σ}

theorem readRune_encode {c : Char} {r : List UInt8}
    (hb : S.bytes s = String.utf8EncodeChar c ++ r) :
    readRune S s = some (c, S.skip (String.utf8EncodeChar c).length s) := by
  obtain ⟨b, conts, hc, _⟩ := encode_shape c
  have hdecode := decodeRune_encode c r
  rw [hc, cons_append] at hb hdecode
  simp only [readRune, hb, hdecode, String.length_utf8EncodeChar]

/-- `n` characters are read as they were encoded. -/
theorem readRunes_whole {cs : List Char} {r : List UInt8}
    (hb : S.bytes s = cs.flatMap String.utf8EncodeChar ++ r) :
    readRunes S cs.length s =
      .ok (String.ofList cs, S.skip (cs.flatMap String.utf8EncodeChar).length s) := by
  induction cs generalizing s with
  | nil => rfl
  | cons c cs ih =>
    rw [flatMap_cons, List.append_assoc] at hb
    have hrest := Stream.bytes_skip_append hb
    rw [length_cons, readRunes, readRune_encode hb]
    simp only [ih hrest, bind, Except.bind, pure, Except.pure, ← Stream.skip_add,
      flatMap_cons, length_append, ← String.ofList_append, singleton_append]

theorem readRunes_suffix {n : ℕ} {value : String} (h : readRunes S n s = .ok (value, s')) :
    S.bytes s' <:+ S.bytes s := by
  induction n generalizing s value with
  | zero =>
    cases h
    exact suffix_rfl
  | succ n ih =>
    rw [readRunes] at h
    cases hr : readRune S s with
    | none => simp [hr] at h
    | some x =>
      obtain ⟨c, s₁⟩ := x
      simp only [hr] at h
      cases hrest : readRunes S n s₁ with
      | error e => simp [hrest, bind, Except.bind] at h
      | ok y =>
        obtain ⟨v, s₂⟩ := y
        simp only [hrest, bind, Except.bind, pure, Except.pure] at h
        cases h
        refine (ih hrest).trans ?_
        unfold readRune at hr
        split at hr
        · cases hr
        · cases hr
          rw [Stream.bytes_skip]
          exact drop_suffix _ _

theorem readRunes_error {n : ℕ} {e : ReadError} (h : readRunes S n s = .error e) :
    ∃ text, e = .failed text := by
  induction n generalizing s with
  | zero => cases h
  | succ n ih =>
    rw [readRunes] at h
    cases hr : readRune S s with
    | none =>
      simp only [hr] at h
      cases h
      exact ⟨_, rfl⟩
    | some x =>
      simp only [hr] at h
      cases hrest : readRunes S n x.2 with
      | error e' =>
        simp only [hrest, bind, Except.bind] at h
        cases h
        exact ih hrest
      | ok y => simp [hrest, bind, Except.bind, pure, Except.pure] at h

def CutShort (S : Stream σ) {β : Type} (r : Except ReadError (β × σ)) : Prop :=
  (∃ text, r = .error (.failed text)) ∨
    ∃ v s', r = .ok (v, s') ∧ ∀ b ∈ (S.bytes s').head?, b ≠ 59 ∧ b ≠ 44

theorem readRunes_cut {cs : List Char} (hp : S.bytes s <+: cs.flatMap String.utf8EncodeChar)
    (hne : S.bytes s ≠ cs.flatMap String.utf8EncodeChar) :
    CutShort S (readRunes S cs.length s) := by
  induction cs generalizing s with
  | nil => exact absurd (prefix_nil.mp hp) hne
  | cons c cs ih =>
    rw [flatMap_cons] at hp hne
    rw [length_cons, readRunes]
    rcases prefix_append_cases hp with ⟨hshort, hnc⟩ | ⟨q, hq, hqp⟩
    · obtain ⟨b, conts, hc, _, hconts⟩ := encode_shape c
      cases hb : S.bytes s with
      | nil =>
        simp only [readRune, hb]
        exact .inl ⟨_, rfl⟩
      | cons b' tail =>
        rw [hc, hb, cons_prefix_cons] at hshort
        have hrune : readRune S s = some ((decodeRune (b' :: tail)).1,
            S.skip (decodeRune (b' :: tail)).2 s) := by
          rw [readRune, hb]
        rw [hrune]
        cases hrest : readRunes S cs.length (S.skip (decodeRune (b' :: tail)).2 s) with
        | error e =>
          obtain ⟨text, rfl⟩ := readRunes_error hrest
          exact .inl ⟨text, by simp only [hrest, bind, Except.bind]⟩
        | ok x =>
          obtain ⟨v, s'⟩ := x
          refine .inr ⟨_, s', by simp only [hrest, bind, Except.bind]; rfl, ?_⟩
          intro x hx
          have hsuffix := (readRunes_suffix hrest).subset (mem_of_head? hx)
          rw [Stream.bytes_skip, hb] at hsuffix
          obtain ⟨k, hk⟩ := Nat.exists_eq_add_of_le' (decodeRune_pos (b' :: tail))
          rw [hk, drop_succ_cons] at hsuffix
          exact not_separator (hconts x (hshort.2.subset (mem_of_mem_drop hsuffix)))
    · have hrest := Stream.bytes_skip_append hq
      rw [readRune_encode hq]
      have hcut := ih (s := S.skip (String.utf8EncodeChar c).length s) (by rwa [hrest]) (by
        rw [hrest]
        rintro rfl
        exact hne hq)
      simp only
      rcases hcut with ⟨text, ht⟩ | ⟨v, s', hv, hs'⟩
      · exact .inl ⟨text, by simp only [ht, bind, Except.bind]⟩
      · exact .inr ⟨_, s', by simp only [hv, bind, Except.bind]; rfl, hs'⟩

end

section
variable {σ : Type} {S : Stream σ} {s : σ}

theorem rawContinuation_whole {conts r : List UInt8} (hb : S.bytes s = conts ++ r)
    (hc : ∀ x ∈ conts, x &&& 0xC0 = 0x80) :
    rawContinuation S conts.length s = .ok (conts, S.skip conts.length s) := by
  induction conts generalizing s with
  | nil => rfl
  | cons c conts ih =>
    have hnext : S.bytes (S.skip 1 s) = conts ++ r := by
      rw [Stream.bytes_skip, hb]
      rfl
    rw [length_cons, rawContinuation, Stream.next_cons hb]
    simp only [hc c (by simp), ne_eq, not_true_eq_false, if_false,
      ih hnext (fun x hx => hc x (by simp [hx])), bind, Except.bind, pure, Except.pure,
      ← Stream.skip_add]
    rw [Nat.add_comm]

theorem rawContinuation_cut {conts : List UInt8} (hp : S.bytes s <+: conts)
    (hne : S.bytes s ≠ conts) (hc : ∀ x ∈ conts, x &&& 0xC0 = 0x80) :
    ∃ text, rawContinuation S conts.length s = .error (.failed text) := by
  induction conts generalizing s with
  | nil => exact absurd (prefix_nil.mp hp) hne
  | cons c conts ih =>
    rw [length_cons, rawContinuation]
    cases hb : S.bytes s with
    | nil =>
      rw [Stream.next_nil hb]
      exact ⟨_, rfl⟩
    | cons b tail =>
      rw [hb, cons_prefix_cons] at hp
      obtain ⟨rfl, hp⟩ := hp
      have hnext : S.bytes (S.skip 1 s) = tail := by
        rw [Stream.bytes_skip, hb]
        rfl
      obtain ⟨text, ht⟩ := ih (s := S.skip 1 s) (by rwa [hnext]) (by
        rw [hnext]
        rintro rfl
        exact hne hb) fun x hx => hc x (by simp [hx])
      rw [Stream.next_cons hb]
      refine ⟨text, ?_⟩
      simp only [hc b (by simp), ne_eq, not_true_eq_false, if_false, ht, bind, Except.bind]

/-- `n` characters are kept as they were encoded. -/
theorem rawRunes_whole {cs : List Char} {r : List UInt8}
    (hb : S.bytes s = cs.flatMap String.utf8EncodeChar ++ r) :
    rawRunes S cs.length s = .ok (cs.flatMap String.utf8EncodeChar,
      S.skip (cs.flatMap String.utf8EncodeChar).length s) := by
  induction cs generalizing s with
  | nil => rfl
  | cons c cs ih =>
    obtain ⟨b, conts, hc, hextra, hconts⟩ := encode_shape c
    rw [flatMap_cons, hc, cons_append, cons_append, List.append_assoc] at hb
    have hnext : S.bytes (S.skip 1 s) = conts ++ (cs.flatMap String.utf8EncodeChar ++ r) := by
      rw [Stream.bytes_skip, hb]
      rfl
    have hrest := Stream.bytes_skip_append hnext
    rw [length_cons, rawRunes, Stream.next_cons hb]
    simp only [hextra, rawContinuation_whole hnext hconts, bind, Except.bind, ih hrest, pure,
      Except.pure, flatMap_cons, hc, cons_append, length_cons, length_append]
    rw [← Stream.skip_add, ← Stream.skip_add, ← Nat.add_assoc, Nat.add_comm 1, Nat.add_right_comm]

theorem rawRunes_cut {cs : List Char} (hp : S.bytes s <+: cs.flatMap String.utf8EncodeChar)
    (hne : S.bytes s ≠ cs.flatMap String.utf8EncodeChar) :
    ∃ text, rawRunes S cs.length s = .error (.failed text) := by
  induction cs generalizing s with
  | nil => exact absurd (prefix_nil.mp hp) hne
  | cons c cs ih =>
    obtain ⟨b, conts, hc, hextra, hconts⟩ := encode_shape c
    rw [flatMap_cons, hc, cons_append] at hp hne
    rw [length_cons, rawRunes]
    cases hb : S.bytes s with
    | nil =>
      rw [Stream.next_nil hb]
      exact ⟨_, rfl⟩
    | cons b' tail =>
      rw [hb, cons_prefix_cons] at hp
      obtain ⟨rfl, hp⟩ := hp
      have hnext : S.bytes (S.skip 1 s) = tail := by
        rw [Stream.bytes_skip, hb]
        rfl
      rw [Stream.next_cons hb]
      simp only [hextra]
      rcases prefix_append_cases hp with ⟨hshort, hnc⟩ | ⟨q, rfl, hq⟩
      · obtain ⟨text, ht⟩ := rawContinuation_cut (s := S.skip 1 s) (by rwa [hnext])
          (by rwa [hnext]) hconts
        exact ⟨text, by simp only [ht, bind, Except.bind]⟩
      · have hrest := Stream.bytes_skip_append hnext
        obtain ⟨text, ht⟩ := ih (s := S.skip conts.length (S.skip 1 s)) (by rwa [hrest]) (by
          rw [hrest]
          rintro rfl
          exact hne hb)
        refine ⟨text, ?_⟩
        simp only [rawContinuation_whole hnext hconts, ht, bind, Except.bind]

end

/-! ## Elements -/

/-- An instruction's bytes from an element on: its text and those after it. -/
def body : String → List String → List UInt8
  | t, [] => element t ++ [59]
  | t, a :: as => element t ++ 44 :: body a as

theorem string_eq_body (i : Instruction) : i.string = body i.opcode i.args := by
  have hbody : ∀ (as : List String) (t : String),
      element t ++ as.flatMap (fun a => 44 :: element a) ++ [59] = body t as := by
    intro as
    induction as with
    | nil =>
      intro t
      simp [body]
    | cons a as ih =>
      intro t
      rw [body, ← ih a]
      simp
  exact hbody i.args i.opcode

theorem body_ne_nil (t : String) (as : List String) : body t as ≠ [] := by
  cases as <;> simp [body, element]

/-- What reading the elements leaves, starting from `acc`. -/
def gather {α β : Type} (push : α → List UInt8 → β → UInt8 → α) (value : String → β) :
    α → String → List String → α
  | acc, t, [] => push acc (textBytes (toString t.toList.length)) (value t) 59
  | acc, t, a :: as =>
    gather push value (push acc (textBytes (toString t.toList.length)) (value t) 44) a as

/-- A reader of n characters that reads whole text, and is cut short by text that is cut. -/
structure ReadsText {σ β : Type} (S : Stream σ) (content : ℕ → σ → Except ReadError (β × σ))
    (value : String → β) : Prop where
  whole : ∀ {t : String} {r s}, S.bytes s = textBytes t ++ r →
    content t.toList.length s = .ok (value t, S.skip (textBytes t).length s)
  cut : ∀ {t : String} {s}, S.bytes s <+: textBytes t → S.bytes s ≠ textBytes t →
    CutShort S (content t.toList.length s)

theorem readRunes_readsText {σ : Type} (S : Stream σ) : ReadsText S (readRunes S) id where
  whole hb := by
    rw [readRunes_whole hb, String.ofList_toList]
    rfl
  cut hp hne := readRunes_cut hp hne

theorem rawRunes_readsText {σ : Type} (S : Stream σ) : ReadsText S (rawRunes S) textBytes where
  whole hb := rawRunes_whole hb
  cut hp hne := .inl (rawRunes_cut hp hne)

section
variable {σ α β : Type} {S : Stream σ} {content : ℕ → σ → Except ReadError (β × σ)}
  {value : String → β} {missing : β → String} {push : α → List UInt8 → β → UInt8 → α}

theorem readElements_step (missing : β → String) (hcontent : ReadsText S content value)
    {fuel : ℕ} {atStart : Bool} {acc : α} {s : σ} {t : String} {sep : UInt8} {r : List UInt8}
    (ht : t.toList.length ≤ maxInstructionRunes) (hb : S.bytes s = element t ++ sep :: r) :
    ∃ s', s' = S.skip (element t ++ [sep]).length s ∧
      readElements S content missing push (fuel + 1) atStart acc s =
        if sep = 59 then
          .ok (push acc (textBytes (toString t.toList.length)) (value t) sep, s')
        else if sep = 44 then
          readElements S content missing push fuel false
            (push acc (textBytes (toString t.toList.length)) (value t) sep) s'
        else .error (.failed ("expected ',' or ';' after an element, got " ++ quoteByte sep)) := by
  rw [element, List.append_assoc, cons_append] at hb
  have hdigits : readDigits S atStart 8 [] s = _ :=
    readDigits_whole hb (fun b hb => digits_range hb) (digits_short ht)
  have hafter : S.bytes (S.skip ((textBytes (toString t.toList.length)).length + 1) s) =
      textBytes t ++ sep :: r := by
    rw [Stream.skip_add, Stream.bytes_skip, Stream.bytes_skip_append hb]
    rfl
  have hsep := Stream.bytes_skip_append hafter
  refine ⟨_, rfl, ?_⟩
  rw [readElements]
  simp only [hdigits, nil_append, bind, Except.bind, checkedLength_digits ht,
    hcontent.whole hafter, Stream.next_cons hsep]
  have hlen : (textBytes (toString t.toList.length)).length + 1 + (textBytes t).length + 1 =
      (element t ++ [sep]).length := by
    simp only [element, length_append, length_cons, length_nil]
    omega
  rw [← Stream.skip_add, ← Stream.skip_add, ← Nat.add_assoc, hlen]

theorem readElements_whole (hcontent : ReadsText S content value) {fuel : ℕ} {atStart : Bool}
    {acc : α} {s : σ} {t : String} {as : List String} {r : List UInt8}
    (hfits : ∀ u ∈ t :: as, u.toList.length ≤ maxInstructionRunes)
    (hb : S.bytes s = body t as ++ r) (hfuel : (S.bytes s).length < fuel) :
    readElements S content missing push fuel atStart acc s =
      .ok (gather push value acc t as, S.skip (body t as).length s) := by
  induction as generalizing fuel atStart acc s t with
  | nil =>
    obtain ⟨fuel, rfl⟩ : ∃ k, fuel = k + 1 := ⟨fuel - 1, by omega⟩
    rw [body, List.append_assoc] at hb
    obtain ⟨s', rfl, hstep⟩ := readElements_step missing hcontent (hfits t (by simp)) hb
    rw [hstep]
    rfl
  | cons a as ih =>
    obtain ⟨fuel, rfl⟩ : ∃ k, fuel = k + 1 := ⟨fuel - 1, by omega⟩
    have hsplit : S.bytes s = (element t ++ [44]) ++ (body a as ++ r) := by
      rw [hb, body]
      simp
    have hrest := Stream.bytes_skip_append hsplit
    rw [List.append_assoc] at hsplit
    obtain ⟨s', rfl, hstep⟩ := readElements_step missing hcontent (hfits t (by simp)) hsplit
    rw [hstep]
    have hless : (S.bytes (S.skip (element t ++ [44]).length s)).length < fuel := by
      rw [hrest]
      rw [hsplit] at hfuel
      simp only [length_append, length_cons, length_nil] at hfuel ⊢
      omega
    simp only [if_neg (by decide : ¬(44 : UInt8) = 59), if_true]
    rw [ih (fun u hu => hfits u (by simp [hu])) hrest hless, ← Stream.skip_add]
    have hlen : (element t ++ [44]).length + (body a as).length = (body t (a :: as)).length := by
      simp only [body, length_append, length_cons, length_nil]
      omega
    rw [hlen]
    rfl

theorem readElements_element_cut (hcontent : ReadsText S content value) {fuel : ℕ}
    {atStart : Bool} {acc : α} {s : σ} {t : String}
    (ht : t.toList.length ≤ maxInstructionRunes) (hp : S.bytes s <+: element t)
    (hstart : atStart = true → S.bytes s ≠ []) :
    ∃ text, readElements S content missing push (fuel + 1) atStart acc s =
      .error (.failed text) := by
  rw [readElements]
  have hdigits : S.bytes s <+: textBytes (toString t.toList.length) →
      readDigits S atStart 8 [] s = .error (.failed "reading an element length: EOF") := by
    intro hp
    exact readDigits_cut rfl (fun b hb => digits_range (hp.subset hb))
      (hp.length_le.trans (digits_short ht)) (by simpa using hstart)
  rcases prefix_append_cases hp with ⟨hshort, _⟩ | ⟨q, hq, hqp⟩
  · exact ⟨_, by simp only [hdigits hshort, bind, Except.bind]; rfl⟩
  · cases q with
    | nil =>
      rw [append_nil] at hq
      exact ⟨_, by simp only [hdigits (by rw [hq]), bind, Except.bind]; rfl⟩
    | cons d q =>
      rw [cons_prefix_cons] at hqp
      obtain ⟨rfl, hqp⟩ := hqp
      have hwhole : readDigits S atStart 8 [] s = _ :=
        readDigits_whole hq (fun b hb => digits_range hb) (digits_short ht)
      have hafter : S.bytes (S.skip ((textBytes (toString t.toList.length)).length + 1) s) = q := by
        rw [Stream.skip_add, Stream.bytes_skip, Stream.bytes_skip_append hq]
        rfl
      simp only [hwhole, nil_append, bind, Except.bind, checkedLength_digits ht]
      by_cases hall : q = textBytes t
      · have hvalue := hcontent.whole (r := []) (t := t)
          (s := S.skip ((textBytes (toString t.toList.length)).length + 1) s)
          (by rw [hafter, hall, append_nil])
        have hend : S.bytes (S.skip (textBytes t).length
            (S.skip ((textBytes (toString t.toList.length)).length + 1) s)) = [] := by
          rw [Stream.bytes_skip, hafter, hall, drop_length]
        simp only [hvalue, Stream.next_nil hend]
        exact ⟨_, rfl⟩
      · rcases hcontent.cut (t := t) (by rwa [hafter]) (by rwa [hafter]) with
          ⟨text, ht⟩ | ⟨v, s', hv, hsep⟩
        · exact ⟨text, by simp only [ht]⟩
        · simp only [hv]
          cases hb : S.bytes s' with
          | nil =>
            rw [Stream.next_nil hb]
            exact ⟨_, rfl⟩
          | cons b tail =>
            obtain ⟨h59, h44⟩ := hsep b (by rw [hb]; rfl)
            rw [Stream.next_cons hb]
            simp only [h59, h44, if_false]
            exact ⟨_, rfl⟩

theorem readElements_cut (hcontent : ReadsText S content value) {fuel : ℕ} {atStart : Bool}
    {acc : α} {s : σ} {t : String} {as : List String}
    (hfits : ∀ u ∈ t :: as, u.toList.length ≤ maxInstructionRunes)
    (hp : S.bytes s <+: body t as) (hne : S.bytes s ≠ body t as)
    (hstart : atStart = true → S.bytes s ≠ []) (hfuel : (S.bytes s).length < fuel) :
    ∃ text, readElements S content missing push fuel atStart acc s = .error (.failed text) := by
  induction as generalizing fuel atStart acc s t with
  | nil =>
    obtain ⟨fuel, rfl⟩ : ∃ k, fuel = k + 1 := ⟨fuel - 1, by omega⟩
    have hcut : S.bytes s <+: element t := by
      rcases prefix_concat_iff.mp hp with h | h
      · exact absurd h hne
      · exact h
    exact readElements_element_cut hcontent (hfits t (by simp)) hcut hstart
  | cons a as ih =>
    obtain ⟨fuel, rfl⟩ : ∃ k, fuel = k + 1 := ⟨fuel - 1, by omega⟩
    rcases prefix_append_cases hp with ⟨hshort, _⟩ | ⟨q, hq, hqp⟩
    · exact readElements_element_cut hcontent (hfits t (by simp)) hshort hstart
    · cases q with
      | nil =>
        rw [append_nil] at hq
        exact readElements_element_cut hcontent (hfits t (by simp)) (by rw [hq]) hstart
      | cons sep q =>
        rw [cons_prefix_cons] at hqp
        obtain ⟨rfl, hqp⟩ := hqp
        obtain ⟨s', rfl, hstep⟩ := readElements_step missing hcontent (hfits t (by simp)) hq
        have hrest : S.bytes (S.skip (element t ++ [44]).length s) = q := by
          refine Stream.bytes_skip_append ?_
          rw [hq]
          simp
        rw [hstep]
        simp only [if_neg (by decide : ¬(44 : UInt8) = 59), if_true]
        have hfits' : ∀ u ∈ a :: as, u.toList.length ≤ maxInstructionRunes :=
          fun u hu => hfits u (mem_cons_of_mem t hu)
        refine ih hfits' (by rwa [hrest]) ?_ (by simp) ?_
        · rw [hrest]
          rintro rfl
          exact hne hq
        · rw [hrest]
          rw [hq] at hfuel
          simp only [length_append, length_cons] at hfuel
          omega

end

/-! ## Streams of instructions -/

/-- A non-empty opcode and elements within the limit. -/
structure Instruction.Fits (i : Instruction) : Prop where
  opcode : i.opcode ≠ ""
  short : ∀ u ∈ i.opcode :: i.args, u.toList.length ≤ maxInstructionRunes

/-- The wire forms one after another. -/
def stream (insts : List Instruction) : List UInt8 := insts.flatMap Instruction.string

/-- A reader of instructions: what it makes of a whole one, of a part of one and of the end. -/
structure ReadsInstruction {σ α : Type} (S : Stream σ) (read : σ → Except ReadError (α × σ))
    (value : Instruction → α) (i : Instruction) : Prop where
  whole : ∀ {s r}, S.bytes s = i.string ++ r → read s = .ok (value i, S.skip i.string.length s)
  cut : ∀ {s}, S.bytes s <+: i.string → S.bytes s ≠ i.string → S.bytes s ≠ [] →
    ∃ text, read s = .error (.failed text)

theorem gather_instruction (inst : Instruction) (h : inst.opcode ≠ "") (t : String)
    (as : List String) :
    gather pushElement id inst t as = { inst with args := inst.args ++ t :: as } := by
  induction as generalizing inst t with
  | nil => simp [gather, pushElement, h]
  | cons a as ih =>
    rw [gather, ih _ (by simp [pushElement, h])]
    simp [pushElement, h]

theorem gather_opcode {i : Instruction} (h : i.opcode ≠ "") :
    gather pushElement id {} i.opcode i.args = i := by
  obtain ⟨opcode, args⟩ := i
  cases args with
  | nil => rfl
  | cons a as => exact gather_instruction ⟨opcode, []⟩ h a as

theorem gather_raw (out : List UInt8) (t : String) (as : List String) :
    gather pushRaw textBytes out t as = out ++ body t as := by
  induction as generalizing out t with
  | nil => simp [gather, pushRaw, body, element]
  | cons a as ih =>
    rw [gather, ih]
    simp [pushRaw, body, element]

section
variable {σ α : Type} {S : Stream σ}

theorem readInstruction_reads {i : Instruction} (hi : i.Fits) :
    ReadsInstruction S (readInstruction S) id i where
  whole := by
    intro s r hb
    rw [string_eq_body] at hb ⊢
    rw [readInstruction, readElements_whole (readRunes_readsText S) hi.short hb
      (Nat.lt_succ_self _), gather_opcode hi.opcode]
    rfl
  cut := by
    intro s hp hne hnil
    rw [string_eq_body] at hp hne
    exact readElements_cut (readRunes_readsText S) hi.short hp hne (fun _ => hnil)
      (Nat.lt_succ_self _)

theorem readRaw_reads {i : Instruction}
    (hi : ∀ u ∈ i.opcode :: i.args, u.toList.length ≤ maxInstructionRunes) :
    ReadsInstruction S (readRaw S) Instruction.string i where
  whole := by
    intro s r hb
    rw [string_eq_body] at hb ⊢
    rw [readRaw, readElements_whole (rawRunes_readsText S) hi hb (Nat.lt_succ_self _), gather_raw]
    rfl
  cut := by
    intro s hp hne hnil
    rw [string_eq_body] at hp hne
    exact readElements_cut (rawRunes_readsText S) hi hp hne (fun _ => hnil) (Nat.lt_succ_self _)

theorem readElements_ends {β : Type} {content : ℕ → σ → Except ReadError (β × σ)}
    {missing : β → String} {push : α → List UInt8 → β → UInt8 → α} {acc : α} {s : σ}
    (hb : S.bytes s = []) :
    readElements S content missing push ((S.bytes s).length + 1) true acc s = .error .eof := by
  rw [readElements, readDigits, Stream.next_nil hb]
  rfl

/-- Instructions are read one after another, and then `io.EOF`. -/
theorem drain_whole {read : σ → Except ReadError (α × σ)} {value : Instruction → α}
    {insts : List Instruction} (hread : ∀ i ∈ insts, ReadsInstruction S read value i)
    (hends : ∀ {s}, S.bytes s = [] → read s = .error .eof) {fuel : ℕ} {s : σ}
    (hb : S.bytes s = stream insts) (hfuel : (S.bytes s).length < fuel) :
    drain read fuel s = (insts.map value, .eof) := by
  induction insts generalizing fuel s with
  | nil =>
    obtain ⟨fuel, rfl⟩ : ∃ k, fuel = k + 1 := ⟨fuel - 1, by omega⟩
    rw [drain, hends hb]
    rfl
  | cons i insts ih =>
    obtain ⟨fuel, rfl⟩ : ∃ k, fuel = k + 1 := ⟨fuel - 1, by omega⟩
    rw [stream, flatMap_cons] at hb
    have hrest := Stream.bytes_skip_append hb
    have hpos : 0 < i.string.length := by
      rw [string_eq_body]
      exact length_pos_iff.mpr (body_ne_nil _ _)
    have hless : (S.bytes (S.skip i.string.length s)).length < fuel := by
      rw [Stream.bytes_skip, length_drop]
      rw [hb, length_append] at hfuel ⊢
      omega
    rw [drain, (hread i (by simp)).whole hb]
    simp only [ih (fun j hj => hread j (by simp [hj])) hrest hless, map_cons]

/-- A stream that ends inside an instruction is not read to `io.EOF`. -/
theorem drain_cut {read : σ → Except ReadError (α × σ)} {value : Instruction → α}
    {insts : List Instruction} (hread : ∀ i ∈ insts, ReadsInstruction S read value i) {fuel : ℕ}
    {s : σ} (hp : S.bytes s <+: stream insts)
    (hne : ∀ k, S.bytes s ≠ stream (insts.take k)) (hfuel : (S.bytes s).length < fuel) :
    ∃ text, (drain read fuel s).2 = .failed text := by
  induction insts generalizing fuel s with
  | nil => exact absurd (prefix_nil.mp hp) (hne 0)
  | cons i insts ih =>
    obtain ⟨fuel, rfl⟩ : ∃ k, fuel = k + 1 := ⟨fuel - 1, by omega⟩
    rw [stream, flatMap_cons] at hp
    rw [drain]
    rcases prefix_append_cases hp with ⟨hshort, hi⟩ | ⟨q, hq, hqp⟩
    · obtain ⟨text, ht⟩ := (hread i (by simp)).cut hshort hi (hne 0)
      exact ⟨text, by rw [ht]⟩
    · have hrest := Stream.bytes_skip_append hq
      have hpos : 0 < i.string.length := by
        rw [string_eq_body]
        exact length_pos_iff.mpr (body_ne_nil _ _)
      have hless : (S.bytes (S.skip i.string.length s)).length < fuel := by
        rw [hrest]
        rw [hq, length_append] at hfuel
        omega
      obtain ⟨text, ht⟩ := ih (fun j hj => hread j (by simp [hj])) (by rwa [hrest]) (by
        intro k hk
        rw [hrest] at hk
        apply hne (k + 1)
        rw [hq, hk, take_succ_cons, stream, stream, flatMap_cons]) hless
      exact ⟨text, by rw [(hread i (by simp)).whole hq]; exact ht⟩

end

/-- The codec round trip: what was written is read back, by the one reader as instructions and
by the other as bytes, up to `io.EOF`; and a stream that ends inside an instruction ends both
with another error. -/
theorem codec_round_trip {σ : Type} (S : Stream σ) {insts : List Instruction}
    (hfits : ∀ i ∈ insts, i.Fits) (s : σ) :
    (S.bytes s = stream insts → readAll S (readInstruction S) s = (insts, .eof) ∧
      readAll S (readRaw S) s = (insts.map Instruction.string, .eof)) ∧
    (S.bytes s <+: stream insts → (∀ k, S.bytes s ≠ stream (insts.take k)) →
      (∃ text, (readAll S (readInstruction S) s).2 = .failed text) ∧
      ∃ text, (readAll S (readRaw S) s).2 = .failed text) := by
  have hinst : ∀ i ∈ insts, ReadsInstruction S (readInstruction S) id i :=
    fun i hi => readInstruction_reads (hfits i hi)
  have hraw : ∀ i ∈ insts, ReadsInstruction S (readRaw S) Instruction.string i :=
    fun i hi => readRaw_reads (hfits i hi).short
  constructor
  · intro hb
    refine ⟨?_, drain_whole hraw readElements_ends hb (Nat.lt_succ_self _)⟩
    have h := drain_whole hinst readElements_ends hb (Nat.lt_succ_self _)
    rwa [map_id] at h
  · intro hp hne
    exact ⟨drain_cut hinst hp hne (Nat.lt_succ_self _), drain_cut hraw hp hne (Nat.lt_succ_self _)⟩

def sampleInstructions : List Instruction := [⟨"name", ["é;,", ""]⟩, ⟨"sync", []⟩]

theorem codec_round_trip_sample :
    readAll ofList (readInstruction ofList) (stream sampleInstructions) =
      (sampleInstructions, .eof) := by
  have hfits : ∀ i ∈ sampleInstructions, i.Fits := by
    intro i hi
    obtain rfl | rfl : i = ⟨"name", ["é;,", ""]⟩ ∨ i = ⟨"sync", []⟩ := by
      simpa [sampleInstructions] using hi
    · exact ⟨by decide, by decide⟩
    · exact ⟨by decide, by decide⟩
  exact ((codec_round_trip ofList hfits (stream sampleInstructions)).1 rfl).1

end Signari.GuacamoleCodec
