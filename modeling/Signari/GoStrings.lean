import Mathlib.Data.List.DropRight
import Mathlib.Data.List.Infix
import Signari.CaseTables

/-!
# Go string operations on Unicode text

The operations of Go's `strings`, `strconv` and `unicode` packages that the development needs, on
Lean strings. Every string modelled here was decoded from JSON, YAML or a form, so it is valid UTF-8
and a rune loop and a byte loop see the same text.

Lower case and case folding are those of Unicode, by the table of `CaseTables`; upper case is
only ever compared with ASCII text, and is modelled on ASCII.
-/
namespace Signari.GoStrings
open List

abbrev decidableAlong {p : Char → Prop} [DecidablePred p] (cs : List Char) :
    Decidable (∀ c ∈ cs, p c) := List.decidableBAll p cs

/-- `unicode.IsSpace`: the White_Space property. -/
def isSpace (c : Char) : Bool := let n := c.toNat
  (9 ≤ n && n ≤ 13) || n == 0x20 || n == 0x85 || n == 0xA0 || n == 0x1680 ||
    (0x2000 ≤ n && n ≤ 0x200A) || n == 0x2028 || n == 0x2029 || n == 0x202F ||
    n == 0x205F || n == 0x3000

def trimLeft (cs : List Char) : List Char := cs.dropWhile isSpace

def trimChars (cs : List Char) : List Char := (trimLeft (trimLeft cs).reverse).reverse

/-- `strings.TrimSpace`. -/
def trimSpace (s : String) : String := String.ofList (trimChars s.toList)

/-- `strings.HasPrefix`. -/
def hasPrefix (s p : String) : Bool := p.toList.isPrefixOf s.toList

/-- `strings.HasSuffix`. -/
def hasSuffix (s p : String) : Bool := p.toList.isSuffixOf s.toList

/-- `strings.Contains`. -/
def contains (s p : String) : Bool := s.toList.tails.any fun t => p.toList.isPrefixOf t

/-- `strings.CutPrefix`; `none` when the prefix is absent. -/
def cutPrefix (s p : String) : Option String :=
  if hasPrefix s p then some (String.ofList (s.toList.drop p.toList.length)) else none

/-- `strings.ContainsAny`. -/
def containsAny (s chars : String) : Bool := s.toList.any fun c => chars.toList.contains c

/-- The scan behind `strings.Fields`: `carry` is the field that is still open. -/
def fieldsCarry (sep : Char → Bool) : List Char → List Char → List (List Char)
  | [], carry => if carry = [] then [] else [carry]
  | c :: cs, carry =>
    if sep c then
      if carry = [] then fieldsCarry sep cs [] else carry :: fieldsCarry sep cs []
    else fieldsCarry sep cs (carry ++ [c])

/-- The maximal separator-free chunks of a text. -/
def fieldsBy (sep : Char → Bool) (s : String) : List String :=
  (fieldsCarry sep s.toList []).map String.ofList

/-- `strings.Fields`. -/
def fields (s : String) : List String := fieldsBy isSpace s

/-- `strings.Join`. -/
def join (parts : List String) (sep : String) : String := match parts with
  | [] => ""
  | [p] => p
  | p :: ps => p ++ sep ++ join ps sep

/-- The value of a non-empty digit string. -/
def digitsValue : List Char → Option ℕ
  | [] => none
  | cs => if cs.all Char.isDigit then some (cs.foldl (fun n c => 10 * n + (c.toNat - 48)) 0)
      else none

/-- `strconv.Atoi`, with its range the 64-bit one. -/
def atoi (s : String) : Option ℤ :=
  let n := match s.toList with
    | '-' :: cs => (digitsValue cs).map fun n => -(n : ℤ)
    | '+' :: cs => (digitsValue cs).map fun n => (n : ℤ)
    | cs => (digitsValue cs).map fun n => (n : ℤ)
  n.filter fun n => -9223372036854775808 ≤ n ∧ n ≤ 9223372036854775807

/-- `unicode.ToLower`. -/
def lowerChar (c : Char) : Char := if 'A' ≤ c ∧ c ≤ 'Z' then Char.ofNat (c.toNat + 32)
  else if c.toNat < 128 then c
  else Char.ofNat (CaseTables.lowerCode c.toNat)

/-- `strings.ToLower`. -/
def toLower (s : String) : String := String.ofList (s.toList.map lowerChar)

/-- `strings.ToUpper` on ASCII. -/
def toUpper (s : String) : String :=
  String.ofList (s.toList.map fun c =>
    if 'a' ≤ c ∧ c ≤ 'z' then Char.ofNat (c.toNat - 32) else c)

/-- The representative of an orbit of `unicode.SimpleFold`. -/
def foldChar (c : Char) : Char :=
  if c.toNat < 128 then lowerChar c else Char.ofNat (CaseTables.foldCode c.toNat)

/-- `strings.EqualFold`. -/
def equalFold (s t : String) : Bool := s.toList.map foldChar == t.toList.map foldChar

/-- `strings.LastIndex` of a character, as the text before and after it. -/
def cutLast (cs : List Char) (c : Char) : Option (List Char × List Char) := match cs with
  | [] => none
  | d :: ds =>
    match cutLast ds c with
    | some (before, after) => some (d :: before, after)
    | none => if d = c then some ([], ds) else none

/-- `strings.Index` of a character, as the text before and after it. -/
def cutFirst (cs : List Char) (c : Char) : Option (List Char × List Char) := match cs with
  | [] => none
  | d :: ds =>
    if d = c then some ([], ds)
    else (cutFirst ds c).map fun r => (d :: r.1, r.2)

def hexDigit (n : ℕ) : Char := "0123456789abcdef".toList.getD n '0'

/-- One rune of `strconv.Quote`; runes past ASCII are taken to be printable. -/
def quoteChar (c : Char) : List Char := if c = '"' then ['\\', '"']
  else if c = '\\' then ['\\', '\\']
  else if c.toNat = 7 then ['\\', 'a']
  else if c.toNat = 8 then ['\\', 'b']
  else if c.toNat = 9 then ['\\', 't']
  else if c.toNat = 10 then ['\\', 'n']
  else if c.toNat = 11 then ['\\', 'v']
  else if c.toNat = 12 then ['\\', 'f']
  else if c.toNat = 13 then ['\\', 'r']
  else if c.toNat < 32 ∨ c.toNat = 127 then
    ['\\', 'x', hexDigit (c.toNat / 16), hexDigit (c.toNat % 16)]
  else [c]

/-- The `%q` verb on a string. -/
def quote (s : String) : String := String.ofList ('"' :: s.toList.flatMap quoteChar ++ ['"'])

theorem fieldsCarry_mem {sep : Char → Bool} {cs carry : List Char}
    (hc : ∀ c ∈ carry, sep c = false) :
    ∀ w ∈ fieldsCarry sep cs carry, w ≠ [] ∧ ∀ c ∈ w, sep c = false := by
  induction cs generalizing carry with
  | nil =>
    intro w hw
    simp only [fieldsCarry] at hw
    split_ifs at hw with h
    · simp at hw
    · obtain rfl := mem_singleton.mp hw
      exact ⟨h, hc⟩
  | cons d ds ih =>
    intro w hw
    simp only [fieldsCarry] at hw
    split_ifs at hw with hd h
    · exact ih (by simp) w hw
    · rcases mem_cons.mp hw with rfl | hw
      · exact ⟨h, hc⟩
      · exact ih (by simp) w hw
    · refine ih ?_ w hw
      intro c hc'
      rcases mem_append.mp hc' with hc' | hc'
      · exact hc c hc'
      · obtain rfl := mem_singleton.mp hc'
        simpa using hd

/-- Every field is non-empty and holds no separator. -/
theorem fieldsBy_mem {sep : Char → Bool} {s w : String} (hw : w ∈ fieldsBy sep s) :
    w.toList ≠ [] ∧ ∀ c ∈ w.toList, sep c = false := by
  obtain ⟨cs, hcs, rfl⟩ := mem_map.mp hw
  simpa using fieldsCarry_mem (by simp) cs hcs

theorem fieldsCarry_append {sep : Char → Bool} (w rest carry : List Char)
    (hw : ∀ c ∈ w, sep c = false) :
    fieldsCarry sep (w ++ rest) carry = fieldsCarry sep rest (carry ++ w) := by
  induction w generalizing carry with
  | nil => simp
  | cons c cs ih =>
    have hc : sep c = false := hw c (by simp)
    simp only [cons_append, fieldsCarry, hc, Bool.false_eq_true, if_false]
    rw [ih _ fun d hd => hw d (by simp [hd])]
    simp

/-- Once a field is closed, more separators change nothing. -/
theorem fieldsCarry_seps {sep : Char → Bool} (seps rest : List Char)
    (hseps : ∀ c ∈ seps, sep c = true) :
    fieldsCarry sep (seps ++ rest) [] = fieldsCarry sep rest [] := by
  induction seps with
  | nil => rfl
  | cons c cs ih =>
    have hc : sep c = true := hseps c (by simp)
    simp only [cons_append, fieldsCarry, hc, if_true]
    exact ih fun d hd => hseps d (by simp [hd])

theorem fieldsCarry_sep {sep : Char → Bool} (seps rest carry : List Char) (hne : seps ≠ [])
    (hseps : ∀ c ∈ seps, sep c = true) (hcarry : carry ≠ []) :
    fieldsCarry sep (seps ++ rest) carry = carry :: fieldsCarry sep rest [] := by
  cases seps with
  | nil => exact absurd rfl hne
  | cons c cs =>
    have hc : sep c = true := hseps c (by simp)
    have hcs := fieldsCarry_seps cs rest fun d hd => hseps d (by simp [hd])
    simp [fieldsCarry, hc, hcarry, hcs]

theorem fieldsBy_join_seps {sep : Char → Bool} {text : String} (hne : text.toList ≠ [])
    (hsep : ∀ c ∈ text.toList, sep c = true) (ws : List String)
    (hws : ∀ w ∈ ws, w.toList ≠ [] ∧ ∀ d ∈ w.toList, sep d = false) :
    fieldsBy sep (join ws text) = ws := by
  suffices h : fieldsCarry sep (join ws text).toList [] = ws.map String.toList by
    simp only [fieldsBy, h, map_map, Function.comp_def, String.ofList_toList, map_id']
  induction ws with
  | nil => simp [join, fieldsCarry]
  | cons w ws ih =>
    have hw := hws w (by simp)
    cases ws with
    | nil =>
      have h := fieldsCarry_append w.toList [] [] hw.2
      simp only [append_nil, nil_append] at h
      simp [join, h, fieldsCarry, hw.1]
    | cons v vs =>
      have ih := ih fun u hu => hws u (by simp [hu])
      simp only [join, String.toList_append, List.append_assoc]
      rw [fieldsCarry_append _ _ _ hw.2, nil_append, fieldsCarry_sep _ _ _ hne hsep hw.1, ih]
      rfl

/-- Splitting what was joined by a single separator gives the fields back. -/
theorem fieldsBy_join {sep : Char → Bool} {c : Char} (hsep : sep c = true) (ws : List String)
    (hws : ∀ w ∈ ws, w.toList ≠ [] ∧ ∀ d ∈ w.toList, sep d = false) :
    fieldsBy sep (join ws (String.ofList [c])) = ws := by
  apply fieldsBy_join_seps _ _ ws hws
  · simp
  · simpa using hsep

theorem trimChars_idem (cs : List Char) : trimChars (trimChars cs) = trimChars cs := by
  have hpre : trimChars cs <+: trimLeft cs := by
    have h := (dropWhile_suffix (l := (trimLeft cs).reverse) isSpace).reverse
    simpa [trimChars, trimLeft] using h
  have hleft : trimLeft (trimChars cs) = trimChars cs := by
    cases htrim : trimChars cs with
    | nil => rfl
    | cons c ds =>
      rw [htrim] at hpre
      obtain ⟨rest, hrest⟩ := hpre
      have hc : isSpace c = false := by
        have h := head?_dropWhile_not isSpace cs
        rw [← trimLeft, ← hrest] at h
        simpa using h
      simp [trimLeft, hc]
  unfold trimChars at hleft ⊢
  rw [hleft, reverse_reverse, trimLeft, trimLeft, dropWhile_idempotent]

/-- Trimming a second time changes nothing. -/
@[simp] theorem trimSpace_trimSpace (s : String) : trimSpace (trimSpace s) = trimSpace s := by
  simp [trimSpace, trimChars_idem]

end Signari.GoStrings
