import Signari.GoStrings
import Mathlib.Data.List.Sort

/-!
# JSON values

JSON documents as `encoding/json` hands them to the server: a tree in which a number is
the text the encoder prints for it. Members keep the order they were written in, so a
repeated name is visible until `noDuplicateKeys` refuses it. The text grammar itself
stays with `encoding/json`; functions that start from text take the reader as an argument.
-/
namespace Signari.JsonValues
open GoStrings

/-- A number, as the text the encoder prints: it starts with a digit or a minus sign and has
only the characters of a numeral. -/
structure Number where
  text : String
  numeral : (text.toList.head?.any fun c => c.isDigit || c == '-') = true
  plain : (text.toList.all fun c =>
    c.isDigit || c == '-' || c == '+' || c == '.' || c == 'e') = true

inductive Json where
  | null
  | bool (b : Bool)
  | num (n : Number)
  | str (s : String)
  | arr (items : List Json)
  | obj (members : List (String × Json))

/-- How a message names the kind of a value. -/
def jsonKind : Json → String
  | .null => "null"
  | .bool _ => "a boolean"
  | .num _ => "a number"
  | .str _ => "a string"
  | .arr _ => "an array"
  | .obj _ => "an object"

/-- One rune of an encoded string; `encoding/json` also escapes what HTML would read. -/
def encodeChar (c : Char) : List Char := if c = '"' then ['\\', '"']
  else if c = '\\' then ['\\', '\\']
  else if c.toNat = 8 then ['\\', 'b']
  else if c.toNat = 9 then ['\\', 't']
  else if c.toNat = 10 then ['\\', 'n']
  else if c.toNat = 12 then ['\\', 'f']
  else if c.toNat = 13 then ['\\', 'r']
  else if c.toNat < 32 ∨ c = '<' ∨ c = '>' ∨ c = '&' then
    ['\\', 'u', '0', '0', hexDigit (c.toNat / 16), hexDigit (c.toNat % 16)]
  else if c.toNat = 0x2028 then "\\u2028".toList
  else if c.toNat = 0x2029 then "\\u2029".toList
  else [c]

def encodeString (s : String) : String :=
  String.ofList ('"' :: s.toList.flatMap encodeChar ++ ['"'])

def sortMembers (ms : List (String × String)) : List (String × String) :=
  ms.insertionSort fun a b => a.1 ≤ b.1

mutual

/-- `json.Marshal`. -/
def marshal : Json → String
  | .null => "null"
  | .bool b => if b then "true" else "false"
  | .num n => n.text
  | .str s => encodeString s
  | .arr items => "[" ++ join (marshalItems items) "," ++ "]"
  | .obj members =>
    "\x7b" ++ join ((sortMembers (marshalMembers members)).map fun m =>
      encodeString m.1 ++ ":" ++ m.2) "," ++ "\x7d"

def marshalItems : List Json → List String
  | [] => []
  | j :: js => marshal j :: marshalItems js

def marshalMembers : List (String × Json) → List (String × String)
  | [] => []
  | (k, j) :: ms => (k, marshal j) :: marshalMembers ms

end

def Json.isNull : Json → Bool
  | .null => true
  | _ => false

/-- Only `null` prints as null: every other kind is told apart by its first character. -/
theorem marshal_eq_null {j : Json} : marshal j = marshal .null ↔ j = .null := by
  constructor
  · intro h
    have hl := congrArg String.toList h
    cases j with
    | null => rfl
    | bool b => cases b <;> simp [marshal] at hl
    | num n =>
      have hn := n.numeral
      simp only [marshal] at hl
      rw [hl] at hn
      exact absurd hn (by decide)
    | str s => simp [marshal, encodeString] at hl
    | arr items => simp [marshal] at hl
    | obj members => simp [marshal] at hl
  · rintro rfl
    rfl

mutual

/-- Refuses a document in which some object, at any depth, names a member twice; the result
is the path and the name found first. -/
def noDuplicateKeys (path : List String) : Json → Option (List String × String)
  | .arr items => noDuplicateItems path items
  | .obj members => noDuplicateMembers path [] members
  | _ => none

def noDuplicateItems (path : List String) : List Json → Option (List String × String)
  | [] => none
  | j :: js => noDuplicateKeys path j <|> noDuplicateItems path js

def noDuplicateMembers (path seen : List String) :
    List (String × Json) → Option (List String × String)
  | [] => none
  | (k, j) :: ms =>
    if k ∈ seen then some (path, k)
    else noDuplicateKeys (path ++ [k]) j <|> noDuplicateMembers path (k :: seen) ms

end

def duplicateMessage (dup : List String × String) : String :=
  (if dup.1 = [] then "the document" else join dup.1 ".") ++ " names " ++ quote dup.2 ++
    " more than once; which one applies depends on the parser, so this has no single meaning"

end Signari.JsonValues
