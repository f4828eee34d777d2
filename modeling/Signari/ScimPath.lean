import Signari.GoStrings
import Signari.IndexedChecks

/-!
# SCIM attribute paths and value filters

`internal/scim/path.go`: a path is an attribute with an optional schema prefix, value filter and
sub-attribute, and a filter is comparisons joined by `and`, `or` and `not`. Each level returns a
remainder that is shorter than its input, in the type, so the recursion needs no fuel.

Whether an unquoted literal is a number is for `strconv.ParseFloat` to say, which is the argument
`isFloat`.
-/
namespace Signari.ScimPath
open GoStrings IndexedChecks

/-- The value of a comparison; a number keeps the text it was read from. -/
inductive Literal where
  | text (s : String)
  | bool (b : Bool)
  | null
  | number (text : String)
  deriving DecidableEq

/-- A value filter. A comparison keeps its operator in lower case. -/
inductive Filter where
  | compare (op attr : String) (value : Literal)
  | present (attr : String)
  | and (left right : Filter)
  | or (left right : Filter)
  | not (inner : Filter)
  deriving DecidableEq

structure Token where
  text : String
  quoted : Bool := false
  deriving DecidableEq

/-- Where the tokenizer stands: between tokens, in a word, in a string, or after the
backslash of an escape in one. -/
inductive Mode where
  | outside
  | word (cs : List Char)
  | quoted (cs : List Char)
  | escaped (cs : List Char)

def tokenizeFrom : List Char → Mode → Except String (List Token)
  | [], .outside => .ok []
  | [], .word w => .ok [⟨String.ofList w, false⟩]
  | [], _ => .error "unterminated string in filter"
  | c :: cs, .outside =>
    if c = ' ' ∨ c = '\t' then tokenizeFrom cs .outside
    else if c = '(' ∨ c = ')' then do
      let ts ← tokenizeFrom cs .outside
      .ok (⟨String.ofList [c], false⟩ :: ts)
    else if c = '"' then tokenizeFrom cs (.quoted [])
    else tokenizeFrom cs (.word [c])
  | c :: cs, .word w =>
    if c = ' ' ∨ c = '\t' then do
      let ts ← tokenizeFrom cs .outside
      .ok (⟨String.ofList w, false⟩ :: ts)
    else if c = '(' ∨ c = ')' then do
      let ts ← tokenizeFrom cs .outside
      .ok (⟨String.ofList w, false⟩ :: ⟨String.ofList [c], false⟩ :: ts)
    else tokenizeFrom cs (.word (w ++ [c]))
  | c :: cs, .quoted q =>
    if c = '\\' then tokenizeFrom cs (.escaped q)
    else if c = '"' then do
      let ts ← tokenizeFrom cs .outside
      .ok (⟨String.ofList q, true⟩ :: ts)
    else tokenizeFrom cs (.quoted (q ++ [c]))
  | c :: cs, .escaped q => tokenizeFrom cs (.quoted (q ++ [c]))

def tokenizeFilter (s : List Char) : Except String (List Token) := do
  let ts ← tokenizeFrom s .outside
  refuseIf (ts = []) "empty filter"
  .ok ts

def literal (isFloat : String → Bool) (t : Token) : Literal := if t.quoted then .text t.text
  else if toLower t.text = "true" then .bool true
  else if toLower t.text = "false" then .bool false
  else if toLower t.text = "null" then .null
  else if isFloat t.text then .number t.text
  else .text t.text

def comparisonOps : List String := ["eq", "ne", "co", "sw", "ew", "gt", "lt", "ge", "le"]

/-- A remainder strictly shorter than what was parsed. -/
abbrev Shorter (ts : List Token) := { rest : List Token // rest.length < ts.length }

def parseComparison (isFloat : String → Bool) (ts : List Token) :
    Except String (Filter × Shorter ts) :=
  match ts with
  | [] => .error "filter ended where an attribute was expected"
  | [attr] => .error ("filter attribute " ++ quote attr.text ++ " has no operator")
  | attr :: op :: rest =>
    if toLower op.text = "pr" then
      .ok (.present (toLower attr.text), ⟨rest, by simp only [List.length_cons]; omega⟩)
    else if comparisonOps.contains (toLower op.text) = false then
      .error ("unknown filter operator " ++ quote op.text)
    else match rest with
      | [] => .error ("filter operator " ++ quote (toLower op.text) ++ " has no value")
      | val :: rest =>
        .ok (.compare (toLower op.text) (toLower attr.text) (literal isFloat val),
          ⟨rest, by simp only [List.length_cons]; omega⟩)

/-- Whether the next token is the given bare keyword. -/
def isKeyword (t : Token) (word : String) : Bool := !t.quoted && equalFold t.text word

mutual

def parseUnary (isFloat : String → Bool) (ts : List Token) : Except String (Filter × Shorter ts) :=
  match ts with
  | [] => .error "filter ended early"
  | t :: rest =>
    if isKeyword t "not" then
      match parseUnary isFloat rest with
      | .error e => .error e
      | .ok (inner, r) =>
        .ok (.not inner, ⟨r.1, Nat.lt_of_lt_of_le r.2 (Nat.le_succ _)⟩)
    else if t.quoted = false ∧ t.text = "(" then match parseOr isFloat rest with
      | .error e => .error e
      | .ok (inner, ⟨[], _⟩) => .error "unclosed ( in filter"
      | .ok (inner, ⟨c :: r, h⟩) =>
        if c.text ≠ ")" then .error "unclosed ( in filter"
        else .ok (inner, ⟨r, by simp only [List.length_cons] at h ⊢; omega⟩)
    else parseComparison isFloat (t :: rest)
termination_by (ts.length, 0)

def parseAnd (isFloat : String → Bool) (ts : List Token) : Except String (Filter × Shorter ts) :=
  match parseUnary isFloat ts with
  | .error e => .error e
  | .ok (left, r) =>
    match parseAndRest isFloat left r.1 with
    | .error e => .error e
    | .ok (f, r') => .ok (f, ⟨r'.1, Nat.lt_of_le_of_lt r'.2 r.2⟩)
termination_by (ts.length, 1)
decreasing_by
  · exact Prod.Lex.right _ (by omega)
  · exact Prod.Lex.left _ _ r.2

/-- The loop of `parseAnd`. -/
def parseAndRest (isFloat : String → Bool) (left : Filter) (ts : List Token) :
    Except String (Filter × { rest : List Token // rest.length ≤ ts.length }) :=
  match ts with
  | [] => .ok (left, ⟨[], Nat.le_refl _⟩)
  | t :: rest =>
    if isKeyword t "and" then
      match parseUnary isFloat rest with
      | .error e => .error e
      | .ok (right, r) =>
        match parseAndRest isFloat (.and left right) r.1 with
        | .error e => .error e
        | .ok (f, r') =>
          .ok (f, ⟨r'.1, Nat.le_trans r'.2 (Nat.le_succ_of_le (Nat.le_of_lt r.2))⟩)
    else .ok (left, ⟨t :: rest, Nat.le_refl _⟩)
termination_by (ts.length, 0)
decreasing_by
  · exact Prod.Lex.left _ _ (Nat.lt_succ_self _)
  · exact Prod.Lex.left _ _ (Nat.lt_succ_of_lt r.2)

def parseOr (isFloat : String → Bool) (ts : List Token) : Except String (Filter × Shorter ts) :=
  match parseAnd isFloat ts with
  | .error e => .error e
  | .ok (left, r) =>
    match parseOrRest isFloat left r.1 with
    | .error e => .error e
    | .ok (f, r') => .ok (f, ⟨r'.1, Nat.lt_of_le_of_lt r'.2 r.2⟩)
termination_by (ts.length, 2)
decreasing_by
  · exact Prod.Lex.right _ (by omega)
  · exact Prod.Lex.left _ _ r.2

/-- The loop of `parseOr`. -/
def parseOrRest (isFloat : String → Bool) (left : Filter) (ts : List Token) :
    Except String (Filter × { rest : List Token // rest.length ≤ ts.length }) :=
  match ts with
  | [] => .ok (left, ⟨[], Nat.le_refl _⟩)
  | t :: rest =>
    if isKeyword t "or" then
      match parseAnd isFloat rest with
      | .error e => .error e
      | .ok (right, r) =>
        match parseOrRest isFloat (.or left right) r.1 with
        | .error e => .error e
        | .ok (f, r') =>
          .ok (f, ⟨r'.1, Nat.le_trans r'.2 (Nat.le_succ_of_le (Nat.le_of_lt r.2))⟩)
    else .ok (left, ⟨t :: rest, Nat.le_refl _⟩)
termination_by (ts.length, 0)
decreasing_by
  · exact Prod.Lex.left _ _ (Nat.lt_succ_self _)
  · exact Prod.Lex.left _ _ (Nat.lt_succ_of_lt r.2)

end

def parseFilter (isFloat : String → Bool) (s : List Char) : Except String Filter := do
  let ts ← tokenizeFilter s
  match parseOr isFloat ts with
  | .error e => .error e
  | .ok (f, ⟨[], _⟩) => .ok f
  | .ok (_, ⟨t :: _, _⟩) => .error ("unexpected " ++ quote t.text ++ " in filter")

/-- A parsed attribute path. The attribute and sub-attribute are in lower case. -/
structure Path where
  schema : String := ""
  attr : String
  sub : String := ""
  filter : Option Filter := none

/-- The text before and after the last colon outside brackets and quotes. -/
def cutSchema : List Char → ℤ → Bool → Option (List Char × List Char)
  | [], _, _ => none
  | c :: cs, depth, inQuote =>
    let later := if c = '"' then cutSchema cs depth (!inQuote)
      else if inQuote then cutSchema cs depth inQuote
      else if c = '[' then cutSchema cs (depth + 1) inQuote
      else if c = ']' then cutSchema cs (depth - 1) inQuote
      else cutSchema cs depth inQuote
    match later with
    | some (before, after) => some (c :: before, after)
    | none => if c = ':' ∧ inQuote = false ∧ depth = 0 then some ([], cs) else none

def lowerTrim (cs : List Char) : String := toLower (String.ofList (trimChars cs))

def parseSub (s : String) (rest : List Char) : Except String String := match trimChars rest with
  | [] => .ok ""
  | '.' :: sub => .ok (lowerTrim sub)
  | other => .error ("path " ++ quote s ++ " has trailing text " ++ quote (String.ofList other) ++
      " after the value filter; only a sub-attribute may follow")

def parseFiltered (isFloat : String → Bool) (s schema : String) (attr after : List Char) :
    Except String Path :=
  match cutLast after ']' with
  | none => .error ("path " ++ quote s ++ " opens a value filter and never closes it")
  | some (inner, rest) => do
      let f ← (parseFilter isFloat inner).mapError fun e => "path " ++ quote s ++ ": " ++ e
      let sub ← parseSub s rest
      refuseIf (lowerTrim attr = "") ("path " ++ quote s ++ " has a value filter but no attribute")
      .ok { schema, attr := lowerTrim attr, sub, filter := some f }

def parsePath (isFloat : String → Bool) (s : String) : Except String Path := do
  let raw := trimChars s.toList
  refuseIf (raw = []) "empty path"
  let (schema, raw) :=
    if hasPrefix (toLower (String.ofList raw)) "urn:" then
      match cutSchema raw 0 false with
      | some (before, after) => (String.ofList before, after)
      | none => ("", raw)
    else ("", raw)
  match cutFirst raw '[' with
  | some (attr, after) => parseFiltered isFloat s schema attr after
  | none => do
      let (attr, sub) := match cutFirst raw '.' with
        | some (attr, sub) => (lowerTrim attr, lowerTrim sub)
        | none => (lowerTrim raw, "")
      refuseIf (attr = "") ("path " ++ quote s ++ " names no attribute")
      .ok { schema, attr, sub }

end Signari.ScimPath
