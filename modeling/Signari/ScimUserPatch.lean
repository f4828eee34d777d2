import Signari.FilterMatching
import Signari.ScimGroupPatch

/-!
# SCIM user PATCH

`internal/scim/patch.go`: a PATCH is a list of operations, and an operation without a path
has an object for a value whose members are the paths. The object is decoded to a Go map,
so a repeated name keeps its last value and the members are walked in any order:
`order i` is the order of the walk in operation `i`. A value that is not sent at all is
`none`, which no reader accepts; one that is sent as null is a JSON null, which
`json.Unmarshal` reads into any Go type as its zero value.
-/
namespace Signari.ScimUserPatch
open GoStrings IndexedChecks ScimPath JsonValues FilterMatching ScimGroupPatch

variable {F : Type}

/-- The subset of changes the engine acts on. -/
structure UserPatch where
  active : Option Bool := none
  userName : Option String := none
  displayName : Option String := none
  email : Option String := none
  unsupported : List String := []

structure Email where
  value : String := ""
  primary : Bool := false
  type : String := ""

/-- The value's own text, as an error quotes it. -/
def rawText : Option Json → String
  | none => ""
  | some j => marshal j

/-- Lowercases a path and strips the schema URN in front of it. -/
def normalisePath (p : String) : String := let cs := trimChars p.toList
  let cs := match cutLast cs ':' with
    | some (_, after) => after
    | none => cs
  toLower (String.ofList cs)

def parseSCIMBool (raw : Option Json) : Except String Bool := match raw with
  | some (.bool b) => .ok b
  | some .null => .ok false
  | some (.str s) =>
    let t := toLower (trimSpace s)
    if t = "true" ∨ t = "1" then .ok true
    else if t = "false" ∨ t = "0" then .ok false
    else .error (quote s ++ " is neither true nor false")
  | _ => .error (rawText raw ++ " is not a boolean")

def parseSCIMString (raw : Option Json) : Except String String := match raw with
  | some (.str s) => .ok (trimSpace s)
  | some .null => .ok ""
  | _ => .error (rawText raw ++ " is not a string")

/-- Decoding one member into the three fields of an email: names match up to case, null
leaves a field alone, and any other kind is an error. -/
def decodeEmailField (e : Email) (m : String × Json) : Option Email :=
  if equalFold m.1 "value" then
    match m.2 with
    | .str s => some { e with value := s }
    | .null => some e
    | _ => none
  else if equalFold m.1 "primary" then match m.2 with
    | .bool b => some { e with primary := b }
    | .null => some e
    | _ => none
  else if equalFold m.1 "type" then match m.2 with
    | .str s => some { e with type := s }
    | .null => some e
    | _ => none
  else some e

def decodeEmail : Json → Option Email
  | .obj members => members.foldlM decodeEmailField {}
  | .null => some {}
  | _ => none

def chosenEmail (es : List Email) : Option Email := (es.find? Email.primary).or es.head?

/-- Reads an address from any of the shapes SCIM allows. -/
def parseEmailValue (raw : Option Json) : Except String String := match raw with
  | some (.str s) => .ok (trimSpace s)
  | some .null => .ok ""
  | some (.obj members) =>
    match decodeEmail (.obj members) with
    | some e => if e.value ≠ "" then .ok (trimSpace e.value)
        else .error (rawText raw ++ " is not an email value")
    | none => .error (rawText raw ++ " is not an email value")
  | some (.arr items) =>
    match (items.mapM decodeEmail).bind chosenEmail with
    | some e => .ok (trimSpace e.value)
    | none => .error (rawText raw ++ " is not an email value")
  | _ => .error (rawText raw ++ " is not an email value")

/-- Whether a filter picks the address that is kept. -/
def selectsStoredEmail (fl : Floats F) (f : Filter) : Bool :=
  filterMatches fl f [("primary", .bool true), ("type", .str "work")]

def assignFiltered (fl : Floats F) (out : UserPatch) (path : String) (raw : Option Json) :
    Except String UserPatch :=
  match parsePath (fun t => (fl.parse t).isSome) path with
  | .error e => .error ("path " ++ quote path ++ ": " ++ e)
  | .ok p =>
    match p.filter with
    | none => .ok { out with unsupported := out.unsupported ++ [path] }
    | some f =>
      if p.attr ≠ "emails" then .ok { out with unsupported := out.unsupported ++ [path] }
      else if p.sub ≠ "" ∧ p.sub ≠ "value" then
        .ok { out with unsupported := out.unsupported ++ [path] }
      else if selectsStoredEmail fl f = false then
        .error ("path " ++ quote path ++ " selects an email address this server does not " ++
          "store separately: only the primary address is kept, so a change to another one " ++
          "cannot be represented")
      else do
        let s ← parseEmailValue raw
        .ok { out with email := some s }

def assignOne (fl : Floats F) (out : UserPatch) (path : String) (raw : Option Json) :
    Except String UserPatch :=
  if path = "active" then do
    let b ← parseSCIMBool raw
    .ok { out with active := some b }
  else if path = "username" then do
    let s ← parseSCIMString raw
    .ok { out with userName := some s }
  else if path = "displayname" then do
    let s ← parseSCIMString raw
    .ok { out with displayName := some s }
  else if path = "name.formatted" then do
    let s ← parseSCIMString raw
    -- displayName is the more specific statement of the two
    if out.displayName = none then .ok { out with displayName := some s } else .ok out
  else if path = "emails" ∨ path = "emails.value" then do
    let s ← parseEmailValue raw
    .ok { out with email := some s }
  else assignFiltered fl out path raw

/-- The object as a map: a repeated name keeps its last value. -/
def decodeMap : List (String × Json) → List (String × Json)
  | [] => []
  | m :: ms => if ms.any fun m' => m'.1 = m.1 then decodeMap ms else m :: decodeMap ms

/-- The loop over the members of a pathless operation's value. -/
def assignAll (fl : Floats F) (out : UserPatch) : List (String × Json) → Except String UserPatch
  | [] => .ok out
  | (k, v) :: ms => do
      let out' ← assignOne fl out (normalisePath k) (some v)
      assignAll fl out' ms

/-- Handles replace and add; `order` is the order a decoded map is walked in. -/
def applyAssign (fl : Floats F) (order : List (String × Json) → List (String × Json))
    (out : UserPatch) (op : PatchOp) : Except String UserPatch :=
  if normalisePath op.path = "" then
    match op.value with
    | some (.obj members) => assignAll fl out (order (decodeMap members))
    | some .null => .ok out
    | _ => .error "a pathless operation needs an object value"
  else assignOne fl out (normalisePath op.path) op.value

def applyRemove (out : UserPatch) (op : PatchOp) : Except String UserPatch :=
  let path := normalisePath op.path
  if path = "" then .error "remove without a path is not valid"
  else if path = "active" then .ok { out with active := some true }
  else .ok { out with unsupported := out.unsupported ++ [path] }

/-- One iteration of `ApplyUserPatch`. -/
def userOperation (fl : Floats F) (order : List (String × Json) → List (String × Json))
    (out : UserPatch) (op : PatchOp) : Except String UserPatch :=
  let verb := toLower (trimSpace op.op)
  if verb = "replace" ∨ verb = "add" then applyAssign fl order out op
  else if verb = "remove" then applyRemove out op
  else .error ("unknown op " ++ quote op.op)

/-- The order of the walk in each operation. -/
abbrev Order := ℕ → List (String × Json) → List (String × Json)

def applyUserOperations (fl : Floats F) (order : Order) :
    ℕ → List PatchOp → UserPatch → Except String UserPatch
  | _, [], out => .ok out
  | i, op :: ops, out =>
    match userOperation fl (order i) out op with
    | .error e => .error (s!"operation {i}: " ++ e)
    | .ok out' => applyUserOperations fl order (i + 1) ops out'

/-- Reads a PATCH body into the changes it implies. -/
def applyUserPatch (fl : Floats F) (order : Order) (ops : List PatchOp) :
    Except String UserPatch := do
  refuseIf (ops = []) "PATCH with no operations"
  refuseIf (maxPatchOperations < ops.length)
    (s!"too many operations in one PATCH: {ops.length} operations, the limit is " ++
      s!"{maxPatchOperations}; split the batch")
  applyUserOperations fl order 0 ops {}

end Signari.ScimUserPatch
