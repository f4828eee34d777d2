import Signari.JsonValues
import Signari.ScimPath
import Mathlib.Data.Finset.Basic

/-!
# SCIM group PATCH

`internal/scim/grouppatch.go` reads an ordered list of operations into a `GroupPatch`, and
`PatchSCIMGroup` of `internal/store/scimgroups.go` applies it in one transaction: the replacement of
the member list first, then the additions, then the removals.

Where it has no path it is decoded into a map, so of a key that occurs more than once the last value
counts; the members are visited in the order of the text, where Go's `range` has no fixed order. The
group's membership rows are a finite set of user ids, and `resolve` is the lookup of a resource id
among this source's links.
-/
namespace Signari.ScimGroupPatch
open GoStrings IndexedChecks JsonValues ScimPath

/-- One operation of a PATCH body; an absent value is `none`. -/
structure PatchOp where
  op : String
  path : String := ""
  value : Option Json := none

/-- The changes a PATCH implies. A replacement with the empty list is a replacement. -/
structure GroupPatch where
  displayName : Option String := none
  addMembers : List String := []
  removeMembers : List String := []
  replaceMembers : Option (List String) := none
  unsupported : List String := []
  deriving DecidableEq

/-- The changes of `g` recorded after those of `out`. -/
def GroupPatch.append (out g : GroupPatch) : GroupPatch where
  displayName := g.displayName <|> out.displayName
  addMembers := out.addMembers ++ g.addMembers
  removeMembers := out.removeMembers ++ g.removeMembers
  replaceMembers := g.replaceMembers <|> out.replaceMembers
  unsupported := out.unsupported ++ g.unsupported

/-- The id an equality filter on `value` selects; empty when none does. -/
def memberValueSelectedBy : Filter → String
  | .compare op attr value =>
    if op = "eq" ∧ attr = "value" then
      match value with
      | .text s => s
      | _ => ""
    else ""
  | .and left right =>
    if memberValueSelectedBy left ≠ "" then memberValueSelectedBy left
    else memberValueSelectedBy right
  | _ => ""

def memberIDFromPath (isFloat : String → Bool) (path : String) : Except String String := do
  let p ← parsePath isFloat path
  match p.filter with
  | none => .ok ""
  | some f =>
    if p.attr ≠ "members" then .ok ""
    else do
      refuseIf (p.sub ≠ "" ∧ p.sub ≠ "value")
        ("a member filter may only be followed by .value, got " ++ quote p.sub)
      refuseIf (memberValueSelectedBy f = "") ("cannot tell which member " ++ quote path ++
        " names; only a filter on `value` identifies one")
      .ok (memberValueSelectedBy f)

def stripSchemaPrefix (path : String) : String :=
  if hasPrefix (toLower path) "urn:" then
    match cutLast path.toList ':' with
    | some (_, c :: cs) => String.ofList (c :: cs)
    | _ => path
  else path

/-- Decoding into a struct with one string field `value`: names match up to case, null
leaves the field alone, and any other kind is an error. -/
def decodeValueField : List (String × Json) → String → Option String
  | [], acc => some acc
  | (k, v) :: ms, acc =>
    if equalFold k "value" then
      match v with
      | .str s => decodeValueField ms s
      | .null => decodeValueField ms acc
      | _ => none
    else decodeValueField ms acc

def decodeValueObject : Json → Option String
  | .obj members => decodeValueField members ""
  | .null => some ""
  | _ => none

def decodeStringItem : Json → Option String
  | .str s => some s
  | .null => some ""
  | _ => none

/-- Reads a member list in the shapes upstreams send: an array of objects with a `value`, a
single such object, or an array of ids. -/
def memberIDs (raw : Option Json) : Except String (List String) := match raw with
  | none => .error "cannot read a member list from "
  | some (.arr items) =>
    match items.mapM decodeValueObject, items with
    | some vs, _ :: _ => .ok (vs.filter fun v => v ≠ "")
    | _, _ =>
      match items.mapM decodeStringItem with
      | some ids => .ok ids
      | none => .error ("cannot read a member list from " ++ marshal (.arr items))
  | some .null => .ok []
  | some j =>
    match decodeValueObject j with
    | some v => if v ≠ "" then .ok [v]
        else .error ("cannot read a member list from " ++ marshal j)
    | none => .error ("cannot read a member list from " ++ marshal j)

def assignPath (isFloat : String → Bool) (out : GroupPatch) (verb path : String)
    (raw : Option Json) : Except String GroupPatch :=
  if toLower (stripSchemaPrefix path) = "displayname" then
    match raw with
    | some (.str name) => .ok { out with displayName := some name }
    | some .null => .ok { out with displayName := some "" }
    | _ => .error "displayName must be a string"
  else if toLower (stripSchemaPrefix path) = "members" then do
    let ids ← memberIDs raw
    if verb = "replace" then .ok { out with replaceMembers := some ids }
    else .ok { out with addMembers := out.addMembers ++ ids }
  else do
    let id ← memberIDFromPath isFloat path
    if id ≠ "" then .ok { out with addMembers := out.addMembers ++ [id] }
    else .ok { out with unsupported := out.unsupported ++ [path] }

mutual

def groupAssign (isFloat : String → Bool) (out : GroupPatch) (verb path : String)
    (raw : Json) : Except String GroupPatch :=
  if path ≠ "" then assignPath isFloat out verb path (some raw)
  else match raw with
    | .obj members => groupAssignAll isFloat out verb members
    | .null => .ok out
    | _ => .error (verb ++ " with no path needs an object value")

def groupAssignAll (isFloat : String → Bool) (out : GroupPatch) (verb : String) :
    List (String × Json) → Except String GroupPatch
  | [] => .ok out
  | (key, v) :: ms =>
    if ms.any fun m => m.1 == key then groupAssignAll isFloat out verb ms
    else
      match groupAssign isFloat out verb key v with
      | .error e => .error e
      | .ok out' => groupAssignAll isFloat out' verb ms

end

def groupRemove (isFloat : String → Bool) (out : GroupPatch) (path : String)
    (raw : Option Json) : Except String GroupPatch := do
  refuseIf (path = "") "remove with no path: there is nothing to remove"
  let id ← memberIDFromPath isFloat path
  if id ≠ "" then .ok { out with removeMembers := out.removeMembers ++ [id] }
  else if equalFold (stripSchemaPrefix path) "members" then match raw with
    | none | some .null => .ok { out with replaceMembers := some [] }
    | some j => do
        let ids ← memberIDs (some j)
        .ok { out with removeMembers := out.removeMembers ++ ids }
  else if hasPrefix (toLower path) "members" then
    .error ("cannot read which member " ++ quote path ++ " removes; refusing rather than " ++
      "answering success to a removal that would not happen")
  else .ok { out with unsupported := out.unsupported ++ [path] }

/-- One iteration of `ApplyGroupPatch`, with the changes read so far. -/
def groupOperation (isFloat : String → Bool) (out : GroupPatch) (op : PatchOp) :
    Except String GroupPatch :=
  let verb := toLower (trimSpace op.op)
  let path := trimSpace op.path
  if verb = "add" ∨ verb = "replace" then
    match op.value with
    | none => if path = "" then .error (verb ++ " with no path needs an object value")
        else assignPath isFloat out verb path none
    | some j => groupAssign isFloat out verb path j
  else if verb = "remove" then groupRemove isFloat out path op.value
  else .error ("unknown op " ++ quote op.op)

def maxPatchOperations : ℕ := 100

def applyOperations (isFloat : String → Bool) :
    ℕ → List PatchOp → GroupPatch → Except String GroupPatch
  | _, [], out => .ok out
  | i, op :: ops, out =>
    match groupOperation isFloat out op with
    | .error e => .error (s!"operation {i}: " ++ e)
    | .ok out' => applyOperations isFloat (i + 1) ops out'

/-- Reads a PATCH body into the changes it implies. -/
def applyGroupPatch (isFloat : String → Bool) (ops : List PatchOp) : Except String GroupPatch := do
  refuseIf (ops = []) "PATCH with no operations"
  refuseIf (maxPatchOperations < ops.length)
    (s!"too many operations: {ops.length} operations, the limit is {maxPatchOperations}; " ++
      "split the batch")
  applyOperations isFloat 0 ops {}

def nameChar (c : Char) : Bool :=
  ('a' ≤ c && c ≤ 'z') || ('A' ≤ c && c ≤ 'Z') || ('0' ≤ c && c ≤ '9') ||
    c == '.' || c == '_' || c == '-'

/-- The loop of `GroupNameFrom`: a run of anything else becomes one dash, none at the front. -/
def nameChars : List Char → List Char → Bool → List Char
  | [], b, _ => b
  | c :: cs, b, lastDash =>
    if nameChar c then nameChars cs (b ++ [c]) false
    else if lastDash = false ∧ b ≠ [] then nameChars cs (b ++ ['-']) true
    else nameChars cs b lastDash

def trimDashes (cs : List Char) : List Char :=
  ((cs.dropWhile (· == '-')).reverse.dropWhile (· == '-')).reverse

def groupNameFrom (displayName : String) : Except String String :=
  let name := trimDashes (nameChars displayName.toList [] false)
  let name := if 64 < name.length then trimDashes (name.take 64) else name
  if name = [] then .error ("the display name " ++ quote displayName ++ " contains no " ++
    "characters usable in a group name, which must match [a-zA-Z0-9._-]")
  else .ok (String.ofList name)

/-- A provisioned group: its names and its membership rows. -/
structure Group where
  name : String
  displayName : String
  members : Finset String

/-- What a PATCH finds in the store. -/
structure GroupEnv where
  resolve : String → Option String
  nameTaken : String → Bool

def usersForResourceIDs (env : GroupEnv) : List String → Except String (List String)
  | [] => .ok []
  | rid :: rids =>
    match env.resolve rid with
    | none => .error ("member " ++ quote rid ++ " is not a user provisioned by this source, " ++
        "so the membership cannot be recorded; provision the user before adding them to a " ++
        "group")
    | some u =>
      match usersForResourceIDs env rids with
      | .error e => .error e
      | .ok us => .ok (u :: us)

def insertAll (members : Finset String) (us : List String) : Finset String :=
  us.foldl (fun m u => insert u m) members

def eraseAll (members : Finset String) (us : List String) : Finset String :=
  us.foldl (fun m u => m.erase u) members

def replaceMembersTx (env : GroupEnv) (resourceIDs : List String) :
    Except String (Finset String) := do
  let us ← usersForResourceIDs env resourceIDs
  .ok (insertAll ∅ us)

def renameGroup (env : GroupEnv) (grp : Group) (displayName : Option String) :
    Except String Group :=
  match displayName with
  | none => .ok grp
  | some d => do
      let name ← groupNameFrom d
      refuseIf (name ≠ grp.name ∧ env.nameTaken name = true) ("a group named " ++ quote name ++
        " already exists and belongs to a different upstream record; two sources cannot both " ++
        "own one group")
      .ok { grp with name, displayName := d }

def patchMembers (env : GroupEnv) (p : GroupPatch) (members : Finset String) :
    Except String (Finset String) := do
  let base ← match p.replaceMembers with
    | none => .ok members
    | some ids => replaceMembersTx env ids
  let added ← usersForResourceIDs env p.addMembers
  let removed ← usersForResourceIDs env p.removeMembers
  .ok (eraseAll (insertAll base added) removed)

/-- Applies a parsed PATCH; an error rolls everything back. -/
def patchSCIMGroup (env : GroupEnv) (grp : Group) (p : GroupPatch) : Except String Group := do
  let renamed ← renameGroup env grp p.displayName
  let members ← patchMembers env p grp.members
  .ok { renamed with members }

end Signari.ScimGroupPatch
