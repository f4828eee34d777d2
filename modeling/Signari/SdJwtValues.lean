import Signari.JsonValues

/-!
# Payloads with digests

The values an SD-JWT verifier walks: what `encoding/json` decodes into `any`, and next to it
the `[]string` that issuance puts into a payload. The members of an object stand in a list,
in the order in which a `range` over the Go map happens to visit them; `Same` relates two
values that differ in nothing but these orders.

A digest stands for an object member in the `_sd` array of its object, and for an array item
in an object with the one member `...`.
-/
namespace Signari.SdJwtValues
open JsonValues

inductive Value where
  | null
  | bool (b : Bool)
  | num (n : Number)
  | str (s : String)
  | strs (texts : List String)
  | arr (items : List Value)
  | obj (members : List (String × Value))

abbrev Members : Type := List (String × Value)

def keyDigests : String := "_sd"
def keyArrayDigest : String := "..."
def keyAlg : String := "_sd_alg"

/-- `%T`. -/
def Value.goType : Value → String
  | .null => "<nil>"
  | .bool _ => "bool"
  | .num _ => "float64"
  | .str _ => "string"
  | .strs _ => "[]string"
  | .arr _ => "[]interface \x7b\x7d"
  | .obj _ => "map[string]interface \x7b\x7d"

def Members.names (ms : Members) : List String := ms.map Prod.fst

/-- What an array item stands for, if it stands for another value. -/
def arrayDigest : Value → Option Value
  | .obj [(k, raw)] => if k = keyArrayDigest then some raw else none
  | _ => none

/-- The entries of a decoded `_sd` array. -/
def digestEntries : List Value → Except String (List String)
  | [] => .ok []
  | .str dig :: rest => (digestEntries rest).map (dig :: ·)
  | _ :: _ => .error "_sd contains a non-string entry"

/-- The digests of an object's own members. -/
def sdList (ms : Members) : Except String (List String) := match ms.lookup keyDigests with
  | none => .ok []
  | some (.strs list) => .ok list
  | some (.arr entries) => digestEntries entries
  | some raw => .error ("_sd must be an array of digests, got " ++ raw.goType)

/-- Machinery, removed from the result. -/
def machinery (k : String) : Bool := k == keyDigests || k == keyAlg

mutual

/-- The digests that stand in a value, wherever the walk comes. -/
def digestsIn : Value → List String
  | .arr items => digestsInItems items
  | .obj ms => digestsInMembers ms ++ (sdList ms).toOption.getD []
  | _ => []

def digestsInItems : List Value → List String
  | [] => []
  | item :: rest =>
    (match arrayDigest item with
    | some (.str dig) => [dig]
    | some _ => []
    | none => digestsIn item) ++ digestsInItems rest

def digestsInMembers : Members → List String
  | [] => []
  | (k, v) :: rest => (if machinery k then [] else digestsIn v) ++ digestsInMembers rest

end

/-- One object, at some depth, is visited in another order. -/
inductive Reordered : Value → Value → Prop
  | here {ms ms' : Members} (hperm : ms.Perm ms') (hnames : ms.names.Nodup) :
      Reordered (.obj ms) (.obj ms')
  | item {v v' : Value} {pre post : List Value} (h : Reordered v v') :
      Reordered (.arr (pre ++ v :: post)) (.arr (pre ++ v' :: post))
  | member {k : String} {v v' : Value} {pre post : Members} (h : Reordered v v') :
      Reordered (.obj (pre ++ (k, v) :: post)) (.obj (pre ++ (k, v') :: post))

/-- Two values that are one, up to the orders in which their objects are visited. -/
def Same : Value → Value → Prop := Relation.ReflTransGen Reordered

theorem Reordered.symm {v v' : Value} (h : Reordered v v') : Reordered v' v := by
  induction h with
  | here hperm hnames => exact .here hperm.symm ((hperm.map Prod.fst).nodup_iff.mp hnames)
  | item _ ih => exact .item ih
  | member _ ih => exact .member ih

theorem Same.refl (v : Value) : Same v v := Relation.ReflTransGen.refl

theorem Same.symm {v v' : Value} (h : Same v v') : Same v' v := by
  induction h with
  | refl => exact Same.refl _
  | tail _ h ih => exact Relation.ReflTransGen.head h.symm ih

theorem Same.trans {u v w : Value} (h : Same u v) (h' : Same v w) : Same u w :=
  Relation.ReflTransGen.trans h h'

theorem Same.item {v v' : Value} (h : Same v v') (pre post : List Value) :
    Same (.arr (pre ++ v :: post)) (.arr (pre ++ v' :: post)) := by
  induction h with
  | refl => exact Same.refl _
  | tail _ h ih => exact ih.tail (.item h)

theorem Same.member {k : String} {v v' : Value} (h : Same v v') (pre post : Members) :
    Same (.obj (pre ++ (k, v) :: post)) (.obj (pre ++ (k, v') :: post)) := by
  induction h with
  | refl => exact Same.refl _
  | tail _ h ih => exact ih.tail (.member h)

end Signari.SdJwtValues
