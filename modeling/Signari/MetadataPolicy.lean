import Signari.IndexedChecks
import Signari.JsonValues
import Signari.KeyedMaps

/-!
# Federation metadata policy

`internal/oidfed/policy.go`: the policies of the statements in a trust chain are
validated and merged from the trust anchor downwards, and the merged policy is applied to
the subject's metadata. A policy is three maps deep, from entity type through parameter to
operator, and the same merge runs at each level.

Values are compared by their canonical encoding, so everything below speaks of values up
to `sameValue`. An absent parameter is `none`; a parameter published as null is `some .null`.
-/
namespace Signari.MetadataPolicy
open GoStrings IndexedChecks JsonValues KeyedMaps

/-- The standard operators, and any other name a statement may use. -/
inductive Operator where
  | value | add | default | oneOf | subsetOf | supersetOf | essential
  | other (name : String)
  deriving DecidableEq

def Operator.text : Operator → String
  | .value => "value"
  | .add => "add"
  | .default => "default"
  | .oneOf => "one_of"
  | .subsetOf => "subset_of"
  | .supersetOf => "superset_of"
  | .essential => "essential"
  | .other name => name

/-- The sequence the specification fixes for application. -/
def operatorOrder : List Operator :=
  [.value, .add, .default, .oneOf, .subsetOf, .supersetOf, .essential]

def isStandardOperator (op : Operator) : Bool := operatorOrder.contains op

/-- Which operators may appear together. -/
def allowedCombinations : Operator → List Operator
  | .value => [.add, .default, .oneOf, .subsetOf, .supersetOf, .essential]
  | .add => [.value, .default, .subsetOf, .supersetOf, .essential]
  | .default => [.value, .add, .oneOf, .subsetOf, .supersetOf, .essential]
  | .oneOf => [.value, .default, .essential]
  | .subsetOf => [.value, .add, .default, .supersetOf, .essential]
  | .supersetOf => [.value, .add, .default, .subsetOf, .essential]
  | .essential => [.value, .add, .default, .oneOf, .subsetOf, .supersetOf]
  | .other _ => []

abbrev ParamPolicy := Map Operator Json

abbrev TypePolicy := Map String ParamPolicy

/-- A whole `metadata_policy` claim. -/
abbrev Policy := Map String TypePolicy

abbrev Metadata := Map String Json

structure PolicyError where
  entityType : String
  parameter : String
  reason : String

def valueKey (v : Json) : String := marshal v

def sameValue (a b : Json) : Bool := valueKey a == valueKey b

def containsValue (list : List Json) (v : Json) : Bool :=
  list.any fun item => valueKey item == valueKey v

/-- Adds the values of the second list that are not there yet. -/
def union (a : List Json) : List Json → List Json
  | [] => a
  | v :: vs => if containsValue a v then union a vs else union (a ++ [v]) vs

/-- Keeps the order of the first argument. -/
def intersection (a b : List Json) : List Json := a.filter fun v => containsValue b v

section
variable (entityType param : String)

def policyErr (reason : String) : PolicyError := ⟨entityType, param, reason⟩

def asArray (op : String) (v : Json) : Except PolicyError (List Json) := match v with
  | .arr items => .ok items
  | v => .error (policyErr entityType param
      ("the " ++ op ++ " operator works on arrays and this is " ++ jsonKind v))

/-- Checks that every value of `inner` appears in `outer`. -/
def requireSubset (inner outer : Json) (innerName outerName : String) :
    Except PolicyError Unit := do
  let ins ← asArray entityType param innerName inner
  let outs ← asArray entityType param outerName outer
  checkAll (fun _ v => refuseIf (containsValue outs v = false) (policyErr entityType param
    (innerName ++ " contains " ++ marshal v ++ ", which " ++ outerName ++
      " does not permit"))) 0 ins

/-- `if v, ok := pp[op]; ok { check(v) }`. -/
def whenPresent (v : Option Json) (check : Json → Except PolicyError Unit) :
    Except PolicyError Unit :=
  match v with
  | none => .ok ()
  | some j => check j

def checkEssential (e : Json) : Except PolicyError Bool := match e with
  | .bool b => .ok b
  | e => .error (policyErr entityType param ("essential must be a boolean, got " ++ jsonKind e))

def checkCombinations (pp : ParamPolicy) : Except PolicyError Unit :=
  let names := sortedKeys Operator.text pp
  checkAll (fun _ a => checkAll (fun _ b =>
    refuseIf (a ≠ b ∧ (allowedCombinations a).contains b = false)
      (policyErr entityType param ("the operators " ++ quote a.text ++ " and " ++ quote b.text ++
        " may not be combined: " ++ a.text ++ " constrains a single value while the other " ++
        "operates on arrays, so a parameter cannot satisfy both"))) 0 names) 0 names

/-- A `value` of null removes the parameter, so nothing may supply or require it. -/
def checkNullValue (pp : ParamPolicy) (val : Json) : Except PolicyError Unit :=
  if val.isNull then do
    whenPresent (pp.lookup .default) fun _ => .error (policyErr entityType param
      ("value is null, which removes the parameter, and default would then supply one: the " ++
        "two cannot both apply"))
    whenPresent (pp.lookup .essential) fun e => do
      let b ← checkEssential entityType param e
      refuseIf (b = true) (policyErr entityType param
        ("value is null, which removes the parameter, while essential is true, which " ++
          "requires it to be present"))
  else .ok ()

/-- The conditional combinations of `value` with the other operators. -/
def checkValue (pp : ParamPolicy) (val : Json) : Except PolicyError Unit := do
  checkNullValue entityType param pp val
  whenPresent (pp.lookup .add) fun adds =>
    requireSubset entityType param adds val "add" "value"
  whenPresent (pp.lookup .oneOf) fun opts =>
    if val.isNull then .ok ()
    else do
      let list ← asArray entityType param Operator.oneOf.text opts
      refuseIf (containsValue list val = false) (policyErr entityType param
        ("value " ++ marshal val ++ " is not among the one_of options " ++ marshal opts))
  whenPresent (pp.lookup .subsetOf) fun sub =>
    if val.isNull then .ok ()
    else requireSubset entityType param val sub "value" "subset_of"
  whenPresent (pp.lookup .supersetOf) fun sup =>
    if val.isNull then .ok ()
    else requireSubset entityType param sup val "superset_of" "value"

/-- Enforces the operator combination rules. -/
def validateParamPolicy (pp : ParamPolicy) : Except PolicyError Unit := do
  checkCombinations entityType param pp
  whenPresent (pp.lookup .value) fun val => checkValue entityType param pp val
  whenPresent (pp.lookup .add) fun adds => whenPresent (pp.lookup .subsetOf) fun sub =>
    requireSubset entityType param adds sub "add" "subset_of"
  whenPresent (pp.lookup .subsetOf) fun sub => whenPresent (pp.lookup .supersetOf) fun sup =>
    requireSubset entityType param sup sub "superset_of" "subset_of"
  whenPresent (pp.lookup .essential) fun e => do
    let _ ← checkEssential entityType param e
    .ok ()

def dropUnknown (crit : List String) (op : Operator) (pp : ParamPolicy) :
    Except PolicyError ParamPolicy :=
  if isStandardOperator op then .ok pp
  else if crit.contains op.text then .error (policyErr entityType param
    ("the operator " ++ quote op.text ++ " is declared critical in metadata_policy_crit and " ++
      "this implementation does not understand it, so the constraint it expresses cannot be " ++
      "honoured"))
  else .ok (pp.erase op)

def cleanParamPolicy (crit : List String) (pp : ParamPolicy) : Except PolicyError ParamPolicy := do
  let pp' ← foldKeys (dropUnknown entityType param crit) (sortedKeys Operator.text pp) pp
  validateParamPolicy entityType param pp'
  .ok pp'

/-- Each operator's own merge rule. -/
def mergeOperatorValues (op : Operator) (current next : Json) : Except PolicyError Json :=
  match op with
  | .value =>
    if sameValue current next then .ok current
    else .error (policyErr entityType param ("two superiors set value to different things (" ++
      marshal current ++ " and " ++ marshal next ++
      "); a subordinate cannot repeal what a superior fixed"))
  | .default =>
    if sameValue current next then .ok current
    else .error (policyErr entityType param ("two superiors set different defaults (" ++
      marshal current ++ " and " ++ marshal next ++ ")"))
  | .add | .supersetOf => do
      let a ← asArray entityType param op.text current
      let b ← asArray entityType param op.text next
      .ok (.arr (union a b))
  | .oneOf => do
      let a ← asArray entityType param op.text current
      let b ← asArray entityType param op.text next
      if intersection a b = [] then .error (policyErr entityType param
        ("the one_of options of two superiors do not overlap (" ++ marshal current ++ " and " ++
          marshal next ++ "), so no value could satisfy both"))
      else .ok (.arr (intersection a b))
  | .subsetOf => do
      let a ← asArray entityType param op.text current
      let b ← asArray entityType param op.text next
      .ok (.arr (intersection a b))
  | .essential =>
    match current, next with
    | .bool a, .bool b => .ok (.bool (a || b))
    | _, _ => .error (policyErr entityType param "essential must be a boolean")
  | .other name =>
    .error (policyErr entityType param ("unknown operator " ++ quote name))

def mergeParamPolicy (current next : ParamPolicy) : Except PolicyError ParamPolicy := do
  let merged ← mergeInto Operator.text (mergeOperatorValues entityType param) current next
  validateParamPolicy entityType param merged
  .ok merged

def applyOperator (op : Operator) (cfg : Json) (val : Option Json) :
    Except PolicyError (Option Json) :=
  match op with
  | .value => .ok (if cfg.isNull then none else some cfg)
  | .add => do
      let adds ← asArray entityType param op.text cfg
      match val with
      | none => .ok (some (.arr adds))
      | some v => do
          let cur ← asArray entityType param op.text v
          .ok (some (.arr (union cur adds)))
  | .default => .ok (some (val.getD cfg))
  | .oneOf =>
    match val with
    | none => .ok none
    | some v => do
        let opts ← asArray entityType param op.text cfg
        refuseIf (containsValue opts v = false) (policyErr entityType param
          ("the published value " ++ marshal v ++ " is not one of " ++ marshal cfg))
        .ok (some v)
  | .subsetOf =>
    match val with
    | none => .ok none
    | some v => do
        let allowed ← asArray entityType param op.text cfg
        let cur ← asArray entityType param op.text v
        .ok (some (.arr (intersection cur allowed)))
  | .supersetOf =>
    match val with
    | none => .ok none
    | some v => do
        let required ← asArray entityType param op.text cfg
        let cur ← asArray entityType param op.text v
        checkAll (fun _ r => refuseIf (containsValue cur r = false) (policyErr entityType param
          ("the value must contain " ++ marshal r ++ " and does not (it is " ++ marshal v ++
            ")"))) 0 required
        .ok (some v)
  | .essential => do
      let b ← checkEssential entityType param cfg
      refuseIf (b = true ∧ val.isNone = true) (policyErr entityType param
        ("the policy marks this parameter essential and the entity publishes no value for it"))
      .ok val
  | .other _ => .ok val

/-- Runs one parameter's operators in the fixed order. -/
def applyOperators (pp : ParamPolicy) : List Operator → Option Json →
    Except PolicyError (Option Json)
  | [], val => .ok val
  | op :: ops, val =>
    match pp.lookup op with
    | none => applyOperators pp ops val
    | some cfg => do
        let val' ← applyOperator entityType param op cfg val
        applyOperators pp ops val'

end

def splitScopeValue (s : String) : Json := .arr ((fields s).map .str)

/-- Joins the strings of an array; anything else passes through. -/
def joinScopeValue (v : Json) : Json := match v with
  | .arr items => .str (join (items.filterMap fun | .str s => some s | _ => none) " ")
  | v => v

/-- No operator outputs null: a parameter is removed instead. -/
def setParam (out : Metadata) (param : String) (val : Option Json) : Metadata := match val with
  | none => out.erase param
  | some v => if v.isNull then out.erase param else out.insert param v

/-- One parameter of `ApplyPolicy`. The scope parameter is processed as an array. -/
def applyParam (entityType : String) (tp : TypePolicy) (param : String) (out : Metadata) :
    Except PolicyError Metadata :=
  match tp.lookup param with
  | none => .ok out
  | some pp =>
    match param == "scope", out.lookup param with
    | true, some (.str s) => do
        let v ← applyOperators entityType param pp operatorOrder (some (splitScopeValue s))
        .ok (setParam out param (v.map joinScopeValue))
    | _, val => do
        let v ← applyOperators entityType param pp operatorOrder val
        .ok (setParam out param v)

def applyPolicy (entityType : String) (metadata : Metadata) (tp : Option TypePolicy) :
    Except PolicyError Metadata :=
  match tp with
  | none => .ok metadata
  | some tp => foldKeys (applyParam entityType tp) (sortedKeys id tp) metadata

/-- Checks one statement's policy before it is merged. -/
def validatePolicy (crit : List String) (p : Policy) : Except PolicyError Policy :=
  updateAll (fun entityType tp => updateAll (fun param pp =>
    cleanParamPolicy entityType param crit pp) tp) p

def mergePolicy (current next : Policy) : Except PolicyError Policy :=
  mergeInto id (fun entityType ct nt => mergeInto id (fun param cp np =>
    mergeParamPolicy entityType param cp np) ct nt) current next

/-- What policy resolution reads off a statement of the chain. -/
structure Statement where
  metadataPolicy : Option Policy
  metadataPolicyCrit : List String

/-- The loop of `ResolvePolicy`, from the most superior statement downwards. -/
def resolveFrom (crit : List String) : Option Policy → List Statement →
    Except PolicyError (Option Policy)
  | current, [] => .ok current
  | current, st :: sts =>
    match st.metadataPolicy with
    | none => resolveFrom crit current sts
    | some p => do
        let next ← validatePolicy crit p
        match current with
        | none => resolveFrom crit (some next) sts
        | some cur => do
            let merged ← mergePolicy cur next
            resolveFrom crit (some merged) sts

/-- Merges the policies of a chain. The chain starts with the subject's own configuration,
which carries no policy, and ends with the trust anchor's statement. -/
def resolvePolicy (chain : List Statement) : Except PolicyError (Option Policy) :=
  resolveFrom (chain.tail.flatMap Statement.metadataPolicyCrit) none chain.tail.reverse

end Signari.MetadataPolicy
