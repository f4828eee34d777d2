import Signari.AuthzConditions

/-!
# The authorization model

`internal/authzen/model.go` above its conditions: types with relations that imply one
another, permissions granted to relations, and requirements on permissions. A model is
accepted after `validate` and after its own tests pass; the YAML reader stays outside.

A requirement may name entries of the model's `policies` block. The two are checked along different
paths: the condition written at a rule goes through `Condition.validate`, the named one only through
the checks on its name and on being non-empty.
-/
namespace Signari.AuthzModel
open GoStrings IndexedChecks JsonValues KeyedMaps AuthzConditions List

/-- Lower-case letters, digits, `_` and `-`, starting with a letter. -/
def plainName (s : String) : Bool := match s.toList with
  | [] => false
  | c :: cs => (c :: cs).length ≤ 64 && ('a' ≤ c && c ≤ 'z') &&
      cs.all fun r => ('a' ≤ r && r ≤ 'z') || ('0' ≤ r && r ≤ '9') || r == '_' || r == '-'

/-- One kind of object. -/
structure ObjectType where
  relations : Map String (List String)
  permissions : Map String (List String)
  require : Map String Condition

/-- An example the model must satisfy. -/
structure ModelTest where
  name : String := ""
  subject : String := ""
  action : String
  resource : String
  relations : List String := []
  mfa : Bool := false
  groups : List String := []
  deviceManaged : Bool := false
  deviceCompliant : Bool := false
  risk : ℤ := 0
  active : Option Bool := none
  emailVerified : Bool := false
  at_ : String := ""
  resourceProps : Map String Json := ∅
  ip : String := ""
  allow : Bool := false

structure Model where
  types : Map String ObjectType
  policies : Map String Condition := ∅
  tests : List ModelTest := []

inductive Colour where
  | white | grey | black
  deriving DecidableEq

/-- The state of the depth-first search. -/
structure Search where
  colour : String → Colour := fun _ => .white
  path : List String := []

def ObjectType.implies (t : ObjectType) (rel : String) : List String :=
  (t.relations.lookup rel).getD []

/-- Every relation named on either side of an edge. -/
def ObjectType.names (t : ObjectType) : List String :=
  t.relations.entries.flatMap fun e => e.1 :: e.2

/-- The search from one relation; a non-empty result describes a cycle. Each nested call
colours a relation that was white, so the fuel never runs out from `names`. -/
def ObjectType.walk (t : ObjectType) : ℕ → String → Search → String × Search
  | 0, _, s => ("", s)
  | fuel + 1, rel, s =>
    let r := (t.implies rel).foldl (fun acc next =>
      if acc.1 ≠ "" then acc
      else match acc.2.colour next with
        | .grey => (join (acc.2.path ++ [next]) " -> ", acc.2)
        | .white => t.walk fuel next acc.2
        | .black => acc) ("", ⟨Function.update s.colour rel .grey, s.path ++ [rel]⟩)
    if r.1 ≠ "" then r
    else ("", ⟨Function.update r.2.colour rel .black, r.2.path.dropLast⟩)

/-- A description of a relation cycle, or the empty text. -/
def ObjectType.cycle (t : ObjectType) : String :=
  ((sortedKeys id t.relations).foldl (fun acc rel =>
    if acc.1 ≠ "" then acc
    else if acc.2.colour rel = .white then t.walk (t.names.length + 1) rel acc.2
    else acc) (("", {}) : String × Search)).1

/-- The loop of `Expand`, with the relations seen and the queue. -/
def ObjectType.expandFrom (t : ObjectType) : ℕ → List String → List String → List String
  | 0, seen, _ => seen
  | _ + 1, seen, [] => seen
  | fuel + 1, seen, cur :: queue =>
    let r := (t.implies cur).foldl (fun acc rel =>
      if rel ∈ acc.1 then acc else (acc.1 ++ [rel], acc.2 ++ [rel])) (seen, queue)
    t.expandFrom fuel r.1 r.2

/-- Every relation that implies `rel`, including itself, in order. -/
def ObjectType.expand (t : ObjectType) (rel : String) : List String :=
  (t.expandFrom (t.names.length + 1) [rel] [rel]).mergeSort fun a b => decide (a ≤ b)

def Model.relationsFor (m : Model) (objectType action : String) : Option (List String) := do
  let t ← m.types.lookup objectType
  let grants ← t.permissions.lookup action
  let out := grants.foldl (fun out rel => (t.expand rel).foldl (fun out r =>
    if r ∈ out then out else out ++ [r]) out) []
  some (out.mergeSort fun a b => decide (a ≤ b))

def Model.conditionFor (m : Model) (objectType action : String) : Option Rule := do
  let t ← m.types.lookup objectType
  let c ← t.require.lookup action
  if c.isEmpty then none
  else some ⟨c, c.policies.map fun name => (m.policies.lookup name).getD {}⟩

def Model.validateRule (m : Model) (typeName action : String) (c : Condition) :
    Except String Unit := do
  checkAll (fun _ ref => refuseIf ((m.policies.lookup ref).isSome = false) (typeName ++ "." ++
    action ++ " names the policy " ++ quote ref ++ ", which is not defined; a rule referring " ++
    "to a policy that does not exist would evaluate as though the requirement were not there"))
    0 c.policies
  refuseIf (¬(c.strategy = "" ∨ c.strategy = strategyUnanimous ∨
    c.strategy = strategyAffirmative ∨ c.strategy = strategyConsensus)) (typeName ++ "." ++
    action ++ " has strategy " ++ quote c.strategy ++ "; it must be one of " ++
    strategyUnanimous ++ ", " ++ strategyAffirmative ++ " or " ++ strategyConsensus)
  refuseIf (c.strategy ≠ "" ∧ c.policies = []) (typeName ++ "." ++ action ++
    " sets a decision strategy but names no policies, so the strategy decides nothing")

def validatePolicy (name : String) (c : Condition) : Except String Unit := do
  refuseIf (plainName name = false) ("policy " ++ quote name ++
    ": names must be lowercase letters, digits, _ or -")
  refuseIf (c.isEmpty = true) ("policy " ++ quote name ++
    " requires nothing, so every rule naming it is weaker than it looks")
  refuseIf (c.policies ≠ []) ("policy " ++ quote name ++ " names other policies; composition " ++
    "is one level deep, so compose them at the rule instead")

def validateRelation (name : String) (t : ObjectType) (rel : String) (implies : List String) :
    Except String Unit := do
  refuseIf (plainName rel = false) (name ++ "." ++ rel ++
    ": relation names must be lowercase letters, digits, _ or -")
  checkAll (fun _ start => refuseIf ((t.relations.lookup start).isSome = false) (name ++ "." ++
    rel ++ " is implied by " ++ quote start ++ ", which is not a relation on " ++ name)) 0 implies

def validatePermission (name : String) (t : ObjectType) (act : String) (grants : List String) :
    Except String Unit := do
  refuseIf (plainName act = false) (name ++ ": action " ++ quote act ++
    " must be lowercase letters, digits, _ or -")
  refuseIf (grants = []) (name ++ "." ++ act ++
    " is granted by no relation, so nobody can ever do it")
  checkAll (fun _ rel => refuseIf ((t.relations.lookup rel).isSome = false) (name ++ "." ++ act ++
    " is granted to " ++ quote rel ++ ", which is not a relation on " ++ name)) 0 grants

def validateRequire (lib : Library) (name : String) (t : ObjectType) (act : String)
    (cond : Condition) : Except String Unit := do
  cond.validate lib name act
  refuseIf ((t.permissions.lookup act).isSome = false) (name ++ ": `require` names " ++
    quote act ++ ", which is not a permission on " ++ name ++
    " -- the condition would never be applied")

def Model.validateType (lib : Library) (m : Model) (name : String) (t : ObjectType) :
    Except String Unit := do
  refuseIf (plainName name = false) ("type " ++ quote name ++
    ": names must be lowercase letters, digits, _ or -")
  checkEntries (validateRelation name t) t.relations
  checkEntries (m.validateRule name) t.require
  checkEntries (validatePermission name t) t.permissions
  checkEntries (validateRequire lib name t) t.require
  refuseIf (t.cycle ≠ "") (name ++ ": the relations form a cycle (" ++ t.cycle ++ ")")

def Model.validate (lib : Library) (m : Model) : Except String Unit := do
  checkEntries validatePolicy m.policies
  checkEntries (m.validateType lib) m.types

def parseRef (ref : String) : Option (String × String) := match cutFirst ref.toList ':' with
  | some (t :: typ, i :: id) => some (String.ofList (t :: typ), String.ofList (i :: id))
  | _ => none

def ModelTest.facts (tc : ModelTest) (now : Option Moment) : Facts where
  mfa := tc.mfa
  groups := tc.groups
  deviceManaged := tc.deviceManaged
  deviceCompliant := tc.deviceCompliant
  risk := tc.risk
  emailVerified := tc.emailVerified
  resourceProps := tc.resourceProps
  ip := tc.ip
  active := tc.active.getD true
  now

def printList (xs : List String) : String := "[" ++ join xs " " ++ "]"

def Model.testGranted (lib : Library) (m : Model) (name objType : String) (tc : ModelTest)
    (wanted : List String) : Except String Bool :=
  if hasAny tc.relations wanted = false then .ok false
  else match m.conditionFor objType tc.action with
    | none => .ok true
    | some r =>
      if tc.at_ ≠ "" then
        match lib.parseTime tc.at_ with
        | .error e => .error (name ++ ": `at` is not RFC 3339: " ++ e)
        | .ok now => .ok (r.satisfiedBy lib (tc.facts (some now)))
      else if r.condition.time.isSome then .error (name ++ ": " ++ objType ++ "." ++
        tc.action ++ " has a time window, so the test must pin the clock with `at:` -- " ++
        "otherwise it passes or fails depending on when CI runs")
      else .ok (r.satisfiedBy lib (tc.facts none))

def Model.runTest (lib : Library) (m : Model) (i : ℕ) (tc : ModelTest) : Except String Unit :=
  let name := if tc.name = "" then s!"test {i + 1}" else tc.name
  match parseRef tc.resource with
  | none => .error (name ++ ": resource " ++ quote tc.resource ++ " is not type:id")
  | some (objType, _) =>
    match m.relationsFor objType tc.action with
    | none => .error (name ++ ": " ++ objType ++ " has no permission " ++ quote tc.action)
    | some wanted => do
        let granted ← m.testGranted lib name objType tc wanted
        refuseIf (granted ≠ tc.allow) (name ++ s!": expected allow={tc.allow}, the model " ++
          s!"says {granted} (relations held: " ++ printList tc.relations ++ "; " ++ objType ++
          "." ++ tc.action ++ " is granted to any of " ++ printList wanted ++ ")")

def Model.runTests (lib : Library) (m : Model) : Except String Unit :=
  checkAll (m.runTest lib) 0 m.tests

/-- `ParseModel` after the YAML reader. -/
def Model.accept (lib : Library) (m : Model) : Except String Unit := do
  refuseIf (m.types.keys = []) "the model defines no types"
  m.validate lib
  m.runTests lib

section
variable {lib : Library} {m : Model}

/-- What acceptance says about a requirement: its own condition was validated, and the
policies it names exist. -/
theorem accept_require (h : m.accept lib = .ok ()) {typ act : String} {t : ObjectType}
    {c : Condition} (ht : m.types.lookup typ = some t) (hc : t.require.lookup act = some c) :
    c.WellFormed lib ∧ ∀ name ∈ c.policies, ∃ p, m.policies.lookup name = some p := by
  simp only [Model.accept, Model.validate, seq_ok, checkEntries_ok] at h
  have htype := h.2.1.2 typ t ht
  simp only [Model.validateType, seq_ok, checkEntries_ok] at htype
  obtain ⟨_, _, hrules, _, hrequire, _⟩ := htype
  constructor
  · have hvalid := hrequire act c hc
    rw [validateRequire, seq_ok] at hvalid
    exact Condition.validate_ok.mp hvalid.1
  · intro name hname
    have hrule := hrules act c hc
    simp only [Model.validateRule, seq_ok, checkAll_forall, refuseIf_ok, Bool.not_eq_false] at hrule
    exact Option.isSome_iff_exists.mp (hrule.1 name hname)

theorem conditionFor_eq_some {typ act : String} {r : Rule} :
    m.conditionFor typ act = some r ↔
      ∃ t c, m.types.lookup typ = some t ∧ t.require.lookup act = some c ∧ c.isEmpty = false ∧
        r = ⟨c, c.policies.map fun name => (m.policies.lookup name).getD {}⟩ := by
  simp only [Model.conditionFor, Option.bind_eq_bind, Option.bind_eq_some_iff]
  constructor
  · rintro ⟨t, ht, c, hc, hr⟩
    split_ifs at hr with he
    exact ⟨t, c, ht, hc, by simpa using he, (Option.some.inj hr).symm⟩
  · rintro ⟨t, c, ht, hc, he, rfl⟩
    exact ⟨t, ht, c, hc, by simp [he]⟩

theorem isEmpty_policies {c : Condition} (h : c.isEmpty = true) : c.policies = [] := by
  simp only [Condition.isEmpty, Bool.and_eq_true, List.isEmpty_iff] at h
  exact h.2

end

/-- An accepted model hands out only conditions that pass validation exactly when the
policies its requirements name are well formed; and validation takes a condition that
requires something exactly when its window and its assertions are well formed. -/
theorem accepted_conditions_iff (lib : Library) (m : Model) (h : m.accept lib = .ok ()) :
    ((∀ typ act r, m.conditionFor typ act = some r →
        ∀ c ∈ r.conditions, c.validate lib typ act = .ok ()) ↔
      ∀ typ t act c, m.types.lookup typ = some t → t.require.lookup act = some c →
        ∀ name ∈ c.policies, ∀ p, m.policies.lookup name = some p → p.WellFormed lib) ∧
    ∀ (c : Condition) (typ act : String),
      (c.Enforced → c.validate lib typ act = .ok ()) ↔ ¬c.Enforced ∨ c.WellFormed lib := by
  constructor
  · constructor
    · intro hall typ t act c ht hc name hname p hp
      have hnonempty : c.isEmpty = false := by
        by_contra hempty
        rw [isEmpty_policies (by simpa using hempty)] at hname
        exact absurd hname not_mem_nil
      have hrule := hall typ act _ (conditionFor_eq_some.mpr ⟨t, c, ht, hc, hnonempty, rfl⟩)
      apply Condition.validate_ok.mp (hrule p _)
      apply mem_cons_of_mem
      exact mem_map.mpr ⟨name, hname, by rw [hp]; rfl⟩
    · intro hnamed typ act r hr c hc
      obtain ⟨t, c₀, ht, hc₀, _, rfl⟩ := conditionFor_eq_some.mp hr
      obtain ⟨hinline, hdefined⟩ := accept_require h ht hc₀
      apply Condition.validate_ok.mpr
      rcases mem_cons.mp hc with rfl | hc
      · exact hinline
      · obtain ⟨name, hname, rfl⟩ := mem_map.mp hc
        obtain ⟨p, hp⟩ := hdefined name hname
        rw [hp]
        exact hnamed typ t act c₀ ht hc₀ name hname p hp
  · intro c typ act
    rw [Condition.validate_ok, imp_iff_not_or]

def weekdays : List String := ["Thu", "Fri", "Sat", "Sun", "Mon", "Tue", "Wed"]

def utcWall (instant : ℤ) : Wall where
  weekday := weekdays.getD (instant / 86400000000000 % 7).toNat ""
  hour := (instant / 3600000000000 % 24).toNat
  minute := (instant / 60000000000 % 60).toNat

def utcLibrary : Library where
  Address := Unit
  parseIP := fun _ => none
  parseCIDR := fun _ => none
  loadLocation := fun zone => if zone = "UTC" then some utcWall else none
  formatFloat := Number.text
  parseTime := fun _ => .error "cannot parse"

def guardedDelete (policy : Condition) : Model where
  types := AList.singleton "document"
    { relations := AList.singleton "owner" []
      permissions := AList.singleton "delete" ["owner"]
      require := AList.singleton "delete" { policies := ["office-hours"] } }
  policies := AList.singleton "office-hours" policy

theorem guardedDelete_policy {policy p : Condition} {name : String}
    (h : (guardedDelete policy).policies.lookup name = some p) : p = policy := by
  have hmem := AList.mem_lookup_iff.mp h
  simp only [guardedDelete, AList.singleton_entries, mem_singleton, Sigma.mk.injEq,
    heq_eq_eq] at hmem
  exact hmem.2

def officeHours : Condition := { time := some ⟨["mon"], "09:00", "17:00", "UTC"⟩ }

theorem accepted_conditions_office_hours :
    (guardedDelete officeHours).accept utcLibrary = .ok () ∧
      ∀ typ act r, (guardedDelete officeHours).conditionFor typ act = some r →
        ∀ c ∈ r.conditions, c.validate utcLibrary typ act = .ok () := by
  have haccept : (guardedDelete officeHours).accept utcLibrary = .ok () := by rfl
  refine ⟨haccept, (accepted_conditions_iff utcLibrary _ haccept).1.mpr ?_⟩
  intro typ t act c _ _ name _ p hp
  rw [guardedDelete_policy hp]
  exact Condition.validate_ok.mp (show officeHours.validate utcLibrary typ act = .ok () by rfl)

def loosely : Condition := { time := some { start := "9am", stop := "5pm" } }

def inProduction : Condition :=
  { asserted := some { context := AList.singleton "environment" ["production"] } }

/-- A model with such a policy is accepted and hands it out unvalidated, and a condition the
evaluator enforces through the request context is refused. -/
theorem accepted_conditions_unvalidated :
    ((guardedDelete loosely).accept utcLibrary = .ok () ∧
      ∃ r, (guardedDelete loosely).conditionFor "document" "delete" = some r ∧
        loosely ∈ r.conditions ∧ loosely.validate utcLibrary "document" "delete" ≠ .ok ()) ∧
    inProduction.Enforced ∧ inProduction.validate utcLibrary "document" "delete" ≠ .ok () := by
  refine ⟨⟨by rfl, _, rfl, ?_, ?_⟩, ?_, ?_⟩
  · exact mem_cons_of_mem _ (mem_singleton_self _)
  · intro h
    exact (Condition.validate_ok.mp h).time _ rfl |>.zoned (.inl (by decide)) rfl
  · exact .inr (.inr (.inr (.inr (.inr (.inr (.inr (.inr ⟨_, rfl, .inr (.inl (by decide))⟩)))))))
  · intro h
    have := (Condition.validate_ok.mp h).asserted _ rfl |>.requires
    exact absurd this (by decide)

end Signari.AuthzModel
