import Signari.GoStrings
import Signari.IndexedChecks
import Mathlib.Data.List.Sort

/-!
# Access policies

The rules of a policy file and the verdict on one request, after `internal/policy`.

The scan refuses at the first matching rule that denies or whose conditions fail, and remembers
whether any rule matched; the default decides only the requests that none did. Under `default: deny`
a rule that matches and is satisfied lifts the default's refusal, so an inserted rule restricts
exactly outside that case.

Parsing addresses and networks is the argument `net`.
-/
namespace Signari.AccessPolicies
open GoStrings IndexedChecks List

/-- `net.ParseIP`, and `net.ParseCIDR` followed by `Contains`. -/
structure Net where
  Address : Type
  parseIP : String → Option Address
  parseCIDR : String → Option (Address → Bool)

structure Match where
  client : String := ""
  clients : List String := []
  scope : String := ""

structure Conditions where
  groups : List String := []
  anyGroup : List String := []
  mfa : Bool := false
  fromNetworks : List String := []
  noImpossibleTravel : Bool := false
  deviceManaged : Bool := false
  deviceCompliant : Bool := false
  phishingResistant : Bool := false
  factorsAnyOf : List String := []

structure Rule where
  name : String
  when : Match := {}
  require : Conditions := {}
  deny : Bool := false
  message : String := ""

structure Request where
  client : String := ""
  scope : String := ""
  groups : List String := []
  mfa : Bool := false
  amr : List String := []
  ip : String := ""
  impossibleTravel : Bool := false
  deviceManaged : Bool := false
  deviceCompliant : Bool := false

structure TestCase where
  name : String
  given : Request
  expect : String

structure File where
  version : ℤ
  default : String := ""
  policies : List Rule := []
  tests : List TestCase := []

structure Decision where
  allowed : Bool
  rule : String := ""
  message : String := ""
  deriving DecidableEq

def hasScope (scope want : String) : Bool := (fields scope).contains want

def Match.matches (m : Match) (req : Request) : Bool :=
  if m.client ≠ "" ∧ m.client ≠ req.client then false
  else if 0 < m.clients.length ∧ m.clients.contains req.client = false then false
  else if m.scope ≠ "" ∧ hasScope req.scope m.scope = false then false
  else true

/-- Only `hwk`, the value this engine asserts for WebAuthn. -/
def hasPhishingResistantFactor (amr : List String) : Bool := amr.contains "hwk"

def hasAnyFactor (amr want : List String) : Bool := want.any fun w => amr.contains w

section
variable (net : Net)

/-- An absent or unparseable address is inside no network. -/
def fromNetwork (ip : String) (cidrs : List String) : Bool := match net.parseIP ip with
  | none => false
  | some addr => cidrs.any fun cidr =>
    match net.parseCIDR cidr with
    | none => false
    | some holds => holds addr

def Conditions.satisfiedBy (c : Conditions) (req : Request) : Bool :=
  if c.groups.all (fun g => req.groups.contains g) = false then false
  else if 0 < c.anyGroup.length ∧ c.anyGroup.any (fun g => req.groups.contains g) = false then false
  else if c.phishingResistant ∧ hasPhishingResistantFactor req.amr = false then false
  else if 0 < c.factorsAnyOf.length ∧ hasAnyFactor req.amr c.factorsAnyOf = false then false
  else if c.mfa ∧ req.mfa = false then false
  else if c.deviceManaged ∧ req.deviceManaged = false then false
  else if c.deviceCompliant ∧ (req.deviceCompliant = false ∨ req.deviceManaged = false) then false
  else if c.noImpossibleTravel ∧ req.impossibleTravel then false
  else if 0 < c.fromNetworks.length ∧ fromNetwork net req.ip c.fromNetworks = false then false
  else true

/-- `message`: what the person refused is told. -/
def Rule.messageText (r : Rule) : String :=
  if r.message ≠ "" then r.message else "Access to this application is restricted by policy."

def Rule.refusal (r : Rule) : Decision := ⟨false, r.name, r.messageText⟩

def defaultRefusal : Decision := ⟨false, "(default)", "This application is not available."⟩

/-- The loop of `Evaluate` and what follows it. -/
def evaluateFrom (default : String) (req : Request) (matched : Bool) : List Rule → Decision
  | [] => if matched = false ∧ default = "deny" then defaultRefusal else { allowed := true }
  | r :: rs =>
    if r.when.matches req = false then evaluateFrom default req matched rs
    else if r.deny then r.refusal
    else if r.require.satisfiedBy net req = false then r.refusal
    else evaluateFrom default req true rs

def evaluate (f : File) (req : Request) : Decision :=
  evaluateFrom net f.default req false f.policies

def Conditions.isEmpty (c : Conditions) : Bool :=
  c.groups.isEmpty && c.anyGroup.isEmpty && !c.mfa && !c.phishingResistant &&
    c.factorsAnyOf.isEmpty && c.fromNetworks.isEmpty && !c.noImpossibleTravel &&
    !c.deviceManaged && !c.deviceCompliant

def validateNetworks (r : Rule) : Except String Unit :=
  checkAll (fun _ cidr => refuseIf ((net.parseCIDR cidr).isSome = false) ("policy " ++
    quote r.name ++ ": " ++ quote cidr ++ " is not a network in CIDR form")) 0
    r.require.fromNetworks

/-- The loop of `validate`; `seen` are the names of the rules before this one. -/
def validateRules : ℕ → List String → List Rule → Except String Unit
  | _, _, [] => .ok ()
  | i, seen, r :: rs => do
      refuseIf (r.name = "") ("policy " ++ toString (i + 1) ++ " has no name; a rule that " ++
        "refuses somebody must be findable in this file by the name in the error")
      refuseIf (r.name ∈ seen) ("two policies are named " ++ quote r.name)
      refuseIf (r.deny = true ∧ r.require.isEmpty = false) ("policy " ++ quote r.name ++
        " both denies and requires; a rule that denies outright cannot also state " ++
        "conditions, and which was meant is unclear")
      validateNetworks net r
      validateRules (i + 1) (r.name :: seen) rs

def File.validate (f : File) : Except String Unit := do
  validateRules net 0 [] f.policies
  refuseIf (f.tests = []) ("this policy file has no tests. Add cases under `tests:` " ++
    "stating what should be allowed and denied -- they are run every time the " ++
    "file is loaded, so a rule that stops doing what you meant cannot deploy")

def verdictText (d : Decision) : String := if d.allowed then "allow" else "deny"

def failureText (tc : TestCase) (d : Decision) : String :=
  "  " ++ tc.name ++ ": expected " ++ tc.expect ++ ", got " ++ verdictText d ++
    (if d.rule ≠ "" then " (by rule " ++ quote d.rule ++ ")" else "")

def testFailures (f : File) : List TestCase → Except String (List String)
  | [] => .ok []
  | tc :: tcs => do
      refuseIf (tc.expect ≠ "allow" ∧ tc.expect ≠ "deny") ("test " ++ quote tc.name ++
        " expects " ++ quote tc.expect ++ "; it must be \"allow\" or \"deny\"")
      let d := evaluate net f tc.given
      let rest ← testFailures f tcs
      .ok (if d.allowed = decide (tc.expect = "allow") then rest else failureText tc d :: rest)

def File.runTests (f : File) : Except String Unit := do
  let failures ← testFailures net f f.tests
  refuseIf (failures ≠ []) ("this policy does not do what its tests say:\n" ++
    join (failures.insertionSort (· ≤ ·)) "\n")

def defaultOf (text : String) : Except String String :=
  if text = "" ∨ text = "allow" then .ok "allow"
  else if text = "deny" then .ok "deny"
  else .error ("default is " ++ quote text ++ "; it must be \"allow\" or \"deny\"")

/-- `Parse` on a decoded document. -/
def parse (raw : File) : Except String File := do
  let default ← defaultOf raw.default
  let f := { raw with default := default }
  refuseIf (f.version ≠ 1) ("policy version " ++ toString f.version ++
    " is not supported (expected 1)")
  f.validate net
  f.runTests net
  .ok f

/-! ## The verdict without the scan -/

/-- A rule that applies to a request and does not let it through. -/
def Rule.refuses (r : Rule) (req : Request) : Bool :=
  r.when.matches req && (r.deny || !r.require.satisfiedBy net req)

/-- A rule that applies to a request and lets it through. -/
def Rule.admits (r : Rule) (req : Request) : Bool :=
  r.when.matches req && !r.deny && r.require.satisfiedBy net req

variable {net} {f : File} {req : Request} {r : Rule}

theorem evaluateFrom_allowed {default : String} {matched : Bool} {rules : List Rule} :
    (evaluateFrom net default req matched rules).allowed = true ↔
      (∀ r ∈ rules, r.refuses net req = false) ∧
        (default = "deny" → matched = true ∨ ∃ r ∈ rules, r.when.matches req = true) := by
  induction rules generalizing matched with
  | nil =>
    simp only [evaluateFrom]
    split_ifs with h
    · simp [defaultRefusal, h]
    · cases matched with
      | true => simp
      | false => simpa using h
  | cons r rs ih =>
    simp only [evaluateFrom, forall_mem_cons, exists_mem_cons_iff]
    split_ifs with hm hd hs
    · rw [ih]
      simp [Rule.refuses, hm]
    · have hr : r.refuses net req = true := by simp [Rule.refuses, hm, hd]
      simp [Rule.refusal, hr]
    · have hr : r.refuses net req = true := by simp [Rule.refuses, hm, hs]
      simp [Rule.refusal, hr]
    · rw [ih]
      have hr : r.refuses net req = false := by simp [Rule.refuses, hd, hs]
      simp [hr, hm]

/-- No rule refuses, and under `default: deny` some rule matched. -/
theorem evaluate_allowed :
    (evaluate net f req).allowed = true ↔
      (∀ r ∈ f.policies, r.refuses net req = false) ∧
        (f.default = "deny" → ∃ r ∈ f.policies, r.when.matches req = true) := by
  rw [evaluate, evaluateFrom_allowed]
  simp

theorem evaluate_perm {ps : List Rule} (h : ps.Perm f.policies) :
    (evaluate net { f with policies := ps } req).allowed = (evaluate net f req).allowed := by
  rw [Bool.eq_iff_iff, evaluate_allowed, evaluate_allowed]
  simp only [h.mem_iff]

theorem admits_iff : r.admits net req = true ↔
    r.when.matches req = true ∧ r.refuses net req = false := by
  cases hm : r.when.matches req <;> cases hd : r.deny <;>
    cases hs : r.require.satisfiedBy net req <;> simp [Rule.admits, Rule.refuses, hm, hd, hs]

/-! ## Inserting a rule -/

theorem mem_insert_iff {before after : List Rule} {q : Rule} :
    q ∈ before ++ r :: after ↔ q = r ∨ q ∈ before ++ after := by
  simp only [mem_append, mem_cons]
  grind

/-- An inserted rule keeps every refusal but one: the refusal of `default: deny` where no
rule matched, lifted by a rule that admits the request. -/
theorem evaluate_insert {before after : List Rule} (hp : f.policies = before ++ after)
    (h : (evaluate net f req).allowed = false) :
    (evaluate net { f with policies := before ++ r :: after } req).allowed = true ↔
      f.default = "deny" ∧ (∀ q ∈ f.policies, q.when.matches req = false) ∧
        r.admits net req = true := by
  rw [← Bool.not_eq_true, evaluate_allowed, not_and] at h
  rw [evaluate_allowed, admits_iff]
  simp only [mem_insert_iff, ← hp, forall_eq_or_imp, exists_eq_or_imp]
  constructor
  · rintro ⟨⟨hr, hall⟩, hmatch⟩
    obtain ⟨hdef, hnone⟩ := Classical.not_imp.mp (h hall)
    have hnone' : ∀ q ∈ f.policies, q.when.matches req = false := by simpa using hnone
    refine ⟨hdef, hnone', ?_, hr⟩
    rcases hmatch hdef with hm | hm
    · exact hm
    · exact (hnone hm).elim
  · rintro ⟨_, hnone, hm, hr⟩
    refine ⟨⟨hr, fun q hq => ?_⟩, fun _ => .inl hm⟩
    simp [Rule.refuses, hnone q hq]

theorem insert_restricts_iff (net : Net) (f : File) (req : Request) (r : Rule)
    (before after : List Rule) (hp : f.policies = before ++ after) :
    (((evaluate net f req).allowed = false →
        (evaluate net { f with policies := before ++ r :: after } req).allowed = false) ∧
      ∀ ps : List Rule, ps.Perm f.policies →
        (evaluate net { f with policies := ps } req).allowed = (evaluate net f req).allowed) ↔
    ¬(f.default = "deny" ∧ (∀ q ∈ f.policies, q.when.matches req = false) ∧
      r.when.matches req = true ∧ r.deny = false ∧ r.require.satisfiedBy net req = true) := by
  have hadm : (r.when.matches req = true ∧ r.deny = false ∧
      r.require.satisfiedBy net req = true) ↔ r.admits net req = true := by
    simp [Rule.admits, and_assoc]
  rw [hadm, and_iff_left fun ps h => evaluate_perm h]
  constructor
  · intro hkeep hlift
    have hdenied : (evaluate net f req).allowed = false := by
      rw [← Bool.not_eq_true, evaluate_allowed]
      rintro ⟨-, hm⟩
      obtain ⟨q, hq, hm⟩ := hm hlift.1
      simp [hlift.2.1 q hq] at hm
    have hallowed := (evaluate_insert (r := r) hp hdenied).mpr hlift
    simp [hkeep hdenied] at hallowed
  · intro hlift hdenied
    rw [← Bool.not_eq_true, evaluate_insert hp hdenied]
    exact hlift

end

def noNetworks : Net := ⟨Unit, fun _ => none, fun _ => none⟩

def wikiNeedsStaff : Rule :=
  { name := "wiki-needs-staff", when := { client := "wiki" },
    require := { anyGroup := ["staff", "admins"] } }

def portalIsOpen : Rule := { name := "portal-is-open", when := { client := "portal" } }

def closedFile (policies : List Rule) : File :=
  { version := 1, default := "deny", policies := policies,
    tests := [⟨"staff reach the wiki", { client := "wiki", groups := ["staff"] }, "allow"⟩,
      ⟨"outsiders do not", { client := "wiki" }, "deny"⟩] }

theorem insert_restricts_iff_wiki :
    (closedFile [wikiNeedsStaff]).policies = [wikiNeedsStaff] ++ [] ∧
    ((((evaluate noNetworks (closedFile [wikiNeedsStaff]) { client := "wiki" }).allowed = false →
        (evaluate noNetworks { closedFile [wikiNeedsStaff] with
          policies := [wikiNeedsStaff] ++ portalIsOpen :: [] } { client := "wiki" }).allowed =
            false) ∧
      ∀ ps : List Rule, ps.Perm (closedFile [wikiNeedsStaff]).policies →
        (evaluate noNetworks { closedFile [wikiNeedsStaff] with policies := ps }
          { client := "wiki" }).allowed =
        (evaluate noNetworks (closedFile [wikiNeedsStaff]) { client := "wiki" }).allowed) ↔
    ¬((closedFile [wikiNeedsStaff]).default = "deny" ∧
      (∀ q ∈ (closedFile [wikiNeedsStaff]).policies, q.when.matches { client := "wiki" } = false) ∧
      portalIsOpen.when.matches { client := "wiki" } = true ∧ portalIsOpen.deny = false ∧
      portalIsOpen.require.satisfiedBy noNetworks { client := "wiki" } = true)) :=
  ⟨rfl, insert_restricts_iff _ _ _ _ [wikiNeedsStaff] [] rfl⟩

/-- Both files load, and the second rule opens the portal that the default had closed. -/
theorem inserted_rule_grants :
    parse noNetworks (closedFile [wikiNeedsStaff]) = .ok (closedFile [wikiNeedsStaff]) ∧
    parse noNetworks (closedFile [wikiNeedsStaff, portalIsOpen]) =
      .ok (closedFile [wikiNeedsStaff, portalIsOpen]) ∧
    evaluate noNetworks (closedFile [wikiNeedsStaff]) { client := "portal" } = defaultRefusal ∧
    (evaluate noNetworks (closedFile [wikiNeedsStaff, portalIsOpen])
      { client := "portal" }).allowed = true := by
  refine ⟨rfl, rfl, by decide, by decide⟩

end Signari.AccessPolicies
