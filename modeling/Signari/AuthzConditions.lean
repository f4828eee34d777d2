import Signari.IndexedChecks
import Signari.JsonValues
import Signari.KeyedMaps

/-!
# Conditions of the authorization model

The requirement on an action, from `internal/authzen/model.go`: what the session or the directory
must show (a second factor, a group, an hour of the day), and what the caller must assert.

Time zones, addresses and number formatting belong to Go's library and are an argument, `Library`.
-/
namespace Signari.AuthzConditions
open GoStrings IndexedChecks JsonValues KeyedMaps

/-- What a clock on the wall shows. -/
structure Wall where
  weekday : String
  hour : ℕ
  minute : ℕ

/-- A `time.Time` other than the zero one: an instant, and the wall of its own location. -/
structure Moment where
  instant : ℤ
  wall : Wall

/-- The parts of Go's library the evaluator calls. -/
structure Library where
  Address : Type
  parseIP : String → Option Address
  /-- `net.ParseCIDR` followed by `Contains`. -/
  parseCIDR : String → Option (Address → Bool)
  /-- `time.LoadLocation` followed by `Time.In`. -/
  loadLocation : String → Option (ℤ → Wall)
  /-- `strconv.FormatFloat` with the shortest form. -/
  formatFloat : Number → String
  /-- `time.Parse` of RFC 3339. -/
  parseTime : String → Except String Moment

/-- Certain days and hours. The window includes `start` and excludes `stop`. -/
structure TimeWindow where
  days : List String := []
  start : String := ""
  stop : String := ""
  zone : String := ""

/-- Requirements met from what the caller sent. -/
structure Asserted where
  resource : Map String (List String) := ∅
  context : Map String (List String) := ∅
  networks : List String := []

structure Condition where
  mfa : Bool := false
  deviceManaged : Bool := false
  deviceCompliant : Bool := false
  anyGroup : List String := []
  maxRisk : ℤ := 0
  subjectActive : Bool := false
  emailVerified : Bool := false
  time : Option TimeWindow := none
  asserted : Option Asserted := none
  policies : List String := []
  strategy : String := ""

def Condition.isEmpty (c : Condition) : Bool :=
  !c.mfa && !c.deviceManaged && !c.deviceCompliant && c.anyGroup.isEmpty && c.maxRisk == 0 &&
    !c.subjectActive && !c.emailVerified && c.time.isNone && c.asserted.isNone &&
    c.policies.isEmpty

/-- What the session and the directory prove, and what the caller sent. The time is `none`
for Go's zero time. -/
structure Facts where
  mfa : Bool := false
  groups : List String := []
  deviceManaged : Bool := false
  deviceCompliant : Bool := false
  risk : ℤ := 0
  active : Bool := false
  emailVerified : Bool := false
  now : Option Moment := none
  context : Map String Json := ∅
  resourceProps : Map String Json := ∅
  ip : String := ""
  fromSession : Bool := false

/-- Two ASCII digits, a colon, two digits, in range. -/
def validHM (s : String) : Bool :=
  match s.toList with
  | [a, b, ':', c, d] =>
    [a, b, c, d].all Char.isDigit && (a.toNat - 48) * 10 + (b.toNat - 48) < 24 &&
      (c.toNat - 48) * 10 + (d.toNat - 48) < 60
  | _ => false

def validDay (d : String) : Bool :=
  ["mon", "tue", "wed", "thu", "fri", "sat", "sun"].contains (toLower d)

/-- Runs a check on every entry of a map, up to the first error. Go's order over a map is
not fixed; which error is reported may vary with it, acceptance does not. -/
def checkEntries {α ε : Type} (check : String → α → Except ε Unit) (m : Map String α) :
    Except ε Unit :=
  checkAll (fun _ e => check e.1 e.2) 0 m.entries

section
variable (lib : Library)

def TimeWindow.validate (w : TimeWindow) (location : String) : Except String Unit := do
  refuseIf ((w.start ≠ "" ∨ w.stop ≠ "") ∧ w.zone = "") (location ++
    ": a time window needs a `zone` -- \"" ++ w.start ++ w.stop ++
    "\" without one means that hour somewhere, which is not a control")
  refuseIf (w.zone ≠ "" ∧ (lib.loadLocation w.zone).isSome = false) (location ++ ": " ++
    quote w.zone ++ " is not an IANA time zone")
  checkAll (fun _ f => refuseIf (f ≠ "" ∧ validHM f = false) (location ++ ": " ++ quote f ++
    " is not HH:MM")) 0 [w.start, w.stop]
  checkAll (fun _ d => refuseIf (validDay d = false) (location ++ ": " ++ quote d ++
    " is not a day (use mon, tue, wed, thu, fri, sat, sun)")) 0 w.days
  refuseIf (w.days = [] ∧ w.start = "" ∧ w.stop = "")
    (location ++ ": the time window restricts nothing")

def Asserted.validate (a : Asserted) (location : String) : Except String Unit := do
  checkAll (fun _ cidr => refuseIf ((lib.parseCIDR cidr).isSome = false) (location ++ ": " ++
    quote cidr ++ " is not a CIDR block")) 0 a.networks
  checkEntries (fun key vals => refuseIf (vals = []) (location ++ ": asserted.resource." ++ key ++
    " allows no values, so nothing can ever satisfy it")) a.resource
  refuseIf (a.resource.keys = [] ∧ a.networks = [])
    (location ++ ": `asserted` requires nothing")

def Condition.validate (c : Condition) (typeName action : String) : Except String Unit := do
  checkAll (fun _ w => w.validate lib (typeName ++ "." ++ action)) 0 c.time.toList
  checkAll (fun _ a => a.validate lib (typeName ++ "." ++ action)) 0 c.asserted.toList

/-- The bytes of a text; `s[i]-'0'` on them wraps around at 256. -/
def byteDigit (b : UInt8) : ℕ := (b - 48).toNat

def parseHM (s : String) : ℕ :=
  match s.toUTF8.toList with
  | a :: b :: colon :: c :: d :: _ =>
    if colon = 58 then
      (byteDigit a * 10 + byteDigit b) * 60 + (byteDigit c * 10 + byteDigit d)
    else 0
  | _ => 0

def TimeWindow.containsWall (w : TimeWindow) (t : Wall) : Bool :=
  if w.days ≠ [] ∧ w.days.all (fun d => toLower d != toLower t.weekday) then false
  else if w.start = "" ∧ w.stop = "" then true
  else
    let mins := t.hour * 60 + t.minute
    let start := if w.start ≠ "" then parseHM w.start else 0
    let stop := if w.stop ≠ "" then parseHM w.stop else 24 * 60
    if start ≤ stop then decide (start ≤ mins ∧ mins < stop)
    else decide (start ≤ mins ∨ mins < stop)

def TimeWindow.contains (w : TimeWindow) (t : Option Moment) : Bool :=
  match t with
  | none => false
  | some t =>
    if w.zone ≠ "" then
      match lib.loadLocation w.zone with
      | none => false
      | some at_ => w.containsWall (at_ t.instant)
    else w.containsWall t.wall

mutual

def matchesAny (allowed : List String) : Json → Bool
  | .str s => allowed.contains s
  | .bool b => allowed.contains (if b then "true" else "false")
  | .num n => allowed.contains (lib.formatFloat n)
  | .arr items => matchesAnyItem allowed items
  | .null => false
  | .obj _ => false

def matchesAnyItem (allowed : List String) : List Json → Bool
  | [] => false
  | j :: js => matchesAny allowed j || matchesAnyItem allowed js

end

def inAnyNetwork (ip : String) (cidrs : List String) : Bool :=
  match lib.parseIP ip with
  | none => false
  | some parsed => cidrs.any fun c =>
    match lib.parseCIDR c with
    | none => false
    | some contains => contains parsed

def hasAny (have_ want : List String) : Bool := want.any fun w => have_.contains w

def presentAndAllowed (required : Map String (List String)) (sent : Map String Json) : Bool :=
  required.entries.all fun e =>
    match sent.lookup e.1 with
    | none => false
    | some v => matchesAny lib e.2 v

def Asserted.satisfiedBy (a : Asserted) (f : Facts) : Bool :=
  presentAndAllowed lib a.resource f.resourceProps && presentAndAllowed lib a.context f.context &&
    (a.networks.isEmpty || inAnyNetwork lib f.ip a.networks)

def Condition.satisfiedBy (c : Condition) (f : Facts) : Bool :=
  if c.mfa && !f.mfa then false
  else if c.deviceManaged && !f.deviceManaged then false
  else if c.deviceCompliant && !f.deviceCompliant then false
  else if 0 < c.maxRisk ∧ c.maxRisk < f.risk then false
  else if !c.anyGroup.isEmpty && !hasAny f.groups c.anyGroup then false
  else if c.subjectActive && !f.active then false
  else if c.emailVerified && !f.emailVerified then false
  else if c.time.any (fun w => !w.contains lib f.now) then false
  else c.asserted.all fun a => a.satisfiedBy lib f

def unmetEntry (absent : String → String) (wrong : String → List String → String)
    (required : Map String (List String)) (sent : Map String Json) : Option String :=
  required.entries.findSome? fun e =>
    match sent.lookup e.1 with
    | none => some (absent e.1)
    | some v => if matchesAny lib e.2 v then none else some (wrong e.1 e.2)

def Asserted.unmet (a : Asserted) (f : Facts) : Option String :=
  unmetEntry lib (fun key => "the caller to state the resource's " ++ key)
      (fun key allowed => "the resource's " ++ key ++ " to be " ++ join allowed " or ")
      a.resource f.resourceProps <|>
    unmetEntry lib (fun key => "the caller to state " ++ key ++ " in the request context")
      (fun key allowed => key ++ " to be " ++ join allowed " or ") a.context f.context <|>
    if !a.networks.isEmpty && !inAnyNetwork lib f.ip a.networks then
      some "the request to come from a permitted network"
    else none

/-- The first requirement that is not met, as a noun phrase; empty when all are. -/
def Condition.unmet (c : Condition) (f : Facts) : String :=
  if c.mfa && !f.mfa then "a second factor"
  else if c.deviceManaged && !f.deviceManaged then "a managed device"
  else if c.deviceCompliant && !f.deviceCompliant then "a compliant device"
  else if 0 < c.maxRisk ∧ c.maxRisk < f.risk then
    s!"session risk at most {c.maxRisk} (it is {f.risk})"
  else if !c.anyGroup.isEmpty && !hasAny f.groups c.anyGroup then
    "membership of " ++ join c.anyGroup " or "
  else if c.subjectActive && !f.active then "an active account"
  else if c.emailVerified && !f.emailVerified then "a verified email address"
  else if c.time.any (fun w => !w.contains lib f.now) then
    "the action to be taken inside its permitted hours"
  else ((c.asserted.bind fun a => a.unmet lib f).getD "")

def strategyUnanimous : String := "unanimous"

def strategyAffirmative : String := "affirmative"

def strategyConsensus : String := "consensus"

/-- A condition together with the named policies it composes. -/
structure Rule where
  condition : Condition
  named : List Condition

def Rule.conditions (r : Rule) : List Condition := r.condition :: r.named

def Rule.combine (r : Rule) (f : Facts) : Bool :=
  let grants := r.named.countP fun p => p.satisfiedBy lib f
  if r.named = [] then true
  else if r.condition.strategy = strategyAffirmative then decide (0 < grants)
  else if r.condition.strategy = strategyConsensus then
    decide (r.named.length - grants < grants)
  else grants == r.named.length

/-- The inline requirements and the combined policies must both hold. -/
def Rule.satisfiedBy (r : Rule) (f : Facts) : Bool :=
  r.condition.satisfiedBy lib f && r.combine lib f

def wereOrWas (n : ℕ) : String := if n = 1 then "was" else "were"

def Rule.failed (r : Rule) (f : Facts) : List String :=
  (r.named.zipIdx.filter fun p => !p.1.satisfiedBy lib f).map fun p =>
    r.condition.policies.getD p.2 "policy"

def Rule.unmet (r : Rule) (f : Facts) : String :=
  if r.condition.unmet lib f ≠ "" then r.condition.unmet lib f
  else if r.combine lib f then ""
  else
    let strategy := if r.condition.strategy = "" then strategyUnanimous else r.condition.strategy
    "the " ++ strategy ++ " policies to be satisfied (" ++ join (r.failed lib f) ", " ++ " " ++
      wereOrWas (r.failed lib f).length ++ " not)"

end

/-- A time window that can be evaluated: its hours have a zone that exists, and it
restricts something. -/
structure TimeWindow.WellFormed (lib : Library) (w : TimeWindow) : Prop where
  zoned : w.start ≠ "" ∨ w.stop ≠ "" → w.zone ≠ ""
  zone : w.zone ≠ "" → (lib.loadLocation w.zone).isSome = true
  start : w.start ≠ "" → validHM w.start = true
  stop : w.stop ≠ "" → validHM w.stop = true
  days : ∀ d ∈ w.days, validDay d = true
  restricts : w.days ≠ [] ∨ w.start ≠ "" ∨ w.stop ≠ ""

/-- A block of assertions that validation lets through. The context entries do not count
towards it requiring something. -/
structure Asserted.WellFormed (lib : Library) (a : Asserted) : Prop where
  networks : ∀ cidr ∈ a.networks, (lib.parseCIDR cidr).isSome = true
  values : ∀ key vals, a.resource.lookup key = some vals → vals ≠ []
  requires : a.resource.keys ≠ [] ∨ a.networks ≠ []

structure Condition.WellFormed (lib : Library) (c : Condition) : Prop where
  time : ∀ w, c.time = some w → w.WellFormed lib
  asserted : ∀ a, c.asserted = some a → a.WellFormed lib

section
variable {lib : Library}

theorem checkEntries_ok {α ε : Type} {check : String → α → Except ε Unit} {m : Map String α} :
    checkEntries check m = .ok () ↔ ∀ k v, m.lookup k = some v → check k v = .ok () := by
  unfold checkEntries
  rw [checkAll_forall]
  constructor
  · intro h k v hv
    exact h ⟨k, v⟩ (AList.mem_lookup_iff.mp hv)
  · rintro h ⟨k, v⟩ hmem
    exact h k v (AList.mem_lookup_iff.mpr hmem)

theorem TimeWindow.validate_ok {w : TimeWindow} {location : String} :
    w.validate lib location = .ok () ↔ w.WellFormed lib := by
  simp only [TimeWindow.validate, seq_ok, refuseIf_ok, checkAll_forall, List.forall_mem_cons,
    List.not_mem_nil, false_implies, forall_const, and_true, not_and, Bool.not_eq_false]
  constructor
  · rintro ⟨zoned, zone, ⟨start, stop⟩, days, restricts⟩
    refine ⟨zoned, zone, start, stop, days, ?_⟩
    by_contra hnone
    simp only [not_or, not_not, ne_eq] at hnone
    exact restricts hnone.1 hnone.2.1 hnone.2.2
  · rintro ⟨zoned, zone, start, stop, days, restricts⟩
    refine ⟨zoned, zone, ⟨start, stop⟩, days, ?_⟩
    intro hdays hstart hstop
    rcases restricts with h | h | h
    · exact h hdays
    · exact h hstart
    · exact h hstop

theorem Asserted.validate_ok {a : Asserted} {location : String} :
    a.validate lib location = .ok () ↔ a.WellFormed lib := by
  simp only [Asserted.validate, seq_ok, refuseIf_ok, checkAll_forall, checkEntries_ok,
    Bool.not_eq_false]
  constructor
  · rintro ⟨networks, values, requires⟩
    exact ⟨networks, values, not_and_or.mp requires⟩
  · rintro ⟨networks, values, requires⟩
    exact ⟨networks, values, not_and_or.mpr requires⟩

theorem Condition.validate_ok {c : Condition} {typeName action : String} :
    c.validate lib typeName action = .ok () ↔ c.WellFormed lib := by
  simp only [Condition.validate, seq_ok, checkAll_forall, Option.mem_toList,
    TimeWindow.validate_ok, Asserted.validate_ok]
  constructor
  · rintro ⟨htime, hasserted⟩
    exact ⟨htime, hasserted⟩
  · rintro ⟨time, asserted⟩
    exact ⟨time, asserted⟩

/-- The condition names something the evaluator acts on. -/
def Condition.Enforced (c : Condition) : Prop :=
  c.mfa = true ∨ c.deviceManaged = true ∨ c.deviceCompliant = true ∨ 0 < c.maxRisk ∨
    c.anyGroup ≠ [] ∨ c.subjectActive = true ∨ c.emailVerified = true ∨
    (∃ w, c.time = some w ∧ (w.days ≠ [] ∨ w.start ≠ "" ∨ w.stop ≠ "")) ∨
    ∃ a, c.asserted = some a ∧ (a.resource.keys ≠ [] ∨ a.context.keys ≠ [] ∨ a.networks ≠ [])

/-! ## Explanations -/

theorem unmetEntry_none {absent : String → String} {wrong : String → List String → String}
    {required : Map String (List String)} {sent : Map String Json} :
    unmetEntry lib absent wrong required sent = none ↔
      presentAndAllowed lib required sent = true := by
  unfold unmetEntry presentAndAllowed
  rw [List.findSome?_eq_none_iff, List.all_eq_true]
  refine forall₂_congr fun e _ => ?_
  cases sent.lookup e.1 with
  | none => simp
  | some v => simp

theorem unmetEntry_text {absent : String → String} {wrong : String → List String → String}
    {required : Map String (List String)} {sent : Map String Json} {why : String}
    (habsent : ∀ key, absent key ≠ "") (hwrong : ∀ key allowed, wrong key allowed ≠ "")
    (h : unmetEntry lib absent wrong required sent = some why) : why ≠ "" := by
  obtain ⟨e, -, he⟩ := List.exists_of_findSome?_eq_some h
  cases hsent : sent.lookup e.1 with
  | none =>
    simp only [hsent, Option.some.injEq] at he
    exact he ▸ habsent e.1
  | some v =>
    simp only [hsent] at he
    split_ifs at he
    exact Option.some.inj he ▸ hwrong e.1 e.2

theorem Asserted.unmet_none {a : Asserted} {f : Facts} :
    a.unmet lib f = none ↔ a.satisfiedBy lib f = true := by
  have hnetworks : (if !a.networks.isEmpty && !inAnyNetwork lib f.ip a.networks then
      some "the request to come from a permitted network" else none) = none ↔
      (a.networks.isEmpty || inAnyNetwork lib f.ip a.networks) = true := by
    cases a.networks.isEmpty <;> cases inAnyNetwork lib f.ip a.networks <;> simp
  unfold Asserted.unmet Asserted.satisfiedBy
  rw [Option.orElse_eq_none, Option.orElse_eq_none, unmetEntry_none, unmetEntry_none, hnetworks,
    Bool.and_eq_true, Bool.and_eq_true, and_assoc]

theorem Asserted.unmet_text {a : Asserted} {f : Facts} {why : String}
    (h : a.unmet lib f = some why) : why ≠ "" := by
  unfold Asserted.unmet at h
  simp only [Option.orElse_eq_orElse, Option.orElse_eq_or, Option.or_eq_some_iff] at h
  rcases h with h | ⟨-, h | ⟨-, h⟩⟩
  · exact unmetEntry_text (fun _ => by simp) (fun _ _ => by simp) h
  · exact unmetEntry_text (fun _ => by simp) (fun _ _ => by simp) h
  · split_ifs at h
    exact Option.some.inj h ▸ by decide

theorem Condition.unmet_eq_empty {c : Condition} {f : Facts} :
    c.unmet lib f = "" ↔ c.satisfiedBy lib f = true := by
  have hrisk : toString "session risk at most " ≠ "" := by decide
  have hasserted : ((c.asserted.bind fun a => a.unmet lib f).getD "") = "" ↔
      (c.asserted.all fun a => a.satisfiedBy lib f) = true := by
    cases c.asserted with
    | none => simp
    | some a =>
      rw [Option.bind_some, Option.all_some, ← Asserted.unmet_none]
      cases hunmet : a.unmet lib f with
      | none => simp
      | some why => simp [Asserted.unmet_text hunmet]
  unfold Condition.unmet Condition.satisfiedBy
  split_ifs
  any_goals simp [hrisk]
  exact hasserted

theorem Rule.unmet_eq_empty {r : Rule} {f : Facts} :
    r.unmet lib f = "" ↔ r.satisfiedBy lib f = true := by
  unfold Rule.unmet Rule.satisfiedBy
  rw [Bool.and_eq_true, ← Condition.unmet_eq_empty]
  by_cases hcondition : r.condition.unmet lib f = ""
  · rw [if_neg (not_not.mpr hcondition)]
    cases hcombine : r.combine lib f <;> simp [hcondition]
  · rw [if_pos hcondition]
    exact iff_of_false hcondition fun h => hcondition h.1

/-- The explanation agrees with the decision. -/
theorem unmet_iff_satisfiedBy (lib : Library) :
    (∀ (r : Rule) (f : Facts), r.unmet lib f = "" ↔ r.satisfiedBy lib f = true) ∧
      ∀ (c : Condition) (f : Facts), c.unmet lib f = "" ↔ c.satisfiedBy lib f = true :=
  ⟨fun _ _ => Rule.unmet_eq_empty, fun _ _ => Condition.unmet_eq_empty⟩

end

end Signari.AuthzConditions
