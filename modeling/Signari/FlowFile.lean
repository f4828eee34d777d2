import Signari.FlowStages
import Signari.IndexedChecks

/-!
# Flow documents and their structural validation

`internal/flow/flow.go` after decoding: a flow is a list of steps, each a plain stage with
an optional condition or a `one_of` group of branches. `validateStructure` is everything
`Flow.validate` checks before the tests and the safety analysis; `Step.WellFormed` and
`Flow.Structural` restate what acceptance gives, so that later proofs do not unfold the checks.

The decoder lets `when` stand on a `one_of` step: the field exists on the step and
`checkKeys` allows it. Nothing below reads it there.
-/
namespace Signari.FlowFile
open GoStrings IndexedChecks FlowStages List

/-- One alternative inside a `one_of`; an empty `when` is the default branch. -/
structure Branch where
  stage : StageName
  when : String := ""
  deriving DecidableEq

/-- One position in a flow. The source sets exactly one of `stage` and `oneOf`. -/
structure Step where
  stage : StageName := .unset
  when : String := ""
  oneOf : List Branch := []
  deriving DecidableEq

/-- A case the file makes about itself. -/
structure TestCase where
  name : String
  given : List (String × Bool)
  expect : List StageName

structure Flow where
  name : String
  on : Designation
  stages : List Step
  tests : List TestCase

def Step.stageNames (s : Step) : List StageName :=
  if s.stage ≠ .unset then [s.stage] else s.oneOf.map Branch.stage

def designations : String :=
  join ([Designation.authentication, .enrolment, .recovery, .unenrolment].map Designation.text) ", "

def checkDesignation : Designation → Except String Unit
  | .authentication | .enrolment | .recovery | .unenrolment => .ok ()
  | .other "" => .error ("no `on:`; state what this flow is for (" ++ designations ++ ")")
  | .other t => .error ("`on: " ++ t ++ "` is not a designation (" ++ designations ++ ")")

def validateBranch (n i : ℕ) (b : Branch) : Except String Unit := do
  refuseIf (b.stage = .unset) s!"one_of branch {i + 1} names no stage"
  refuseIf (b.stage.known = false) (s!"one_of branch {i + 1}: " ++ quote b.stage.text ++
    " is not a stage (" ++ knownStages ++ ")")
  refuseIf (b.stage.terminal = true) (s!"one_of branch {i + 1} is " ++ b.stage.text ++
    ", which ends a flow; a terminal stage cannot be one arm of a choice the flow " ++
    "continues past")
  (checkCondition b.when).mapError fun e =>
    s!"one_of branch {i + 1} (" ++ b.stage.text ++ "): " ++ e
  refuseIf (b.when = "" ∧ i + 1 ≠ n) (s!"one_of branch {i + 1} (" ++ b.stage.text ++
    s!") has no `when`, so it always matches, and {n - i - 1} later branch(es) can never run")

def checkDefault (last : Branch) : Except String Unit :=
  refuseIf (last.when ≠ "") ("the last one_of branch (" ++ last.stage.text ++
    ") is conditional, so every branch can be skipped and the choice is not a choice. " ++
    "Give the last branch no `when`, making it the default")

def validateGroup (bs : List Branch) : Except String Unit := do
  refuseIf (bs.length < 2)
    s!"a one_of with {bs.length} branch(es) is not a choice; write the stage directly"
  checkAll (validateBranch bs.length) 0 bs
  checkAll (fun _ => checkDefault) 0 bs.getLast?.toList

def validateStep (i : ℕ) (st : Step) : Except String Unit := do
  refuseIf (st.stage ≠ .unset ∧ st.oneOf ≠ [])
    s!"step {i + 1} sets both `stage` and `one_of`; it can be one or the other"
  refuseIf (st.stage = .unset ∧ st.oneOf = []) s!"step {i + 1} names no stage"
  if st.stage ≠ .unset then do
    refuseIf (st.stage.known = false) (s!"step {i + 1}: " ++ quote st.stage.text ++
      " is not a stage (" ++ knownStages ++ ")")
    (checkCondition st.when).mapError fun e =>
      s!"step {i + 1} (" ++ st.stage.text ++ "): " ++ e
  else (validateGroup st.oneOf).mapError fun e => s!"step {i + 1}: " ++ e

def checkTerminal (n i : ℕ) (st : Step) : Except String Unit :=
  checkAll (fun _ name => do
    refuseIf (name.terminal = true ∧ i + 1 ≠ n) (s!"step {i + 1} is " ++ name.text ++
      s!", which ends a flow, but {n - i - 1} step(s) follow it")
    refuseIf (name.terminal = true ∧ st.when ≠ "") ("the final step (" ++ name.text ++
      ") is conditional; a flow whose last step can be skipped has paths that end in " ++
      "nothing at all")) 0 st.stageNames

def checkLast (last : Step) : Except String Unit :=
  checkAll (fun _ name => refuseIf (name.terminal = false) ("ends with " ++ name.text ++
    ", which is not a terminal stage; a flow must end in session, done or deny so that " ++
    "every path has a stated outcome")) 0 last.stageNames

/-- The structural part of `Flow.validate`: everything before the tests and the safety
analysis, in the source's order. -/
def Flow.validateStructure (fl : Flow) : Except String Unit := do
  checkDesignation fl.on
  refuseIf (fl.stages = []) "has no stages"
  checkAll validateStep 0 fl.stages
  checkAll (checkTerminal fl.stages.length) 0 fl.stages
  checkAll (fun _ => checkLast) 0 fl.stages.getLast?.toList

/-- What validation leaves of a branch: a known stage that does not end the flow, under a
condition the vocabulary has. -/
structure Branch.WellFormed (b : Branch) : Prop where
  named : b.stage ≠ .unset
  known : b.stage.known = true
  continues : b.stage.terminal = false
  condition : checkCondition b.when = .ok ()

/-- The two shapes of an accepted step. The last branch of a group is its only default,
which is what makes the choice total. -/
inductive Step.WellFormed : Step → Prop
  | plain (name : StageName) (w : String) (named : name ≠ .unset) (known : name.known = true)
      (condition : checkCondition w = .ok ()) : WellFormed ⟨name, w, []⟩
  | group (w : String) (bs : List Branch) (default : StageName)
      (branches : ∀ b ∈ bs, b.WellFormed ∧ b.when ≠ "")
      (last : Branch.WellFormed ⟨default, ""⟩) :
      WellFormed ⟨.unset, w, bs ++ [⟨default, ""⟩]⟩

/-- What the structural checks leave of a flow: it ends in one unconditional terminal
stage, and nothing before that ends it. -/
structure Flow.Structural (fl : Flow) : Prop where
  ends : ∃ steps last, fl.stages = steps ++ [⟨last, "", []⟩] ∧
    last.terminal = true ∧ last ≠ .unset ∧
    ∀ s ∈ steps, s.WellFormed ∧ ∀ n ∈ s.stageNames, n.terminal = false

theorem validateBranch_ok {n i : ℕ} {b : Branch} (h : validateBranch n i b = .ok ()) :
    b.WellFormed ∧ (b.when = "" → i + 1 = n) := by
  simp only [validateBranch, bind_ok, refuseIf_ok, mapError_ok] at h
  obtain ⟨_, named, _, known, _, continues, _, condition, default⟩ := h
  refine ⟨⟨named, by simpa using known, by simpa using continues, condition⟩, fun hw => ?_⟩
  by_contra hn
  exact default ⟨hw, hn⟩

theorem validateGroup_ok {w : String} {bs : List Branch} (h : validateGroup bs = .ok ()) :
    Step.WellFormed ⟨.unset, w, bs⟩ := by
  simp only [validateGroup, bind_ok, refuseIf_ok] at h
  obtain ⟨_, hlen, _, hall, hlast⟩ := h
  obtain ⟨init, ⟨stage, when⟩, rfl⟩ : ∃ init last, bs = init ++ [last] := by
    refine ⟨bs.dropLast, bs.getLast ?_, (dropLast_append_getLast _).symm⟩
    rintro rfl
    simp at hlen
  obtain rfl : when = "" := by
    simpa [checkDefault] using hlast
  have hb : ∀ (i : ℕ) (b : Branch), (init ++ [⟨stage, ""⟩])[i]? = some b →
      b.WellFormed ∧ (b.when = "" → i = init.length) := by
    intro i b hi
    have hv := validateBranch_ok (checkAll_ok.mp hall i b hi)
    simp only [Nat.zero_add, length_append, length_singleton] at hv
    exact ⟨hv.1, fun hw => by have := hv.2 hw; omega⟩
  refine Step.WellFormed.group w init stage (fun b hmem => ?_) (hb init.length _ (by simp)).1
  obtain ⟨i, hi⟩ := getElem?_of_mem hmem
  have hlt : i < init.length := (List.getElem?_eq_some_iff.mp hi).choose
  have hbi := hb i b (by rw [getElem?_append_left hlt]; exact hi)
  exact ⟨hbi.1, fun hw => by have := hbi.2 hw; omega⟩

theorem validateStep_ok {i : ℕ} {st : Step} (h : validateStep i st = .ok ()) : st.WellFormed := by
  obtain ⟨stage, when, oneOf⟩ := st
  simp only [validateStep, bind_ok, refuseIf_ok] at h
  obtain ⟨_, hboth, _, _, h⟩ := h
  split_ifs at h with hstage
  · simp only [bind_ok, refuseIf_ok, mapError_ok] at h
    obtain ⟨_, known, condition⟩ := h
    obtain rfl : oneOf = [] := by
      by_contra hne
      exact hboth ⟨hstage, hne⟩
    exact .plain stage when hstage (by simpa using known) condition
  · obtain rfl : stage = .unset := by simpa using hstage
    exact validateGroup_ok ((mapError_ok _ _ _).mp h)

theorem checkTerminal_ok {n i : ℕ} {st : Step} (h : checkTerminal n i st = .ok ())
    {name : StageName} (hname : name ∈ st.stageNames) (ht : name.terminal = true) :
    i + 1 = n ∧ st.when = "" := by
  obtain ⟨_, hj⟩ := checkAll_mem h hname
  simp only [bind_ok, refuseIf_ok, ht, true_and] at hj
  obtain ⟨_, hn, hw⟩ := hj
  exact ⟨by simpa using hn, by simpa using hw⟩

theorem Step.WellFormed.stageNames_ne_nil {st : Step} (h : st.WellFormed) : st.stageNames ≠ [] := by
  cases h with
  | plain name w named known condition => simp [Step.stageNames, named]
  | group w bs default branches last => simp [Step.stageNames]

theorem Step.WellFormed.known {s : Step} (h : s.WellFormed) :
    ∀ n ∈ s.stageNames, n.known = true := by
  cases h with
  | plain name w named known condition => simp [Step.stageNames, named, known]
  | group w bs default branches last =>
    intro n hn
    simp only [Step.stageNames, ne_eq, not_true, if_false, map_append, map_cons,
      map_nil, mem_append, mem_map, mem_singleton] at hn
    rcases hn with ⟨b, hb, rfl⟩ | rfl
    · exact (branches b hb).1.known
    · exact last.known

theorem Step.WellFormed.plain_of_terminal {st : Step} (h : st.WellFormed)
    (ht : ∀ n ∈ st.stageNames, n.terminal = true) (hw : st.when = "") :
    ∃ name, st = ⟨name, "", []⟩ ∧ name.terminal = true ∧ name ≠ .unset := by
  cases h with
  | plain name w named known condition =>
    obtain rfl : w = "" := hw
    exact ⟨name, rfl, ht name (by simp [Step.stageNames, named]), named⟩
  | group w bs default branches last =>
    have := ht default (by simp [Step.stageNames])
    rw [last.continues] at this
    cases this

theorem checkLast_ok {last : Step} (h : checkLast last = .ok ()) :
    ∀ n ∈ last.stageNames, n.terminal = true := by
  intro n hn
  obtain ⟨_, hj⟩ := checkAll_mem h hn
  simpa using hj

/-- The three loops together: a terminal stage pins its step to the end, and the last
step names nothing else. -/
theorem structural_of_checks {fl : Flow} (hnil : fl.stages ≠ [])
    (hs : checkAll validateStep 0 fl.stages = .ok ())
    (ht : checkAll (checkTerminal fl.stages.length) 0 fl.stages = .ok ())
    (hl : checkAll (fun _ => checkLast) 0 fl.stages.getLast?.toList = .ok ()) :
    fl.Structural := by
  obtain ⟨steps, last, hst⟩ : ∃ steps last, fl.stages = steps ++ [last] :=
    ⟨_, _, (dropLast_append_getLast hnil).symm⟩
  rw [hst] at hs ht hl
  have hwf : ∀ s ∈ steps ++ [last], s.WellFormed := fun s hmem =>
    validateStep_ok (checkAll_mem hs hmem).choose_spec
  have hend : ∀ i s, (steps ++ [last])[i]? = some s → ∀ n ∈ s.stageNames,
      n.terminal = true → i = steps.length ∧ s.when = "" := by
    intro i s hi n hn hterm
    have hc := checkTerminal_ok (checkAll_ok.mp ht i s hi) hn hterm
    simp only [length_append, length_singleton] at hc
    exact ⟨by omega, hc.2⟩
  have hterm : ∀ n ∈ last.stageNames, n.terminal = true :=
    checkLast_ok (checkAll_mem hl (x := last) (by simp)).choose_spec
  obtain ⟨n, hn⟩ := exists_mem_of_ne_nil _ (hwf last (by simp)).stageNames_ne_nil
  have hwhen := (hend steps.length last (by simp) n hn (hterm n hn)).2
  obtain ⟨name, hname, hnt, hnu⟩ := (hwf last (by simp)).plain_of_terminal hterm hwhen
  refine ⟨steps, name, by rw [hst, hname], hnt, hnu, fun s hmem => ?_⟩
  refine ⟨hwf s (by simp [hmem]), fun m hm => ?_⟩
  by_contra hmt
  obtain ⟨i, hi⟩ := getElem?_of_mem hmem
  have hlt : i < steps.length := (List.getElem?_eq_some_iff.mp hi).choose
  have := (hend i s (by rw [getElem?_append_left hlt]; exact hi) m hm (by simpa using hmt)).1
  omega

theorem validateStructure_ok {fl : Flow} (h : fl.validateStructure = .ok ()) : fl.Structural := by
  simp only [Flow.validateStructure, bind_ok, refuseIf_ok] at h
  obtain ⟨_, _, _, hnil, _, hs, _, ht, hl⟩ := h
  exact structural_of_checks hnil hs ht hl

end Signari.FlowFile
