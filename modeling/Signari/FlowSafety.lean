import Signari.FlowWalk

/-!
# The safety analysis of a flow, and its exactness

`checkSafety` of `internal/flow/safety.go` decides two properties of a flow without walking it: that
a session is reached only after a stage that proves the subject, and that a credential is changed
only after one. `checkSafety_iff` says the two agree on every structurally valid flow, in both
directions.

The proof carries one Boolean through both sides. `SafeFrom` is the requirement on an
emitted list once a subject is or is not proved; `GuardedFrom` is the static rule on the
remaining steps. One step relates them, because a step's outcomes all prove exactly
when it is a guaranteed prover.
-/
namespace Signari.FlowSafety
open GoStrings IndexedChecks FlowStages FlowFile FlowWalk List

def stageList (set : List StageName) : String :=
  join ((allStages.filter fun n => set.contains n).map StageName.text) ", "

/-- What goes wrong, in the words of what an attacker gets. -/
def mutationRisk : StageName → String
  | .enrolMFA => "Whoever reaches this step attaches an authenticator of their " ++
      "own to the named account, and any later stage that checks a second factor " ++
      "will then pass for them."
  | .passwordChange => "Whoever reaches this step sets the password on the " ++
      "named account, having presented nothing to show it is theirs."
  | .createUser => "Whoever reaches this step creates an account."
  | _ => ""

/-- Whether a step definitely proves the subject, whatever the conditions turn out to be. -/
def guaranteedProver (d : Designation) (st : Step) : Bool :=
  if st.stage ≠ .unset then st.when == "" && st.stage.proves d
  else st.oneOf.all (fun b => b.stage.proves d) && !st.oneOf.isEmpty

/-- Whether a step could prove the subject on some path; only an error message asks. -/
def mayProve (d : Designation) (st : Step) : Bool := st.stageNames.any fun n => n.proves d

def hasAnyProver (fl : Flow) : Bool :=
  fl.stages.any fun st => st.stageNames.any fun n => provingStages.contains n

def hasConditionalProver (fl : Flow) : Bool :=
  fl.stages.any fun st => !guaranteedProver fl.on st && mayProve fl.on st

def checkAbsent (fl : Flow) (name : StageName) (reason : String) : Except String Unit :=
  checkAll (fun i st => checkAll (fun _ n => refuseIf (n = name)
    (s!"step {i + 1} is " ++ name.text ++ reason)) 0 st.stageNames) 0 fl.stages

def checkCreateUser (fl : Flow) : Except String Unit :=
  checkAbsent fl .createUser (", which belongs to an enrolment flow; a " ++ fl.on.text ++
    " flow that can create accounts is a sign-up form nobody meant to publish")

def checkNoSession (fl : Flow) : Except String Unit :=
  checkAbsent fl .session (", and this is an enrolment flow. Enrolment creates the account; " ++
    "hand over to an authentication flow to sign them in, so that issuing a session is " ++
    "always something a flow subject to the proof rule did")

def orderReason (d : Designation) (i : ℕ) (name : StageName) : String :=
  let counts := if d = .recovery then recoveryProving else provingStages
  let narrowed := if d = .recovery then " -- narrower here than elsewhere, because a " ++
    "recovery flow may not accept the kind of factor it exists to replace" else ""
  s!"step {i + 1} is " ++ name.text ++ ", which changes the subject's credentials, but " ++
    "nothing before it has proved who the subject is. " ++ mutationRisk name ++
    "\n\nMove it after a stage that proves the subject (" ++ stageList counts ++ narrowed ++
    "), or make the proving stage unconditional if it is one -- a stage that only " ++
    "sometimes runs cannot be what stops this"

/-- Property 2, from position `i` on, given whether a guaranteed prover has gone by. -/
def checkOrderFrom (d : Designation) : ℕ → Bool → List Step → Except String Unit
  | _, _, [] => .ok ()
  | i, proven, st :: sts => do
      checkAll (fun _ name => refuseIf (name.mutating = true ∧ proven = false)
        (orderReason d i name)) 0 st.stageNames
      checkOrderFrom d (i + 1) (proven || guaranteedProver d st) sts

def checkOrder (fl : Flow) : Except String Unit := checkOrderFrom fl.on 0 false fl.stages

def proofHint (fl : Flow) : String :=
  if fl.on = .recovery ∧ hasAnyProver fl = true then
    "\n\nThis flow does authenticate, but with a factor that does " ++
      "not count in a recovery flow. Recovery exists because a factor was lost, so " ++
      "it may not accept the kind it replaces. What counts here: " ++
      stageList recoveryProving ++ "."
  else if hasConditionalProver fl = true then
    "\n\nEvery stage here that proves anything is conditional, so there is a " ++
      "path where none of them runs. If the conditions are meant to cover every " ++
      "case, say so with `one_of:` -- its last branch is the default, which is what " ++
      "makes the choice total and lets this check see that one branch always runs."
  else
    "\n\nStages that prove who somebody is: " ++ stageList provingStages ++
      ". Note that identify is not one of them -- it collects an identifier, and knowing " ++
      "a username is not evidence of being its owner."

def checkProof (fl : Flow) : Except String Unit :=
  refuseIf ((fl.stages.getLast?.toList.any fun last => last.stageNames.contains .session) = true ∧
      (fl.stages.any fun st => guaranteedProver fl.on st) = false)
    ("this flow can reach session without proving who the subject is" ++ proofHint fl)

/-- Enrolment is exempt from the proof and order rules, and pays for it by never reaching a
session. -/
def checkSafety (fl : Flow) : Except String Unit := if fl.on = .enrolment then checkNoSession fl
  else do
    checkCreateUser fl
    checkOrder fl
    checkProof fl

/-- `Flow.validate`. -/
def validate (fl : Flow) : Except String Unit := do
  fl.validateStructure
  refuseIf (fl.tests = []) ("has no tests. Add cases under `tests:` stating which stages " ++
    "should run -- they run every time this file is loaded, so a flow that stops " ++
    "doing what you meant cannot deploy")
  checkSafety fl

def Mentions (fl : Flow) (name : StageName) : Prop := ∃ st ∈ fl.stages, name ∈ st.stageNames

theorem checkAbsent_ok {fl : Flow} {name : StageName} {reason : String} :
    checkAbsent fl name reason = .ok () ↔ ¬Mentions fl name := by
  unfold checkAbsent Mentions
  rw [checkAll_ok]
  simp only [checkAll_ok, refuseIf_ok]
  constructor
  · rintro h ⟨st, hst, hname⟩
    obtain ⟨i, hi⟩ := getElem?_of_mem hst
    obtain ⟨j, hj⟩ := getElem?_of_mem hname
    exact h i st hi j name hj rfl
  · rintro h i st hi j n hj rfl
    exact h ⟨st, mem_of_getElem? hi, mem_of_getElem? hj⟩

/-- The static rule on the remaining steps. -/
def GuardedFrom (d : Designation) : Bool → List Step → Prop
  | _, [] => True
  | proven, st :: sts => (∀ n ∈ st.stageNames, n.guarded = true → proven = true) ∧
      GuardedFrom d (proven || guaranteedProver d st) sts

/-- The requirement on the stages still to be emitted. -/
def SafeFrom (d : Designation) : Bool → List StageName → Prop
  | _, [] => True
  | proven, n :: out => (n.guarded = true → proven = true) ∧
      SafeFrom d (proven || n.proves d) out

theorem SafeFrom.mono {d : Designation} {out : List StageName}
    (h : SafeFrom d false out) (b : Bool) : SafeFrom d b out := by
  cases b with
  | false => exact h
  | true =>
    induction out with
    | nil => trivial
    | cons n out ih =>
      refine ⟨fun _ => rfl, ?_⟩
      have h₂ := h.2
      cases hp : n.proves d with
      | false => exact ih (by simpa [hp] using h₂)
      | true => simpa [hp] using h₂

theorem safeFrom_iff {d : Designation} {proven : Bool} {out : List StageName} :
    SafeFrom d proven out ↔ ∀ pre n post, out = pre ++ n :: post → n.guarded = true →
      proven = true ∨ ∃ p ∈ pre, p.proves d = true := by
  induction out generalizing proven with
  | nil => simp [SafeFrom]
  | cons m out ih =>
    constructor
    · rintro ⟨h₀, h⟩ pre n post heq hn
      cases pre with
      | nil =>
        obtain ⟨rfl, rfl⟩ := List.cons.inj heq
        exact .inl (h₀ hn)
      | cons p pre =>
        obtain ⟨rfl, rfl⟩ := List.cons.inj heq
        rcases ih.mp h pre n post rfl hn with hp | ⟨q, hq, hqp⟩
        · rcases Bool.or_eq_true_iff.mp hp with hp | hp
          · exact .inl hp
          · exact .inr ⟨m, by simp, hp⟩
        · exact .inr ⟨q, by simp [hq], hqp⟩
    · intro h
      refine ⟨fun hn => by simpa using h [] m out rfl hn, ih.mpr ?_⟩
      rintro pre n post rfl hn
      rcases h (m :: pre) n post rfl hn with hp | ⟨q, hq, hqp⟩
      · exact .inl (by simp [hp])
      · rcases mem_cons.mp hq with rfl | hq
        · exact .inl (by simp [hqp])
        · exact .inr ⟨q, hq, hqp⟩

theorem visits_of_mem {st : Step} (h : st.WellFormed) {n : StageName}
    (hn : n ∈ st.stageNames) : Visits st (some n) := by
  cases h with
  | plain name w named known condition =>
    obtain rfl : n = name := by simpa [Step.stageNames, named] using hn
    exact .plain rfl
  | group w bs default branches last =>
    simp only [Step.stageNames, ne_eq, not_true, if_false] at hn
    obtain ⟨b, hb, rfl⟩ := mem_map.mp hn
    obtain ⟨pre, post, hsplit⟩ := append_of_mem hb
    refine .branch pre post b hsplit fun a ha => ?_
    have hmem : a ∈ bs := by
      have hdrop := congrArg List.dropLast hsplit
      rw [dropLast_concat] at hdrop
      rw [hdrop, dropLast_append_of_ne_nil (by simp)]
      simp [ha]
    exact (branches a hmem).2

theorem Visits.cases {st : Step} (h : st.WellFormed) {o : Option StageName} (hv : Visits st o) :
    (∃ n ∈ st.stageNames, o = some n) ∨ (o = none ∧ st.stage ≠ .unset ∧ st.when ≠ "") := by
  cases h with
  | plain name w named known condition =>
    cases hv with
    | plain h => exact .inl ⟨name, by simp [Step.stageNames, named], rfl⟩
    | skip h hw => exact .inr ⟨rfl, named, hw⟩
    | branch bs rest b h hbs => simp at h
    | fall h hbs => simp at h
  | group w bs default branches last =>
    cases hv with
    | plain h => simp at h
    | skip h hw => simp at h
    | branch cs rest b h hbs =>
      refine .inl ⟨b.stage, ?_, rfl⟩
      have hb : b ∈ bs ++ [⟨default, ""⟩] := by
        have : b ∈ cs ++ b :: rest := by simp
        rwa [← h] at this
      simp only [Step.stageNames, ne_eq, not_true, if_false]
      exact mem_map_of_mem hb
    | fall h hbs => exact absurd rfl (hbs ⟨default, ""⟩ (by simp))

/-- A step is a guaranteed prover exactly when none of its visits leaves the subject
unproved. -/
theorem guaranteedProver_iff {d : Designation} {st : Step} (h : st.WellFormed) :
    guaranteedProver d st = true ↔ ∀ o, Visits st o → ∃ n, o = some n ∧ n.proves d = true := by
  have hw := h
  cases h with
  | plain name w named known condition =>
    simp only [guaranteedProver, ne_eq, named, not_false_eq_true, if_true,
      Bool.and_eq_true, beq_iff_eq]
    constructor
    · rintro ⟨rfl, hp⟩ o ho
      rcases Visits.cases hw ho with ⟨n, hn, rfl⟩ | ⟨_, _, hne⟩
      · obtain rfl : n = name := by simpa [Step.stageNames, named] using hn
        exact ⟨n, rfl, hp⟩
      · exact absurd rfl hne
    · intro hall
      obtain ⟨n, hn, hp⟩ := hall _ (.plain rfl)
      obtain rfl : name = n := by simpa using hn
      refine ⟨?_, hp⟩
      by_contra hne
      obtain ⟨_, hnone, _⟩ := hall none (.skip rfl hne)
      cases hnone
  | group w bs default branches last =>
    simp only [guaranteedProver, ne_eq, not_true, if_false, Bool.and_eq_true,
      all_eq_true, Bool.not_eq_true', isEmpty_eq_false_iff]
    constructor
    · rintro ⟨hp, _⟩ o ho
      rcases Visits.cases hw ho with ⟨n, hn, rfl⟩ | ⟨_, hu, _⟩
      · simp only [Step.stageNames, ne_eq, not_true, if_false, mem_map] at hn
        obtain ⟨b, hb, rfl⟩ := hn
        exact ⟨_, rfl, hp b hb⟩
      · exact absurd rfl hu
    · intro hall
      refine ⟨fun b hb => ?_, by simp⟩
      obtain ⟨n, hn, hp⟩ := hall (some b.stage) (visits_of_mem hw (by
        simp only [Step.stageNames, ne_eq, not_true, if_false]
        exact mem_map_of_mem hb))
      obtain rfl : b.stage = n := by simpa using hn
      exact hp

/-- One step of the correspondence: what every visit emits is safe, and leaves a safe rest,
exactly when the step's own stages are and the rest is. -/
theorem safeFrom_visits {d : Designation} {st : Step} (h : st.WellFormed) {proven : Bool}
    {P : List StageName → Prop} (hP : ∃ out, P out) :
    (∀ o, Visits st o → ∀ out, P out → SafeFrom d proven (o.toList ++ out)) ↔
      (∀ n ∈ st.stageNames, n.guarded = true → proven = true) ∧
        ∀ out, P out → SafeFrom d (proven || guaranteedProver d st) out := by
  constructor
  · intro hall
    refine ⟨fun n hn hg => ?_, fun out hout => ?_⟩
    · obtain ⟨out, hout⟩ := hP
      exact (hall _ (visits_of_mem h hn) out hout).1 hg
    · by_cases hgp : guaranteedProver d st = true
      · obtain ⟨n, hn⟩ := exists_mem_of_ne_nil _ h.stageNames_ne_nil
        obtain ⟨m, hm, hp⟩ := (guaranteedProver_iff h).mp hgp _ (visits_of_mem h hn)
        obtain rfl : n = m := by simpa using hm
        have := (hall _ (visits_of_mem h hn) out hout).2
        simpa [hp, hgp] using this
      · obtain ⟨o, ho, hnp⟩ : ∃ o, Visits st o ∧ ¬∃ n, o = some n ∧ n.proves d = true := by
          by_contra hcon
          refine hgp ((guaranteedProver_iff h).mpr fun o ho => ?_)
          by_contra hnp
          exact hcon ⟨o, ho, hnp⟩
        have hs := hall o ho out hout
        have hfalse : guaranteedProver d st = false := by simpa using hgp
        rw [hfalse, Bool.or_false]
        cases o with
        | none => exact hs
        | some n =>
          have hn : n.proves d = false := by simpa using fun hp => hnp ⟨n, rfl, hp⟩
          simpa [hn] using hs.2
  · rintro ⟨hst, hrest⟩ o ho out hout
    have hr := hrest out hout
    rcases Visits.cases h ho with ⟨n, hn, rfl⟩ | ⟨rfl, _, _⟩
    · refine ⟨hst n hn, ?_⟩
      by_cases hgp : guaranteedProver d st = true
      · obtain ⟨m, hm, hp⟩ := (guaranteedProver_iff h).mp hgp _ ho
        obtain rfl : n = m := by simpa using hm
        simpa [hp, hgp] using hr
      · have hfalse : guaranteedProver d st = false := by simpa using hgp
        rw [hfalse, Bool.or_false] at hr
        cases proven with
        | true => exact hr
        | false => exact hr.mono _
    · have hfalse : guaranteedProver d st = false := by
        by_contra hgp
        obtain ⟨n, hn, _⟩ := (guaranteedProver_iff h).mp (by simpa using hgp) none ho
        cases hn
      simpa [hfalse] using hr

theorem exists_walks (ss : List Step) : ∃ out, Walks ss out :=
  ⟨_, walk_walks answers ss (Stream'.const false)⟩

/-- The static rule holds of the remaining steps exactly when every walk over them is
safe. -/
theorem safeFrom_walks {d : Designation} {ss : List Step} (hss : ∀ s ∈ ss, s.WellFormed)
    {proven : Bool} :
    (∀ out, Walks ss out → SafeFrom d proven out) ↔ GuardedFrom d proven ss := by
  induction ss generalizing proven with
  | nil =>
    refine ⟨fun _ => trivial, fun _ out hout => ?_⟩
    cases hout
    trivial
  | cons st ss ih =>
    have hst := hss st (by simp)
    have ih := @ih (fun s hs => hss s (by simp [hs])) (proven || guaranteedProver d st)
    rw [GuardedFrom, ← ih, ← safeFrom_visits hst (exists_walks ss)]
    constructor
    · intro h o ho out hout
      exact h _ (.cons ho hout)
    · intro h out hout
      cases hout with
      | cons hv hw => exact h _ hv _ hw

/-- Where `create_user` does not occur, a stage that changes credentials is one of the two
the order rule guards. -/
theorem guarded_of_mutating {n : StageName} (hm : n.mutating = true)
    (hc : n ≠ .createUser) : n.guarded = true := by
  simp only [StageName.mutating, mutatingStages, contains_eq_mem, decide_eq_true_eq,
    mem_cons, not_mem_nil, or_false] at hm
  rcases hm with rfl | rfl | rfl
  · decide
  · decide
  · exact absurd rfl hc

theorem guarded_iff {n : StageName} :
    n.guarded = true ↔ n = .session ∨ n = .enrolMFA ∨ n = .passwordChange := by
  simp [StageName.guarded, or_assoc]

theorem checkOrderFrom_ok {d : Designation} {ss : List Step} {i : ℕ} {proven : Bool}
    (hc : ∀ s ∈ ss, .createUser ∉ s.stageNames) (hs : ∀ s ∈ ss, .session ∉ s.stageNames) :
    checkOrderFrom d i proven ss = .ok () ↔ GuardedFrom d proven ss := by
  induction ss generalizing i proven with
  | nil => simp [checkOrderFrom, GuardedFrom]
  | cons st ss ih =>
    have ih := @ih (i + 1) (proven || guaranteedProver d st)
      (fun s h => hc s (by simp [h])) (fun s h => hs s (by simp [h]))
    have hstep : checkAll (fun _ name => refuseIf (name.mutating = true ∧ proven = false)
          (orderReason d i name)) 0 st.stageNames = .ok () ↔
        ∀ n ∈ st.stageNames, n.guarded = true → proven = true := by
      constructor
      · intro h n hn hg
        obtain ⟨_, hj⟩ := checkAll_mem h hn
        have hmut : n.mutating = true := by
          rcases guarded_iff.mp hg with rfl | rfl | rfl
          · exact absurd hn (hs st (by simp))
          · decide
          · decide
        simpa [hmut] using hj
      · intro h
        rw [checkAll_ok]
        intro j n hj
        have hn := mem_of_getElem? hj
        rw [refuseIf_ok]
        rintro ⟨hmut, hp⟩
        have hg := guarded_of_mutating hmut fun he => hc st (by simp) (he ▸ hn)
        rw [h n hn hg] at hp
        cases hp
    simp only [checkOrderFrom, bind_ok, GuardedFrom, hstep, ih]
    simp

theorem GuardedFrom.append {d : Designation} {ss ts : List Step} {proven : Bool} :
    GuardedFrom d proven (ss ++ ts) ↔ GuardedFrom d proven ss ∧
      GuardedFrom d (proven || ss.any (guaranteedProver d)) ts := by
  induction ss generalizing proven with
  | nil => simp [GuardedFrom]
  | cons s ss ih => simp [GuardedFrom, ih, Bool.or_assoc, and_assoc]

theorem checkOrderFrom_concat {d : Designation} {ss : List Step} {last : Step} {i : ℕ}
    {proven : Bool} (hl : ∀ n ∈ last.stageNames, n.mutating = false) :
    checkOrderFrom d i proven (ss ++ [last]) = .ok () ↔ checkOrderFrom d i proven ss = .ok () := by
  induction ss generalizing i proven with
  | nil =>
    have hlast : checkAll (fun _ name => refuseIf (name.mutating = true ∧ proven = false)
        (orderReason d i name)) 0 last.stageNames = .ok () := by
      rw [checkAll_ok]
      intro j n hj
      simp [hl n (mem_of_getElem? hj)]
    simp [checkOrderFrom, bind_ok, hlast]
  | cons s ss ih => simp [checkOrderFrom, bind_ok, ih]

section
variable {fl : Flow} {steps : List Step} {last : StageName}

theorem checkOrder_ok (hst : fl.stages = steps ++ [⟨last, "", []⟩])
    (hlast : last.terminal = true) (hu : last ≠ .unset)
    (hsteps : ∀ s ∈ steps, s.WellFormed ∧ ∀ n ∈ s.stageNames, n.terminal = false)
    (hc : ¬Mentions fl .createUser) :
    checkOrder fl = .ok () ↔ GuardedFrom fl.on false steps := by
  rw [checkOrder, hst, checkOrderFrom_concat, checkOrderFrom_ok]
  · intro s hs hmem
    exact hc ⟨s, by simp [hst, hs], hmem⟩
  · intro s hs hmem
    have := (hsteps s hs).2 _ hmem
    simp [StageName.terminal] at this
  · intro n hn
    obtain rfl : n = last := by simpa [Step.stageNames, hu] using hn
    simp only [StageName.terminal, Bool.or_eq_true, beq_iff_eq] at hlast
    rcases hlast with (rfl | rfl) | rfl <;> decide

theorem checkProof_ok (hst : fl.stages = steps ++ [⟨last, "", []⟩])
    (hlast : last.terminal = true) (hu : last ≠ .unset) :
    checkProof fl = .ok () ↔ (last = .session → steps.any (guaranteedProver fl.on) = true) := by
  have hnot : guaranteedProver fl.on ⟨last, "", []⟩ = false := by
    by_contra hp
    have hp : last.proves fl.on = true := by simpa [guaranteedProver, hu] using hp
    rw [(StageName.proves_not_guarded hp).2] at hlast
    cases hlast
  simp only [checkProof, refuseIf_ok, hst, getLast?_concat, Option.toList_some,
    any_cons, any_nil, Bool.or_false, any_append, hnot, Step.stageNames,
    ne_eq, hu, not_false_eq_true, if_true, contains_eq_mem, mem_singleton,
    decide_eq_true_eq, not_and, Bool.not_eq_false]
  exact ⟨fun h he => h he.symm, fun h he => h he.symm⟩

theorem guardedFrom_iff (hst : fl.stages = steps ++ [⟨last, "", []⟩])
    (hlast : last.terminal = true) (hu : last ≠ .unset)
    (hsteps : ∀ s ∈ steps, s.WellFormed ∧ ∀ n ∈ s.stageNames, n.terminal = false)
    (hc : ¬Mentions fl .createUser) :
    (checkOrder fl = .ok () ∧ checkProof fl = .ok ()) ↔ GuardedFrom fl.on false fl.stages := by
  rw [checkOrder_ok hst hlast hu hsteps hc, checkProof_ok hst hlast hu, hst, GuardedFrom.append]
  have hguard : last.guarded = true ↔ last = .session := by
    simp only [StageName.terminal, Bool.or_eq_true, beq_iff_eq] at hlast
    rcases hlast with (rfl | rfl) | rfl <;> decide
  simp [GuardedFrom, Step.stageNames, hu, hguard]

end

theorem exists_walks_of_mem {ss : List Step} (hss : ∀ s ∈ ss, s.WellFormed) {st : Step}
    (hst : st ∈ ss) {n : StageName} (hn : n ∈ st.stageNames) :
    ∃ out, Walks ss out ∧ n ∈ out := by
  obtain ⟨pre, post, rfl⟩ := append_of_mem hst
  induction pre with
  | nil =>
    obtain ⟨out, hout⟩ := exists_walks post
    exact ⟨_, .cons (visits_of_mem (hss st (by simp)) hn) hout, by simp⟩
  | cons s pre ih =>
    obtain ⟨out, hout, hmem⟩ := ih (fun t ht => hss t (by simp at ht ⊢; tauto)) (by simp)
    exact ⟨_, .cons (visit_visits answers s (Stream'.const false)) hout, mem_append_right _ hmem⟩

theorem mem_of_walks {ss : List Step} (hss : ∀ s ∈ ss, s.WellFormed) {out : List StageName}
    (h : Walks ss out) {n : StageName} (hn : n ∈ out) : ∃ st ∈ ss, n ∈ st.stageNames := by
  induction h with
  | nil => simp at hn
  | @cons s ss o out hv hw ih =>
    rcases mem_append.mp hn with hn | hn
    · rcases Visits.cases (hss s (by simp)) hv with ⟨m, hm, rfl⟩ | ⟨rfl, _, _⟩
      · obtain rfl : n = m := by simpa using hn
        exact ⟨s, by simp, hm⟩
      · simp at hn
    · obtain ⟨st, hst, hmem⟩ := ih (fun t ht => hss t (by simp [ht])) hn
      exact ⟨st, by simp [hst], hmem⟩

theorem mentions_iff_run {fl : Flow} (hwf : ∀ s ∈ fl.stages, s.WellFormed) {n : StageName} :
    Mentions fl n ↔ ∃ a : Stream' Bool, n ∈ (run answers fl a).1 := by
  constructor
  · rintro ⟨st, hst, hn⟩
    obtain ⟨out, hout, hmem⟩ := exists_walks_of_mem hwf hst hn
    obtain ⟨a, rfl⟩ := (walks_iff_answers fl out).mp hout
    exact ⟨a, hmem⟩
  · rintro ⟨a, hmem⟩
    exact mem_of_walks hwf ((walks_iff_answers fl _).mpr ⟨a, rfl⟩) hmem

theorem wellFormed_of_structural {fl : Flow} (h : fl.Structural) :
    ∀ s ∈ fl.stages, s.WellFormed := by
  obtain ⟨steps, last, hst, hterm, hu, hsteps⟩ := h.ends
  intro s hs
  rw [hst] at hs
  rcases mem_append.mp hs with hs | hs
  · exact (hsteps s hs).1
  · obtain rfl := mem_singleton.mp hs
    refine .plain last "" hu ?_ rfl
    simp only [StageName.terminal, Bool.or_eq_true, beq_iff_eq] at hterm
    rcases hterm with (rfl | rfl) | rfl <;> decide

/-- Outside enrolment the three checks accept exactly the flows that name no `create_user`
and whose walks are all safe. -/
theorem checks_iff_walks {fl : Flow} (h : fl.Structural) :
    (checkCreateUser fl = .ok () ∧ checkOrder fl = .ok () ∧ checkProof fl = .ok ()) ↔
      ¬Mentions fl .createUser ∧ ∀ out, Walks fl.stages out → SafeFrom fl.on false out := by
  obtain ⟨steps, last, hst, hterm, hu, hsteps⟩ := h.ends
  rw [checkCreateUser, checkAbsent_ok, safeFrom_walks (wellFormed_of_structural h)]
  exact and_congr_right fun hc => guardedFrom_iff hst hterm hu hsteps hc

/-- The analysis is sound and exact. On every structurally valid flow, `checkSafety` accepts
exactly when, with every query of every run answered arbitrarily, an enrolment flow never
emits `session`, and any other flow names no `create_user` and emits `session`,
`enrol_mfa` and `password_change` only after a stage that proves the subject. -/
theorem checkSafety_iff (fl : Flow) (h : fl.validateStructure = .ok ()) :
    checkSafety fl = .ok () ↔
      (fl.on = .enrolment → ∀ a : Stream' Bool, .session ∉ (run answers fl a).1) ∧
      (fl.on ≠ .enrolment → ¬Mentions fl .createUser ∧
        ∀ (a : Stream' Bool) (pre : List StageName) (n : StageName) (post : List StageName),
          (run answers fl a).1 = pre ++ n :: post →
          n = .session ∨ n = .enrolMFA ∨ n = .passwordChange →
          ∃ p ∈ pre, p.proves fl.on = true) := by
  have hs := validateStructure_ok h
  unfold checkSafety
  split_ifs with hd
  · rw [checkNoSession, checkAbsent_ok, mentions_iff_run (wellFormed_of_structural hs)]
    simp [hd]
  · rw [seq_ok, seq_ok, checks_iff_walks hs]
    simp only [hd, false_implies, true_and, ne_eq, not_false_eq_true, forall_const]
    refine and_congr_right fun _ => ?_
    simp only [walks_iff_answers, forall_exists_index, forall_apply_eq_imp_iff, safeFrom_iff,
      Bool.false_eq_true, false_or, guarded_iff]

def choiceFlow : Flow where
  name := "default"
  on := .authentication
  stages := [⟨.identify, "", []⟩, ⟨.unset, "", [⟨.passkey, "user_has_passkey"⟩, ⟨.password, ""⟩]⟩,
    ⟨.passwordChange, "password_change_required", []⟩, ⟨.session, "", []⟩]
  tests := [⟨"plain", [], [.identify, .password, .session]⟩]

theorem checkSafety_iff_choiceFlow :
    choiceFlow.validateStructure = .ok () ∧ checkSafety choiceFlow = .ok () ∧
      ∀ (a : Stream' Bool) (pre : List StageName) (n : StageName) (post : List StageName),
        (run answers choiceFlow a).1 = pre ++ n :: post →
        n = .session ∨ n = .enrolMFA ∨ n = .passwordChange →
        ∃ p ∈ pre, p.proves .authentication = true := by
  have hv : choiceFlow.validateStructure = .ok () := by rfl
  have hsafe : checkSafety choiceFlow = .ok () := by rfl
  exact ⟨hv, hsafe, (((checkSafety_iff choiceFlow hv).mp hsafe).2 (by decide)).2⟩

end Signari.FlowSafety
