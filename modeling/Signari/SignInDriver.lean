import Signari.AuthnContext
import Signari.FlowConditions
import Signari.UrlValues

/-!
# The sign-in driver

`advanceSignIn` and `FlowDemandsMFA` of `internal/httpapi/flowdrive.go`: two drivers that
interpret the authentication flow stage by stage, over an evaluator that reads the
database on demand and remembers what it read. A failed read is logged and counts as the
zero value, as in the source; the HTTP responses a stage writes appear as the `Takeover`
that wrote them.

The parked authorization query enters as `url.ParseQuery` reads it, with `none` for an
empty or malformed one. `advanceSignIn_session_iff` says the driver issues a session
exactly when the plan for the subject's situation does and nothing on it is outstanding.
-/
namespace Signari.SignInDriver
open GoStrings UrlValues AuthnContext FlowStages FlowFile FlowWalk FlowSafety FlowConditions List

def clientRequiresMFA (authzQuery : Option Values) : Bool := match authzQuery with
  | none => false
  | some q =>
    (parseACRValues (get q "acr_values")).any fun v =>
      v == acrMultiFactor || v == acrPapeMultiFactor

variable {P : Type}

/-- What the three reads of the driver return for this subject; `none` is a failed read. -/
structure Subject (P : Type) where
  secondFactor : Option Bool
  pending : Option (List P)
  passwordChange : Option (Bool × String)

def Subject.Readable (sub : Subject P) : Prop :=
  sub.secondFactor.isSome ∧ sub.pending.isSome ∧ sub.passwordChange.isSome

/-- The answers read so far. -/
structure SignInFacts (P : Type) where
  known : String → Option Bool := fun _ => none
  promptsOnce : Bool := false
  prompts : List P := []
  changeKnown : Bool := false
  changeReason : String := ""

def SignInFacts.setKnown (f : SignInFacts P) (name : String) (v : Bool) : SignInFacts P :=
  { f with known := fun n => if n = name then some v else f.known n }

def SignInFacts.pendingPrompts (sub : Subject P) (f : SignInFacts P) : List P × SignInFacts P :=
  if f.promptsOnce then (f.prompts, f)
  else match sub.pending with
    | none => ([], { f with promptsOnce := true })
    | some ps => (ps, { f with promptsOnce := true, prompts := ps })

/-- The read behind a condition nothing is known about yet. A condition this path does not
answer is false. -/
def SignInFacts.read (sub : Subject P) (f : SignInFacts P) (name : String) : Bool × SignInFacts P :=
  if name = Condition.hasSecondFactor.text then (sub.secondFactor.getD false, f)
  else if name = Condition.promptsPending.text then let r := f.pendingPrompts sub
    (!r.1.isEmpty, r.2)
  else if name = Condition.passwordChangeRequired.text then
    let r := sub.passwordChange.getD (false, "")
    (r.1, { f with changeReason := r.2, changeKnown := true })
  else (false, f)

/-- Answers one condition, querying only if asked and only once. -/
def SignInFacts.holds (sub : Subject P) (f : SignInFacts P) (name : String) :
    Bool × SignInFacts P :=
  match f.known name with
  | some v => (v, f)
  | none =>
    let r := f.read sub name
    (r.1, r.2.setKnown name r.1)

def Subject.evaluator (sub : Subject P) : Evaluator (SignInFacts P) :=
  ⟨fun f name => f.holds sub name⟩

/-- The answers decided before the walk begins. -/
def initialFacts (authzQuery : Option Values) : SignInFacts P :=
  (({} : SignInFacts P).setKnown Condition.clientRequiresMFA.text
    (clientRequiresMFA authzQuery)).setKnown Condition.captchaRequired.text false

/-- The stage that took over the response. -/
inductive Takeover (P : Type) where
  | prompt (p : P)
  | passwordChange (reason : String)
  | mfaNotEnrolled
  | mfaChallenge
  deriving DecidableEq

inductive SignInDecision (P : Type) where
  | session
  | handled (takeover : Takeover P)
  | deny
  | done
  deriving DecidableEq

/-- The password-change stage reuses the walker's answer and asks only without one. -/
def SignInFacts.askChange (sub : Subject P) (f : SignInFacts P) : SignInFacts P :=
  if f.changeKnown then f else (f.holds sub Condition.passwordChangeRequired.text).2

/-- One arm of the driver's switch: a decision, or `none` to go on to the next stage. -/
def act (sub : Subject P) (amr : List String) (stage : StageName) (f : SignInFacts P) :
    Option (SignInDecision P) × SignInFacts P :=
  match stage with
  | .session => (some .session, f)
  | .deny => (some .deny, f)
  | .done => (some .done, f)
  | .prompt =>
    match f.pendingPrompts sub with
    | ([], f') => (none, f')
    | (p :: _, f') => (some (.handled (.prompt p)), f')
  | .passwordChange =>
    let f' := f.askChange sub
    if (f'.known Condition.passwordChangeRequired.text).getD false then
      (some (.handled (.passwordChange (if f'.changeReason = "" then
        "Your password needs to be changed before you continue." else f'.changeReason))), f')
    else (none, f')
  | .mfa =>
    if hasSecondFactorAMR amr then (none, f)
    else let r := f.holds sub Condition.hasSecondFactor.text
      (some (.handled (if r.1 then .mfaChallenge else .mfaNotEnrolled)), r.2)
  | _ => (none, f)

/-- The loop of `advanceSignIn`. Running out of stages refuses. -/
def advanceFrom (sub : Subject P) (amr : List String) :
    ℕ → Cursor → SignInFacts P → SignInDecision P
  | 0, _, _ => .deny
  | fuel + 1, c, f =>
    match c.next sub.evaluator f with
    | (none, _, _) => .deny
    | (some stage, c', f') =>
      match act sub amr stage f' with
      | (some d, _) => d
      | (none, f'') => advanceFrom sub amr fuel c' f''

/-- Walks the flow and acts on the first stage still outstanding. `fl` is what `flowFor`
found; without any flow the subject, already proved, gets a session. -/
def advanceSignIn (fl : Option Flow) (sub : Subject P) (amr : List String)
    (authzQuery : Option Values) : SignInDecision P :=
  match fl with
  | none => .session
  | some fl => advanceFrom sub amr (fl.stages.length + 1) ⟨fl, 0⟩ (initialFacts authzQuery)

/-- Whether the flow puts an mfa stage in this sign-in's path, given what is proved, and
whether the account has a factor enrolled. -/
def flowDemandsMFA (fl : Option Flow) (sub : Subject P) (amr : List String)
    (authzQuery : Option Values) : Bool × Bool :=
  match fl with
  | none => (false, false)
  | some fl =>
    if hasSecondFactorAMR amr then (false, true)
    else match willRun sub.evaluator .mfa fl.stages (initialFacts authzQuery) with
      | (false, f) => (false, (f.known Condition.hasSecondFactor.text).getD false)
      | (true, f) => (true, (f.holds sub Condition.hasSecondFactor.text).1)

/-- The subject's situation: what every condition answers for it. -/
def signInState (sub : Subject P) (authzQuery : Option Values) : State := fun name =>
  if name = Condition.captchaRequired.text then false
  else if name = Condition.clientRequiresMFA.text then clientRequiresMFA authzQuery
  else if name = Condition.hasSecondFactor.text then sub.secondFactor.getD false
  else if name = Condition.promptsPending.text then !(sub.pending.getD []).isEmpty
  else if name = Condition.passwordChangeRequired.text then (sub.passwordChange.getD (false, "")).1
  else false

/-- What is remembered is what the situation says, and is remembered together. -/
structure SignInFacts.Agrees (sub : Subject P) (authzQuery : Option Values)
    (f : SignInFacts P) : Prop where
  known : ∀ {name v}, f.known name = some v → signInState sub authzQuery name = v
  prompts : f.prompts = if f.promptsOnce then sub.pending.getD [] else []
  change : if f.changeKnown then
      f.known Condition.passwordChangeRequired.text = some (sub.passwordChange.getD (false, "")).1 ∧
        f.changeReason = (sub.passwordChange.getD (false, "")).2
    else f.known Condition.passwordChangeRequired.text = none
  decided : f.known Condition.clientRequiresMFA.text ≠ none ∧
    f.known Condition.captchaRequired.text ≠ none

section
variable {sub : Subject P} {authzQuery : Option Values} {f : SignInFacts P}

theorem initialFacts_agrees (sub : Subject P) (authzQuery : Option Values) :
    (initialFacts authzQuery : SignInFacts P).Agrees sub authzQuery where
  known := by
    intro name v h
    simp only [initialFacts, SignInFacts.setKnown] at h
    unfold signInState
    split_ifs at h ⊢ <;> simp_all
  prompts := by simp [initialFacts, SignInFacts.setKnown]
  change := by simp [initialFacts, SignInFacts.setKnown, Condition.text]
  decided := by
    constructor <;> simp [initialFacts, SignInFacts.setKnown, Condition.text]

theorem pendingPrompts_agrees (h : f.Agrees sub authzQuery) :
    (f.pendingPrompts sub).1 = sub.pending.getD [] ∧
      (f.pendingPrompts sub).2.Agrees sub authzQuery := by
  have hp := h.prompts
  unfold SignInFacts.pendingPrompts
  split_ifs with ho
  · exact ⟨by simpa [ho] using hp, h⟩
  · cases hsub : sub.pending with
    | none => exact ⟨rfl, ⟨h.known, by simpa [ho, hsub] using hp, h.change, h.decided⟩⟩
    | some ps => exact ⟨rfl, ⟨h.known, by simp [hsub], h.change, h.decided⟩⟩

theorem signInState_secondFactor : signInState sub authzQuery Condition.hasSecondFactor.text =
    sub.secondFactor.getD false := by
  simp [signInState, Condition.text]

theorem signInState_passwordChange :
    signInState sub authzQuery Condition.passwordChangeRequired.text =
      (sub.passwordChange.getD (false, "")).1 := by
  simp [signInState, Condition.text]

/-- Recording the situation's own answer keeps the memory in agreement, where the only
other change since is to the prompts or the password reason. -/
theorem setKnown_agrees (h : f.Agrees sub authzQuery) {g : SignInFacts P} {name : String}
    (hk : g.known = f.known)
    (hp : g.prompts = if g.promptsOnce then sub.pending.getD [] else [])
    (hc : if name = Condition.passwordChangeRequired.text then
        g.changeKnown = true ∧ g.changeReason = (sub.passwordChange.getD (false, "")).2
      else g.changeKnown = f.changeKnown ∧ g.changeReason = f.changeReason) :
    (g.setKnown name (signInState sub authzQuery name)).Agrees sub authzQuery := by
  refine ⟨fun {m v} hm => ?_, hp, ?_, ?_, ?_⟩
  · simp only [SignInFacts.setKnown, hk] at hm
    split_ifs at hm with he
    · obtain rfl := he
      simpa using hm
    · exact h.known hm
  · have hf := h.change
    simp only [SignInFacts.setKnown, hk]
    by_cases he : name = Condition.passwordChangeRequired.text
    · rw [if_pos he] at hc
      simp only [he, hc, if_true, signInState_passwordChange, and_self]
    · rw [if_neg he] at hc
      simpa only [hc, Ne.symm he, if_false] using hf
  · simp only [SignInFacts.setKnown, hk]
    split_ifs
    · simp
    · exact h.decided.1
  · simp only [SignInFacts.setKnown, hk]
    split_ifs
    · simp
    · exact h.decided.2

/-- A condition with no answer yet is read as the situation says, and reading it keeps
everything remembered so far. -/
theorem read_agrees (h : f.Agrees sub authzQuery) {name : String} (hn : f.known name = none) :
    (f.read sub name).1 = signInState sub authzQuery name ∧
      ((f.read sub name).2.setKnown name (signInState sub authzQuery name)).Agrees
        sub authzQuery := by
  have hne₁ : name ≠ Condition.captchaRequired.text := by
    rintro rfl
    exact h.decided.2 hn
  have hne₂ : name ≠ Condition.clientRequiresMFA.text := by
    rintro rfl
    exact h.decided.1 hn
  have hst : signInState sub authzQuery name =
      if name = Condition.hasSecondFactor.text then sub.secondFactor.getD false
      else if name = Condition.promptsPending.text then !(sub.pending.getD []).isEmpty
      else if name = Condition.passwordChangeRequired.text then
        (sub.passwordChange.getD (false, "")).1
      else false := by
    simp only [signInState, hne₁, hne₂, if_false]
  obtain ⟨hpend, hagree⟩ := pendingPrompts_agrees h
  have hkeep : (f.pendingPrompts sub).2.known = f.known ∧
      (f.pendingPrompts sub).2.changeKnown = f.changeKnown ∧
      (f.pendingPrompts sub).2.changeReason = f.changeReason := by
    unfold SignInFacts.pendingPrompts
    split_ifs
    · exact ⟨rfl, rfl, rfl⟩
    · cases sub.pending <;> exact ⟨rfl, rfl, rfl⟩
  constructor
  · rw [hst]
    simp only [SignInFacts.read, hpend]
    split_ifs <;> rfl
  · simp only [SignInFacts.read]
    split_ifs with h₁ h₂ h₃
    · refine setKnown_agrees h rfl h.prompts ?_
      simp [h₁, Condition.text]
    · refine setKnown_agrees h hkeep.1 hagree.prompts ?_
      rw [h₂, if_neg (by decide)]
      exact hkeep.2
    · refine setKnown_agrees h rfl h.prompts ?_
      simp [h₃]
    · refine setKnown_agrees h rfl h.prompts ?_
      simp [h₃]

theorem holds_agrees (h : f.Agrees sub authzQuery) (name : String) :
    (f.holds sub name).1 = signInState sub authzQuery name ∧
      (f.holds sub name).2.Agrees sub authzQuery := by
  unfold SignInFacts.holds
  cases hn : f.known name with
  | some v => exact ⟨(h.known hn).symm, h⟩
  | none =>
    obtain ⟨hr, ha⟩ := read_agrees h hn
    exact ⟨hr, by simpa only [hr] using ha⟩

/-- Asked in any order and any number of times, the database answers as one situation. -/
theorem evaluator_follows (sub : Subject P) (authzQuery : Option Values) :
    Follows sub.evaluator (signInState sub authzQuery) (SignInFacts.Agrees sub authzQuery) where
  answer h name := (holds_agrees h name).1
  keeps h name := (holds_agrees h name).2

end

def outstanding (sub : Subject P) (amr : List String) : StageName → Option (SignInDecision P)
  | .session => some .session
  | .deny => some .deny
  | .done => some .done
  | .prompt => (sub.pending.getD []).head?.map fun p => .handled (.prompt p)
  | .passwordChange =>
    let r := sub.passwordChange.getD (false, "")
    if r.1 then some (.handled (.passwordChange (if r.2 = "" then
      "Your password needs to be changed before you continue." else r.2))) else none
  | .mfa =>
    if hasSecondFactorAMR amr then none
    else some (.handled (if sub.secondFactor.getD false then .mfaChallenge
      else .mfaNotEnrolled))
  | _ => none

section
variable {sub : Subject P} {authzQuery : Option Values} {amr : List String}

theorem askChange_agrees {f : SignInFacts P} (h : f.Agrees sub authzQuery) :
    (f.askChange sub).Agrees sub authzQuery ∧
      (f.askChange sub).known Condition.passwordChangeRequired.text =
        some (sub.passwordChange.getD (false, "")).1 ∧
      (f.askChange sub).changeReason = (sub.passwordChange.getD (false, "")).2 := by
  have hc := h.change
  unfold SignInFacts.askChange
  split_ifs with hk
  · rw [if_pos hk] at hc
    exact ⟨h, hc⟩
  · rw [if_neg hk] at hc
    refine ⟨(holds_agrees h _).2, ?_, ?_⟩ <;> simp only [SignInFacts.holds, hc] <;>
      simp [SignInFacts.read, SignInFacts.setKnown, Condition.text]

theorem act_agrees {f : SignInFacts P} (h : f.Agrees sub authzQuery) (amr : List String)
    (stage : StageName) :
    (act sub amr stage f).1 = outstanding sub amr stage ∧
      (act sub amr stage f).2.Agrees sub authzQuery := by
  cases stage with
  | prompt =>
    obtain ⟨hp, ha⟩ := pendingPrompts_agrees h
    simp only [act, outstanding]
    rw [← hp]
    rcases hq : f.pendingPrompts sub with ⟨_ | ⟨p, ps⟩, f'⟩ <;> rw [hq] at ha <;> exact ⟨rfl, ha⟩
  | passwordChange =>
    obtain ⟨ha, hk, hr⟩ := askChange_agrees h
    simp only [act, outstanding, hk, hr, Option.getD_some]
    split_ifs <;> exact ⟨rfl, ha⟩
  | mfa =>
    obtain ⟨hs, ha⟩ := holds_agrees h Condition.hasSecondFactor.text
    rw [signInState_secondFactor] at hs
    simp only [act, outstanding, hs]
    by_cases hm : hasSecondFactorAMR amr = true
    · simp only [hm, if_true]
      exact ⟨trivial, h⟩
    · simp only [hm, Bool.false_eq_true, if_false]
      exact ⟨trivial, ha⟩
  | _ => exact ⟨rfl, h⟩

end

def verdict (sub : Subject P) (amr : List String) : List StageName → SignInDecision P
  | [] => .deny
  | n :: ns => (outstanding sub amr n).getD (verdict sub amr ns)

theorem advanceFrom_eq {sub : Subject P} {authzQuery : Option Values} {amr : List String}
    {fl : Flow} {rest : List Step} {i fuel : ℕ} {f : SignInFacts P}
    (hrest : fl.stages.drop i = rest) (hfuel : rest.length < fuel)
    (hf : f.Agrees sub authzQuery) :
    advanceFrom sub amr fuel ⟨fl, i⟩ f =
      verdict sub amr (walk (signInState sub authzQuery).evaluator rest ()).1 := by
  induction rest generalizing i fuel f with
  | nil =>
    cases fuel with
    | zero => simp at hfuel
    | succ fuel => simp [advanceFrom, Cursor.next, hrest, nextFrom, walk, verdict]
  | cons s ss ih =>
    have hss : fl.stages.drop (i + 1) = ss := by
      rw [← drop_drop, hrest, drop_one, tail_cons]
    obtain ⟨hv, hI⟩ := (evaluator_follows sub authzQuery).visit s hf
    cases fuel with
    | zero => simp at hfuel
    | succ fuel =>
      simp only [length_cons] at hfuel
      simp only [walk, ← hv]
      rcases hvis : visit sub.evaluator s f with ⟨_ | name, f'⟩
      · rw [hvis] at hI
        have := @ih (i + 1) (fuel + 1) f' hss (by omega) hI
        simp only [Option.toList_none, nil_append, ← this]
        simp only [advanceFrom, Cursor.next, hrest, hss, nextFrom, hvis]
      · rw [hvis] at hI
        obtain ⟨hd, ha⟩ := act_agrees hI amr name
        simp only [Option.toList_some, singleton_append, verdict, ← hd]
        simp only [advanceFrom, Cursor.next, hrest, nextFrom, hvis]
        rcases hact : act sub amr name f' with ⟨_ | d, f''⟩
        · rw [hact] at ha
          exact @ih (i + 1) fuel f'' hss (by omega) ha
        · rfl

theorem advanceSignIn_eq_verdict (fl : Flow) (sub : Subject P) (amr : List String)
    (authzQuery : Option Values) :
    advanceSignIn (some fl) sub amr authzQuery =
      verdict sub amr (plan fl (signInState sub authzQuery)) := by
  rw [plan, run_eq_walk]
  exact advanceFrom_eq rfl (Nat.lt_succ_self _) (initialFacts_agrees sub authzQuery)

theorem outstanding_eq_none {sub : Subject P} (hr : sub.Readable) {amr : List String}
    {n : StageName} (hn : n.terminal = false) :
    outstanding sub amr n = none ↔ (n = .mfa → acrFromAMR amr = acrMultiFactor) ∧
      (n = .prompt → sub.pending = some []) ∧
      (n = .passwordChange → ∃ reason, sub.passwordChange = some (false, reason)) := by
  obtain ⟨_, hpend, hchange⟩ := hr
  obtain ⟨ps, hps⟩ := Option.isSome_iff_exists.mp hpend
  obtain ⟨⟨must, reason⟩, hpc⟩ := Option.isSome_iff_exists.mp hchange
  cases n <;> simp_all [outstanding, StageName.terminal, hasSecondFactorAMR]

/-- Nothing before the last stage ends the walk, so a session needs the last stage to be one
and everything before it to be passed. -/
theorem verdict_concat {sub : Subject P} {amr : List String} {pre : List StageName}
    {last : StageName} (hpre : ∀ n ∈ pre, n.terminal = false) (hlast : last.terminal = true) :
    verdict sub amr (pre ++ [last]) = .session ↔
      last = .session ∧ ∀ n ∈ pre, outstanding sub amr n = none := by
  induction pre with
  | nil =>
    simp only [StageName.terminal, Bool.or_eq_true, beq_iff_eq] at hlast
    rcases hlast with (rfl | rfl) | rfl <;> simp [verdict, outstanding]
  | cons n pre ih =>
    have ih := ih fun m hm => hpre m (by simp [hm])
    have hn := hpre n (by simp)
    cases ho : outstanding sub amr n with
    | none => simp [verdict, ho, ih]
    | some d =>
      have hd : d ≠ .session := by
        rintro rfl
        cases n <;> simp [outstanding, StageName.terminal] at ho hn
      simp [verdict, ho, hd]

theorem plan_concat {fl : Flow} (h : fl.Structural) (st : State) :
    ∃ pre last, plan fl st = pre ++ [last] ∧ last.terminal = true ∧
      ∀ n ∈ pre, n.terminal = false := by
  obtain ⟨steps, last, hst, hterm, hu, hsteps⟩ := h.ends
  refine ⟨(walk st.evaluator steps ()).1, last, ?_, hterm, fun n hn => ?_⟩
  · rw [plan, run_eq_walk, hst, walk_append]
    simp [walk, visit]
  · obtain ⟨s, hs, hmem⟩ := mem_of_walks (fun s hs => (hsteps s hs).1)
      (walk_walks st.evaluator steps ()) hn
    exact (hsteps s hs).2 n hmem

theorem flowDemandsMFA_eq {fl : Flow} (h : fl.Structural) (sub : Subject P)
    (amr : List String) (authzQuery : Option Values) :
    (flowDemandsMFA (some fl) sub amr authzQuery).1 = true ↔
      acrFromAMR amr ≠ acrMultiFactor ∧ .mfa ∈ plan fl (signInState sub authzQuery) := by
  have hw := ((evaluator_follows sub authzQuery).willRun .mfa fl.stages
    (initialFacts_agrees sub authzQuery)).1
  rw [plan, run_eq_walk, ← willRun_iff_mem_walk (wellFormed_of_structural h), ← hw]
  by_cases hm : acrFromAMR amr = acrMultiFactor
  · simp [flowDemandsMFA, hasSecondFactorAMR, hm]
  · simp only [flowDemandsMFA, hasSecondFactorAMR, beq_iff_eq, hm, if_false, ne_eq,
      not_false_eq_true, true_and]
    rcases willRun sub.evaluator .mfa fl.stages (initialFacts authzQuery) with ⟨_ | _, f⟩ <;> simp

/-- The driver refines the flow. For every valid flow, every subject whose reads succeed and
every list of factors, a session is issued exactly when the plan ends in one and no
second factor, prompt or password change on the plan is outstanding, and then the other
driver demands no second factor either. -/
theorem advanceSignIn_session_iff (fl : Flow) (h : validate fl = .ok ()) (sub : Subject P)
    (hr : sub.Readable) (amr : List String) (authzQuery : Option Values) :
    (advanceSignIn (some fl) sub amr authzQuery = .session ↔
      (plan fl (signInState sub authzQuery)).getLast? = some .session ∧
      (.mfa ∈ plan fl (signInState sub authzQuery) → acrFromAMR amr = acrMultiFactor) ∧
      (.prompt ∈ plan fl (signInState sub authzQuery) → sub.pending = some []) ∧
      (.passwordChange ∈ plan fl (signInState sub authzQuery) →
        ∃ reason, sub.passwordChange = some (false, reason))) ∧
    (advanceSignIn (some fl) sub amr authzQuery = .session →
      (flowDemandsMFA (some fl) sub amr authzQuery).1 = false) := by
  have hs := validate_structural h
  have hiff : advanceSignIn (some fl) sub amr authzQuery = .session ↔
      (plan fl (signInState sub authzQuery)).getLast? = some .session ∧
      (.mfa ∈ plan fl (signInState sub authzQuery) → acrFromAMR amr = acrMultiFactor) ∧
      (.prompt ∈ plan fl (signInState sub authzQuery) → sub.pending = some []) ∧
      (.passwordChange ∈ plan fl (signInState sub authzQuery) →
        ∃ reason, sub.passwordChange = some (false, reason)) := by
    obtain ⟨pre, last, hplan, hlast, hpre⟩ := plan_concat hs (signInState sub authzQuery)
    have hmid : ∀ n : StageName, n.terminal = false → (n ∈ pre ++ [last] ↔ n ∈ pre) := by
      intro n hn
      have hne : n ≠ last := by
        rintro rfl
        rw [hn] at hlast
        cases hlast
      simp [hne]
    rw [advanceSignIn_eq_verdict, hplan, verdict_concat hpre hlast, hmid _ rfl, hmid _ rfl,
      hmid _ rfl, getLast?_concat, Option.some.injEq]
    refine and_congr_right fun _ => ?_
    constructor
    · intro hnone
      have hout := fun n hn => (outstanding_eq_none hr (hpre n hn)).mp (hnone n hn)
      exact ⟨fun hm => (hout _ hm).1 rfl, fun hm => (hout _ hm).2.1 rfl,
        fun hm => (hout _ hm).2.2 rfl⟩
    · rintro ⟨hmfa, hprompt, hchange⟩ n hn
      refine (outstanding_eq_none hr (hpre n hn)).mpr ⟨?_, ?_, ?_⟩
      · rintro rfl
        exact hmfa hn
      · rintro rfl
        exact hprompt hn
      · rintro rfl
        exact hchange hn
  refine ⟨hiff, fun hsession => ?_⟩
  by_contra hdemand
  obtain ⟨hacr, hmem⟩ := (flowDemandsMFA_eq hs sub amr authzQuery).mp (by simpa using hdemand)
  exact hacr ((hiff.mp hsession).2.1 hmem)

def guardedFlow : Flow where
  name := "default"
  on := .authentication
  stages := [⟨.password, "", []⟩, ⟨.mfa, "user_has_second_factor", []⟩,
    ⟨.passwordChange, "password_change_required", []⟩, ⟨.prompt, "", []⟩, ⟨.session, "", []⟩]
  tests := [⟨"plain", [], [.password, .prompt, .session]⟩]

theorem advanceSignIn_session_guardedFlow :
    advanceSignIn (some guardedFlow) (⟨some true, some [], some (false, "")⟩ : Subject ℕ)
        ["pwd", "otp"] none = .session ∧
      (flowDemandsMFA (some guardedFlow)
        (⟨some true, some [], some (false, "")⟩ : Subject ℕ) ["pwd", "otp"] none).1 = false := by
  have h := advanceSignIn_session_iff guardedFlow (by rfl)
    (⟨some true, some [], some (false, "")⟩ : Subject ℕ) ⟨rfl, rfl, rfl⟩ ["pwd", "otp"] none
  have hsession := h.1.mpr ⟨by decide, fun _ => by decide, fun _ => rfl, fun _ => ⟨_, rfl⟩⟩
  exact ⟨hsession, h.2 hsession⟩

end Signari.SignInDriver
