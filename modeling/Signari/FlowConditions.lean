import Signari.FlowSafety

/-!
# What a written condition restricts

A `when` in a flow file reads as a restriction. `ConditionsHonoured` says that it is one:
a walk emits a stage from a step only while the step's own `when` holds, and every
condition the file writes is in the vocabulary. On plain steps both are true of every valid
flow. A `one_of` step may also carry a `when`, which the decoder accepts and which
neither `validate` nor the cursor looks at, so the exact condition is that none does.
-/
namespace Signari.FlowConditions
open GoStrings IndexedChecks FlowStages FlowFile FlowWalk FlowSafety List

/-- `Plan`, keeping the index of the step each stage came from. -/
def planStepsFrom (st : State) : ℕ → Cursor → List (ℕ × StageName)
  | 0, _ => []
  | fuel + 1, c =>
    match c.next st.evaluator () with
    | (none, _, _) => []
    | (some name, c', _) => (c'.i - 1, name) :: planStepsFrom st fuel c'

def planSteps (fl : Flow) (st : State) : List (ℕ × StageName) :=
  planStepsFrom st (fl.stages.length + 1) ⟨fl, 0⟩

theorem mem_planStepsFrom {fl : Flow} {st : State} {rest : List Step} {i fuel : ℕ}
    (hrest : fl.stages.drop i = rest) (hfuel : rest.length < fuel) {j : ℕ} {n : StageName} :
    (j, n) ∈ planStepsFrom st fuel ⟨fl, i⟩ ↔
      ∃ k s, j = i + k ∧ rest[k]? = some s ∧ (visit st.evaluator s ()).1 = some n := by
  induction rest generalizing i fuel with
  | nil =>
    cases fuel with
    | zero => simp at hfuel
    | succ fuel => simp [planStepsFrom, Cursor.next, hrest, nextFrom]
  | cons s ss ih =>
    have hss : fl.stages.drop (i + 1) = ss := by
      rw [← drop_drop, hrest, drop_one, tail_cons]
    have hshift : (∃ k t, j = i + 1 + k ∧ ss[k]? = some t ∧ (visit st.evaluator t ()).1 = some n) ↔
        ∃ k t, j = i + (k + 1) ∧ (s :: ss)[k + 1]? = some t ∧
          (visit st.evaluator t ()).1 = some n := by
      simp only [getElem?_cons_succ, Nat.add_assoc, Nat.add_comm 1]
    have hsplit : (∃ k t, j = i + k ∧ (s :: ss)[k]? = some t ∧
          (visit st.evaluator t ()).1 = some n) ↔
        (j = i ∧ (visit st.evaluator s ()).1 = some n) ∨
          ∃ k t, j = i + 1 + k ∧ ss[k]? = some t ∧ (visit st.evaluator t ()).1 = some n := by
      rw [hshift]
      constructor
      · rintro ⟨_ | k, t, hj, ht, hv⟩
        · obtain rfl : s = t := by simpa using ht
          exact .inl ⟨hj, hv⟩
        · exact .inr ⟨k, t, hj, ht, hv⟩
      · rintro (⟨rfl, hv⟩ | ⟨k, t, h⟩)
        · exact ⟨0, s, rfl, rfl, hv⟩
        · exact ⟨k + 1, t, h⟩
    rw [hsplit]
    cases fuel with
    | zero => simp at hfuel
    | succ fuel =>
      simp only [length_cons] at hfuel
      rcases hv : visit st.evaluator s () with ⟨_ | name, e⟩
      · have := @ih (i + 1) (fuel + 1) hss (by omega)
        rw [← this]
        simp only [planStepsFrom, Cursor.next, hrest, hss, nextFrom, hv]
        simp
      · have := @ih (i + 1) fuel hss (by omega)
        rw [← this]
        simp [planStepsFrom, Cursor.next, hrest, nextFrom, hv, eq_comm]

theorem mem_planSteps {fl : Flow} {st : State} {i : ℕ} {n : StageName} :
    (i, n) ∈ planSteps fl st ↔
      ∃ s, fl.stages[i]? = some s ∧ (visit st.evaluator s ()).1 = some n := by
  rw [planSteps, mem_planStepsFrom rfl (by simp)]
  simp

/-- Every `when` the file writes, on a step of either shape and on each branch. -/
def whens (fl : Flow) : List String := fl.stages.flatMap fun s => s.when :: s.oneOf.map Branch.when

/-- Each written condition restricts what it stands on, and names a known condition. -/
def ConditionsHonoured (fl : Flow) : Prop :=
  (∀ (i : ℕ) (s : Step), fl.stages[i]? = some s → s.when ≠ "" →
    ∀ (st : State) (n : StageName), (i, n) ∈ planSteps fl st → st.holds s.when = true) ∧
  ∀ w ∈ whens fl, w ≠ "" → isCondition (conditionName w) = true

theorem holds_of_visit_plain {s : Step} (h : s.oneOf = []) {st : State} {n : StageName}
    (hv : (visit st.evaluator s ()).1 = some n) : st.holds s.when = true := by
  simp only [visit, h, ne_eq, not_true, if_false] at hv
  split_ifs at hv with hw
  exact hw

theorem visit_group {w : String} {bs : List Branch} {default : StageName} (st : State) :
    ∃ n, (visit st.evaluator ⟨.unset, w, bs ++ [⟨default, ""⟩]⟩ ()).1 = some n := by
  have hne : bs ++ [(⟨default, ""⟩ : Branch)] ≠ [] := by simp
  simp only [visit, hne, ne_eq, not_false_eq_true, if_true]
  rcases firstBranch_cases st.evaluator (bs ++ [⟨default, ""⟩]) () with
    ⟨_, b, _, _, _, _, hf⟩ | ⟨_, hall, _⟩
  · exact ⟨b.stage, by rw [hf]⟩
  · exact absurd rfl (hall ⟨default, ""⟩ (by simp))

theorem validate_structural {fl : Flow} (h : validate fl = .ok ()) : fl.Structural := by
  rw [validate, seq_ok] at h
  exact validateStructure_ok h.1

/-- On a valid flow, the written conditions are honoured exactly when no `one_of` step
carries one of its own. -/
theorem conditionsHonoured_iff (fl : Flow) (h : validate fl = .ok ()) :
    ConditionsHonoured fl ↔ ∀ s ∈ fl.stages, s.oneOf ≠ [] → s.when = "" := by
  have hwf := wellFormed_of_structural (validate_structural h)
  constructor
  · rintro ⟨hemit, _⟩ s hs hgroup
    by_contra hw
    obtain ⟨st, hst⟩ := State.exists_not_holds hw
    obtain ⟨i, hi⟩ := getElem?_of_mem hs
    obtain ⟨n, hn⟩ : ∃ n, (visit st.evaluator s ()).1 = some n := by
      cases hwf s hs with
      | plain name w named known condition => exact absurd rfl hgroup
      | group w bs default branches last => exact visit_group st
    rw [hemit i s hi hw st n (mem_planSteps.mpr ⟨s, hi, hn⟩)] at hst
    cases hst
  · intro hgroup
    refine ⟨fun i s hi hw st n hn => ?_, fun w hmem hw => ?_⟩
    · obtain ⟨t, ht, hv⟩ := mem_planSteps.mp hn
      obtain rfl : s = t := by simpa [hi] using ht
      by_cases hone : s.oneOf = []
      · exact holds_of_visit_plain hone hv
      · exact absurd (hgroup s (mem_of_getElem? hi) hone) hw
    · obtain ⟨s, hs, hws⟩ := mem_flatMap.mp hmem
      refine checkCondition_known ?_ hw
      cases hwf s hs with
      | plain name v named known condition =>
        obtain rfl : w = v := by simpa using hws
        exact condition
      | group v bs default branches last =>
        have hv : v = "" := hgroup _ hs (by simp)
        rcases mem_cons.mp hws with rfl | hws
        · exact absurd hv hw
        · obtain ⟨b, hb, rfl⟩ := mem_map.mp hws
          rcases mem_append.mp hb with hb | hb
          · exact (branches b hb).1.condition
          · obtain rfl := mem_singleton.mp hb
            exact absurd rfl hw

theorem conditionsHonoured_iff_choiceFlow :
    validate choiceFlow = .ok () ∧ ConditionsHonoured choiceFlow := by
  have hv : validate choiceFlow = .ok () := by rfl
  exact ⟨hv, (conditionsHonoured_iff choiceFlow hv).mpr (by decide)⟩

def conditionalChoice : Flow where
  name := "default"
  on := .authentication
  stages := [⟨.password, "", []⟩,
    ⟨.unset, "user_has_passkey", [⟨.passkey, "device_managed"⟩, ⟨.mfa, ""⟩]⟩,
    ⟨.session, "", []⟩]
  tests := [⟨"plain", [], [.password, .mfa, .session]⟩]

/-- The file is valid, and with every condition false the choice still runs. -/
theorem conditionalChoice_not_honoured :
    validate conditionalChoice = .ok () ∧ ¬ConditionsHonoured conditionalChoice := by
  refine ⟨by rfl, fun h => ?_⟩
  have hemit : (1, StageName.mfa) ∈ planSteps conditionalChoice fun _ => false := by decide
  have := h.1 1 _ rfl (by decide) _ _ hemit
  revert this
  decide

end Signari.FlowConditions
