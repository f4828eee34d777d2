import Signari.FlowConditions
import Mathlib.Data.List.Nodup
import Mathlib.Data.Nat.Bitwise

/-!
# The journeys a flow admits

`Flow.Conditions` and `Flow.Paths` of `internal/flow/walk.go`: the conditions the file
mentions are collected, every assignment to them is walked, and the journeys are kept once
each, with the first assignment that produced them.

The walk reads nothing but the collected conditions (`plan_congr`), so the assignments stand for all
situations. Journeys are told apart by their printed form, and that form is injective on stages of
the inventory.
-/
namespace Signari.FlowPaths
open GoStrings FlowStages FlowFile FlowWalk FlowSafety FlowConditions List Function

def joinStages (s : List StageName) : String :=
  if s = [] then "(no stages)" else join (s.map StageName.text) " -> "

/-- Records the condition of a `when` expression unless it is there already. -/
def note (out : List String) (expr : String) : List String :=
  let name := trimSpace ((cutPrefix (trimSpace expr) "not ").getD (trimSpace expr))
  if name ≠ "" ∧ name ∉ out then out ++ [name] else out

/-- The conditions a flow branches on, in the order they first appear. -/
def conditions (fl : Flow) : List String := (whens fl).foldl note []

/-- One journey, and the conditions that must hold to produce it. -/
structure Path where
  stages : List StageName
  given : State

/-- `st[c] = mask&(1<<i) != 0` for the conditions from position `i` on. -/
def assign (mask : ℕ) : ℕ → List String → State → State
  | _, [], st => st
  | i, c :: cs, st => assign mask (i + 1) cs (update st c (mask &&& (1 <<< i) != 0))

def maskState (conds : List String) (mask : ℕ) : State := assign mask 0 conds fun _ => false

/-- Keeps only what is true, so that the situation prints short. -/
def givenOf (conds : List String) (st : State) : State :=
  conds.foldl (fun given c => if st c then update given c true else given) fun _ => false

/-- One iteration of the enumeration, with the journeys found and the keys seen. -/
def pathStep (fl : Flow) (conds : List String) (acc : List Path × List String) (mask : ℕ) :
    List Path × List String :=
  let st := maskState conds mask
  let stages := plan fl st
  let key := joinStages stages
  if key ∈ acc.2 then acc else (acc.1 ++ [⟨stages, givenOf conds st⟩], acc.2 ++ [key])

def maxEnumeratedConditions : ℕ := 20

def paths (fl : Flow) : Except String (List Path) := let conds := conditions fl
  if maxEnumeratedConditions < conds.length then
    .error (s!"this flow branches on {conds.length} conditions, so it admits up to " ++
      s!"{1 <<< conds.length} journeys; that is more than can be enumerated, and more than can " ++
      "be reviewed")
  else .ok ((List.range (1 <<< conds.length)).foldl (pathStep fl conds) ([], [])).1

section
variable {fl : Flow} {st st' : State}

theorem note_eq (out : List String) (expr : String) :
    note out expr =
      if conditionName expr ≠ "" ∧ conditionName expr ∉ out then out ++ [conditionName expr]
      else out := by
  have hname : trimSpace ((cutPrefix (trimSpace expr) "not ").getD (trimSpace expr)) =
      conditionName expr := by
    unfold conditionName
    cases h : cutPrefix (trimSpace expr) "not " <;> simp [h]
  simp only [note, hname]

theorem foldl_note (exprs out : List String) (hout : out.Nodup) :
    (exprs.foldl note out).Nodup ∧ out ⊆ exprs.foldl note out ∧
      ∀ e ∈ exprs, conditionName e ≠ "" → conditionName e ∈ exprs.foldl note out := by
  induction exprs generalizing out with
  | nil => simp [hout]
  | cons e es ih =>
    have hstep : (note out e).Nodup ∧ out ⊆ note out e ∧
        (conditionName e ≠ "" → conditionName e ∈ note out e) := by
      rw [note_eq]
      split_ifs with h
      · refine ⟨?_, by simp, by simp⟩
        rw [List.nodup_append]
        refine ⟨hout, by simp, ?_⟩
        intro a ha b hb
        rw [mem_singleton.mp hb]
        exact fun hab => h.2 (hab ▸ ha)
      · refine ⟨hout, fun _ ha => ha, fun hne => ?_⟩
        by_contra hmem
        exact h ⟨hne, hmem⟩
    obtain ⟨hnodup, hsub, hmem⟩ := ih (note out e) hstep.1
    rw [foldl_cons]
    refine ⟨hnodup, fun a ha => hsub (hstep.2.1 ha), ?_⟩
    intro d hd hne
    rcases mem_cons.mp hd with rfl | hd
    · exact hsub (hstep.2.2 hne)
    · exact hmem d hd hne

theorem nodup_conditions (fl : Flow) : (conditions fl).Nodup :=
  (foldl_note (whens fl) [] nodup_nil).1

theorem mem_conditions {w : String} (hw : w ∈ whens fl) (hok : checkCondition w = .ok ())
    (hne : w ≠ "") : conditionName w ∈ conditions fl := by
  apply (foldl_note (whens fl) [] nodup_nil).2.2 w hw
  intro hempty
  have hknown := checkCondition_known hok hne
  rw [hempty] at hknown
  exact absurd hknown (by decide)

def Agree (fl : Flow) (st st' : State) : Prop := ∀ c ∈ conditions fl, st c = st' c

theorem holds_congr (h : Agree fl st st') {w : String} (hw : w ∈ whens fl)
    (hok : checkCondition w = .ok ()) :
    (holds st.evaluator () w).1 = (holds st'.evaluator () w).1 := by
  by_cases hne : w = ""
  · rw [hne, holds_empty, holds_empty]
  · rw [holds_query _ _ hne, holds_query _ _ hne]
    have := h _ (mem_conditions hw hok hne)
    simp only [State.evaluator, this]

theorem firstBranch_congr (h : Agree fl st st') (bs : List Branch)
    (hbs : ∀ b ∈ bs, b.when ∈ whens fl ∧ checkCondition b.when = .ok ()) :
    (firstBranch st.evaluator bs ()).1 = (firstBranch st'.evaluator bs ()).1 := by
  induction bs with
  | nil => rfl
  | cons b bs ih =>
    have hb := hbs b (by simp)
    have ih := ih fun c hc => hbs c (by simp [hc])
    have hw := holds_congr h hb.1 hb.2
    simp only [firstBranch, hw]
    split_ifs
    · rfl
    · exact ih

theorem visit_congr (h : Agree fl st st') {s : Step} (hs : s ∈ fl.stages) (hwf : s.WellFormed) :
    (visit st.evaluator s ()).1 = (visit st'.evaluator s ()).1 := by
  have hmem : ∀ w ∈ s.when :: s.oneOf.map Branch.when, w ∈ whens fl := fun w hw =>
    mem_flatMap.mpr ⟨s, hs, hw⟩
  cases hwf with
  | plain name w named known condition =>
    simp [visit, holds_congr h (hmem w (by simp)) condition]
  | group w bs default branches last =>
    have hne : bs ++ [(⟨default, ""⟩ : Branch)] ≠ [] := by simp
    simp only [visit, hne, ne_eq, not_false_eq_true, if_true]
    apply firstBranch_congr h
    intro b hb
    refine ⟨hmem _ (mem_cons_of_mem _ (mem_map_of_mem hb)), ?_⟩
    rcases mem_append.mp hb with hb | hb
    · exact (branches b hb).1.condition
    · rw [mem_singleton.mp hb]
      rfl

theorem walk_congr (h : Agree fl st st') (hwf : ∀ s ∈ fl.stages, s.WellFormed)
    {ss : List Step} (hss : ss ⊆ fl.stages) :
    (walk st.evaluator ss ()).1 = (walk st'.evaluator ss ()).1 := by
  induction ss with
  | nil => rfl
  | cons s ss ih =>
    have hs : s ∈ fl.stages := hss (by simp)
    have ih := ih fun t ht => hss (by simp [ht])
    simp only [walk]
    rw [visit_congr h hs (hwf s hs), ih]

/-- A journey depends only on the collected conditions. -/
theorem plan_congr (hwf : ∀ s ∈ fl.stages, s.WellFormed) (h : Agree fl st st') :
    plan fl st = plan fl st' := by
  unfold plan
  rw [run_eq_walk, run_eq_walk]
  exact walk_congr h hwf fun _ hs => hs

end

theorem bit_eq (mask i : ℕ) : (mask &&& (1 <<< i) != 0) = mask.testBit i := by
  rw [Nat.one_shiftLeft, Nat.and_two_pow]
  cases mask.testBit i <;> simp

theorem assign_spec (mask : ℕ) {cs : List String} (hcs : cs.Nodup) (i : ℕ) (st : State) :
    (∀ c, c ∉ cs → assign mask i cs st c = st c) ∧
      ∀ j c, cs[j]? = some c → assign mask i cs st c = mask.testBit (i + j) := by
  induction cs generalizing i st with
  | nil => simp [assign]
  | cons d ds ih =>
    rw [nodup_cons] at hcs
    obtain ⟨hout, hin⟩ := ih hcs.2 (i + 1) (update st d (mask &&& (1 <<< i) != 0))
    constructor
    · intro c hc
      rw [mem_cons, not_or] at hc
      rw [assign, hout c hc.2, update_of_ne hc.1]
    · intro j c hj
      cases j with
      | zero =>
        obtain rfl : d = c := by simpa using hj
        rw [assign, hout d hcs.1, update_self, bit_eq, Nat.add_zero]
      | succ j =>
        have hbit := hin j c (by simpa using hj)
        rw [assign, hbit]
        congr 1
        omega

theorem exists_mask {conds : List String} (h : conds.Nodup) (st : State) :
    ∃ mask < 1 <<< conds.length, ∀ c ∈ conds, st c = maskState conds mask c := by
  refine ⟨Nat.ofBits fun i : Fin conds.length => st conds[i], ?_, ?_⟩
  · rw [Nat.one_shiftLeft]
    exact Nat.ofBits_lt_two_pow _
  · intro c hc
    obtain ⟨j, hj, rfl⟩ := getElem_of_mem hc
    have hbit := (assign_spec (Nat.ofBits fun i : Fin conds.length => st conds[i]) h 0
      fun _ => false).2 j conds[j] (getElem?_eq_getElem hj)
    rw [maskState, hbit, Nat.zero_add, Nat.testBit_ofBits_lt _ _ hj, Fin.getElem_fin]

theorem foldl_given (conds : List String) (st given : State) (c : String) :
    conds.foldl (fun given c => if st c then update given c true else given) given c =
      (given c || (decide (c ∈ conds) && st c)) := by
  induction conds generalizing given with
  | nil => simp
  | cons d ds ih =>
    rw [foldl_cons, ih]
    by_cases hcd : c = d
    · subst hcd
      cases hst : st c <;> simp
    · cases hst : st d <;> simp [hcd]

theorem givenOf_agree (fl : Flow) (st : State) : Agree fl (givenOf (conditions fl) st) st := by
  intro c hc
  simp [givenOf, foldl_given, hc]

/-- A separator is a character of the arrow between two printed stages. -/
def arrowChar (c : Char) : Bool := c == ' ' || c == '-' || c == '>'

theorem known_text {n : StageName} (h : n.known = true) :
    n.text.toList ≠ [] ∧ (∀ c ∈ n.text.toList, arrowChar c = false) ∧
      ∀ m : StageName, m.known = true → m.text = n.text → m = n := by
  have hall : ∀ n ∈ allStages, n.text.toList ≠ [] ∧
      (n.text.toList.all fun c => !arrowChar c) = true ∧
      ∀ m ∈ allStages, m.text = n.text → m = n := by
    decide
  obtain ⟨hne, harrow, hinj⟩ := hall n (by simpa [StageName.known] using h)
  refine ⟨hne, ?_, fun m hm => hinj m (by simpa [StageName.known] using hm)⟩
  intro c hc
  simpa using all_eq_true.mp harrow c hc

/-- The printed form of a journey determines it. -/
theorem joinStages_inj {s t : List StageName} (hs : ∀ n ∈ s, n.known = true)
    (ht : ∀ n ∈ t, n.known = true) (hsne : s ≠ []) (htne : t ≠ [])
    (h : joinStages s = joinStages t) : s = t := by
  have hfields : ∀ u : List StageName, (∀ n ∈ u, n.known = true) →
      fieldsBy arrowChar (join (u.map StageName.text) " -> ") = u.map StageName.text := by
    intro u hu
    apply fieldsBy_join_seps (by decide) (by simp [arrowChar])
    intro w hw
    obtain ⟨n, hn, rfl⟩ := mem_map.mp hw
    exact ⟨(known_text (hu n hn)).1, (known_text (hu n hn)).2.1⟩
  simp only [joinStages, hsne, htne, if_false] at h
  have htexts : s.map StageName.text = t.map StageName.text := by
    rw [← hfields s hs, ← hfields t ht, h]
  clear h hsne htne
  induction s generalizing t with
  | nil => simpa using htexts.symm
  | cons n s ih =>
    cases t with
    | nil => simp at htexts
    | cons m t =>
      simp only [map_cons, List.cons.injEq] at htexts
      have hnm : n = m := (known_text (ht m (by simp))).2.2 n (hs n (by simp)) htexts.1
      rw [hnm, ih (fun k hk => hs k (by simp [hk])) (fun k hk => ht k (by simp [hk])) htexts.2]

theorem plan_known {fl : Flow} (h : fl.Structural) (st : State) :
    plan fl st ≠ [] ∧ ∀ n ∈ plan fl st, n.known = true := by
  have hwf := wellFormed_of_structural h
  unfold plan
  rw [run_eq_walk]
  constructor
  · obtain ⟨steps, last, hst, _⟩ := h
    rw [hst, walk_append]
    simp [walk, visit]
  · intro n hn
    obtain ⟨s, hs, hns⟩ := mem_of_walks hwf (walk_walks st.evaluator fl.stages ()) hn
    exact (hwf s hs).known n hns

/-- What the enumeration has after visiting some masks. -/
structure Enumerated (fl : Flow) (conds : List String) (masks : List ℕ)
    (acc : List Path × List String) : Prop where
  keys : acc.2 = acc.1.map fun p => joinStages p.stages
  nodup : acc.2.Nodup
  sound : ∀ p ∈ acc.1, ∃ mask, p = ⟨plan fl (maskState conds mask),
    givenOf conds (maskState conds mask)⟩
  complete : ∀ mask ∈ masks, joinStages (plan fl (maskState conds mask)) ∈ acc.2

theorem Enumerated.step {fl : Flow} {conds : List String} {masks : List ℕ}
    {acc : List Path × List String} (h : Enumerated fl conds masks acc) (mask : ℕ) :
    Enumerated fl conds (masks ++ [mask]) (pathStep fl conds acc mask) := by
  simp only [pathStep]
  split_ifs with hseen
  · refine ⟨h.keys, h.nodup, h.sound, ?_⟩
    intro m hm
    rcases mem_append.mp hm with hm | hm
    · exact h.complete m hm
    · rw [mem_singleton.mp hm]
      exact hseen
  · constructor
    · simp [h.keys]
    · rw [List.nodup_append]
      refine ⟨h.nodup, by simp, ?_⟩
      intro a ha b hb
      rw [mem_singleton.mp hb]
      exact fun hab => hseen (hab ▸ ha)
    · intro p hp
      rcases mem_append.mp hp with hp | hp
      · exact h.sound p hp
      · exact ⟨mask, mem_singleton.mp hp⟩
    · intro m hm
      rcases mem_append.mp hm with hm | hm
      · exact mem_append_left _ (h.complete m hm)
      · rw [mem_singleton.mp hm]
        simp

theorem Enumerated.foldl {fl : Flow} {conds : List String} {masks rest : List ℕ}
    {acc : List Path × List String} (h : Enumerated fl conds masks acc) :
    Enumerated fl conds (masks ++ rest) (rest.foldl (pathStep fl conds) acc) := by
  induction rest generalizing masks acc with
  | nil => simpa using h
  | cons mask rest ih =>
    have := ih (h.step mask)
    rwa [List.append_assoc, singleton_append] at this

/-- The enumeration of a valid flow is exact: distinct journeys, all of them, each with a
situation that produces it. -/
theorem paths_exact (fl : Flow) (hv : validate fl = .ok ()) (hlen : (conditions fl).length ≤ 20) :
    ∃ ps, paths fl = .ok ps ∧ (ps.map Path.stages).Nodup ∧
      (∀ out, out ∈ ps.map Path.stages ↔ ∃ st, plan fl st = out) ∧
      ∀ p ∈ ps, plan fl p.given = p.stages := by
  have hs := validate_structural hv
  have hwf := wellFormed_of_structural hs
  have hnone : Enumerated fl (conditions fl) [] ([], []) := ⟨rfl, nodup_nil, by simp, by simp⟩
  have henum : Enumerated fl (conditions fl) (List.range (1 <<< (conditions fl).length))
      ((List.range (1 <<< (conditions fl).length)).foldl (pathStep fl (conditions fl)) ([], [])) :=
    hnone.foldl
  refine ⟨_, if_neg (Nat.not_lt.mpr hlen), ?_, ?_, ?_⟩
  · have hnodup := henum.nodup
    rw [henum.keys, ← Function.comp_def joinStages, ← map_map] at hnodup
    exact Nodup.of_map joinStages hnodup
  · intro out
    constructor
    · intro hout
      obtain ⟨p, hp, rfl⟩ := mem_map.mp hout
      obtain ⟨mask, rfl⟩ := henum.sound p hp
      exact ⟨_, rfl⟩
    · rintro ⟨st, rfl⟩
      obtain ⟨mask, hmask, hst⟩ := exists_mask (nodup_conditions fl) st
      have hkey := henum.complete mask (mem_range.mpr hmask)
      rw [henum.keys, ← plan_congr hwf hst] at hkey
      obtain ⟨p, hp, hjoin⟩ := mem_map.mp hkey
      obtain ⟨m, rfl⟩ := henum.sound p hp
      have hsame := joinStages_inj (plan_known hs _).2 (plan_known hs st).2
        (plan_known hs _).1 (plan_known hs st).1 hjoin
      exact mem_map.mpr ⟨_, hp, hsame⟩
  · intro p hp
    obtain ⟨mask, rfl⟩ := henum.sound p hp
    exact plan_congr hwf (givenOf_agree fl _)

theorem paths_exact_choiceFlow :
    validate choiceFlow = .ok () ∧ (conditions choiceFlow).length = 2 ∧
      ∃ ps, paths choiceFlow = .ok ps ∧ (ps.map Path.stages).Nodup ∧
        (∀ out, out ∈ ps.map Path.stages ↔ ∃ st, plan choiceFlow st = out) ∧
        ∀ p ∈ ps, plan choiceFlow p.given = p.stages := by
  have hv : validate choiceFlow = .ok () := by rfl
  have hlen : (conditions choiceFlow).length = 2 := by decide
  exact ⟨hv, hlen, paths_exact choiceFlow hv (by omega)⟩

/-- Asking whether one stage runs agrees with the walk, on every valid flow and in every
situation. -/
theorem willRun_iff_mem_plan (fl : Flow) (hv : validate fl = .ok ()) (name : StageName)
    (st : State) :
    (willRun st.evaluator name fl.stages ()).1 = true ↔ name ∈ plan fl st := by
  have hwf := wellFormed_of_structural (validate_structural hv)
  rw [willRun_iff_mem_walk hwf, plan, run_eq_walk]

theorem willRun_iff_mem_plan_choiceFlow :
    validate choiceFlow = .ok () ∧
      ∀ (name : StageName) (st : State),
        (willRun st.evaluator name choiceFlow.stages ()).1 = true ↔ name ∈ plan choiceFlow st := by
  have hv : validate choiceFlow = .ok () := by rfl
  exact ⟨hv, willRun_iff_mem_plan choiceFlow hv⟩

end Signari.FlowPaths
