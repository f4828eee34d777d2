import Signari.FlowFile
import Mathlib.Data.Stream.Init

/-!
# Walking a flow

The cursor of `internal/flow/walk.go`, over an arbitrary evaluator. `drive` calls
`Cursor.next` until it reports the end; `walk` is the same computation by recursion on the
steps, and `drive_eq_walk` identifies the two, so no later proof handles an index.
-/
namespace Signari.FlowWalk
open FlowStages FlowFile List

/-- A position in a flow: an index and nothing else. -/
structure Cursor where
  fl : Flow
  i : ℕ

section
variable {ε : Type} (ev : Evaluator ε)

def firstBranch : List Branch → ε → Option StageName × ε
  | [], e => (none, e)
  | b :: bs, e =>
    let r := holds ev e b.when
    if r.1 then (some b.stage, r.2) else firstBranch bs r.2

/-- One iteration of the loop in `Cursor.Next`: the stage it returns, or `none` when the
step is skipped. The condition of a `one_of` step itself is not read. -/
def visit (s : Step) (e : ε) : Option StageName × ε :=
  if s.oneOf ≠ [] then firstBranch ev s.oneOf e
  else
    let r := holds ev e s.when
    (if r.1 then some s.stage else none, r.2)

/-- The loop of `Cursor.Next` from position `i`, with the steps that remain. -/
def nextFrom : List Step → ℕ → ε → Option StageName × ℕ × ε
  | [], i, e => (none, i, e)
  | s :: ss, i, e =>
    match visit ev s e with
    | (some name, e') => (some name, i + 1, e')
    | (none, e') => nextFrom ss (i + 1) e'

/-- The next stage to run, evaluating conditions now; `none` when the flow is finished. -/
def Cursor.next (c : Cursor) (e : ε) : Option StageName × Cursor × ε :=
  let r := nextFrom ev (c.fl.stages.drop c.i) c.i e
  (r.1, { c with i := r.2.1 }, r.2.2)

/-- Calls `next` until it reports the end, at most `fuel` times. -/
def drive : ℕ → Cursor → ε → List StageName × ε
  | 0, _, e => ([], e)
  | fuel + 1, c, e =>
    match c.next ev e with
    | (none, _, e') => ([], e')
    | (some name, c', e') =>
      let r := drive fuel c' e'
      (name :: r.1, r.2)

/-- A run of the cursor to exhaustion. Each call but the last consumes a step, so one call
more than there are steps is enough. -/
def run (fl : Flow) (e : ε) : List StageName × ε :=
  drive ev (fl.stages.length + 1) ⟨fl, 0⟩ e

/-- The run as a recursion on the steps. -/
def walk : List Step → ε → List StageName × ε
  | [], e => ([], e)
  | s :: ss, e =>
    let r := visit ev s e
    let t := walk ss r.2
    (r.1.toList ++ t.1, t.2)

theorem drive_eq_walk (fl : Flow) (rest : List Step) (i fuel : ℕ) (e : ε)
    (hrest : fl.stages.drop i = rest) (hfuel : rest.length < fuel) :
    drive ev fuel ⟨fl, i⟩ e = walk ev rest e := by
  induction rest generalizing i fuel e with
  | nil =>
    cases fuel with
    | zero => simp at hfuel
    | succ fuel => simp [drive, Cursor.next, hrest, nextFrom, walk]
  | cons s ss ih =>
    have hss : fl.stages.drop (i + 1) = ss := by
      rw [← drop_drop, hrest, drop_one, tail_cons]
    cases fuel with
    | zero => simp at hfuel
    | succ fuel =>
      simp only [length_cons] at hfuel
      rcases hv : visit ev s e with ⟨_ | name, e'⟩
      · have := ih (i + 1) (fuel + 1) e' hss (by omega)
        simp only [drive, Cursor.next, hss] at this
        simp [drive, Cursor.next, hrest, nextFrom, hv, walk, this]
      · have := ih (i + 1) fuel e' hss (by omega)
        simp [drive, Cursor.next, hrest, nextFrom, hv, walk, this]

theorem run_eq_walk (fl : Flow) (e : ε) : run ev fl e = walk ev fl.stages e :=
  drive_eq_walk ev fl fl.stages 0 _ e rfl (Nat.lt_succ_self _)

theorem walk_append (ss ts : List Step) (e : ε) :
    walk ev (ss ++ ts) e =
      ((walk ev ss e).1 ++ (walk ev ts (walk ev ss e).2).1, (walk ev ts (walk ev ss e).2).2) := by
  induction ss generalizing e with
  | nil => simp [walk]
  | cons s ss ih => simp [walk, ih]

def stepMentions (s : Step) (name : StageName) : Bool := s.stageNames.contains name

/-- Whether a given stage runs on the journey the evaluator describes, asking only about
the steps that mention it. -/
def willRun (name : StageName) : List Step → ε → Bool × ε
  | [], e => (false, e)
  | s :: ss, e =>
    if s.oneOf ≠ [] then
      if stepMentions s name then
        match firstBranch ev s.oneOf e with
        | (some n, e') => if n = name then (true, e') else willRun name ss e'
        | (none, e') => willRun name ss e'
      else willRun name ss e
    else if s.stage = name then
      let r := holds ev e s.when
      if r.1 then (true, r.2) else willRun name ss r.2
    else willRun name ss e

end

/-- The stages that run under a fixed state: conditions are read once. -/
def plan (fl : Flow) (st : State) : List StageName := (run st.evaluator fl ()).1

/-- What a step can do when each of its queries may be answered either way. -/
inductive Visits (s : Step) : Option StageName → Prop
  | plain (h : s.oneOf = []) : Visits s (some s.stage)
  | skip (h : s.oneOf = []) (hw : s.when ≠ "") : Visits s none
  | branch (bs rest : List Branch) (b : Branch) (h : s.oneOf = bs ++ b :: rest)
      (hbs : ∀ a ∈ bs, a.when ≠ "") : Visits s (some b.stage)
  | fall (h : s.oneOf ≠ []) (hbs : ∀ a ∈ s.oneOf, a.when ≠ "") : Visits s none

/-- The lists of stages a walk can emit under arbitrary, independent answers. -/
inductive Walks : List Step → List StageName → Prop
  | nil : Walks [] []
  | cons {s : Step} {ss : List Step} {o : Option StageName} {out : List StageName} :
      Visits s o → Walks ss out → Walks (s :: ss) (o.toList ++ out)

theorem firstBranch_cases {ε : Type} (ev : Evaluator ε) (bs : List Branch) (e : ε) :
    (∃ pre b rest e', bs = pre ++ b :: rest ∧ (∀ a ∈ pre, a.when ≠ "") ∧
      firstBranch ev bs e = (some b.stage, e')) ∨
    (∃ e', (∀ a ∈ bs, a.when ≠ "") ∧ firstBranch ev bs e = (none, e')) := by
  induction bs generalizing e with
  | nil => exact .inr ⟨e, by simp, rfl⟩
  | cons b bs ih =>
    by_cases hb : (holds ev e b.when).1 = true
    · exact .inl ⟨[], b, bs, (holds ev e b.when).2, rfl, by simp, by simp [firstBranch, hb]⟩
    · have hw : b.when ≠ "" := by
        intro hw
        simp [hw] at hb
      have hstep : firstBranch ev (b :: bs) e = firstBranch ev bs (holds ev e b.when).2 := by
        simp [firstBranch, hb]
      rcases ih (holds ev e b.when).2 with ⟨pre, c, rest, e', rfl, hpre, hf⟩ | ⟨e', hbs, hf⟩
      · refine .inl ⟨b :: pre, c, rest, e', rfl, ?_, by rw [hstep, hf]⟩
        exact forall_mem_cons.mpr ⟨hw, hpre⟩
      · exact .inr ⟨e', forall_mem_cons.mpr ⟨hw, hbs⟩, by rw [hstep, hf]⟩

theorem visit_visits {ε : Type} (ev : Evaluator ε) (s : Step) (e : ε) :
    Visits s (visit ev s e).1 := by
  by_cases h : s.oneOf = []
  · by_cases hv : (holds ev e s.when).1 = true
    · simp only [visit, h, ne_eq, not_true, if_false, hv, if_true]
      exact .plain h
    · simp only [visit, h, ne_eq, not_true, if_false, hv, Bool.false_eq_true]
      refine .skip h fun hw => hv ?_
      rw [hw, holds_empty]
  · simp only [visit, ne_eq, h, not_false_eq_true, if_true]
    rcases firstBranch_cases ev s.oneOf e with ⟨pre, b, rest, e', hbs, hpre, hf⟩ | ⟨e', hbs, hf⟩
    · rw [hf]
      exact .branch pre rest b hbs hpre
    · rw [hf]
      exact .fall h hbs

/-- No evaluator leaves `Walks`. -/
theorem walk_walks {ε : Type} (ev : Evaluator ε) (ss : List Step) (e : ε) :
    Walks ss (walk ev ss e).1 := by
  induction ss generalizing e with
  | nil => exact .nil
  | cons s ss ih => exact .cons (visit_visits ev s e) (ih _)

def answers : Evaluator (Stream' Bool) := ⟨fun a _ => (a.head, a.tail)⟩

/-- Either answer to a non-empty expression can be arranged, leaving any stream for the
queries that follow. -/
theorem holds_answers {expr : String} (h : expr ≠ "") (v : Bool) (t : Stream' Bool) :
    ∃ a, holds answers a expr = (v, t) := by
  refine ⟨Stream'.cons
    (if (GoStrings.cutPrefix (GoStrings.trimSpace expr) "not ").isSome then !v else v) t, ?_⟩
  rw [holds_query _ _ h]
  simp only [answers, Stream'.head_cons, Stream'.tail_cons]
  split_ifs <;> simp

theorem firstBranch_answers (bs : List Branch) (b : Branch) (rest : List Branch)
    (hbs : ∀ a ∈ bs, a.when ≠ "") (t : Stream' Bool) :
    ∃ a, firstBranch answers (bs ++ b :: rest) a = (some b.stage, t) := by
  induction bs with
  | nil =>
    by_cases hw : b.when = ""
    · exact ⟨t, by simp [firstBranch, hw]⟩
    · obtain ⟨a, ha⟩ := holds_answers hw true t
      exact ⟨a, by simp [firstBranch, ha]⟩
  | cons c cs ih =>
    obtain ⟨a, ha⟩ := ih fun d hd => hbs d (by simp [hd])
    obtain ⟨a', ha'⟩ := holds_answers (hbs c (by simp)) false a
    exact ⟨a', by simp [firstBranch, ha', ha]⟩

theorem firstBranch_answers_none (bs : List Branch) (hbs : ∀ a ∈ bs, a.when ≠ "")
    (t : Stream' Bool) : ∃ a, firstBranch answers bs a = (none, t) := by
  induction bs with
  | nil => exact ⟨t, rfl⟩
  | cons c cs ih =>
    obtain ⟨a, ha⟩ := ih fun d hd => hbs d (by simp [hd])
    obtain ⟨a', ha'⟩ := holds_answers (hbs c (by simp)) false a
    exact ⟨a', by simp [firstBranch, ha', ha]⟩

theorem visit_answers {s : Step} {o : Option StageName} (h : Visits s o)
    (t : Stream' Bool) : ∃ a, visit answers s a = (o, t) := by
  cases h with
  | plain h =>
    by_cases hw : s.when = ""
    · exact ⟨t, by simp [visit, h, hw]⟩
    · obtain ⟨a, ha⟩ := holds_answers hw true t
      exact ⟨a, by simp [visit, h, ha]⟩
  | skip h hw =>
    obtain ⟨a, ha⟩ := holds_answers hw false t
    exact ⟨a, by simp [visit, h, ha]⟩
  | branch bs rest b h hbs =>
    obtain ⟨a, ha⟩ := firstBranch_answers bs b rest hbs t
    exact ⟨a, by simp [visit, h, ha]⟩
  | fall h hbs =>
    obtain ⟨a, ha⟩ := firstBranch_answers_none s.oneOf hbs t
    exact ⟨a, by simp [visit, h, ha]⟩

theorem walk_answers {ss : List Step} {out : List StageName} (h : Walks ss out)
    (t : Stream' Bool) : ∃ a, walk answers ss a = (out, t) := by
  induction h with
  | nil => exact ⟨t, rfl⟩
  | cons hv _ ih =>
    obtain ⟨a, ha⟩ := ih
    obtain ⟨a', ha'⟩ := visit_answers hv a
    exact ⟨a', by simp [walk, ha', ha]⟩

theorem walks_iff_answers (fl : Flow) (out : List StageName) :
    Walks fl.stages out ↔ ∃ a, (run answers fl a).1 = out := by
  constructor
  · intro h
    obtain ⟨a, ha⟩ := walk_answers h (Stream'.const false)
    exact ⟨a, by rw [run_eq_walk, ha]⟩
  · rintro ⟨a, rfl⟩
    rw [run_eq_walk]
    exact walk_walks answers fl.stages a

/-- An evaluator that keeps answering as the fixed situation `st` does, as long as its own
state satisfies `I`. -/
structure Follows {ε : Type} (ev : Evaluator ε) (st : State) (I : ε → Prop) : Prop where
  answer : ∀ {e}, I e → ∀ name, (ev.holds e name).1 = st name
  keeps : ∀ {e}, I e → ∀ name, I (ev.holds e name).2

section
variable {ε : Type} {ev : Evaluator ε} {st : State} {I : ε → Prop}

theorem Follows.holds (h : Follows ev st I) {e : ε} (he : I e)
    (expr : String) :
    (FlowStages.holds ev e expr).1 = st.holds expr ∧ I (FlowStages.holds ev e expr).2 := by
  by_cases hx : expr = ""
  · subst hx
    exact ⟨rfl, he⟩
  · rw [State.holds, holds_query _ _ hx, holds_query _ _ hx]
    simp only [h.answer he, State.evaluator, true_and]
    exact h.keeps he (conditionName expr)

theorem Follows.firstBranch (h : Follows ev st I) (bs : List Branch)
    {e : ε} (he : I e) :
    (firstBranch ev bs e).1 = (FlowWalk.firstBranch st.evaluator bs ()).1 ∧
      I (FlowWalk.firstBranch ev bs e).2 := by
  induction bs generalizing e with
  | nil => exact ⟨rfl, he⟩
  | cons b bs ih =>
    obtain ⟨hb, hI⟩ := h.holds he b.when
    rw [State.holds] at hb
    simp only [FlowWalk.firstBranch, hb]
    split_ifs with hc
    · exact ⟨rfl, hI⟩
    · exact ih hI

theorem Follows.visit (h : Follows ev st I) (s : Step) {e : ε}
    (he : I e) :
    (visit ev s e).1 = (FlowWalk.visit st.evaluator s ()).1 ∧ I (FlowWalk.visit ev s e).2 := by
  unfold FlowWalk.visit
  split_ifs with hs
  · exact h.firstBranch s.oneOf he
  · obtain ⟨hw, hI⟩ := h.holds he s.when
    rw [State.holds] at hw
    exact ⟨by simp only [hw], hI⟩

theorem Follows.willRun (h : Follows ev st I) (name : StageName)
    (ss : List Step) {e : ε} (he : I e) :
    (willRun ev name ss e).1 = (FlowWalk.willRun st.evaluator name ss ()).1 ∧
      I (FlowWalk.willRun ev name ss e).2 := by
  induction ss generalizing e with
  | nil => exact ⟨rfl, he⟩
  | cons s ss ih =>
    unfold FlowWalk.willRun
    split_ifs with hs hm hn
    · obtain ⟨hb, hI⟩ := h.firstBranch s.oneOf he
      rcases hf : FlowWalk.firstBranch ev s.oneOf e with ⟨_ | n, e'⟩ <;>
        rcases hg : FlowWalk.firstBranch st.evaluator s.oneOf () with ⟨_ | m, u⟩ <;>
        simp only [hf, hg, reduceCtorEq, Option.some.injEq] at hb hI
      · exact ih hI
      · subst hb
        dsimp only
        split_ifs
        · exact ⟨rfl, hI⟩
        · exact ih hI
    · exact ih he
    · obtain ⟨hw, hI⟩ := h.holds he s.when
      rw [State.holds] at hw
      simp only [hw]
      split_ifs
      · exact ⟨rfl, hI⟩
      · exact ih hI
    · exact ih he

end

/-- Asking only about the steps that mention a stage finds it exactly when the walk emits
it. -/
theorem willRun_iff_mem_walk {st : State} {ss : List Step} (hss : ∀ s ∈ ss, s.WellFormed)
    {name : StageName} :
    (willRun st.evaluator name ss ()).1 = true ↔ name ∈ (walk st.evaluator ss ()).1 := by
  induction ss with
  | nil => simp [willRun, walk]
  | cons s ss ih =>
    have ih := ih fun t ht => hss t (by simp [ht])
    simp only [walk, mem_append, Option.mem_toList]
    rw [← ih]
    cases hss s (by simp) with
    | plain n w named known condition =>
      by_cases hn : n = name
      · subst hn
        cases hw : (holds st.evaluator () w).1 <;> simp [willRun, visit, hw]
      · cases hw : (holds st.evaluator () w).1 <;>
          simp [willRun, visit, hw, hn]
    | group w bs default branches last =>
      have hne : bs ++ [(⟨default, ""⟩ : Branch)] ≠ [] := by simp
      simp only [willRun, visit, hne, ne_eq, not_false_eq_true, if_true]
      have hmem : ∀ n, (firstBranch st.evaluator (bs ++ [⟨default, ""⟩]) ()).1 = some n →
          stepMentions ⟨.unset, w, bs ++ [⟨default, ""⟩]⟩ n = true := by
        intro n hn
        rcases firstBranch_cases st.evaluator (bs ++ [⟨default, ""⟩]) () with
          ⟨pre, b, rest, e', hsplit, _, hf⟩ | ⟨e', _, hf⟩
        · obtain rfl : b.stage = n := by simpa [hf] using hn
          have hb : b ∈ bs ++ [⟨default, ""⟩] := by rw [hsplit]; simp
          simp only [stepMentions, Step.stageNames, ne_eq, not_true, if_false,
            contains_eq_mem, decide_eq_true_eq]
          exact mem_map_of_mem hb
        · simp [hf] at hn
      rcases hf : firstBranch st.evaluator (bs ++ [⟨default, ""⟩]) () with ⟨_ | n, e'⟩
      · simp only [hf]
        split_ifs <;> simp
      · simp only [hf] at hmem ⊢
        by_cases hn : n = name
        · subst hn
          simp [hmem n rfl]
        · split_ifs <;> simp [hn]

end Signari.FlowWalk
