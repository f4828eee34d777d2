import Mathlib.Data.Finset.Card
import Mathlib.Data.List.Chain

/-!
# Searching a graph given by its successors

Two searches of the graph of `succ : α → List α`, both with fuel. `worklist` gathers what can
be reached from a queue; `Finishes` is the same loop without fuel, so a proof of it says that
the loop ends. `visit` goes depth first with the elements on the stack (grey) and the finished
ones (black), and stops at an edge back into the stack.
-/
namespace Signari.GraphSearch
open Relation List

variable {α : Type*} {succ : α → List α} {x y : α}

/-- The edges of the graph. -/
def Edge (succ : α → List α) (x y : α) : Prop := y ∈ succ x

theorem reflTransGen_closed {p : α → Prop} (hp : ∀ x y, p x → Edge succ x y → p y)
    (h : ReflTransGen (Edge succ) x y) (hx : p x) : p y := by
  induction h with
  | refl => exact hx
  | tail _ hedge ih => exact hp _ _ ih hedge

variable [DecidableEq α]

/-! ## The worklist -/

/-- The elements of a list that are not yet seen, each at its first place. -/
def fresh : List α → List α → List α
  | _, [] => []
  | seen, x :: xs => if x ∈ seen then fresh seen xs else x :: fresh (seen ++ [x]) xs

variable {seen queue xs out : List α}

theorem mem_fresh : x ∈ fresh seen xs ↔ x ∈ xs ∧ x ∉ seen := by
  induction xs generalizing seen with
  | nil => simp [fresh]
  | cons z zs ih =>
    by_cases hz : z ∈ seen
    · rw [fresh, if_pos hz, ih, mem_cons]
      exact ⟨fun h => ⟨.inr h.1, h.2⟩, fun h => ⟨h.1.resolve_left fun hx => h.2 (hx ▸ hz), h.2⟩⟩
    · rw [fresh, if_neg hz, mem_cons, ih, mem_cons]
      by_cases hx : x = z
      · simp [hx, hz]
      · simp [hx]

theorem nodup_append_fresh (h : seen.Nodup) : (seen ++ fresh seen xs).Nodup := by
  induction xs generalizing seen with
  | nil => simpa [fresh] using h
  | cons z zs ih =>
    by_cases hz : z ∈ seen
    · rw [fresh, if_pos hz]
      exact ih h
    · have hsnoc : (seen ++ [z]).Nodup := by
        rw [List.nodup_append]
        exact ⟨h, nodup_singleton z, fun a ha b hb hab =>
          hz (mem_singleton.mp hb ▸ hab ▸ ha)⟩
      rw [fresh, if_neg hz]
      simpa using ih hsnoc

/-- Adding to a list what it does not have yet. -/
theorem foldl_fresh : xs.foldl (fun out x => if x ∈ out then out else out ++ [x]) seen =
    seen ++ fresh seen xs := by
  induction xs generalizing seen with
  | nil => simp [fresh]
  | cons z zs ih =>
    by_cases hz : z ∈ seen
    · simp only [foldl_cons, fresh, if_pos hz, ih]
    · simp only [foldl_cons, fresh, if_neg hz, ih]
      simp

theorem foldl_enqueue : xs.foldl (fun acc x =>
      if x ∈ acc.1 then acc else (acc.1 ++ [x], acc.2 ++ [x])) (seen, queue) =
    (seen ++ fresh seen xs, queue ++ fresh seen xs) := by
  induction xs generalizing seen queue with
  | nil => simp [fresh]
  | cons z zs ih =>
    by_cases hz : z ∈ seen
    · simp only [foldl_cons, fresh, if_pos hz, ih]
    · simp only [foldl_cons, fresh, if_neg hz, ih]
      simp

def worklist (succ : α → List α) : ℕ → List α → List α → List α
  | 0, seen, _ => seen
  | _ + 1, seen, [] => seen
  | fuel + 1, seen, cur :: queue =>
    worklist succ fuel (seen ++ fresh seen (succ cur)) (queue ++ fresh seen (succ cur))

/-- The loop ends, with the elements seen. -/
inductive Finishes (succ : α → List α) : List α → List α → List α → Prop
  | done {seen : List α} : Finishes succ seen [] seen
  | step {seen queue out : List α} {cur : α}
      (rest : Finishes succ (seen ++ fresh seen (succ cur)) (queue ++ fresh seen (succ cur)) out) :
      Finishes succ seen (cur :: queue) out

/-- The elements of `U` a search has not seen. -/
def unseen (U : Finset α) (seen : List α) : ℕ := (U.filter (· ∉ seen)).card

theorem unseen_fresh {U : Finset α} (hU : ∀ z ∈ xs, z ∈ U) (hseen : seen.Nodup) :
    unseen U (seen ++ fresh seen xs) + (fresh seen xs).length ≤ unseen U seen := by
  have hnodup : (fresh seen xs).Nodup := (List.nodup_append.mp (nodup_append_fresh hseen)).2.1
  have hsub : (fresh seen xs).toFinset ⊆ U.filter (· ∉ seen) := by
    intro z hz
    have hz' := mem_fresh.mp (mem_toFinset.mp hz)
    exact Finset.mem_filter.mpr ⟨hU z hz'.1, hz'.2⟩
  have hrest : U.filter (· ∉ seen ++ fresh seen xs) =
      U.filter (· ∉ seen) \ (fresh seen xs).toFinset := by
    ext z
    simp only [Finset.mem_filter, Finset.mem_sdiff, mem_append, mem_toFinset, not_or, and_assoc]
  rw [unseen, unseen, hrest, Finset.card_sdiff_of_subset hsub, toFinset_card_of_nodup hnodup]
  have := Finset.card_le_card hsub
  rw [toFinset_card_of_nodup hnodup] at this
  omega

theorem worklist_finishes {U : Finset α} (hU : ∀ x, ∀ y ∈ succ x, y ∈ U) {fuel : ℕ}
    (hseen : seen.Nodup) (h : queue.length + unseen U seen ≤ fuel) :
    Finishes succ seen queue (worklist succ fuel seen queue) := by
  induction fuel generalizing seen queue with
  | zero =>
    have hnil : queue = [] := length_eq_zero_iff.mp (by omega)
    exact hnil ▸ .done
  | succ fuel ih =>
    cases queue with
    | nil => exact .done
    | cons cur queue =>
      have hdrop : unseen U (seen ++ fresh seen (succ cur)) +
          (fresh seen (succ cur)).length ≤ unseen U seen := unseen_fresh (hU cur) hseen
      refine .step (ih (nodup_append_fresh hseen) ?_)
      simp only [length_cons, length_append] at h ⊢
      omega

/-- What holds whenever the loop tests its queue. -/
structure Gathered (succ : α → List α) (start : α) (seen queue : List α) : Prop where
  nodup : seen.Nodup
  start_mem : start ∈ seen
  queued : ∀ x ∈ queue, x ∈ seen
  reached : ∀ x ∈ seen, ReflTransGen (Edge succ) start x
  closed : ∀ x ∈ seen, x ∈ queue ∨ ∀ y ∈ succ x, y ∈ seen

omit [DecidableEq α] in
theorem Gathered.init (start : α) : Gathered succ start [start] [start] where
  nodup := nodup_singleton start
  start_mem := mem_singleton_self start
  queued _ hx := hx
  reached _ hx := mem_singleton.mp hx ▸ .refl
  closed _ hx := .inl hx

theorem Gathered.step {start cur : α} (h : Gathered succ start seen (cur :: queue)) :
    Gathered succ start (seen ++ fresh seen (succ cur)) (queue ++ fresh seen (succ cur)) := by
  have hcur : cur ∈ seen := h.queued cur mem_cons_self
  have hsucc : ∀ y ∈ succ cur, y ∈ seen ++ fresh seen (succ cur) := by
    intro y hy
    by_cases hmem : y ∈ seen
    · exact mem_append_left _ hmem
    · exact mem_append_right _ (mem_fresh.mpr ⟨hy, hmem⟩)
  constructor
  case nodup => exact nodup_append_fresh h.nodup
  case start_mem => exact mem_append_left _ h.start_mem
  case queued =>
      intro x hx
      rcases mem_append.mp hx with hx | hx
      · exact mem_append_left _ (h.queued x (mem_cons_of_mem _ hx))
      · exact mem_append_right _ hx
  case reached =>
      intro x hx
      rcases mem_append.mp hx with hx | hx
      · exact h.reached x hx
      · exact (h.reached cur hcur).tail (mem_fresh.mp hx).1
  case closed =>
      intro x hx
      rcases mem_append.mp hx with hx | hx
      · rcases h.closed x hx with hqueue | hdone
        · rcases mem_cons.mp hqueue with rfl | hqueue
          · exact .inr hsucc
          · exact .inl (mem_append_left _ hqueue)
        · exact .inr fun y hy => mem_append_left _ (hdone y hy)
      · exact .inl (mem_append_right _ hx)

theorem Finishes.gathered {start : α} (h : Finishes succ seen queue out)
    (hstart : Gathered succ start seen queue) : Gathered succ start out [] := by
  induction h with
  | done => exact hstart
  | step _ ih => exact ih hstart.step

omit [DecidableEq α] in
/-- What a gathering that has ended holds is what can be reached. -/
theorem Gathered.mem_iff {start : α} (h : Gathered succ start out []) :
    x ∈ out ↔ ReflTransGen (Edge succ) start x := by
  constructor
  · exact h.reached x
  · intro hreach
    refine reflTransGen_closed (p := (· ∈ out)) ?_ hreach h.start_mem
    intro a b ha hab
    exact (h.closed a ha).resolve_left not_mem_nil b hab

/-! ## Depth first -/

/-- The finished elements after the search from `v`, or the path that closes a cycle with its
last element first. `stack` holds the elements `v` was reached through, the nearest first. -/
def visit (succ : α → List α) : ℕ → α → List α → List α → Except (List α) (List α)
  | 0, _, _, black => .ok black
  | fuel + 1, v, stack, black => do
      let black' ← (succ v).foldlM (fun black next =>
        if next ∈ v :: stack then .error (next :: v :: stack)
        else if next ∈ black then .ok black
        else visit succ fuel next (v :: stack) black) black
      .ok (v :: black')

/-- The searches from each of the roots that an earlier one has not finished. -/
def visitAll (succ : α → List α) (fuel : ℕ) (roots black : List α) : Except (List α) (List α) :=
  roots.foldlM (fun black v => if v ∈ black then .ok black else visit succ fuel v [] black) black

section
variable {β ε : Type*} {xs : List α} {step : β → α → Except ε β} {b b' : β} {e : ε}

omit [DecidableEq α] in
theorem foldlM_error (h : xs.foldlM step b = .error e) : ∃ x ∈ xs, ∃ b, step b x = .error e := by
  induction xs generalizing b with
  | nil => cases h
  | cons x xs ih =>
    rw [foldlM_cons] at h
    cases hx : step b x with
    | error e' =>
      rw [hx] at h
      exact ⟨x, mem_cons_self, b, by rw [hx]; exact h⟩
    | ok b₁ =>
      rw [hx] at h
      obtain ⟨z, hz, b₂, hstep⟩ := ih h
      exact ⟨z, mem_cons_of_mem _ hz, b₂, hstep⟩

omit [DecidableEq α] in
/-- A fold that ends keeps what each step keeps, and holds of each element what its step
brought about and no later step undoes. -/
theorem foldlM_ok {p : β → Prop} {q : α → β → Prop}
    (hstep : ∀ x ∈ xs, ∀ b b', p b → step b x = .ok b' → p b' ∧ q x b' ∧ ∀ y, q y b → q y b')
    (h : xs.foldlM step b = .ok b') (hb : p b) :
    p b' ∧ (∀ x ∈ xs, q x b') ∧ ∀ y, q y b → q y b' := by
  induction xs generalizing b with
  | nil =>
    cases h
    exact ⟨hb, fun x hx => absurd hx not_mem_nil, fun _ hy => hy⟩
  | cons x xs ih =>
    rw [foldlM_cons] at h
    cases hx : step b x with
    | error e' =>
      rw [hx] at h
      cases h
    | ok b₁ =>
      rw [hx] at h
      obtain ⟨hb₁, hxb₁, hkeep₁⟩ := hstep x mem_cons_self b b₁ hb hx
      obtain ⟨hb', hxs, hkeep⟩ := ih (fun z hz => hstep z (mem_cons_of_mem _ hz)) h hb₁
      refine ⟨hb', ?_, fun y hy => hkeep y (hkeep₁ y hy)⟩
      intro z hz
      rcases mem_cons.mp hz with rfl | hz
      · exact hkeep z hxb₁
      · exact hxs z hz

end

/-- Each element comes after its successors, and once. -/
def Settled (succ : α → List α) : List α → Prop
  | [] => True
  | x :: xs => (∀ y ∈ succ x, y ∈ xs) ∧ x ∉ xs ∧ Settled succ xs

omit [DecidableEq α] in
theorem Settled.closed {xs : List α} (h : Settled succ xs) :
    ∀ x y, x ∈ xs → Edge succ x y → y ∈ xs := by
  induction xs with
  | nil => exact fun x _ hx => absurd hx not_mem_nil
  | cons z zs ih =>
    intro x y hx hedge
    rcases mem_cons.mp hx with rfl | hx
    · exact mem_cons_of_mem _ (h.1 y hedge)
    · exact mem_cons_of_mem _ (ih h.2.2 x y hx hedge)

omit [DecidableEq α] in
/-- No settled element lies on a cycle. -/
theorem Settled.acyclic {xs : List α} (h : Settled succ xs) (hx : x ∈ xs) :
    ¬TransGen (Edge succ) x x := by
  induction xs with
  | nil => exact absurd hx not_mem_nil
  | cons z zs ih =>
    intro hcycle
    rcases mem_cons.mp hx with rfl | hx
    · obtain ⟨y, hedge, hback⟩ := TransGen.head'_iff.mp hcycle
      exact h.2.1 (reflTransGen_closed h.2.2.closed hback (h.1 y hedge))
    · exact ih h.2.2 hx hcycle

omit [DecidableEq α] in
/-- An edge from the top of the stack back into it closes a cycle. -/
theorem cycle_of_back_edge {v : α} {stack : List α}
    (hstack : (v :: stack).IsChain fun a b => Edge succ b a) (hedge : Edge succ v x)
    (hx : x ∈ v :: stack) : TransGen (Edge succ) v v := by
  have hreach : ∀ {v : α} {stack : List α}, (v :: stack).IsChain (fun a b => Edge succ b a) →
      ∀ x ∈ v :: stack, ReflTransGen (Edge succ) x v := by
    intro v stack
    induction stack generalizing v with
    | nil => exact fun _ x hx => mem_singleton.mp hx ▸ .refl
    | cons w stack ih =>
      intro h x hx
      rcases mem_cons.mp hx with rfl | hx
      · exact .refl
      · exact (ih h.tail x hx).tail h.rel
  exact TransGen.head' hedge (hreach hstack x hx)

/-- A search stops only on a cycle. -/
theorem visit_error {fuel : ℕ} {v : α} {stack black p : List α}
    (h : visit succ fuel v stack black = .error p)
    (hstack : (v :: stack).IsChain fun a b => Edge succ b a) :
    ∃ x, TransGen (Edge succ) x x := by
  induction fuel generalizing v stack black p with
  | zero => cases h
  | succ fuel ih =>
    rw [visit] at h
    cases hfold : (succ v).foldlM (fun black next =>
        if next ∈ v :: stack then .error (next :: v :: stack)
        else if next ∈ black then .ok black
        else visit succ fuel next (v :: stack) black) black with
    | ok black' =>
      rw [hfold] at h
      cases h
    | error p' =>
      obtain ⟨next, hnext, black₁, hstep⟩ := foldlM_error hfold
      split_ifs at hstep with hgrey hblack
      · exact ⟨v, cycle_of_back_edge hstack hnext hgrey⟩
      · exact ih hstep (isChain_cons_cons.mpr ⟨hnext, hstack⟩)

/-- Seeing more, one of `U` among it, leaves fewer unseen. -/
theorem unseen_lt {U : Finset α} {seen seen' : List α} {v : α} (hsub : ∀ x ∈ seen, x ∈ seen')
    (hU : v ∈ U) (hv : v ∉ seen) (hv' : v ∈ seen') : unseen U seen' < unseen U seen := by
  refine Finset.card_lt_card (Finset.ssubset_iff_subset_ne.mpr ⟨?_, ?_⟩)
  · exact Finset.monotone_filter_right U fun x _ hx hmem => hx (hsub x hmem)
  · intro heq
    have hmem : v ∈ U.filter (· ∉ seen) := Finset.mem_filter.mpr ⟨hU, hv⟩
    rw [← heq] at hmem
    exact (Finset.mem_filter.mp hmem).2 hv'

theorem visit_ok {U : Finset α} (hU : ∀ x, ∀ y ∈ succ x, y ∈ U) {fuel : ℕ} {v : α}
    {stack black black' : List α} (h : visit succ fuel v stack black = .ok black')
    (hv : v ∈ U) (hgrey : v ∉ stack) (hwhite : v ∉ black) (hsettled : Settled succ black)
    (hdisjoint : ∀ x ∈ stack, x ∉ black) (hfuel : unseen U (stack ++ black) ≤ fuel) :
    Settled succ black' ∧ (∀ x ∈ stack, x ∉ black') ∧ v ∈ black' ∧ ∀ x ∈ black, x ∈ black' := by
  induction fuel generalizing v stack black black' with
  | zero =>
    have hseen : v ∉ stack ++ black := fun hmem =>
      (mem_append.mp hmem).elim hgrey hwhite
    have hless : unseen U ([v] ++ (stack ++ black)) < unseen U (stack ++ black) :=
      unseen_lt (fun x hx => mem_append_right _ hx) hv hseen (by simp)
    omega
  | succ fuel ih =>
    rw [visit] at h
    cases hfold : (succ v).foldlM (fun black next =>
        if next ∈ v :: stack then .error (next :: v :: stack)
        else if next ∈ black then .ok black
        else visit succ fuel next (v :: stack) black) black with
    | error p =>
      rw [hfold] at h
      cases h
    | ok black₁ =>
      rw [hfold] at h
      cases h
      have hstep : ∀ next ∈ succ v, ∀ b b',
          (Settled succ b ∧ (∀ x ∈ v :: stack, x ∉ b) ∧ ∀ x ∈ black, x ∈ b) →
          (if next ∈ v :: stack then .error (next :: v :: stack)
            else if next ∈ b then .ok b else visit succ fuel next (v :: stack) b) = .ok b' →
          (Settled succ b' ∧ (∀ x ∈ v :: stack, x ∉ b') ∧ ∀ x ∈ black, x ∈ b') ∧
            next ∈ b' ∧ ∀ y, y ∈ b → y ∈ b' := by
        intro next hnext b b' hb hstep
        split_ifs at hstep with hnextGrey hnextBlack
        · cases hstep
          exact ⟨hb, hnextBlack, fun _ hy => hy⟩
        · have hless : unseen U (v :: stack ++ b) < unseen U (stack ++ black) := by
            refine unseen_lt ?_ hv (fun hmem => (mem_append.mp hmem).elim hgrey hwhite) (by simp)
            intro x hx
            rcases mem_append.mp hx with hx | hx
            · exact mem_append_left _ (mem_cons_of_mem _ hx)
            · exact mem_append_right _ (hb.2.2 x hx)
          obtain ⟨hsettled', hdisjoint', hdone, hkeep⟩ := ih hstep (hU v next hnext)
            hnextGrey hnextBlack hb.1 hb.2.1 (by omega)
          exact ⟨⟨hsettled', hdisjoint', fun x hx => hkeep x (hb.2.2 x hx)⟩, hdone, hkeep⟩
      obtain ⟨⟨hsettled₁, hdisjoint₁, hsub⟩, hdone, -⟩ := foldlM_ok hstep hfold
        ⟨hsettled, forall_mem_cons.mpr ⟨hwhite, hdisjoint⟩, fun _ hx => hx⟩
      have hv₁ : v ∉ black₁ := hdisjoint₁ v mem_cons_self
      refine ⟨⟨hdone, hv₁, hsettled₁⟩, ?_, mem_cons_self, fun x hx => mem_cons_of_mem _ (hsub x hx)⟩
      intro x hx hmem
      rcases mem_cons.mp hmem with rfl | hmem
      · exact hgrey hx
      · exact hdisjoint₁ x (mem_cons_of_mem _ hx) hmem

/-- The searches from all the elements that have a successor end exactly when there is no
cycle. -/
theorem visitAll_ok_iff {U : Finset α} (hU : ∀ x, ∀ y ∈ succ x, y ∈ U) {fuel : ℕ}
    {roots : List α} (hroots : ∀ x ∈ roots, x ∈ U) (hcover : ∀ x, succ x ≠ [] → x ∈ roots)
    (hfuel : U.card ≤ fuel) :
    (∃ black, visitAll succ fuel roots [] = .ok black) ↔ ∀ x, ¬TransGen (Edge succ) x x := by
  constructor
  · rintro ⟨black, h⟩ x hcycle
    have hstep : ∀ v ∈ roots, ∀ b b', Settled succ b →
        (if v ∈ b then Except.ok b else visit succ fuel v [] b) = .ok b' →
        Settled succ b' ∧ v ∈ b' ∧ ∀ y, y ∈ b → y ∈ b' := by
      intro v hv b b' hb hstep
      split_ifs at hstep with hdone
      · cases hstep
        exact ⟨hb, hdone, fun _ hy => hy⟩
      · obtain ⟨hsettled, -, hdone', hkeep⟩ := visit_ok hU hstep (hroots v hv)
          not_mem_nil hdone hb (fun _ hx => absurd hx not_mem_nil)
          ((Finset.card_filter_le _ _).trans hfuel)
        exact ⟨hsettled, hdone', hkeep⟩
    obtain ⟨hsettled, hall, -⟩ := foldlM_ok hstep h trivial
    obtain ⟨y, hedge, -⟩ := TransGen.head'_iff.mp hcycle
    exact hsettled.acyclic (hall x (hcover x (ne_nil_of_mem hedge))) hcycle
  · intro hacyclic
    cases h : visitAll succ fuel roots [] with
    | ok black => exact ⟨black, rfl⟩
    | error p =>
      obtain ⟨v, -, black, hstep⟩ := foldlM_error h
      split_ifs at hstep
      obtain ⟨x, hx⟩ := visit_error hstep (isChain_singleton v)
      exact absurd hx (hacyclic x)

end Signari.GraphSearch
