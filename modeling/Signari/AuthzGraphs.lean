import Mathlib.Data.String.Basic
import Signari.AuthzModel
import Signari.GraphSearch

/-!
# The graph of relations

The relations of a type of `internal/authzen/model.go` name the relations that imply them, as its
author wrote them: `Expand` searches that graph from one relation, `cycle` decides whether it has a
cycle at all.

`cycle` keeps one colour for each relation and the path to the current one, where
`GraphSearch.visit` has a stack and the finished elements; `Coloured` relates the two.
-/
namespace Signari.AuthzGraphs
open GoStrings KeyedMaps AuthzModel GraphSearch Relation List

/-- `from_` is one of the relations that `rel` says imply it. -/
def ImpliedBy (t : ObjectType) (rel from_ : String) : Prop := from_ ∈ t.implies rel

section
variable {t : ObjectType} {rel from_ : String}

theorem mem_relations (h : ImpliedBy t rel from_) : rel ∈ t.relations := by
  rw [ImpliedBy, ObjectType.implies] at h
  cases hrel : t.relations.lookup rel with
  | none => simp [hrel] at h
  | some froms => exact AList.lookup_isSome.mp (hrel ▸ rfl)

theorem mem_names_of_mem_relations (h : rel ∈ t.relations) : rel ∈ t.names := by
  obtain ⟨froms, hfroms⟩ := Option.isSome_iff_exists.mp (AList.lookup_isSome.mpr h)
  exact mem_flatMap.mpr
    ⟨⟨rel, froms⟩, AList.mem_lookup_iff.mp hfroms, mem_cons_self⟩

theorem mem_names (h : from_ ∈ t.implies rel) : from_ ∈ t.names := by
  rw [ObjectType.implies] at h
  cases hrel : t.relations.lookup rel with
  | none => simp [hrel] at h
  | some froms =>
    rw [hrel] at h
    exact mem_flatMap.mpr
      ⟨⟨rel, froms⟩, AList.mem_lookup_iff.mp hrel, mem_cons_of_mem _ h⟩

/-! ## Expanding a relation -/

theorem expandFrom_eq (t : ObjectType) (fuel : ℕ) (seen queue : List String) :
    t.expandFrom fuel seen queue = worklist t.implies fuel seen queue := by
  induction fuel generalizing seen queue with
  | zero => rfl
  | succ fuel ih =>
    cases queue with
    | nil => rfl
    | cons cur queue => rw [ObjectType.expandFrom, worklist, foldl_enqueue, ih]

/-- The loop of `Expand` ends, with `out` as the relations seen. -/
def Expands (t : ObjectType) (rel : String) (out : List String) : Prop :=
  Finishes t.implies [rel] [rel] out

theorem expand_finishes (t : ObjectType) (rel : String) :
    ∃ out, Expands t rel out ∧ t.expand rel = out.mergeSort fun a b => decide (a ≤ b) := by
  refine ⟨t.expandFrom (t.names.length + 1) [rel] [rel], ?_, rfl⟩
  have hcard : unseen t.names.toFinset [rel] ≤ t.names.length :=
    (Finset.card_filter_le _ _).trans (toFinset_card_le _)
  rw [Expands, expandFrom_eq]
  refine worklist_finishes (U := t.names.toFinset) ?_ (nodup_singleton rel) ?_
  · exact fun x y hy => mem_toFinset.mpr (mem_names hy)
  · simp only [length_singleton]
    omega

theorem mem_expand {r : String} : r ∈ t.expand rel ↔ ReflTransGen (ImpliedBy t) rel r := by
  obtain ⟨out, hfinishes, hexpand⟩ := expand_finishes t rel
  rw [hexpand, mem_mergeSort]
  exact (Finishes.gathered hfinishes (.init rel)).mem_iff

end

/-! ## The relations that grant an action -/

theorem sort_pairwise {xs : List String} (h : xs.Nodup) :
    (xs.mergeSort fun a b => decide (a ≤ b)).Pairwise (· < ·) := by
  have hsorted : (xs.mergeSort fun a b => decide (a ≤ b)).Pairwise (· ≤ ·) := by
    refine (pairwise_mergeSort ?_ ?_ xs).imp fun h => of_decide_eq_true h
    · intro a b c hab hbc
      exact decide_eq_true ((of_decide_eq_true hab).trans (of_decide_eq_true hbc))
    · intro a b
      rw [Bool.or_eq_true, decide_eq_true_eq, decide_eq_true_eq]
      exact le_total a b
  have hnodup := ((mergeSort_perm xs fun a b => decide (a ≤ b)).nodup_iff).mpr h
  exact (hsorted.and hnodup).imp fun h => lt_of_le_of_ne h.1 h.2

theorem foldl_expand {t : ObjectType} {grants out : List String} (hout : out.Nodup) :
    let all := grants.foldl (fun out rel => (t.expand rel).foldl (fun out r =>
      if r ∈ out then out else out ++ [r]) out) out
    all.Nodup ∧ ∀ r, r ∈ all ↔ r ∈ out ∨ ∃ g ∈ grants, ReflTransGen (ImpliedBy t) g r := by
  induction grants generalizing out with
  | nil => simpa using hout
  | cons g grants ih =>
    simp only [foldl_cons, foldl_fresh] at ih ⊢
    obtain ⟨hnodup, hmem⟩ := ih (nodup_append_fresh hout)
    refine ⟨hnodup, fun r => ?_⟩
    rw [hmem, mem_append, mem_fresh, mem_expand, exists_mem_cons_iff]
    by_cases hr : r ∈ out
    · simp [hr]
    · simp [hr]

/-- On every graph of relations `Expand` ends, and an action is granted by the relations it
names and those they are implied by, each listed once and in order. -/
theorem relationsFor_exact (m : Model) (typ act : String) {t : ObjectType} {grants : List String}
    (htype : m.types.lookup typ = some t) (hgrants : t.permissions.lookup act = some grants) :
    (∃ out, m.relationsFor typ act = some out ∧ out.Pairwise (· < ·) ∧
      ∀ r, r ∈ out ↔ ∃ g ∈ grants, ReflTransGen (ImpliedBy t) g r) ∧
    ∀ rel, ∃ out, Expands t rel out ∧ t.expand rel = out.mergeSort fun a b => decide (a ≤ b) := by
  have hout : m.relationsFor typ act = some ((grants.foldl (fun out rel =>
      (t.expand rel).foldl (fun out r => if r ∈ out then out else out ++ [r]) out) []).mergeSort
      fun a b => decide (a ≤ b)) := by
    simp only [Model.relationsFor, htype, hgrants, Option.bind_eq_bind, Option.bind_some]
  obtain ⟨hnodup, hmem⟩ := @foldl_expand t grants [] nodup_nil
  refine ⟨⟨_, hout, sort_pairwise hnodup, fun r => ?_⟩, expand_finishes t⟩
  rw [mem_mergeSort, hmem]
  simp

def document : ObjectType where
  relations := [⟨"viewer", ["editor", "auditor"]⟩, ⟨"editor", ["owner"]⟩,
    ⟨"auditor", ["owner"]⟩, ⟨"owner", []⟩].toAList
  permissions := AList.insert "read" ["viewer"] ∅
  require := ∅

theorem relationsFor_exact_sample :
    let m : Model := ⟨AList.insert "document" document ∅, ∅, []⟩
    (∃ out, m.relationsFor "document" "read" = some out ∧ out.Pairwise (· < ·) ∧
      ∀ r, r ∈ out ↔ ∃ g ∈ ["viewer"], ReflTransGen (ImpliedBy document) g r) ∧
    ∀ rel, ∃ out, Expands document rel out ∧
      document.expand rel = out.mergeSort fun a b => decide (a ≤ b) :=
  relationsFor_exact _ "document" "read" (AList.lookup_insert _) (AList.lookup_insert _)

/-! ## Cycles -/

/-- The state of `cycle` holds a stack and finished relations: each is coloured, and the path
is the stack from its bottom. -/
structure Coloured (s : Search) (stack black : List String) : Prop where
  path : s.path = stack.reverse
  colour : ∀ x, s.colour x =
    if x ∈ stack then .grey else if x ∈ black then .black else .white

def Agrees (stack : List String) : String × Search → Except (List String) (List String) → Prop
  | r, .error _ => r.1 ≠ ""
  | r, .ok black => r.1 = "" ∧ Coloured r.2 stack black

theorem foldl_agrees {f : String × Search → String → String × Search}
    {g : List String → String → Except (List String) (List String)} {stack : List String}
    (hstop : ∀ r x, r.1 ≠ "" → f r x = r)
    (hstep : ∀ s black x, Coloured s stack black → Agrees stack (f ("", s) x) (g black x))
    {s : Search} {black : List String} (xs : List String) (h : Coloured s stack black) :
    Agrees stack (xs.foldl f ("", s)) (xs.foldlM g black) := by
  induction xs generalizing s black with
  | nil => exact ⟨rfl, h⟩
  | cons x xs ih =>
    have hx := hstep s black x h
    rw [foldl_cons, foldlM_cons]
    cases hg : g black x with
    | error p =>
      rw [hg] at hx
      rw [foldl_fixed' fun z => hstop _ z hx]
      exact hx
    | ok black' =>
      rw [hg] at hx
      have hpair : f ("", s) x = ("", (f ("", s) x).2) := Prod.ext hx.1 rfl
      rw [hpair]
      exact ih hx.2

theorem Coloured.push {s : Search} {v : String} {stack black : List String}
    (h : Coloured s stack black) :
    Coloured ⟨Function.update s.colour v .grey, s.path ++ [v]⟩ (v :: stack) black where
  path := by rw [h.path, reverse_cons]
  colour x := by
    by_cases hx : x = v
    · simp [hx]
    · simp [hx, h.colour]

theorem Coloured.pop {s : Search} {v : String} {stack black : List String}
    (h : Coloured s (v :: stack) black) (hv : v ∉ stack) :
    Coloured ⟨Function.update s.colour v .black, s.path.dropLast⟩ stack (v :: black) where
  path := by rw [h.path, reverse_cons, dropLast_concat]
  colour x := by
    by_cases hx : x = v
    · simp [hx, hv]
    · simp [hx, h.colour]

theorem join_ne_empty {xs : List String} {next sep : String} (hxs : xs ≠ []) (hsep : sep ≠ "") :
    join (xs ++ [next]) sep ≠ "" := by
  cases xs with
  | nil => exact absurd rfl hxs
  | cons p ps =>
    cases ps with
    | nil => simp [join, hsep]
    | cons q qs => simp [join, hsep]

theorem Agrees.finish {v : String} {stack : List String} {r : String × Search}
    {e : Except (List String) (List String)} (h : Agrees (v :: stack) r e) (hv : v ∉ stack) :
    Agrees stack
      (if r.1 ≠ "" then r else ("", ⟨Function.update r.2.colour v .black, r.2.path.dropLast⟩))
      (e >>= fun black => .ok (v :: black)) := by
  cases e with
  | error p =>
    have hfound : r.1 ≠ "" := h
    rw [if_pos hfound]
    exact hfound
  | ok black =>
    rw [if_neg (not_not.mpr h.1)]
    exact ⟨rfl, h.2.pop hv⟩

theorem walk_agrees (t : ObjectType) (fuel : ℕ) {v : String} {s : Search}
    {stack black : List String} (h : Coloured s stack black) (hv : v ∉ stack) :
    Agrees stack (t.walk fuel v s) (visit t.implies fuel v stack black) := by
  induction fuel generalizing v s stack black with
  | zero => exact ⟨rfl, h⟩
  | succ fuel ih =>
    rw [ObjectType.walk, visit]
    refine Agrees.finish (foldl_agrees (fun r x hr => if_pos hr) ?_ (t.implies v) h.push) hv
    intro s' black' next hs'
    simp only [ne_eq, not_true_eq_false, if_false, hs'.colour]
    by_cases hgrey : next ∈ v :: stack
    · simp only [if_pos hgrey]
      exact join_ne_empty (by simp [hs'.path]) (by decide)
    · by_cases hblack : next ∈ black'
      · simp only [if_neg hgrey, if_pos hblack]
        exact ⟨rfl, hs'⟩
      · simp only [if_neg hgrey, if_neg hblack]
        exact ih hs' hgrey

/-- The search for a cycle comes back empty exactly when the graph of relations has none. -/
theorem cycle_eq_empty_iff (t : ObjectType) :
    t.cycle = "" ↔ ∀ rel, ¬TransGen (ImpliedBy t) rel rel := by
  have hagrees : Agrees [] ((sortedKeys id t.relations).foldl (fun acc rel =>
      if acc.1 ≠ "" then acc
      else if acc.2.colour rel = .white then t.walk (t.names.length + 1) rel acc.2
      else acc) ("", {}))
      (visitAll t.implies (t.names.length + 1) (sortedKeys id t.relations) []) := by
    refine foldl_agrees (fun r x hr => if_pos hr) ?_ _ ⟨rfl, fun x => by simp⟩
    intro s black rel hs
    simp only [ne_eq, not_true_eq_false, if_false, hs.colour, not_mem_nil]
    by_cases hblack : rel ∈ black
    · simp only [if_pos hblack, reduceCtorEq, if_false]
      exact ⟨rfl, hs⟩
    · simp only [if_neg hblack, if_true]
      exact walk_agrees t _ hs not_mem_nil
  have hexact : (∃ black, visitAll t.implies (t.names.length + 1) (sortedKeys id t.relations) [] =
      .ok black) ↔ ∀ x, ¬TransGen (Edge t.implies) x x := visitAll_ok_iff
    (fun x y hy => mem_toFinset.mpr (mem_names hy))
    (fun x hx => mem_toFinset.mpr (mem_names_of_mem_relations (mem_sortedKeys.mp hx)))
    (fun x hx => mem_sortedKeys.mpr <|
      have ⟨y, hy⟩ := exists_mem_of_ne_nil _ hx
      mem_relations hy)
    ((toFinset_card_le _).trans (Nat.le_succ _))
  refine Iff.trans ?_ hexact
  rw [ObjectType.cycle]
  cases hvisit : visitAll t.implies (t.names.length + 1) (sortedKeys id t.relations) [] with
  | error p =>
    rw [hvisit] at hagrees
    exact iff_of_false hagrees (by simp)
  | ok black =>
    rw [hvisit] at hagrees
    exact iff_of_true hagrees.1 ⟨black, rfl⟩

end Signari.AuthzGraphs
