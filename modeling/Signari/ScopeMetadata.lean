import Signari.EssentialParameters
import Signari.JsonExtents

/-!
# The scope parameter under a policy

`scope` is published as one text of space-separated values, and the operators work on a list
of them. `ApplyPolicy` splits the text before the operators and joins the list after them, but
only where a text was published. A list that the policy supplies to a parameter that is absent
goes out as a list, and the values a policy adds are joined as they are, whether or not each of
them is one word.
-/
namespace Signari.ScopeMetadata
open GoStrings IndexedChecks JsonValues JsonExtents KeyedMaps MetadataPolicy MetadataHierarchy List
open EssentialParameters

/-- The space-separated values of a text. -/
def words (s : String) : List Json := (fields s).map .str

/-- A value of a list that survives joining and splitting. -/
def Word (v : Json) : Prop :=
  ∃ w : String, v = .str w ∧ w.toList ≠ [] ∧ ∀ c ∈ w.toList, isSpace c = false

/-- The values an operator lists: an array's elements, or a text's values. -/
def listed : Json → Option (List Json)
  | .arr vs => some vs
  | .str s => some (words s)
  | _ => none

/-- The values of a scope text meet the operators of its policy. -/
structure Meets (pp : ParamPolicy) (s : String) : Prop where
  add : ∀ c, pp.lookup .add = some c → ∃ vs, listed c = some vs ∧ Within vs (words s)
  subsetOf : ∀ c, pp.lookup .subsetOf = some c → ∃ vs, listed c = some vs ∧ Within (words s) vs
  supersetOf : ∀ c, pp.lookup .supersetOf = some c → ∃ vs, listed c = some vs ∧ Within vs (words s)
  value : ∀ c, pp.lookup .value = some c →
    ∃ vs, listed c = some vs ∧ Within vs (words s) ∧ Within (words s) vs

/-- The result is absent, or a text whose values meet the operators. -/
def Wire (pp : ParamPolicy) (v : Option Json) : Prop :=
  v = none ∨ ∃ s, v = some (.str s) ∧ Meets pp s

/-- Whatever list the policy supplies is supplied where a text was published, and one word a
value; what it supplies besides is a text or null. -/
def Supplies (pp : ParamPolicy) (published : Option String) : Prop :=
  match pp.lookup .value, published with
  | some .null, _ => True
  | some (.str _), _ => True
  | some (.arr vs), some _ => ∀ v ∈ vs, Word v
  | some _, _ => False
  | none, some _ => ∀ vs, pp.lookup .add = some (.arr vs) → ∀ v ∈ vs, Word v
  | none, none => pp.lookup .add = none ∧
      ∀ d, pp.lookup .default = some d → d = .null ∨ ∃ s, d = .str s

/-! ## Words -/

theorem words_word (s : String) : ∀ v ∈ words s, Word v := by
  intro v hv
  obtain ⟨w, hw, rfl⟩ := mem_map.mp hv
  exact ⟨w, rfl, fieldsBy_mem hw⟩

theorem mem_of_containsValue {vs : List Json} (hvs : ∀ v ∈ vs, Word v) {v : Json}
    (h : containsValue vs v = true) : v ∈ vs := by
  obtain ⟨x, hx, hkey⟩ := containsValue_iff.mp h
  obtain ⟨w, rfl, -⟩ := hvs x hx
  rwa [marshal_str hkey.symm]

theorem word_of_within {vs : List Json} {s : String} (h : Within vs (words s)) : ∀ v ∈ vs, Word v :=
  fun v hv => words_word s v (mem_of_containsValue (words_word s) (h v hv))

theorem words_join {vs : List Json} (h : ∀ v ∈ vs, Word v) :
    ∃ s, joinScopeValue (.arr vs) = .str s ∧ words s = vs := by
  obtain ⟨ws, rfl, hws⟩ : ∃ ws : List String, vs = ws.map .str ∧
      ∀ w ∈ ws, w.toList ≠ [] ∧ ∀ c ∈ w.toList, isSpace c = false := by
    induction vs with
    | nil => exact ⟨[], rfl, by simp⟩
    | cons v vs ih =>
      obtain ⟨w, rfl, hw⟩ := h v mem_cons_self
      obtain ⟨ws, rfl, hws⟩ := ih fun v hv => h v (mem_cons_of_mem _ hv)
      exact ⟨w :: ws, rfl, forall_mem_cons.mpr ⟨hw, hws⟩⟩
  refine ⟨join ws " ", ?_, ?_⟩
  · rw [joinScopeValue, filterMap_map]
    exact congrArg (fun l => Json.str (join l " ")) (by simp)
  · exact congrArg (List.map Json.str) (fieldsBy_join (c := ' ') rfl ws hws)

/-! ## What the operators leave -/

section
variable {entityType param : String} {pp : ParamPolicy} {val out : Option Json}

theorem applyOperators_value (hpp : Compatible pp) {c : Json} (hc : pp.lookup .value = some c)
    (h : applyOperators entityType param pp operatorOrder val = .ok out) :
    out = if c.isNull then none else some c := by
  have hv := compatible_valid hpp
  obtain ⟨v₁, v₂, v₃, h₁, h₂, h₃, -, h₅, -, -⟩ := applyOperators_stages h
  rcases applyAt_value h₁ with ⟨hnone, -⟩ | ⟨c', hc', rfl⟩
  · rw [hc] at hnone
    cases hnone
  · obtain rfl : c = c' := by simpa [hc] using hc'
    cases hn : c.isNull with
    | true =>
      obtain rfl := isNull_iff.mp hn
      exact null_survives hv hc h₂ h₃ h₅
    | false =>
      have hne : c ≠ .null := fun he => by simp [isNull_iff.mpr he] at hn
      rw [hn] at h₂
      exact value_survives hv hc hne h₂ h₃ h₅

theorem mem_union {a b : List Json} {v : Json} (h : v ∈ union a b) : v ∈ a ∨ v ∈ b := by
  induction b generalizing a with
  | nil => exact .inl h
  | cons w ws ih =>
    rw [union] at h
    split_ifs at h
    · exact (ih h).imp_right (mem_cons_of_mem w)
    · rcases ih h with hmem | hmem
      · rcases mem_append.mp hmem with hmem | hmem
        · exact .inl hmem
        · exact .inr (mem_singleton.mp hmem ▸ mem_cons_self)
      · exact .inr (mem_cons_of_mem w hmem)

/-- Without `value`, what is left of a list is of the list or was added to it. -/
theorem applyOperators_list (hvalue : pp.lookup .value = none) {xs : List Json}
    (h : applyOperators entityType param pp operatorOrder (some (.arr xs)) = .ok out) :
    ∃ ys, out = some (.arr ys) ∧
      ∀ y ∈ ys, y ∈ xs ∨ ∃ adds, pp.lookup .add = some (.arr adds) ∧ y ∈ adds := by
  obtain ⟨v₁, v₂, v₃, h₁, h₂, h₃, -, h₅, -, -⟩ := applyOperators_stages h
  obtain rfl : v₁ = some (.arr xs) := by
    rcases applyAt_value h₁ with ⟨-, rfl⟩ | ⟨c, hc, -⟩
    · rfl
    · rw [hvalue] at hc
      cases hc
  obtain ⟨zs, rfl, hzs⟩ : ∃ zs, v₂ = some (.arr zs) ∧
      ∀ z ∈ zs, z ∈ xs ∨ ∃ adds, pp.lookup .add = some (.arr adds) ∧ z ∈ adds := by
    rcases applyAt_add h₂ with ⟨-, rfl⟩ | ⟨adds, hadd, ⟨hnone, -⟩ | ⟨cur, hcur, rfl⟩⟩
    · exact ⟨xs, rfl, fun z hz => .inl hz⟩
    · cases hnone
    · cases hcur
      exact ⟨_, rfl, fun z hz => (mem_union hz).imp_right fun h => ⟨adds, hadd, h⟩⟩
  obtain rfl : v₃ = some (.arr zs) := by
    rcases applyAt_default h₃ with ⟨-, rfl⟩ | ⟨_, -, rfl⟩ <;> rfl
  rcases applyAt_subsetOf h₅ with ⟨-, rfl⟩ | ⟨_, -, ⟨hnone, -⟩ | ⟨allowed, cur, -, hcur, rfl⟩⟩
  · exact ⟨zs, rfl, hzs⟩
  · cases hnone
  · cases hcur
    exact ⟨_, rfl, fun y hy => hzs y (mem_filter.mp hy).1⟩

/-- Without `value`, an absent parameter takes the list added, else the default, of which
`subset_of` may keep a part. -/
theorem applyOperators_absent (hvalue : pp.lookup .value = none)
    (h : applyOperators entityType param pp operatorOrder none = .ok out) :
    (pp.lookup .add ≠ none ∧ ∃ ys, out = some (.arr ys)) ∨
      pp.lookup .add = none ∧ (out = pp.lookup .default ∨
        ∃ xs ys, pp.lookup .default = some (.arr xs) ∧ out = some (.arr ys)) := by
  obtain ⟨v₁, v₂, v₃, h₁, h₂, h₃, -, h₅, -, -⟩ := applyOperators_stages h
  obtain rfl : v₁ = none := by
    rcases applyAt_value h₁ with ⟨-, rfl⟩ | ⟨c, hc, -⟩
    · rfl
    · rw [hvalue] at hc
      cases hc
  rcases applyAt_add h₂ with ⟨hadd, rfl⟩ | ⟨adds, hadd, ⟨-, rfl⟩ | ⟨cur, hcur, -⟩⟩
  · refine .inr ⟨hadd, ?_⟩
    have hdefault : v₃ = pp.lookup .default := by
      rcases applyAt_default h₃ with ⟨hnone, rfl⟩ | ⟨c, hc, rfl⟩
      · exact hnone.symm
      · exact hc.symm
    subst hdefault
    rcases applyAt_subsetOf h₅ with ⟨-, rfl⟩ | ⟨_, -, ⟨hnone, rfl⟩ | ⟨_, cur, -, hcur, rfl⟩⟩
    · exact .inl rfl
    · exact .inl hnone.symm
    · exact .inr ⟨cur, _, hcur, rfl⟩
  · refine .inl ⟨by simp [hadd], ?_⟩
    obtain rfl : v₃ = some (.arr adds) := by
      rcases applyAt_default h₃ with ⟨-, rfl⟩ | ⟨_, -, rfl⟩ <;> rfl
    rcases applyAt_subsetOf h₅ with ⟨-, rfl⟩ | ⟨_, -, ⟨hnone, -⟩ | ⟨_, _, -, -, rfl⟩⟩
    · exact ⟨adds, rfl⟩
    · cases hnone
    · exact ⟨_, rfl⟩
  · cases hcur

end

/-! ## The wire -/

theorem wire_published {pp : ParamPolicy} {v : Json} :
    Wire pp (published (some v)) ↔ v = .null ∨ ∃ s, v = .str s ∧ Meets pp s := by
  cases v with
  | null => simp [Wire, published, Json.isNull]
  | _ => simp [Wire, published, Json.isNull]

theorem inside_listed {a : Json} {vs : List Json} (h : Inside a (.arr vs)) :
    ∃ xs, listed a = some xs ∧ Within xs vs := by
  obtain ⟨xs, ys, rfl, hys, hwithin⟩ := h
  cases hys
  exact ⟨xs, rfl, hwithin⟩

theorem meets_text {pp : ParamPolicy} (hpp : Compatible pp) {s : String}
    (hvalue : pp.lookup .value = some (.str s)) : Meets pp s where
  add a ha := by
    obtain ⟨_, _, _, hstr, -⟩ := hpp.addValue _ a hvalue ha
    cases hstr
  subsetOf b hb := by
    obtain ⟨_, _, hstr, -⟩ := hpp.valueSubset _ b hvalue (by simp) hb
    cases hstr
  supersetOf b hb := by
    obtain ⟨_, _, -, hstr, -⟩ := hpp.supersetValue _ b hvalue (by simp) hb
    cases hstr
  value c hc := by
    obtain rfl : Json.str s = c := by simpa [hvalue] using hc
    exact ⟨words s, rfl, within_of_subset (Subset.refl _), within_of_subset (Subset.refl _)⟩

theorem meets_list {pp : ParamPolicy} (hpp : Compatible pp) {s : String}
    (hvalue : pp.lookup .value = some (.arr (words s))) : Meets pp s where
  add a ha := inside_listed (hpp.addValue _ a hvalue ha)
  subsetOf b hb := by
    obtain ⟨xs, ys, hxs, rfl, hwithin⟩ := hpp.valueSubset _ b hvalue (by simp) hb
    cases hxs
    exact ⟨ys, rfl, hwithin⟩
  supersetOf b hb := inside_listed (hpp.supersetValue _ b hvalue (by simp) hb)
  value c hc := by
    obtain rfl : Json.arr (words s) = c := by simpa [hvalue] using hc
    exact ⟨words s, rfl, within_of_subset (Subset.refl _), within_of_subset (Subset.refl _)⟩

theorem meets_left {pp : ParamPolicy} (hvalue : pp.lookup .value = none) {s : String}
    (h : Honours pp (some (.arr (words s)))) : Meets pp s where
  add a ha := by
    obtain ⟨adds, vs, rfl, hvs, hwithin⟩ := h.add a ha
    cases hvs
    exact ⟨adds, rfl, hwithin⟩
  subsetOf b hb := by
    obtain ⟨allowed, vs, rfl, hvs, hwithin⟩ := h.subsetOf b _ hb rfl
    cases hvs
    exact ⟨allowed, rfl, hwithin⟩
  supersetOf b hb := by
    obtain ⟨required, vs, rfl, hvs, hwithin⟩ := h.supersetOf b _ hb rfl
    cases hvs
    exact ⟨required, rfl, hwithin⟩
  value c hc := by
    rw [hvalue] at hc
    cases hc

theorem meets_default {pp : ParamPolicy} (hvalue : pp.lookup .value = none) {s : String}
    (hadd : pp.lookup .add = none) (h : Honours pp (some (.str s))) : Meets pp s where
  add a ha := by
    rw [hadd] at ha
    cases ha
  subsetOf b hb := by
    obtain ⟨_, _, _, hstr, -⟩ := h.subsetOf b _ hb rfl
    cases hstr
  supersetOf b hb := by
    obtain ⟨_, _, _, hstr, -⟩ := h.supersetOf b _ hb rfl
    cases hstr
  value c hc := by
    rw [hvalue] at hc
    cases hc

section
variable {entityType : String} {pp : ParamPolicy} {r : Option Json}

theorem wire_text (hpp : Compatible pp) {s : String}
    (h : applyOperators entityType "scope" pp operatorOrder (some (splitScopeValue s)) = .ok r) :
    Wire pp (published (r.map joinScopeValue)) ↔ Supplies pp (some s) := by
  cases hvalue : pp.lookup .value with
  | some c =>
    obtain rfl := applyOperators_value hpp hvalue h
    cases c with
    | null => simp [Supplies, hvalue, Json.isNull, published, Wire]
    | str t =>
      simp only [Json.isNull, Bool.false_eq_true, if_false, Option.map_some, wire_published,
        joinScopeValue, Supplies, hvalue, iff_true]
      exact .inr ⟨t, rfl, meets_text hpp hvalue⟩
    | arr vs =>
      simp only [Json.isNull, Bool.false_eq_true, if_false, Option.map_some, wire_published,
        Supplies, hvalue]
      constructor
      · rintro (hnull | ⟨t, -, hmeets⟩)
        · simp [joinScopeValue] at hnull
        · obtain ⟨xs, hxs, hwithin, -⟩ := hmeets.value _ hvalue
          cases hxs
          exact word_of_within hwithin
      · intro hwords
        obtain ⟨t, ht, rfl⟩ := words_join hwords
        exact .inr ⟨t, ht, meets_list hpp hvalue⟩
    | bool b | num n | obj ms =>
      simp [Supplies, hvalue, Json.isNull, wire_published, joinScopeValue]
  | none =>
    obtain ⟨ys, rfl, hys⟩ := applyOperators_list hvalue h
    have hhonours := applyOperators_honours (compatible_valid hpp) h
    simp only [Option.map_some, wire_published, Supplies, hvalue]
    constructor
    · rintro (hnull | ⟨t, -, hmeets⟩) vs hadd
      · simp [joinScopeValue] at hnull
      · obtain ⟨xs, hxs, hwithin⟩ := hmeets.add _ hadd
        cases hxs
        exact word_of_within hwithin
    · intro hwords
      have hall : ∀ y ∈ ys, Word y := fun y hy => by
        rcases hys y hy with hword | ⟨adds, hadd, hmem⟩
        · exact words_word s y hword
        · exact hwords adds hadd y hmem
      obtain ⟨t, ht, rfl⟩ := words_join hall
      exact .inr ⟨t, ht, meets_left hvalue hhonours⟩

theorem wire_absent (hpp : Compatible pp)
    (h : applyOperators entityType "scope" pp operatorOrder none = .ok r) :
    Wire pp (published r) ↔ Supplies pp none := by
  cases hvalue : pp.lookup .value with
  | some c =>
    obtain rfl := applyOperators_value hpp hvalue h
    cases c with
    | null => simp [Supplies, hvalue, Json.isNull, published, Wire]
    | str t =>
      simp only [Json.isNull, Bool.false_eq_true, if_false, wire_published, Supplies, hvalue,
        iff_true]
      exact .inr ⟨t, rfl, meets_text hpp hvalue⟩
    | _ => simp [Supplies, hvalue, Json.isNull, wire_published]
  | none =>
    have hhonours := applyOperators_honours (compatible_valid hpp) h
    simp only [Supplies, hvalue]
    rcases applyOperators_absent hvalue h with ⟨hadd, ys, rfl⟩ | ⟨hadd, hr⟩
    · simp [wire_published, hadd]
    · rcases hr with rfl | ⟨xs, ys, hdefault, rfl⟩
      · cases hdefault : pp.lookup .default with
        | none => simp [Wire, published, hadd]
        | some d =>
          rw [wire_published]
          simp only [hadd, Option.some.injEq, forall_eq', true_and]
          refine or_congr_right (exists_congr fun s => and_iff_left_of_imp ?_)
          rintro rfl
          rw [hdefault] at hhonours
          exact meets_default hvalue hadd hhonours
      · simp [wire_published, hdefault]

end

/-- Under a validated policy on `scope`, the parameter being absent or a text, the result of a
successful application is absent or a text that meets the operators exactly when the policy
supplies no list but to a published text and no value that is not one word. -/
theorem scope_wire_iff (entityType : String) (tp : TypePolicy) (pp : ParamPolicy)
    (hpp : tp.lookup "scope" = some pp)
    (hvalid : validateParamPolicy entityType "scope" pp = .ok ())
    (metadata out : Metadata) (text : Option String)
    (htext : metadata.lookup "scope" = text.map .str)
    (hout : applyPolicy entityType metadata (some tp) = .ok out) :
    Wire pp (out.lookup "scope") ↔ Supplies pp text := by
  have hcompatible := validateParamPolicy_iff.mp hvalid
  obtain ⟨r, happly, hresult⟩ := applyPolicy_lookup hout hpp
  rw [hresult]
  cases text with
  | none =>
    rw [Option.map_none] at htext
    rw [htext] at happly ⊢
    exact wire_absent hcompatible happly
  | some s =>
    rw [Option.map_some] at htext
    rw [htext] at happly ⊢
    exact wire_text hcompatible happly

/-- A policy that adds `email` to the scope. -/
def addsEmail : ParamPolicy := AList.insert .add (.arr [.str "email"]) ∅

/-- A client that publishes no scope gets a list for one. -/
theorem scope_left_list : validateParamPolicy "openid_relying_party" "scope" addsEmail = .ok () ∧
    ∃ out, applyPolicy "openid_relying_party" ∅ (some (AList.insert "scope" addsEmail ∅)) =
      .ok out ∧ ¬Wire addsEmail (out.lookup "scope") := by
  refine ⟨rfl, _, rfl, ?_⟩
  rintro (hnone | ⟨s, hs, -⟩)
  · cases hnone
  · cases hs

theorem scope_wire_iff_published :
    let metadata : Metadata := AList.insert "scope" (.str "openid profile") ∅
    let out := match applyPolicy "openid_relying_party" metadata
        (some (AList.insert "scope" addsEmail ∅)) with
      | .ok out => out
      | .error _ => ∅
    Wire addsEmail (out.lookup "scope") ↔ Supplies addsEmail (some "openid profile") :=
  scope_wire_iff "openid_relying_party" (AList.insert "scope" addsEmail ∅) addsEmail
    (AList.lookup_insert _) rfl _ _ (some "openid profile") (AList.lookup_insert _) rfl

end Signari.ScopeMetadata
