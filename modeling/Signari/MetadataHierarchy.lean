import Signari.MetadataPolicy

/-!
# No subordinate widens what a superior forbade

`Honours` says what a parameter policy demands of a published value. Applying a valid
policy produces a value that honours it (`applyOperators_honours`), and a merged policy
demands whatever each of the two merged into it demands (`mergeParamPolicy_stricter`).
Together they give the hierarchy principle for chains of any length: metadata that came
out of the resolved policy honours the policy of every superior on the chain.

The application order matters in one place. `subset_of` trims a value after `value`
and `add` have written it, and only the combination checks, made again after
every merge, ensure that it trims nothing they wrote.
-/
namespace Signari.MetadataHierarchy
open GoStrings IndexedChecks JsonValues KeyedMaps MetadataPolicy List

theorem containsValue_iff {list : List Json} {v : Json} :
    containsValue list v = true ↔ ∃ x ∈ list, valueKey x = valueKey v := by
  simp [containsValue]

def Within (a b : List Json) : Prop := ∀ v ∈ a, containsValue b v = true

theorem containsValue_of_within {a b : List Json} (h : Within a b) {v : Json}
    (hv : containsValue a v = true) : containsValue b v = true := by
  obtain ⟨x, hx, hk⟩ := containsValue_iff.mp hv
  obtain ⟨y, hy, hk'⟩ := containsValue_iff.mp (h x hx)
  exact containsValue_iff.mpr ⟨y, hy, hk'.trans hk⟩

theorem Within.trans {a b c : List Json} (h₁ : Within a b) (h₂ : Within b c) : Within a c :=
  fun v hv => containsValue_of_within h₂ (h₁ v hv)

theorem within_of_subset {a b : List Json} (h : a ⊆ b) : Within a b :=
  fun v hv => containsValue_iff.mpr ⟨v, h hv, rfl⟩

theorem subset_union (a b : List Json) : a ⊆ union a b := by
  induction b generalizing a with
  | nil => exact Subset.refl _
  | cons v vs ih =>
    rw [union]
    split_ifs
    · exact ih a
    · exact Subset.trans (subset_append_left a [v]) (ih _)

theorem within_union_right (a b : List Json) : Within b (union a b) := by
  induction b generalizing a with
  | nil => simp [Within]
  | cons v vs ih =>
    rw [union]
    split_ifs with hc
    · refine forall_mem_cons.mpr ⟨?_, ih a⟩
      exact containsValue_of_within (within_of_subset (subset_union a vs)) hc
    · refine forall_mem_cons.mpr ⟨?_, ih _⟩
      exact within_of_subset (subset_union (a ++ [v]) vs) v (by simp)

theorem union_eq_of_within {a b : List Json} (h : Within b a) : union a b = a := by
  induction b with
  | nil => rfl
  | cons v vs ih =>
    rw [union, if_pos (h v (by simp))]
    exact ih fun w hw => h w (by simp [hw])

theorem intersection_within (a b : List Json) :
    Within (intersection a b) a ∧ Within (intersection a b) b := by
  constructor
  · exact within_of_subset (filter_subset_self _)
  · intro v hv
    exact (mem_filter.mp hv).2

theorem intersection_eq_of_within {a b : List Json} (h : Within a b) : intersection a b = a :=
  filter_eq_self.mpr h

theorem within_intersection {a b c : List Json} (hb : Within a b) (hc : Within a c) :
    Within a (intersection b c) := by
  intro v hv
  obtain ⟨x, hx, hk⟩ := containsValue_iff.mp (hb v hv)
  refine containsValue_iff.mpr ⟨x, mem_filter.mpr ⟨hx, ?_⟩, hk⟩
  obtain ⟨y, hy, hk'⟩ := containsValue_iff.mp (hc v hv)
  exact containsValue_iff.mpr ⟨y, hy, hk'.trans hk.symm⟩

/-- What a parameter policy demands of a parameter, `none` where it is absent. -/
structure Honours (pp : ParamPolicy) (v : Option Json) : Prop where
  value : ∀ c, pp.lookup .value = some c →
    (c = .null → v = none) ∧ (c ≠ .null → ∃ w, v = some w ∧ sameValue c w = true)
  add : ∀ c, pp.lookup .add = some c →
    ∃ adds vs, c = .arr adds ∧ v = some (.arr vs) ∧ Within adds vs
  subsetOf : ∀ c w, pp.lookup .subsetOf = some c → v = some w →
    ∃ allowed vs, c = .arr allowed ∧ w = .arr vs ∧ Within vs allowed
  supersetOf : ∀ c w, pp.lookup .supersetOf = some c → v = some w →
    ∃ required vs, c = .arr required ∧ w = .arr vs ∧ Within required vs
  oneOf : ∀ c w, pp.lookup .oneOf = some c → v = some w →
    ∃ options, c = .arr options ∧ containsValue options w = true

/-- Both are lists, and the second has every element of the first. -/
def Inside (a b : Json) : Prop := ∃ xs ys, a = .arr xs ∧ b = .arr ys ∧ Within xs ys

section
variable {entityType param : String}

theorem asArray_ok {op : String} {v : Json} {items : List Json} :
    asArray entityType param op v = .ok items ↔ v = .arr items := by
  cases v <;> simp [asArray]

theorem requireSubset_iff {inner outer : Json} {innerName outerName : String} :
    requireSubset entityType param inner outer innerName outerName = .ok () ↔
      Inside inner outer := by
  simp only [requireSubset, bind_ok, asArray_ok, checkAll_forall, refuseIf_ok, Bool.not_eq_false]
  constructor
  · rintro ⟨xs, rfl, ys, rfl, hw⟩
    exact ⟨xs, ys, rfl, rfl, hw⟩
  · rintro ⟨xs, ys, rfl, rfl, hw⟩
    exact ⟨xs, rfl, ys, rfl, hw⟩

theorem whenPresent_iff {o : Option Json} {check : Json → Except PolicyError Unit} :
    whenPresent o check = .ok () ↔ ∀ v, o = some v → check v = .ok () := by
  cases o <;> simp [whenPresent]

theorem isNull_iff {j : Json} : j.isNull = true ↔ j = .null := by
  cases j <;> simp [Json.isNull]

theorem checkCombinations_iff {pp : ParamPolicy} :
    checkCombinations entityType param pp = .ok () ↔
      ∀ a ∈ pp, ∀ b ∈ pp, a ≠ b → b ∈ allowedCombinations a := by
  simp only [checkCombinations, checkAll_forall, mem_sortedKeys, refuseIf_ok]
  simp

section
variable {pp : ParamPolicy}

theorem checkNullValue_iff {c : Json} : checkNullValue entityType param pp c = .ok () ↔
    (c = .null → pp.lookup .default = none ∧
      ∀ e, pp.lookup .essential = some e → e = .bool false) := by
  have hessential : ∀ e : Json, (do
      let b ← checkEssential entityType param e
      refuseIf (b = true) (policyErr entityType param
        ("value is null, which removes the parameter, while essential is true, which " ++
          "requires it to be present"))) = .ok () ↔ e = .bool false := by
    intro e
    cases e <;> simp [checkEssential, bind_ok]
  unfold checkNullValue
  by_cases hc : c = .null
  · rw [if_pos (isNull_iff.mpr hc), seq_ok, whenPresent_iff, whenPresent_iff]
    simp only [hessential]
    simp [hc, Option.eq_none_iff_forall_ne_some]
  · rw [if_neg (mt isNull_iff.mp hc)]
    simp [hc]

theorem unlessNull_iff {c : Json} {x : Except PolicyError Unit} :
    (if c.isNull then .ok () else x) = .ok () ↔ (c ≠ .null → x = .ok ()) := by
  by_cases hc : c = .null
  · simp [hc, Json.isNull]
  · rw [if_neg (mt isNull_iff.mp hc)]
    simp [hc]

theorem checkEssential_iff {e : Json} : (do
    let _ ← checkEssential entityType param e
    .ok () : Except PolicyError Unit) = .ok () ↔ ∃ b, e = .bool b := by
  cases e <;> simp [checkEssential, bind_ok]

theorem oneOf_iff {c o : Json} : (do
    let list ← asArray entityType param Operator.oneOf.text o
    refuseIf (containsValue list c = false) (policyErr entityType param
      ("value " ++ marshal c ++ " is not among the one_of options " ++ marshal o))) =
      .ok () ↔ ∃ xs, o = .arr xs ∧ containsValue xs c = true := by
  simp only [bind_ok, asArray_ok, refuseIf_ok, Bool.not_eq_false]

/-- What the checks on one parameter's operators ask for. -/
structure Compatible (pp : ParamPolicy) : Prop where
  allowed : ∀ a ∈ pp, ∀ b ∈ pp, a ≠ b → b ∈ allowedCombinations a
  nullDefault : pp.lookup .value = some .null → pp.lookup .default = none
  nullEssential : ∀ e, pp.lookup .value = some .null → pp.lookup .essential = some e →
    e = .bool false
  addValue : ∀ c a, pp.lookup .value = some c → pp.lookup .add = some a → Inside a c
  valueOneOf : ∀ c o, pp.lookup .value = some c → c ≠ .null → pp.lookup .oneOf = some o →
    ∃ xs, o = .arr xs ∧ containsValue xs c = true
  valueSubset : ∀ c s, pp.lookup .value = some c → c ≠ .null → pp.lookup .subsetOf = some s →
    Inside c s
  supersetValue : ∀ c s, pp.lookup .value = some c → c ≠ .null →
    pp.lookup .supersetOf = some s → Inside s c
  addSubset : ∀ a s, pp.lookup .add = some a → pp.lookup .subsetOf = some s → Inside a s
  supersetSubset : ∀ s u, pp.lookup .subsetOf = some s → pp.lookup .supersetOf = some u →
    Inside u s
  essential : ∀ e, pp.lookup .essential = some e → ∃ b, e = .bool b

/-- The checks of `validateParamPolicy`, read off. -/
theorem validateParamPolicy_iff :
    validateParamPolicy entityType param pp = .ok () ↔ Compatible pp := by
  simp only [validateParamPolicy, checkValue, seq_ok, checkCombinations_iff, whenPresent_iff,
    checkNullValue_iff, unlessNull_iff, requireSubset_iff, checkEssential_iff, oneOf_iff]
  constructor
  · rintro ⟨hallowed, hvalue, hadd, hsub, hess⟩
    exact {
      allowed := hallowed
      nullDefault := fun hc => ((hvalue _ hc).1 rfl).1
      nullEssential := fun e hc he => ((hvalue _ hc).1 rfl).2 e he
      addValue := fun c a hc ha => (hvalue c hc).2.1 a ha
      valueOneOf := fun c o hc hn ho => (hvalue c hc).2.2.1 o ho hn
      valueSubset := fun c s hc hn hs => (hvalue c hc).2.2.2.1 s hs hn
      supersetValue := fun c s hc hn hs => (hvalue c hc).2.2.2.2 s hs hn
      addSubset := fun a s ha hs => hadd a ha s hs
      supersetSubset := fun s u hs hu => hsub s hs u hu
      essential := hess }
  · intro h
    refine ⟨h.allowed, ?_, fun a ha s hs => h.addSubset a s ha hs,
      fun s hs u hu => h.supersetSubset s u hs hu, h.essential⟩
    intro c hc
    refine ⟨?_, fun a ha => h.addValue c a hc ha, fun o ho hn => h.valueOneOf c o hc hn ho,
      fun s hs hn => h.valueSubset c s hc hn hs, fun s hs hn => h.supersetValue c s hc hn hs⟩
    rintro rfl
    exact ⟨h.nullDefault hc, fun e he => h.nullEssential e hc he⟩

end

/-- What the combination checks leave of a parameter policy. -/
structure Valid (pp : ParamPolicy) : Prop where
  nullAdd : pp.lookup .value = some .null → pp.lookup .add = none
  nullDefault : pp.lookup .value = some .null → pp.lookup .default = none
  addValue : ∀ c a, pp.lookup .value = some c → pp.lookup .add = some a →
    ∃ adds vs, a = .arr adds ∧ c = .arr vs ∧ Within adds vs
  valueSubset : ∀ c s, pp.lookup .value = some c → c ≠ .null → pp.lookup .subsetOf = some s →
    ∃ vs allowed, c = .arr vs ∧ s = .arr allowed ∧ Within vs allowed
  addSubset : ∀ a s, pp.lookup .add = some a → pp.lookup .subsetOf = some s →
    ∃ adds allowed, a = .arr adds ∧ s = .arr allowed ∧ Within adds allowed
  oneOfAlone : ∀ o, pp.lookup .oneOf = some o →
    pp.lookup .add = none ∧ pp.lookup .subsetOf = none ∧ pp.lookup .supersetOf = none

theorem valid_of_ok {pp : ParamPolicy}
    (h : validateParamPolicy entityType param pp = .ok ()) : Valid pp := by
  have hc := validateParamPolicy_iff.mp h
  have hnone : ∀ {a b v}, pp.lookup a = some v → a ≠ b → b ∉ allowedCombinations a →
      pp.lookup b = none := by
    intro a b v ha hne hb
    by_contra hcon
    have hmem : b ∈ pp := AList.lookup_isSome.mp (Option.isSome_iff_ne_none.mpr hcon)
    exact hb (hc.allowed a (AList.lookup_isSome.mp (by simp [ha])) b hmem hne)
  refine ⟨fun hnull => ?_, hc.nullDefault, hc.addValue, hc.valueSubset, hc.addSubset,
    fun o ho => ⟨?_, ?_, ?_⟩⟩
  · by_contra hcon
    obtain ⟨a, ha⟩ := Option.ne_none_iff_exists'.mp hcon
    obtain ⟨_, _, _, hvalue, _⟩ := hc.addValue _ a hnull ha
    cases hvalue
  · exact hnone ho (by decide) (by decide)
  · exact hnone ho (by decide) (by decide)
  · exact hnone ho (by decide) (by decide)

/-- One position of the application order: skipped when the policy lacks the operator. -/
def applyAt (entityType param : String) (pp : ParamPolicy) (op : Operator)
    (val : Option Json) : Except PolicyError (Option Json) :=
  match pp.lookup op with
  | none => .ok val
  | some cfg => applyOperator entityType param op cfg val

theorem applyOperators_cons {pp : ParamPolicy} {op : Operator} {ops : List Operator}
    {val out : Option Json} :
    applyOperators entityType param pp (op :: ops) val = .ok out ↔
      ∃ val', applyAt entityType param pp op val = .ok val' ∧
        applyOperators entityType param pp ops val' = .ok out := by
  rw [applyOperators, applyAt]
  cases pp.lookup op with
  | none => simp
  | some cfg => exact bind_ok

theorem applyAt_value {pp : ParamPolicy} {val out : Option Json}
    (h : applyAt entityType param pp .value val = .ok out) :
    (pp.lookup .value = none ∧ out = val) ∨
      ∃ c, pp.lookup .value = some c ∧ out = if c.isNull then none else some c := by
  cases hl : pp.lookup .value with
  | none => exact .inl ⟨rfl, by simpa [applyAt, hl, eq_comm] using h⟩
  | some c =>
    simp only [applyAt, hl, applyOperator, Except.ok.injEq] at h
    exact .inr ⟨c, rfl, h.symm⟩

theorem applyAt_add {pp : ParamPolicy} {val out : Option Json}
    (h : applyAt entityType param pp .add val = .ok out) :
    (pp.lookup .add = none ∧ out = val) ∨
      ∃ adds, pp.lookup .add = some (.arr adds) ∧
        ((val = none ∧ out = some (.arr adds)) ∨
          ∃ cur, val = some (.arr cur) ∧ out = some (.arr (union cur adds))) := by
  cases hl : pp.lookup .add with
  | none => exact .inl ⟨rfl, by simpa [applyAt, hl, eq_comm] using h⟩
  | some c =>
    simp only [applyAt, hl, applyOperator, bind_ok, asArray_ok] at h
    obtain ⟨adds, rfl, h⟩ := h
    refine .inr ⟨adds, rfl, ?_⟩
    cases val with
    | none => exact .inl ⟨rfl, by simpa [eq_comm] using h⟩
    | some v =>
      simp only [bind_ok, asArray_ok, Except.ok.injEq] at h
      obtain ⟨cur, rfl, rfl⟩ := h
      exact .inr ⟨cur, rfl, rfl⟩

theorem applyAt_default {pp : ParamPolicy} {val out : Option Json}
    (h : applyAt entityType param pp .default val = .ok out) :
    (pp.lookup .default = none ∧ out = val) ∨
      ∃ c, pp.lookup .default = some c ∧ out = some (val.getD c) := by
  cases hl : pp.lookup .default with
  | none => exact .inl ⟨rfl, by simpa [applyAt, hl, eq_comm] using h⟩
  | some c => exact .inr ⟨c, rfl, by simpa [applyAt, hl, applyOperator, eq_comm] using h⟩

theorem applyAt_oneOf {pp : ParamPolicy} {val out : Option Json}
    (h : applyAt entityType param pp .oneOf val = .ok out) :
    out = val ∧ ∀ c w, pp.lookup .oneOf = some c → val = some w →
      ∃ options, c = .arr options ∧ containsValue options w = true := by
  cases hl : pp.lookup .oneOf with
  | none => exact ⟨by simpa [applyAt, hl, eq_comm] using h, by simp⟩
  | some c =>
    cases val with
    | none => exact ⟨by simpa [applyAt, hl, applyOperator, eq_comm] using h, by simp⟩
    | some v =>
      simp only [applyAt, hl, applyOperator, bind_ok, asArray_ok, refuseIf_ok,
        Except.ok.injEq, Bool.not_eq_false] at h
      obtain ⟨options, rfl, _, hc, rfl⟩ := h
      refine ⟨rfl, fun c' w hc' hw => ?_⟩
      obtain rfl : Json.arr options = c' := by simpa using hc'
      obtain rfl : v = w := by simpa using hw
      exact ⟨options, rfl, hc⟩

theorem applyAt_subsetOf {pp : ParamPolicy} {val out : Option Json}
    (h : applyAt entityType param pp .subsetOf val = .ok out) :
    (pp.lookup .subsetOf = none ∧ out = val) ∨
      ∃ c, pp.lookup .subsetOf = some c ∧ ((val = none ∧ out = none) ∨
        ∃ allowed cur, c = .arr allowed ∧ val = some (.arr cur) ∧
          out = some (.arr (intersection cur allowed))) := by
  cases hl : pp.lookup .subsetOf with
  | none => exact .inl ⟨rfl, by simpa [applyAt, hl, eq_comm] using h⟩
  | some c =>
    refine .inr ⟨c, rfl, ?_⟩
    cases val with
    | none => exact .inl ⟨rfl, by simpa [applyAt, hl, applyOperator, eq_comm] using h⟩
    | some v =>
      simp only [applyAt, hl, applyOperator, bind_ok, asArray_ok, Except.ok.injEq] at h
      obtain ⟨allowed, rfl, cur, rfl, rfl⟩ := h
      exact .inr ⟨allowed, cur, rfl, rfl, rfl⟩

theorem applyAt_supersetOf {pp : ParamPolicy} {val out : Option Json}
    (h : applyAt entityType param pp .supersetOf val = .ok out) :
    out = val ∧ ∀ c w, pp.lookup .supersetOf = some c → val = some w →
      ∃ required vs, c = .arr required ∧ w = .arr vs ∧ Within required vs := by
  cases hl : pp.lookup .supersetOf with
  | none => exact ⟨by simpa [applyAt, hl, eq_comm] using h, by simp⟩
  | some c =>
    cases val with
    | none => exact ⟨by simpa [applyAt, hl, applyOperator, eq_comm] using h, by simp⟩
    | some v =>
      simp only [applyAt, hl, applyOperator, bind_ok, asArray_ok, Except.ok.injEq] at h
      obtain ⟨required, rfl, cur, rfl, _, hall, rfl⟩ := h
      refine ⟨rfl, fun c' w hc' hw => ?_⟩
      obtain rfl : Json.arr required = c' := by simpa using hc'
      obtain rfl : Json.arr cur = w := by simpa using hw
      refine ⟨required, cur, rfl, rfl, fun r hr => ?_⟩
      obtain ⟨i, hi⟩ := checkAll_mem hall hr
      simpa using hi

theorem applyAt_essential {pp : ParamPolicy} {val out : Option Json}
    (h : applyAt entityType param pp .essential val = .ok out) : out = val := by
  cases hl : pp.lookup .essential with
  | none => simpa [applyAt, hl, eq_comm] using h
  | some c =>
    simp only [applyAt, hl, applyOperator, bind_ok, Except.ok.injEq] at h
    obtain ⟨_, _, _, _, rfl⟩ := h
    rfl

/-- What is left of a value once null means absent. -/
def published (v : Option Json) : Option Json := v.filter fun j => !j.isNull

/-- The value a valid policy fixes is what the whole application leaves: nothing adds to it
and nothing trims it. -/
theorem value_survives {pp : ParamPolicy} (hv : Valid pp) {c : Json}
    (hc : pp.lookup .value = some c) (hne : c ≠ .null) {v₂ v₃ v₅ : Option Json}
    (h₂ : applyAt entityType param pp .add (some c) = .ok v₂)
    (h₃ : applyAt entityType param pp .default v₂ = .ok v₃)
    (h₅ : applyAt entityType param pp .subsetOf v₃ = .ok v₅) : v₅ = some c := by
  have e₂ : v₂ = some c := by
    rcases applyAt_add h₂ with ⟨_, rfl⟩ | ⟨adds, ha, ⟨hnone, _⟩ | ⟨cur, hcur, rfl⟩⟩
    · rfl
    · cases hnone
    · obtain ⟨adds', vs, hadds, rfl, hw⟩ := hv.addValue c _ hc ha
      obtain rfl : adds = adds' := by simpa using hadds
      obtain rfl : vs = cur := by simpa using hcur
      rw [union_eq_of_within hw]
  subst e₂
  have e₃ : v₃ = some c := by
    rcases applyAt_default h₃ with ⟨_, rfl⟩ | ⟨_, _, rfl⟩ <;> rfl
  subst e₃
  rcases applyAt_subsetOf h₅ with ⟨_, rfl⟩ | ⟨s, hs, ⟨hnone, _⟩ | ⟨allowed, cur, rfl, hcur, rfl⟩⟩
  · rfl
  · cases hnone
  · obtain ⟨vs, allowed', rfl, hal, hw⟩ := hv.valueSubset c _ hc hne hs
    obtain rfl : allowed = allowed' := by simpa using hal
    obtain rfl : vs = cur := by simpa using hcur
    rw [intersection_eq_of_within hw]

theorem null_survives {pp : ParamPolicy} (hv : Valid pp) (hc : pp.lookup .value = some .null)
    {v₂ v₃ v₅ : Option Json} (h₂ : applyAt entityType param pp .add none = .ok v₂)
    (h₃ : applyAt entityType param pp .default v₂ = .ok v₃)
    (h₅ : applyAt entityType param pp .subsetOf v₃ = .ok v₅) : v₅ = none := by
  obtain rfl : v₂ = none := by simpa [applyAt, hv.nullAdd hc, eq_comm] using h₂
  obtain rfl : v₃ = none := by simpa [applyAt, hv.nullDefault hc, eq_comm] using h₃
  rcases applyAt_subsetOf h₅ with ⟨_, rfl⟩ | ⟨s, _, ⟨_, rfl⟩ | ⟨_, _, _, hcur, _⟩⟩
  · rfl
  · rfl
  · cases hcur

theorem add_survives {pp : ParamPolicy} (hv : Valid pp) {a : Json}
    (ha : pp.lookup .add = some a) {v₁ v₂ v₃ v₅ : Option Json}
    (h₂ : applyAt entityType param pp .add v₁ = .ok v₂)
    (h₃ : applyAt entityType param pp .default v₂ = .ok v₃)
    (h₅ : applyAt entityType param pp .subsetOf v₃ = .ok v₅) :
    ∃ adds vs, a = .arr adds ∧ v₅ = some (.arr vs) ∧ Within adds vs := by
  obtain ⟨adds, l, rfl, rfl, hw⟩ : ∃ adds l, a = .arr adds ∧ v₂ = some (.arr l) ∧
      Within adds l := by
    rcases applyAt_add h₂ with ⟨hnone, _⟩ | ⟨adds, ha', ⟨_, rfl⟩ | ⟨cur, _, rfl⟩⟩
    · rw [ha] at hnone
      cases hnone
    · exact ⟨adds, adds, by simpa [ha] using ha', rfl, within_of_subset (Subset.refl _)⟩
    · exact ⟨adds, _, by simpa [ha] using ha', rfl, within_union_right cur adds⟩
  have e₃ : v₃ = some (.arr l) := by
    rcases applyAt_default h₃ with ⟨_, rfl⟩ | ⟨_, _, rfl⟩ <;> rfl
  subst e₃
  rcases applyAt_subsetOf h₅ with ⟨_, rfl⟩ | ⟨s, hs, ⟨hnone, _⟩ | ⟨allowed, cur, rfl, hcur, rfl⟩⟩
  · exact ⟨adds, l, rfl, rfl, hw⟩
  · cases hnone
  · obtain ⟨adds', allowed', hadds, hal, hsub⟩ := hv.addSubset _ _ ha hs
    obtain rfl : adds = adds' := by simpa using hadds
    obtain rfl : allowed = allowed' := by simpa using hal
    obtain rfl : l = cur := by simpa using hcur
    exact ⟨adds, _, rfl, rfl, within_intersection hw hsub⟩

theorem published_eq_some {v : Option Json} {w : Json} (h : published v = some w) :
    v = some w := by
  simp only [published, Option.filter_eq_some_iff] at h
  exact h.1

/-- The operators in their order: of the last four only `subset_of` changes the value. -/
theorem applyOperators_stages {pp : ParamPolicy} {val out : Option Json}
    (h : applyOperators entityType param pp operatorOrder val = .ok out) :
    ∃ v₁ v₂ v₃, applyAt entityType param pp .value val = .ok v₁ ∧
      applyAt entityType param pp .add v₁ = .ok v₂ ∧
      applyAt entityType param pp .default v₂ = .ok v₃ ∧
      applyAt entityType param pp .oneOf v₃ = .ok v₃ ∧
      applyAt entityType param pp .subsetOf v₃ = .ok out ∧
      applyAt entityType param pp .supersetOf out = .ok out ∧
      applyAt entityType param pp .essential out = .ok out := by
  simp only [operatorOrder, applyOperators_cons] at h
  obtain ⟨v₁, h₁, v₂, h₂, v₃, h₃, v₄, h₄, v₅, h₅, v₆, h₆, v₇, h₇, hout⟩ := h
  obtain rfl : v₇ = out := by simpa [applyOperators] using hout
  obtain ⟨rfl, -⟩ := applyAt_oneOf h₄
  obtain ⟨rfl, -⟩ := applyAt_supersetOf h₆
  obtain rfl := applyAt_essential h₇
  exact ⟨v₁, v₂, _, h₁, h₂, h₃, h₄, h₅, h₆, h₇⟩

theorem applyOperators_honours {pp : ParamPolicy} (hv : Valid pp) {val out : Option Json}
    (h : applyOperators entityType param pp operatorOrder val = .ok out) :
    Honours pp (published out) := by
  obtain ⟨v₁, v₂, v₃, h₁, h₂, h₃, h₄, h₅, h₆, -⟩ := applyOperators_stages h
  have hone := (applyAt_oneOf h₄).2
  have hsup := (applyAt_supersetOf h₆).2
  refine ⟨fun c hc => ?_, fun a ha => ?_, fun c w hc hw => ?_,
    fun c w hc hw => hsup c w hc (published_eq_some hw), fun c w hc hw => ?_⟩
  · rcases applyAt_value h₁ with ⟨hnone, _⟩ | ⟨c', hc', rfl⟩
    · rw [hc] at hnone
      cases hnone
    · obtain rfl : c = c' := by simpa [hc] using hc'
      constructor
      · rintro rfl
        rw [null_survives hv hc h₂ h₃ h₅]
        rfl
      · intro hne
        have hn : c.isNull = false := Bool.eq_false_iff.mpr fun he => hne (isNull_iff.mp he)
        simp only [hn, Bool.false_eq_true, if_false] at h₂
        rw [value_survives hv hc hne h₂ h₃ h₅]
        exact ⟨c, by simp [published, hn], by simp [sameValue]⟩
  · obtain ⟨adds, vs, rfl, rfl, hw⟩ := add_survives hv ha h₂ h₃ h₅
    exact ⟨adds, vs, rfl, by simp [published, Json.isNull], hw⟩
  · have hw' := published_eq_some hw
    rcases applyAt_subsetOf h₅ with ⟨hnone, _⟩ | ⟨c', hc', ⟨_, rfl⟩ | ⟨allowed, cur, rfl, _, rfl⟩⟩
    · rw [hc] at hnone
      cases hnone
    · cases hw'
    · obtain rfl : c = .arr allowed := by simpa [hc] using hc'
      obtain rfl : Json.arr (intersection cur allowed) = w := by simpa using hw'
      exact ⟨allowed, _, rfl, rfl, (intersection_within cur allowed).2⟩
  · refine hone c w hc ?_
    rcases applyAt_subsetOf h₅ with ⟨_, rfl⟩ | ⟨c', hc', _⟩
    · exact published_eq_some hw
    · rw [(hv.oneOfAlone c hc).2.1] at hc'
      cases hc'

def Tighter (op : Operator) (merged c : Json) : Prop :=
  match op with
  | .value => sameValue c merged = true
  | .add | .supersetOf => merged = c ∨ ∃ a b, c = .arr a ∧ merged = .arr b ∧ Within a b
  | .oneOf | .subsetOf => merged = c ∨ ∃ a b, c = .arr a ∧ merged = .arr b ∧ Within b a
  | _ => True

theorem Tighter.refl (op : Operator) (c : Json) : Tighter op c c := by
  cases op <;> simp [Tighter, sameValue]

theorem mergeOperatorValues_tighter {op : Operator} {a b v : Json}
    (h : mergeOperatorValues entityType param op a b = .ok v) :
    Tighter op v a ∧ Tighter op v b := by
  cases op with
  | value =>
    simp only [mergeOperatorValues] at h
    split_ifs at h with hs
    obtain rfl : a = v := by simpa using h
    simp only [sameValue, beq_iff_eq] at hs
    simp [Tighter, sameValue, hs]
  | add | supersetOf =>
    simp only [mergeOperatorValues, bind_ok, asArray_ok, Except.ok.injEq] at h
    obtain ⟨xs, rfl, ys, rfl, rfl⟩ := h
    exact ⟨.inr ⟨xs, _, rfl, rfl, within_of_subset (subset_union xs ys)⟩,
      .inr ⟨ys, _, rfl, rfl, within_union_right xs ys⟩⟩
  | oneOf =>
    simp only [mergeOperatorValues, bind_ok, asArray_ok] at h
    obtain ⟨xs, rfl, ys, rfl, h⟩ := h
    split_ifs at h with hnil
    obtain rfl : Json.arr (intersection xs ys) = v := by simpa using h
    exact ⟨.inr ⟨xs, _, rfl, rfl, (intersection_within xs ys).1⟩,
      .inr ⟨ys, _, rfl, rfl, (intersection_within xs ys).2⟩⟩
  | subsetOf =>
    simp only [mergeOperatorValues, bind_ok, asArray_ok, Except.ok.injEq] at h
    obtain ⟨xs, rfl, ys, rfl, rfl⟩ := h
    exact ⟨.inr ⟨xs, _, rfl, rfl, (intersection_within xs ys).1⟩,
      .inr ⟨ys, _, rfl, rfl, (intersection_within xs ys).2⟩⟩
  | default | essential | other name => exact ⟨trivial, trivial⟩

/-- Every operator of `p` is in `m`, at least as tight. -/
def Stricter (m p : ParamPolicy) : Prop :=
  ∀ op c, isStandardOperator op = true → p.lookup op = some c →
    ∃ c', m.lookup op = some c' ∧ Tighter op c' c

theorem Tighter.trans {op : Operator} {a b c : Json} (h₁ : Tighter op a b)
    (h₂ : Tighter op b c) : Tighter op a c := by
  cases op with
  | value =>
    simp only [Tighter, sameValue, beq_iff_eq] at *
    exact h₂.trans h₁
  | add | supersetOf =>
    rcases h₁ with rfl | ⟨xs, ys, rfl, rfl, hw⟩
    · exact h₂
    · rcases h₂ with rfl | ⟨zs, ws, rfl, hws, hz⟩
      · exact .inr ⟨xs, ys, rfl, rfl, hw⟩
      · obtain rfl : xs = ws := by simpa using hws
        exact .inr ⟨zs, ys, rfl, rfl, hz.trans hw⟩
  | oneOf | subsetOf =>
    rcases h₁ with rfl | ⟨xs, ys, rfl, rfl, hw⟩
    · exact h₂
    · rcases h₂ with rfl | ⟨zs, ws, rfl, hws, hz⟩
      · exact .inr ⟨xs, ys, rfl, rfl, hw⟩
      · obtain rfl : xs = ws := by simpa using hws
        exact .inr ⟨zs, ys, rfl, rfl, hw.trans hz⟩
  | default | essential | other name => trivial

theorem Stricter.trans {a b c : ParamPolicy} (h₁ : Stricter a b) (h₂ : Stricter b c) :
    Stricter a c := by
  intro op v hop hv
  obtain ⟨w, hw, ht⟩ := h₂ op v hop hv
  obtain ⟨x, hx, ht'⟩ := h₁ op w hop hw
  exact ⟨x, hx, ht'.trans ht⟩

theorem sameValue_null {c d : Json} (h : sameValue c d = true) : c = .null ↔ d = .null := by
  simp only [sameValue, valueKey, beq_iff_eq] at h
  rw [← marshal_eq_null, h, marshal_eq_null]

theorem Stricter.honours {m p : ParamPolicy} (h : Stricter m p) {v : Option Json}
    (hm : Honours m v) : Honours p v := by
  refine ⟨fun c hc => ?_, fun c hc => ?_, fun c w hc hw => ?_, fun c w hc hw => ?_,
    fun c w hc hw => ?_⟩
  · obtain ⟨c', hc', ht⟩ := h .value c (by decide) hc
    obtain ⟨hnull, hsome⟩ := hm.value c' hc'
    refine ⟨fun hn => hnull ((sameValue_null ht).mp hn), fun hn => ?_⟩
    obtain ⟨w, hw, hs⟩ := hsome fun hn' => hn ((sameValue_null ht).mpr hn')
    simp only [Tighter, sameValue, beq_iff_eq] at ht hs
    exact ⟨w, hw, by simp [sameValue, ht, hs]⟩
  · obtain ⟨c', hc', ht⟩ := h .add c (by decide) hc
    obtain ⟨adds, vs, rfl, hv, hw⟩ := hm.add c' hc'
    rcases ht with rfl | ⟨a, b, rfl, hb, hab⟩
    · exact ⟨adds, vs, rfl, hv, hw⟩
    · obtain rfl : adds = b := by simpa using hb
      exact ⟨a, vs, rfl, hv, hab.trans hw⟩
  · obtain ⟨c', hc', ht⟩ := h .subsetOf c (by decide) hc
    obtain ⟨allowed, vs, rfl, rfl, hin⟩ := hm.subsetOf c' w hc' hw
    rcases ht with rfl | ⟨a, b, rfl, hb, hab⟩
    · exact ⟨allowed, vs, rfl, rfl, hin⟩
    · obtain rfl : allowed = b := by simpa using hb
      exact ⟨a, vs, rfl, rfl, hin.trans hab⟩
  · obtain ⟨c', hc', ht⟩ := h .supersetOf c (by decide) hc
    obtain ⟨required, vs, rfl, rfl, hin⟩ := hm.supersetOf c' w hc' hw
    rcases ht with rfl | ⟨a, b, rfl, hb, hab⟩
    · exact ⟨required, vs, rfl, rfl, hin⟩
    · obtain rfl : required = b := by simpa using hb
      exact ⟨a, vs, rfl, rfl, hab.trans hin⟩
  · obtain ⟨c', hc', ht⟩ := h .oneOf c (by decide) hc
    obtain ⟨options, rfl, hin⟩ := hm.oneOf c' w hc' hw
    rcases ht with rfl | ⟨a, b, rfl, hb, hab⟩
    · exact ⟨options, rfl, hin⟩
    · obtain rfl : options = b := by simpa using hb
      exact ⟨a, rfl, containsValue_of_within hab hin⟩

theorem mergeParamPolicy_stricter {current next m : ParamPolicy}
    (h : mergeParamPolicy entityType param current next = .ok m) :
    Valid m ∧ Stricter m current ∧ Stricter m next := by
  simp only [mergeParamPolicy, bind_ok, Except.ok.injEq] at h
  obtain ⟨m', hm, _, hv, rfl⟩ := h
  refine ⟨valid_of_ok hv, fun op c _ hc => ?_, fun op c _ hc => ?_⟩
  · have hmerged := mergeInto_merged hm op
    rw [hc] at hmerged
    generalize next.lookup op = nv at hmerged
    cases hop : m'.lookup op with
    | none =>
      rw [hop] at hmerged
      cases hmerged
    | some v =>
      rw [hop] at hmerged
      cases hmerged with
      | kept => exact ⟨c, rfl, Tighter.refl op c⟩
      | combined _ nv _ hr => exact ⟨v, rfl, (mergeOperatorValues_tighter hr).1⟩
  · have hmerged := mergeInto_merged hm op
    rw [hc] at hmerged
    generalize current.lookup op = cv at hmerged
    cases hop : m'.lookup op with
    | none =>
      rw [hop] at hmerged
      cases hmerged
    | some v =>
      rw [hop] at hmerged
      cases hmerged with
      | copied => exact ⟨c, rfl, Tighter.refl op c⟩
      | combined cv _ _ hr => exact ⟨v, rfl, (mergeOperatorValues_tighter hr).2⟩

theorem cleanParamPolicy_stricter {crit : List String} {pp out : ParamPolicy}
    (h : cleanParamPolicy entityType param crit pp = .ok out) : Valid out ∧ Stricter out pp := by
  simp only [cleanParamPolicy, bind_ok, Except.ok.injEq] at h
  obtain ⟨pp', hfold, _, hv, rfl⟩ := h
  refine ⟨valid_of_ok hv, fun op c hop hc => ⟨c, ?_, Tighter.refl op c⟩⟩
  rw [← hc]
  refine foldKeys_invariant (P := fun q : ParamPolicy => q.lookup op = pp.lookup op) ?_ rfl hfold
  intro k q q' hq hk
  unfold dropUnknown at hk
  split_ifs at hk with hstd hcrit
  · obtain rfl : q = q' := by simpa using hk
    exact hq
  · obtain rfl : q.erase k = q' := by simpa using hk
    rw [AList.lookup_erase_ne, hq]
    rintro rfl
    exact hstd hop

end

def paramPolicy (p : Policy) (entityType param : String) : Option ParamPolicy :=
  (p.lookup entityType).bind fun tp => tp.lookup param

theorem mergePolicy_merged {current next out : Policy}
    (h : mergePolicy current next = .ok out) (entityType param : String) :
    Merged (mergeParamPolicy entityType param) (paramPolicy current entityType param)
      (paramPolicy next entityType param) (paramPolicy out entityType param) := by
  have hty := mergeInto_merged h entityType
  unfold paramPolicy
  generalize current.lookup entityType = ct at hty
  generalize next.lookup entityType = nt at hty
  generalize out.lookup entityType = ot at hty
  cases hty with
  | kept => exact .kept _
  | copied nt =>
    simp only [Option.bind_none, Option.bind_some]
    cases nt.lookup param with
    | none => exact .kept _
    | some np => exact .copied np
  | combined ct nt ot hm => exact mergeInto_merged hm param

theorem validatePolicy_param {crit : List String} {p out : Policy}
    (h : validatePolicy crit p = .ok out) (entityType param : String) :
    (paramPolicy p entityType param = none ∧ paramPolicy out entityType param = none) ∨
      ∃ pp pp', paramPolicy p entityType param = some pp ∧
        cleanParamPolicy entityType param crit pp = .ok pp' ∧
        paramPolicy out entityType param = some pp' := by
  unfold paramPolicy
  rcases updateAll_lookup h entityType with ⟨h₁, h₂⟩ | ⟨tp, tp', h₁, ht, h₂⟩
  · exact .inl (by simp [h₁, h₂])
  · simp only [h₁, h₂, Option.bind_some]
    exact updateAll_lookup ht param

/-- The current policy is valid throughout and stricter than every policy merged so far. -/
structure Resolved (m : Policy) (seen : List Policy) : Prop where
  valid : ∀ {entityType param pp}, paramPolicy m entityType param = some pp → Valid pp
  stricter : ∀ p ∈ seen, ∀ {entityType param pp}, paramPolicy p entityType param = some pp →
    ∃ mp, paramPolicy m entityType param = some mp ∧ Stricter mp pp

theorem resolved_of_validate {crit : List String} {p out : Policy}
    (h : validatePolicy crit p = .ok out) : Resolved out [p] := by
  constructor
  · intro entityType param pp hpp
    rcases validatePolicy_param h entityType param with ⟨_, hnone⟩ | ⟨_, pp', _, hc, hout⟩
    · rw [hpp] at hnone
      cases hnone
    · obtain rfl : pp = pp' := by simpa [hpp] using hout
      exact (cleanParamPolicy_stricter hc).1
  · intro q hq entityType param pp hpp
    obtain rfl := mem_singleton.mp hq
    rcases validatePolicy_param h entityType param with ⟨hnone, _⟩ | ⟨pp₁, pp', h₁, hc, hout⟩
    · rw [hpp] at hnone
      cases hnone
    · obtain rfl : pp = pp₁ := by simpa [hpp] using h₁
      exact ⟨pp', hout, (cleanParamPolicy_stricter hc).2⟩

theorem Resolved.merge {m next out : Policy} {seen later : List Policy} (hm : Resolved m seen)
    (hn : Resolved next later) (h : mergePolicy m next = .ok out) :
    Resolved out (seen ++ later) := by
  have hat := fun entityType param => mergePolicy_merged h entityType param
  constructor
  · intro entityType param pp hpp
    have hmerged := hat entityType param
    rw [hpp] at hmerged
    cases hc : paramPolicy m entityType param with
    | none =>
      rw [hc] at hmerged
      cases hx : paramPolicy next entityType param with
      | none =>
        rw [hx] at hmerged
        cases hmerged
      | some np =>
        rw [hx] at hmerged
        cases hmerged
        exact hn.valid hx
    | some cp =>
      rw [hc] at hmerged
      cases hx : paramPolicy next entityType param with
      | none =>
        rw [hx] at hmerged
        cases hmerged
        exact hm.valid hc
      | some np =>
        rw [hx] at hmerged
        cases hmerged with
        | combined _ _ _ hr => exact (mergeParamPolicy_stricter hr).1
  · intro p hp entityType param pp hpp
    have hmerged := hat entityType param
    rcases mem_append.mp hp with hp | hp
    · obtain ⟨mp, hmp, hs⟩ := hm.stricter p hp hpp
      rw [hmp] at hmerged
      generalize paramPolicy next entityType param = nx at hmerged
      generalize hox : paramPolicy out entityType param = ox at hmerged
      cases hmerged with
      | kept => exact ⟨mp, rfl, hs⟩
      | combined _ nv v hr => exact ⟨v, rfl, (mergeParamPolicy_stricter hr).2.1.trans hs⟩
    · obtain ⟨np, hnp, hs⟩ := hn.stricter p hp hpp
      rw [hnp] at hmerged
      generalize paramPolicy m entityType param = mx at hmerged
      generalize hox : paramPolicy out entityType param = ox at hmerged
      cases hmerged with
      | copied => exact ⟨np, rfl, hs⟩
      | combined cv _ v hr => exact ⟨v, rfl, (mergeParamPolicy_stricter hr).2.2.trans hs⟩

theorem resolveFrom_resolved {crit : List String} {sts : List Statement} {cur : Policy}
    {seen : List Policy} (hcur : Resolved cur seen) {m : Policy}
    (h : resolveFrom crit (some cur) sts = .ok (some m)) :
    Resolved m (seen ++ sts.filterMap Statement.metadataPolicy) := by
  induction sts generalizing cur seen with
  | nil =>
    obtain rfl : cur = m := by simpa [resolveFrom] using h
    simpa using hcur
  | cons st sts ih =>
    cases hp : st.metadataPolicy with
    | none =>
      have := ih hcur (by simpa [resolveFrom, hp] using h)
      simpa [hp] using this
    | some p =>
      simp only [resolveFrom, hp, bind_ok] at h
      obtain ⟨next, hval, merged, hmerge, hrest⟩ := h
      have := ih (hcur.merge (resolved_of_validate hval) hmerge) hrest
      simpa [hp] using this

theorem resolveFrom_none {crit : List String} {sts : List Statement} {m : Policy}
    (h : resolveFrom crit none sts = .ok (some m)) :
    Resolved m (sts.filterMap Statement.metadataPolicy) := by
  induction sts with
  | nil => simp [resolveFrom] at h
  | cons st sts ih =>
    cases hp : st.metadataPolicy with
    | none =>
      have := ih (by simpa [resolveFrom, hp] using h)
      simpa [hp] using this
    | some p =>
      simp only [resolveFrom, hp, bind_ok] at h
      obtain ⟨next, hval, hrest⟩ := h
      have := resolveFrom_resolved (resolved_of_validate hval) hrest
      simpa [hp] using this

theorem lookup_setParam {out : Metadata} {param : String} {v : Option Json} :
    (setParam out param v).lookup param = published v := by
  cases v with
  | none => simp [setParam, published]
  | some j =>
    cases hj : j.isNull <;> simp [setParam, published, hj, Option.filter]

theorem lookup_setParam_ne {out : Metadata} {param other : String} {v : Option Json}
    (h : other ≠ param) : (setParam out param v).lookup other = out.lookup other := by
  cases v with
  | none => exact AList.lookup_erase_ne h
  | some j =>
    cases hj : j.isNull
    · simp only [setParam, hj, Bool.false_eq_true, if_false]
      exact AList.lookup_insert_ne h
    · simp only [setParam, hj, if_true]
      exact AList.lookup_erase_ne h

theorem applyParam_cases {entityType param : String} {tp : TypePolicy} {out out' : Metadata}
    (h : applyParam entityType tp param out = .ok out') :
    out' = out ∨ ∃ v, out' = setParam out param v := by
  unfold applyParam at h
  split at h
  · exact .inl (by simpa [eq_comm] using h)
  · split at h <;> simp only [bind_ok, Except.ok.injEq] at h <;> obtain ⟨v, _, rfl⟩ := h
    · exact .inr ⟨_, rfl⟩
    · exact .inr ⟨_, rfl⟩

def scopeText (param : String) : Option Json → Option String
  | some (.str s) => if param = "scope" then some s else none
  | _ => none

def operand (param : String) (val : Option Json) : Option Json :=
  match scopeText param val with
  | some s => some (splitScopeValue s)
  | none => val

/-- What the operators' result is written as, the parameter being `val` before. -/
def written (param : String) (val v : Option Json) : Option Json :=
  match scopeText param val with
  | some _ => v.map joinScopeValue
  | none => v

theorem scopeText_ne {param : String} (h : param ≠ "scope") (val : Option Json) :
    scopeText param val = none := by
  unfold scopeText
  split
  · rw [if_neg h]
  · rfl

theorem applyParam_lookup {entityType param : String} {tp : TypePolicy} {pp : ParamPolicy}
    {out out' : Metadata} (hpp : tp.lookup param = some pp)
    (h : applyParam entityType tp param out = .ok out') :
    ∃ v, applyOperators entityType param pp operatorOrder (operand param (out.lookup param)) =
        .ok v ∧ out'.lookup param = published (written param (out.lookup param) v) := by
  unfold applyParam at h
  rw [hpp] at h
  dsimp only at h
  split at h
  · next s hparam hval =>
      have htext : scopeText param (out.lookup param) = some s := by
        rw [hval, scopeText, if_pos (by simpa using hparam)]
      simp only [bind_ok, Except.ok.injEq] at h
      obtain ⟨v, hv, rfl⟩ := h
      refine ⟨v, ?_, ?_⟩
      · rw [operand, htext]
        exact hv
      · rw [written, htext]
        exact lookup_setParam
  · next hother =>
      have htext : scopeText param (out.lookup param) = none := by
        unfold scopeText
        split
        · next s hval => exact if_neg fun hparam => hother s (by simpa using hparam) hval
        · rfl
      simp only [bind_ok, Except.ok.injEq] at h
      obtain ⟨v, hv, rfl⟩ := h
      refine ⟨v, ?_, ?_⟩
      · rw [operand, htext]
        exact hv
      · rw [written, htext]
        exact lookup_setParam

theorem applyPolicy_lookup {entityType param : String} {tp : TypePolicy} {pp : ParamPolicy}
    {metadata out : Metadata} (h : applyPolicy entityType metadata (some tp) = .ok out)
    (hpp : tp.lookup param = some pp) :
    ∃ v, applyOperators entityType param pp operatorOrder
        (operand param (metadata.lookup param)) = .ok v ∧
      out.lookup param = published (written param (metadata.lookup param) v) := by
  obtain ⟨_, hin⟩ := foldKeys_view
    (fun (j : String) (md : Metadata) => md.lookup j)
    (fun {k s s'} hs j hj => by
      rcases applyParam_cases hs with rfl | ⟨v, rfl⟩
      · rfl
      · exact lookup_setParam_ne hj)
    (nodup_sortedKeys id tp) h
  have hmem : param ∈ tp := AList.lookup_isSome.mp (by simp [hpp])
  obtain ⟨s₁, s₂, hv, hs, ht⟩ := hin param (mem_sortedKeys.mpr hmem)
  obtain ⟨v, ha, hl⟩ := applyParam_lookup hpp hs
  rw [hv] at ha hl
  exact ⟨v, ha, ht.trans hl⟩

theorem applyPolicy_param {entityType param : String} {tp : TypePolicy} {pp : ParamPolicy}
    {metadata out : Metadata} (h : applyPolicy entityType metadata (some tp) = .ok out)
    (hpp : tp.lookup param = some pp) (hne : param ≠ "scope") :
    ∃ v, applyOperators entityType param pp operatorOrder (metadata.lookup param) = .ok v ∧
      out.lookup param = published v := by
  obtain ⟨v, ha, hl⟩ := applyPolicy_lookup h hpp
  rw [operand, scopeText_ne hne] at ha
  rw [written, scopeText_ne hne] at hl
  exact ⟨v, ha, hl⟩

/-- The hierarchy principle. Whatever policies the superiors of a chain state, in any number,
if they resolve to `m` and applying `m` to an entity's metadata succeeds, then every
parameter but `scope` honours the operators every one of the superiors put on it. -/
theorem resolvePolicy_honoured (chain : List Statement) (m : Policy)
    (h : resolvePolicy chain = .ok (some m)) (entityType : String) (metadata out : Metadata)
    (hout : applyPolicy entityType metadata (m.lookup entityType) = .ok out) (st : Statement)
    (hst : st ∈ chain.tail) (p : Policy) (hp : st.metadataPolicy = some p) (param : String)
    (hne : param ≠ "scope") (pp : ParamPolicy)
    (hpp : paramPolicy p entityType param = some pp) :
    Honours pp (out.lookup param) := by
  have hres := resolveFrom_none h
  have hmem : p ∈ chain.tail.reverse.filterMap Statement.metadataPolicy :=
    mem_filterMap.mpr ⟨st, mem_reverse.mpr hst, hp⟩
  obtain ⟨mp, hmp, hs⟩ := hres.stricter p hmem hpp
  obtain ⟨tp, htp, hlook⟩ := Option.bind_eq_some_iff.mp hmp
  rw [htp] at hout
  obtain ⟨v, ha, hl⟩ := applyPolicy_param hout hlook hne
  rw [hl]
  exact hs.honours (applyOperators_honours (hres.valid hmp) ha)

def grantTypes (ops : List (Operator × List String)) : Policy :=
  AList.insert "openid_relying_party" (AList.insert "grant_types"
    (ops.foldr (fun o pp => AList.insert o.1 (.arr (o.2.map .str)) pp) ∅) ∅) ∅

def boundedChain : List Statement :=
  [⟨none, []⟩, ⟨some (grantTypes [(.add, ["refresh_token"])]), []⟩,
    ⟨some (grantTypes [(.subsetOf, ["authorization_code", "refresh_token"])]), []⟩]

def boundedPolicy : Policy :=
  match resolvePolicy boundedChain with
  | .ok (some m) => m
  | _ => ∅

def implicitMetadata : Metadata :=
  AList.insert "grant_types" (.arr [.str "authorization_code", .str "implicit"]) ∅

def boundedMetadata : Metadata :=
  match applyPolicy "openid_relying_party" implicitMetadata
    (boundedPolicy.lookup "openid_relying_party") with
  | .ok out => out
  | .error _ => ∅

/-- The intermediate's addition is there and the anchor's bound holds of the result. -/
theorem resolvePolicy_honoured_boundedChain :
    ∃ pp, paramPolicy (grantTypes [(.subsetOf, ["authorization_code", "refresh_token"])])
        "openid_relying_party" "grant_types" = some pp ∧
      Honours pp (boundedMetadata.lookup "grant_types") := by
  refine ⟨_, rfl, resolvePolicy_honoured boundedChain boundedPolicy rfl "openid_relying_party"
    implicitMetadata boundedMetadata rfl
    ⟨some (grantTypes [(.subsetOf, ["authorization_code", "refresh_token"])]), []⟩
    (by simp [boundedChain]) _ rfl "grant_types" (by decide) _ rfl⟩

end Signari.MetadataHierarchy
