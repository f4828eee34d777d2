import Signari.MetadataHierarchy

/-!
# What `essential` leaves behind

`essential: true` is checked last of a parameter's operators, on the value as the others left it,
and a null value passes it: the parameter is there. So an essential parameter is missing from the
result exactly where null reaches the check, published as null or supplied as the default
(`LeftNull`), since `value` cannot be null beside an essential that is true and the array operators
refuse null.
-/
namespace Signari.EssentialParameters
open GoStrings IndexedChecks JsonValues KeyedMaps MetadataPolicy MetadataHierarchy

/-! ## Resolved policies are validated -/

/-- Every parameter's operators pass the combination checks. -/
def Validated (m : Policy) : Prop :=
  ∀ {entityType param pp}, paramPolicy m entityType param = some pp → Compatible pp

theorem validatePolicy_validated {crit : List String} {p out : Policy}
    (h : validatePolicy crit p = .ok out) : Validated out := by
  intro entityType param pp hpp
  rcases validatePolicy_param h entityType param with ⟨_, hnone⟩ | ⟨_, pp', _, hclean, hout⟩
  · rw [hpp] at hnone
    cases hnone
  · obtain rfl : pp = pp' := by simpa [hpp] using hout
    simp only [cleanParamPolicy, bind_ok] at hclean
    obtain ⟨_, _, _, hvalid, heq⟩ := hclean
    cases heq
    exact validateParamPolicy_iff.mp hvalid

theorem Validated.merge {m next out : Policy} (hm : Validated m) (hn : Validated next)
    (h : mergePolicy m next = .ok out) : Validated out := by
  intro entityType param pp hpp
  have hmerged := mergePolicy_merged h entityType param
  rw [hpp] at hmerged
  generalize hc : paramPolicy m entityType param = c at hmerged
  generalize hx : paramPolicy next entityType param = x at hmerged
  cases hmerged with
  | kept => exact hm hc
  | copied => exact hn hx
  | combined cp np _ hr =>
    simp only [mergeParamPolicy, bind_ok] at hr
    obtain ⟨_, _, _, hvalid, heq⟩ := hr
    cases heq
    exact validateParamPolicy_iff.mp hvalid

theorem resolveFrom_validated {crit : List String} {sts : List Statement} {m : Policy}
    {cur : Option Policy} (hcur : ∀ c, cur = some c → Validated c)
    (h : resolveFrom crit cur sts = .ok (some m)) : Validated m := by
  induction sts generalizing cur with
  | nil =>
    simp only [resolveFrom, Except.ok.injEq] at h
    exact hcur m h
  | cons st sts ih =>
    cases hp : st.metadataPolicy with
    | none =>
      simp only [resolveFrom, hp] at h
      exact ih hcur h
    | some p =>
      simp only [resolveFrom, hp, bind_ok] at h
      obtain ⟨next, hval, h⟩ := h
      cases cur with
      | none =>
        refine ih ?_ h
        rintro c hc
        cases hc
        exact validatePolicy_validated hval
      | some c =>
        simp only [bind_ok] at h
        obtain ⟨merged, hmerge, hrest⟩ := h
        refine ih ?_ hrest
        rintro c' hc'
        cases hc'
        exact Validated.merge (hcur c rfl) (validatePolicy_validated hval) hmerge

theorem resolvePolicy_validated {chain : List Statement} {m : Policy}
    (h : resolvePolicy chain = .ok (some m)) : Validated m :=
  resolveFrom_validated (by simp) h

/-! ## The check of `essential` -/

theorem applyAt_essential_present {entityType param : String} {pp : ParamPolicy}
    {val out : Option Json} (h : applyAt entityType param pp .essential val = .ok out)
    (hess : pp.lookup .essential = some (.bool true)) : val.isSome = true := by
  simp only [applyAt, hess, applyOperator, checkEssential, bind_ok, refuseIf_ok,
    Except.ok.injEq] at h
  obtain ⟨b, rfl, _, hpresent, _⟩ := h
  cases val with
  | none => simp at hpresent
  | some v => rfl

/-- Null reaches the check of `essential`: published, or given as the default of an absent
parameter. -/
def LeftNull (pp : ParamPolicy) (val : Option Json) : Prop :=
  pp.lookup .value = none ∧ (val = some .null ∨
    val = none ∧ pp.lookup .add = none ∧ pp.lookup .default = some .null)

theorem compatible_valid {pp : ParamPolicy} (h : Compatible pp) : Valid pp :=
  have hok : validateParamPolicy "" "" pp = .ok () := validateParamPolicy_iff.mpr h
  valid_of_ok hok

/-- Without `value`, null is left where it was published or is the default. -/
theorem unvalued_null {entityType param : String} {pp : ParamPolicy}
    (hvalue : pp.lookup .value = none) {v₁ v₂ v₃ : Option Json} {v : Json}
    (h₂ : applyAt entityType param pp .add v₁ = .ok v₂)
    (h₃ : applyAt entityType param pp .default v₂ = .ok v₃)
    (h₅ : applyAt entityType param pp .subsetOf v₃ = .ok (some v)) :
    v = .null ↔ LeftNull pp v₁ := by
  rcases applyAt_add h₂ with ⟨hadd, rfl⟩ | ⟨adds, hadd, hstart⟩
  · rcases applyAt_subsetOf h₅ with ⟨-, hsame⟩ | ⟨_, -, ⟨-, hnone⟩ | ⟨_, cur, -, hcur, heq⟩⟩
    · rcases applyAt_default h₃ with ⟨hdefault, rfl⟩ | ⟨c, hdefault, rfl⟩
      · simp [LeftNull, hvalue, hdefault, ← hsame]
      · cases v₂ with
        | none => simp [LeftNull, hvalue, hadd, hdefault, Option.some.inj hsame]
        | some w => simp [LeftNull, hvalue, Option.some.inj hsame]
    · cases hnone
    · refine iff_of_false (by simp [Option.some.inj heq]) ?_
      rintro ⟨-, rfl | ⟨rfl, -, hnull⟩⟩
      · rcases applyAt_default h₃ with ⟨-, rfl⟩ | ⟨c, -, rfl⟩ <;> cases hcur
      · rcases applyAt_default h₃ with ⟨-, rfl⟩ | ⟨c, hdefault, rfl⟩
        · cases hcur
        · rw [hnull] at hdefault
          cases hdefault
          cases hcur
  · obtain ⟨items, rfl⟩ : ∃ items, v₂ = some (.arr items) := by
      rcases hstart with ⟨-, rfl⟩ | ⟨cur, -, rfl⟩
      · exact ⟨adds, rfl⟩
      · exact ⟨union cur adds, rfl⟩
    obtain rfl : v₃ = some (.arr items) := by
      rcases applyAt_default h₃ with ⟨-, rfl⟩ | ⟨_, -, rfl⟩ <;> rfl
    have harr : ∃ items', v = .arr items' := by
      rcases applyAt_subsetOf h₅ with ⟨-, hsame⟩ | ⟨_, -, ⟨hnone, -⟩ | ⟨_, _, -, -, heq⟩⟩
      · exact ⟨items, Option.some.inj hsame⟩
      · cases hnone
      · exact ⟨_, Option.some.inj heq⟩
    obtain ⟨items', rfl⟩ := harr
    refine iff_of_false (by simp) ?_
    rintro ⟨-, rfl | ⟨rfl, hnone, -⟩⟩
    · rcases hstart with ⟨hnone, -⟩ | ⟨cur, hcur, -⟩
      · cases hnone
      · cases hcur
    · rw [hadd] at hnone
      cases hnone

theorem applyOperators_essential {entityType param : String} {pp : ParamPolicy}
    (hpp : Compatible pp) (hess : pp.lookup .essential = some (.bool true))
    {val out : Option Json}
    (h : applyOperators entityType param pp operatorOrder val = .ok out) :
    ∃ v, out = some v ∧ (v = .null ↔ LeftNull pp val) := by
  have hv := compatible_valid hpp
  obtain ⟨v₁, v₂, v₃, h₁, h₂, h₃, -, h₅, -, h₇⟩ := applyOperators_stages h
  have hpresent := applyAt_essential_present h₇ hess
  obtain ⟨v, rfl⟩ := Option.isSome_iff_exists.mp hpresent
  refine ⟨v, rfl, ?_⟩
  rcases applyAt_value h₁ with ⟨hvalue, rfl⟩ | ⟨c, hc, rfl⟩
  · exact unvalued_null hvalue h₂ h₃ h₅
  · have hne : c ≠ .null := by
      rintro rfl
      cases hpp.nullEssential _ hc hess
    have hn : c.isNull = false := Bool.eq_false_iff.mpr fun he => hne (isNull_iff.mp he)
    simp only [hn, Bool.false_eq_true, if_false] at h₂
    have hsame := Option.some.inj (value_survives hv hc hne h₂ h₃ h₅)
    refine iff_of_false (hsame ▸ hne) fun hnull => ?_
    rw [hnull.1] at hc
    cases hc

theorem leftNull_operand {param : String} {pp : ParamPolicy} {val : Option Json} :
    LeftNull pp (operand param val) ↔ LeftNull pp val := by
  unfold operand scopeText
  split
  · next s hs =>
      split at hs
      · simp [LeftNull, splitScopeValue]
      · cases hs
  · rfl

theorem joinScopeValue_eq_null {v : Json} : joinScopeValue v = .null ↔ v = .null := by
  cases v <;> simp [joinScopeValue]

theorem written_eq_some {param : String} {val : Option Json} {v : Json} :
    ∃ w, written param val (some v) = some w ∧ (w = .null ↔ v = .null) := by
  unfold written
  split
  · exact ⟨joinScopeValue v, rfl, joinScopeValue_eq_null⟩
  · exact ⟨v, rfl, Iff.rfl⟩

theorem published_isSome {v : Json} : (∃ w, published (some v) = some w ∧ w ≠ .null) ↔
    v ≠ .null := by
  by_cases hv : v = .null
  · simp [hv, published, Json.isNull]
  · have hn : v.isNull = false := Bool.eq_false_iff.mpr fun he => hv (isNull_iff.mp he)
    simp [published, hn, hv]

theorem essential_param {entityType param : String} {tp : TypePolicy} {pp : ParamPolicy}
    {metadata out : Metadata} (h : applyPolicy entityType metadata (some tp) = .ok out)
    (hlookup : tp.lookup param = some pp) (hpp : Compatible pp)
    (hess : pp.lookup .essential = some (.bool true)) :
    (∃ v, out.lookup param = some v ∧ v ≠ .null) ↔ ¬LeftNull pp (metadata.lookup param) := by
  obtain ⟨r, happly, hout⟩ := applyPolicy_lookup h hlookup
  obtain ⟨v, rfl, hnull⟩ := applyOperators_essential hpp hess happly
  obtain ⟨w, hw, hwv⟩ := @written_eq_some param (metadata.lookup param) v
  rw [hout, hw, published_isSome, ne_eq, hwv, hnull, leftNull_operand]

/-- Of a resolved policy every essential parameter is in the result with a value exactly when
none of them is left null. -/
theorem essential_present_iff (chain : List Statement) (m : Policy)
    (h : resolvePolicy chain = .ok (some m)) (entityType : String) (metadata out : Metadata)
    (hout : applyPolicy entityType metadata (m.lookup entityType) = .ok out) :
    (∀ param pp, paramPolicy m entityType param = some pp →
      pp.lookup .essential = some (.bool true) → ∃ v, out.lookup param = some v ∧ v ≠ .null) ↔
    ∀ param pp, paramPolicy m entityType param = some pp →
      pp.lookup .essential = some (.bool true) → ¬LeftNull pp (metadata.lookup param) := by
  refine forall₄_congr fun param pp hpp hess => ?_
  obtain ⟨tp, htype, hlookup⟩ := Option.bind_eq_some_iff.mp hpp
  rw [htype] at hout
  exact essential_param hout hlookup (resolvePolicy_validated h hpp) hess

def essentialChain : List Statement :=
  [⟨none, []⟩, ⟨some (AList.insert "openid_relying_party"
    (AList.insert "contacts" (AList.insert .essential (.bool true) ∅) ∅) ∅), []⟩]

def essentialPolicy : Policy := match resolvePolicy essentialChain with
  | .ok (some m) => m
  | _ => ∅

/-- The client publishes its contacts as null, and they are missing from the result. -/
theorem essential_missing : ∃ out, resolvePolicy essentialChain = .ok (some essentialPolicy) ∧
    applyPolicy "openid_relying_party" (AList.insert "contacts" .null ∅)
      (essentialPolicy.lookup "openid_relying_party") = .ok out ∧
    (∃ pp, paramPolicy essentialPolicy "openid_relying_party" "contacts" = some pp ∧
      pp.lookup .essential = some (.bool true)) ∧ out.lookup "contacts" = none :=
  ⟨_, rfl, rfl, ⟨_, rfl, rfl⟩, rfl⟩

def contacted : Metadata := AList.insert "contacts" (.arr [.str "ops@example.org"]) ∅

theorem essential_present_iff_contacted :
    let out := match applyPolicy "openid_relying_party" contacted
        (essentialPolicy.lookup "openid_relying_party") with
      | .ok out => out
      | .error _ => ∅
    (∀ param pp, paramPolicy essentialPolicy "openid_relying_party" param = some pp →
      pp.lookup .essential = some (.bool true) → ∃ v, out.lookup param = some v ∧ v ≠ .null) ↔
    ∀ param pp, paramPolicy essentialPolicy "openid_relying_party" param = some pp →
      pp.lookup .essential = some (.bool true) → ¬LeftNull pp (contacted.lookup param) :=
  essential_present_iff essentialChain essentialPolicy rfl "openid_relying_party" contacted _ rfl

end Signari.EssentialParameters
