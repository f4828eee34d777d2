import Signari.JsonExtents
import Signari.MergeOrder
import Signari.MetadataHierarchy

/-!
# Merging metadata policies in any order

Each operator has its own merge rule, and after every step the combination of operators that
results is checked again, so an incompatibility might be found in one order of merging and missed
in another. `mergeAll_policies_perm` says that it is not: for every permutation of a list of
policies, merging fails for both orders or succeeds for both, with the same result up to the
order and the repetition of list elements.
-/
namespace Signari.PolicyOrder
open IndexedChecks JsonValues JsonExtents KeyedMaps MergeOrder MetadataPolicy MetadataHierarchy List

def SameElements (a b : Json) : Prop :=
  valueKey a = valueKey b ∨ ∃ xs ys, a = .arr xs ∧ b = .arr ys ∧ Within xs ys ∧ Within ys xs

def SameOperand : Operator → Json → Json → Prop
  | .add | .oneOf | .subsetOf | .supersetOf => SameElements
  | .essential => Eq
  | _ => fun a b => valueKey a = valueKey b

def SamePolicy : Policy → Policy → Prop := MapRel fun _ => MapRel fun _ => MapRel SameOperand

def keys (xs : List Json) : Set String := {k | ∃ x ∈ xs, valueKey x = k}

def elements : Json → Option (Set String)
  | .arr xs => some (keys xs)
  | _ => none

theorem mem_keys_valueKey {xs : List Json} {v : Json} :
    valueKey v ∈ keys xs ↔ containsValue xs v = true := containsValue_iff.symm

theorem within_iff {xs ys : List Json} : Within xs ys ↔ keys xs ⊆ keys ys := by
  constructor
  · rintro h k ⟨x, hx, rfl⟩
    exact mem_keys_valueKey.mpr (h x hx)
  · intro h x hx
    exact mem_keys_valueKey.mp (h ⟨x, hx, rfl⟩)

theorem keys_eq_iff {xs ys : List Json} : keys xs = keys ys ↔ Within xs ys ∧ Within ys xs := by
  rw [within_iff, within_iff, Set.Subset.antisymm_iff]

theorem keys_eq_of_map {xs ys : List Json} (h : xs.map marshal = ys.map marshal) :
    keys xs = keys ys := by
  have hkeys : ∀ zs : List Json, keys zs = {k | k ∈ zs.map marshal} := by
    intro zs
    ext k
    simp [keys, valueKey]
  rw [hkeys, hkeys, h]

theorem arr_of_valueKey {a : Json} {ys : List Json} (h : valueKey a = valueKey (.arr ys)) :
    ∃ xs, a = .arr xs ∧ keys xs = keys ys := by
  obtain ⟨xs, rfl, hmap⟩ := marshal_arr h
  exact ⟨xs, rfl, keys_eq_of_map hmap⟩

theorem elements_eq_some {a : Json} {s : Set String} :
    elements a = some s ↔ ∃ xs, a = .arr xs ∧ keys xs = s := by
  cases a <;> simp [elements]

theorem SameElements.elements_eq {a b : Json} (h : SameElements a b) : elements a = elements b := by
  obtain hkey | ⟨xs, ys, rfl, rfl, hw⟩ := h
  · apply Option.ext
    intro s
    have himp : ∀ {c d : Json}, valueKey c = valueKey d → elements d = some s →
        elements c = some s := by
      intro c d hcd hd
      obtain ⟨ys, rfl, rfl⟩ := elements_eq_some.mp hd
      obtain ⟨xs, rfl, hxs⟩ := arr_of_valueKey hcd
      exact elements_eq_some.mpr ⟨xs, rfl, hxs⟩
    exact ⟨himp hkey.symm, himp hkey⟩
  · simp [elements, keys_eq_iff.mpr hw]

theorem sameElements_of_elements {a b : Json} {s : Set String} (ha : elements a = some s)
    (hb : elements b = some s) : SameElements a b := by
  obtain ⟨xs, rfl, hxs⟩ := elements_eq_some.mp ha
  obtain ⟨ys, rfl, hys⟩ := elements_eq_some.mp hb
  exact .inr ⟨xs, ys, rfl, rfl, keys_eq_iff.mp (hxs.trans hys.symm)⟩

theorem equivalence_sameElements : Equivalence SameElements where
  refl _ := .inl rfl
  symm h := by
    obtain hkey | ⟨xs, ys, rfl, rfl, hw⟩ := h
    · exact .inl hkey.symm
    · exact .inr ⟨ys, xs, rfl, rfl, hw.symm⟩
  trans {a b c} hab hbc := by
    obtain hkey | ⟨xs, ys, rfl, rfl, -⟩ := id hab
    · obtain hkey' | ⟨ys, zs, rfl, rfl, -⟩ := id hbc
      · exact .inl (hkey.trans hkey')
      · exact sameElements_of_elements (hab.elements_eq.trans hbc.elements_eq) rfl
    · exact sameElements_of_elements rfl (hab.elements_eq.trans hbc.elements_eq).symm

theorem keys_union (xs ys : List Json) : keys (union xs ys) = keys xs ∪ keys ys := by
  apply Set.Subset.antisymm
  · induction ys generalizing xs with
    | nil => simp [union]
    | cons v vs ih =>
      rw [union]
      split_ifs
      · refine (ih xs).trans (Set.union_subset_union_right _ ?_)
        rintro k ⟨x, hx, hk⟩
        exact ⟨x, by simp [hx], hk⟩
      · refine (ih (xs ++ [v])).trans ?_
        rintro k (⟨x, hx, hk⟩ | ⟨x, hx, hk⟩)
        · obtain hx | hx := mem_append.mp hx
          · exact .inl ⟨x, hx, hk⟩
          · exact .inr ⟨x, by simp [mem_singleton.mp hx], hk⟩
        · exact .inr ⟨x, by simp [hx], hk⟩
  · exact Set.union_subset (within_iff.mp (within_of_subset (subset_union xs ys)))
      (within_iff.mp (within_union_right xs ys))

theorem keys_intersection (xs ys : List Json) : keys (intersection xs ys) = keys xs ∩ keys ys := by
  apply Set.Subset.antisymm
  · exact Set.subset_inter (within_iff.mp (intersection_within xs ys).1)
      (within_iff.mp (intersection_within xs ys).2)
  · rintro k ⟨⟨x, hx, rfl⟩, hk⟩
    exact ⟨x, mem_filter.mpr ⟨hx, mem_keys_valueKey.mp hk⟩, rfl⟩

theorem keys_nonempty {xs : List Json} : (keys xs).Nonempty ↔ xs ≠ [] := by
  constructor
  · rintro ⟨k, x, hx, -⟩ rfl
    simp at hx
  · intro h
    obtain ⟨x, hx⟩ := exists_mem_of_ne_nil xs h
    exact ⟨valueKey x, x, hx, rfl⟩

section
variable {entityType param : String}

theorem reading_equal {merge : Json → Json → Except PolicyError Json}
    (hok : ∀ {a b v}, merge a b = .ok v ↔ valueKey a = valueKey b ∧ v = a) :
    Reading (fun a b => valueKey a = valueKey b) merge
      (fun a => some ({valueKey a} : Set String)) (· ∩ ·) Set.Nonempty where
  equiv := ⟨fun _ => rfl, Eq.symm, Eq.trans⟩
  related h := by rw [h]
  relates {a b x} ha hb := by
    have hab : ({valueKey a} : Set String) = {valueKey b} := by
      rw [Option.some.inj ha, Option.some.inj hb]
    exact Set.singleton_eq_singleton_iff.mp hab
  comm := Set.inter_comm
  assoc := Set.inter_assoc
  good_left h := h.mono Set.inter_subset_left
  merged {a b v} h := by
    obtain ⟨hab, rfl⟩ := hok.mp h
    exact ⟨_, _, rfl, rfl, by simp [hab], by simp [hab]⟩
  merges {a b x y} ha hb h := by
    obtain rfl := Option.some.inj ha
    obtain rfl := Option.some.inj hb
    have hab : valueKey a = valueKey b := (by simpa using h : valueKey b = valueKey a).symm
    exact ⟨a, hok.mpr ⟨hab, rfl⟩⟩

theorem reading_lists {merge : Json → Json → Except PolicyError Json}
    {op : Set String → Set String → Set String} {good : Set String → Prop}
    {combine : List Json → List Json → List Json}
    (hok : ∀ {a b v}, merge a b = .ok v ↔ ∃ xs ys, a = .arr xs ∧ b = .arr ys ∧
      good (keys (combine xs ys)) ∧ v = .arr (combine xs ys))
    (hcombine : ∀ xs ys, keys (combine xs ys) = op (keys xs) (keys ys))
    (hcomm : ∀ x y, op x y = op y x) (hassoc : ∀ x y z, op (op x y) z = op x (op y z))
    (hgood : ∀ {x y}, good (op x y) → good x) :
    Reading SameElements merge elements op good where
  equiv := equivalence_sameElements
  related := SameElements.elements_eq
  relates := sameElements_of_elements
  comm := hcomm
  assoc := hassoc
  good_left := hgood
  merged {a b v} h := by
    obtain ⟨xs, ys, rfl, rfl, hg, rfl⟩ := hok.mp h
    exact ⟨keys xs, keys ys, rfl, rfl, hcombine xs ys ▸ hg, by rw [elements, hcombine]⟩
  merges {a b x y} ha hb h := by
    obtain ⟨xs, rfl, rfl⟩ := elements_eq_some.mp ha
    obtain ⟨ys, rfl, rfl⟩ := elements_eq_some.mp hb
    exact ⟨_, hok.mpr ⟨xs, ys, rfl, rfl, (hcombine xs ys).symm ▸ h, rfl⟩⟩

theorem reading_union {op : Operator} (hop : op = .add ∨ op = .supersetOf) :
    Reading SameElements (mergeOperatorValues entityType param op) elements (· ∪ ·)
      fun _ => True := by
  refine reading_lists ?_ keys_union Set.union_comm Set.union_assoc fun _ => trivial
  intro a b v
  obtain rfl | rfl := hop
  all_goals
    simp only [mergeOperatorValues, bind_ok, asArray_ok, Except.ok.injEq]
    constructor
    · rintro ⟨xs, rfl, ys, rfl, rfl⟩
      exact ⟨xs, ys, rfl, rfl, trivial, rfl⟩
    · rintro ⟨xs, ys, rfl, rfl, -, rfl⟩
      exact ⟨xs, rfl, ys, rfl, rfl⟩

theorem reading_subsetOf :
    Reading SameElements (mergeOperatorValues entityType param .subsetOf) elements (· ∩ ·)
      fun _ => True := by
  refine reading_lists ?_ keys_intersection Set.inter_comm Set.inter_assoc fun _ => trivial
  intro a b v
  simp only [mergeOperatorValues, bind_ok, asArray_ok, Except.ok.injEq]
  constructor
  · rintro ⟨xs, rfl, ys, rfl, rfl⟩
    exact ⟨xs, ys, rfl, rfl, trivial, rfl⟩
  · rintro ⟨xs, ys, rfl, rfl, -, rfl⟩
    exact ⟨xs, rfl, ys, rfl, rfl⟩

theorem reading_oneOf :
    Reading SameElements (mergeOperatorValues entityType param .oneOf) elements (· ∩ ·)
      Set.Nonempty := by
  refine reading_lists ?_ keys_intersection Set.inter_comm Set.inter_assoc
    fun h => h.mono Set.inter_subset_left
  intro a b v
  simp only [mergeOperatorValues, bind_ok, asArray_ok, keys_nonempty]
  constructor
  · rintro ⟨xs, rfl, ys, rfl, h⟩
    split_ifs at h with hnil
    exact ⟨xs, ys, rfl, rfl, hnil, (Except.ok.inj h).symm⟩
  · rintro ⟨xs, ys, rfl, rfl, hne, rfl⟩
    exact ⟨xs, rfl, ys, rfl, if_neg hne⟩

def truth : Json → Option Bool
  | .bool b => some b
  | _ => none

theorem truth_eq_some {a : Json} {b : Bool} : truth a = some b ↔ a = .bool b := by
  cases a <;> simp [truth]

theorem mergeEssential_ok {a b v : Json} :
    mergeOperatorValues entityType param .essential a b = .ok v ↔
      ∃ x y, a = .bool x ∧ b = .bool y ∧ v = .bool (x || y) := by
  cases a with
  | bool x =>
    cases b with
    | bool y => simp [mergeOperatorValues, eq_comm]
    | null | num _ | str _ | arr _ | obj _ => simp [mergeOperatorValues]
  | null | num _ | str _ | arr _ | obj _ => simp [mergeOperatorValues]

theorem reading_essential :
    Reading Eq (mergeOperatorValues entityType param .essential) truth (· || ·)
      fun _ => True where
  equiv := ⟨fun _ => rfl, Eq.symm, Eq.trans⟩
  related h := by rw [h]
  relates ha hb := by rw [truth_eq_some.mp ha, truth_eq_some.mp hb]
  comm := Bool.or_comm
  assoc := Bool.or_assoc
  good_left _ := trivial
  merged h := by
    obtain ⟨x, y, rfl, rfl, rfl⟩ := mergeEssential_ok.mp h
    exact ⟨x, y, rfl, rfl, trivial, rfl⟩
  merges ha hb _ :=
    ⟨_, mergeEssential_ok.mpr ⟨_, _, truth_eq_some.mp ha, truth_eq_some.mp hb, rfl⟩⟩

theorem commutes_mergeOperatorValues (op : Operator) :
    Commutes (SameOperand op) (mergeOperatorValues entityType param op) := by
  cases op with
  | value | default =>
    apply Reading.commutes (reading_equal _)
    intro a b v
    simp only [mergeOperatorValues, sameValue, beq_iff_eq]
    split_ifs with h
    · simp [h, eq_comm]
    · simp [h]
  | add => exact (reading_union (.inl rfl)).commutes
  | supersetOf => exact (reading_union (.inr rfl)).commutes
  | oneOf => exact reading_oneOf.commutes
  | subsetOf => exact reading_subsetOf.commutes
  | essential => exact reading_essential.commutes
  | other name =>
    exact ⟨⟨fun _ => rfl, Eq.symm, Eq.trans⟩, fun _ _ => trivial, fun _ _ => trivial,
      fun _ _ _ => trivial⟩

end

/-- The first value demands no more than the second. -/
def Looser : Operator → Json → Json → Prop
  | .value, c, d => valueKey c = valueKey d
  | .add, c, d | .supersetOf, c, d => ∀ ys, d = .arr ys → ∃ xs, c = .arr xs ∧ Within xs ys
  | .oneOf, c, d | .subsetOf, c, d => ∀ ys, d = .arr ys → ∃ xs, c = .arr xs ∧ Within ys xs
  | .essential, c, d => ∀ y, d = .bool y → ∃ x, c = .bool x ∧ (x = true → y = true)
  | _, _, _ => True

def LooserPolicy (pp qq : ParamPolicy) : Prop :=
  ∀ op c, pp.lookup op = some c → ∃ d, qq.lookup op = some d ∧ Looser op c d

theorem inside_of_looser {a a' b b' : Json} (h : Inside a' b')
    (ha : ∀ ys, a' = .arr ys → ∃ xs, a = .arr xs ∧ Within xs ys)
    (hb : ∀ ys, b' = .arr ys → ∃ xs, b = .arr xs ∧ Within ys xs) : Inside a b := by
  obtain ⟨xs, ys, rfl, rfl, hw⟩ := h
  obtain ⟨us, rfl, hus⟩ := ha xs rfl
  obtain ⟨vs, rfl, hvs⟩ := hb ys rfl
  exact ⟨us, vs, rfl, rfl, hus.trans (hw.trans hvs)⟩

theorem SameElements.within {a b : Json} (h : SameElements a b) :
    (∀ ys, b = .arr ys → ∃ xs, a = .arr xs ∧ Within xs ys) ∧
      ∀ ys, b = .arr ys → ∃ xs, a = .arr xs ∧ Within ys xs := by
  have hlist : ∀ ys, b = .arr ys → ∃ xs, a = .arr xs ∧ Within xs ys ∧ Within ys xs := by
    rintro ys rfl
    obtain ⟨xs, hxs, hkeys⟩ := elements_eq_some.mp h.elements_eq
    exact ⟨xs, hxs, keys_eq_iff.mp hkeys⟩
  constructor
  · intro ys hys
    obtain ⟨xs, hxs, hw, -⟩ := hlist ys hys
    exact ⟨xs, hxs, hw⟩
  · intro ys hys
    obtain ⟨xs, hxs, -, hw⟩ := hlist ys hys
    exact ⟨xs, hxs, hw⟩

theorem ne_null_of_valueKey {a b : Json} (h : valueKey a = valueKey b) (ha : a ≠ .null) :
    b ≠ .null := by
  rintro rfl
  exact ha (marshal_eq_null.mp h)

theorem compatible_of_looser {pp qq : ParamPolicy} (h : Compatible qq) (hl : LooserPolicy pp qq) :
    Compatible pp where
  allowed a ha b hb hne := by
    have hmem : ∀ op ∈ pp, op ∈ qq := by
      intro op hop
      obtain ⟨c, hc⟩ := Option.isSome_iff_exists.mp (AList.lookup_isSome.mpr hop)
      obtain ⟨d, hd, -⟩ := hl op c hc
      exact AList.lookup_isSome.mp (by simp [hd])
    exact h.allowed a (hmem a ha) b (hmem b hb) hne
  nullDefault hc := by
    obtain ⟨c', hc', hlc⟩ := hl _ _ hc
    obtain rfl : c' = .null := marshal_eq_null.mp hlc.symm
    by_contra hcon
    obtain ⟨d, hd⟩ := Option.ne_none_iff_exists'.mp hcon
    obtain ⟨d', hd', -⟩ := hl _ _ hd
    simp [h.nullDefault hc'] at hd'
  nullEssential e hc he := by
    obtain ⟨c', hc', hlc⟩ := hl _ _ hc
    obtain rfl : c' = .null := marshal_eq_null.mp hlc.symm
    obtain ⟨e', he', hle⟩ := hl _ _ he
    obtain ⟨x, rfl, hx⟩ := hle false (h.nullEssential e' hc' he')
    simpa using hx
  addValue c a hc ha := by
    obtain ⟨c', hc', hlc⟩ := hl _ _ hc
    obtain ⟨a', ha', hla⟩ := hl _ _ ha
    exact inside_of_looser (h.addValue c' a' hc' ha') hla (SameElements.within (.inl hlc)).2
  valueOneOf c o hc hn ho := by
    obtain ⟨c', hc', hlc⟩ := hl _ _ hc
    obtain ⟨o', ho', hlo⟩ := hl _ _ ho
    obtain ⟨xs, hxs, hcontains⟩ := h.valueOneOf c' o' hc' (ne_null_of_valueKey hlc hn) ho'
    obtain ⟨ys, rfl, hw⟩ := hlo xs hxs
    have hmem : valueKey c ∈ keys ys := by
      rw [show valueKey c = valueKey c' from hlc]
      exact within_iff.mp hw (mem_keys_valueKey.mpr hcontains)
    exact ⟨ys, rfl, mem_keys_valueKey.mp hmem⟩
  valueSubset c s hc hn hs := by
    obtain ⟨c', hc', hlc⟩ := hl _ _ hc
    obtain ⟨s', hs', hls⟩ := hl _ _ hs
    exact inside_of_looser (h.valueSubset c' s' hc' (ne_null_of_valueKey hlc hn) hs')
      (SameElements.within (.inl hlc)).1 hls
  supersetValue c s hc hn hs := by
    obtain ⟨c', hc', hlc⟩ := hl _ _ hc
    obtain ⟨s', hs', hls⟩ := hl _ _ hs
    exact inside_of_looser (h.supersetValue c' s' hc' (ne_null_of_valueKey hlc hn) hs') hls
      (SameElements.within (.inl hlc)).2
  addSubset a s ha hs := by
    obtain ⟨a', ha', hla⟩ := hl _ _ ha
    obtain ⟨s', hs', hls⟩ := hl _ _ hs
    exact inside_of_looser (h.addSubset a' s' ha' hs') hla hls
  supersetSubset s u hs hu := by
    obtain ⟨s', hs', hls⟩ := hl _ _ hs
    obtain ⟨u', hu', hlu⟩ := hl _ _ hu
    exact inside_of_looser (h.supersetSubset s' u' hs' hu') hlu hls
  essential e he := by
    obtain ⟨e', he', hle⟩ := hl _ _ he
    obtain ⟨y, hy⟩ := h.essential e' he'
    obtain ⟨x, hx, -⟩ := hle y hy
    exact ⟨x, hx⟩

theorem SameOperand.looser {op : Operator} {a b : Json} (h : SameOperand op a b) :
    Looser op a b := by
  cases op with
  | value => exact h
  | add | supersetOf => exact SameElements.within h |>.1
  | oneOf | subsetOf => exact SameElements.within h |>.2
  | essential =>
    obtain rfl : a = b := h
    exact fun y hy => ⟨y, hy, id⟩
  | default | other name => trivial

section
variable {entityType param : String}

theorem looser_of_merge {op : Operator} {a b v : Json}
    (h : mergeOperatorValues entityType param op a b = .ok v) : Looser op a v := by
  have ht := (mergeOperatorValues_tighter h).1
  cases op with
  | value => simpa [Looser, Tighter, sameValue] using ht
  | add | supersetOf | oneOf | subsetOf =>
    rintro ys rfl
    obtain rfl | ⟨xs, zs, rfl, hzs, hw⟩ := ht
    · exact ⟨ys, rfl, fun x hx => within_of_subset (Subset.refl _) x hx⟩
    · obtain rfl : ys = zs := by simpa using hzs
      exact ⟨xs, rfl, hw⟩
  | essential =>
    obtain ⟨x, y, rfl, rfl, rfl⟩ := mergeEssential_ok.mp h
    rintro z hz
    obtain rfl : (x || y) = z := by simpa using hz
    exact ⟨x, rfl, fun hx => by simp [hx]⟩
  | default | other name => trivial

theorem looserPolicy_of_mergeInto {pp next m : ParamPolicy}
    (h : mergeInto Operator.text (mergeOperatorValues entityType param) pp next = .ok m) :
    LooserPolicy pp m := by
  intro op c hc
  have hm := mergeInto_merged h op
  rw [hc] at hm
  generalize next.lookup op = n, m.lookup op = o at hm ⊢
  cases hm with
  | kept =>
    have hsame := (@commutes_mergeOperatorValues entityType param op).equiv.refl c
    exact ⟨c, rfl, hsame.looser⟩
  | combined _ nv v hv => exact ⟨v, rfl, looser_of_merge hv⟩

theorem looserPolicy_of_same {pp qq : ParamPolicy} (h : MapRel SameOperand pp qq) :
    LooserPolicy pp qq := by
  intro op c hc
  have hop := h op
  rw [hc] at hop
  generalize qq.lookup op = o at hop ⊢
  cases hop with
  | some hcd => exact ⟨_, rfl, hcd.looser⟩

theorem commutes_mergeParamPolicy :
    Commutes (MapRel SameOperand) (mergeParamPolicy entityType param) := by
  have hmerge : Commutes (MapRel SameOperand)
      (mergeInto Operator.text (mergeOperatorValues entityType param)) :=
    Commutes.mergeInto commutes_mergeOperatorValues
  apply hmerge.checked
  · intro pp qq hsame hpp
    rw [validateParamPolicy_iff] at hpp ⊢
    exact compatible_of_looser hpp (looserPolicy_of_same (hmerge.equiv.symm hsame))
  · intro pp next m hm hvalid
    rw [validateParamPolicy_iff] at hvalid ⊢
    exact compatible_of_looser hvalid (looserPolicy_of_mergeInto hm)

end

theorem commutes_mergePolicy : Commutes SamePolicy mergePolicy :=
  Commutes.mergeInto fun _ => Commutes.mergeInto fun _ => commutes_mergeParamPolicy

def accepted (crit : List String) (st : Statement) : Option Policy :=
  st.metadataPolicy.bind fun p => (validatePolicy crit p).toOption

theorem resolveFrom_eq_mergeAll {crit : List String} {sts : List Statement}
    (h : ∀ st ∈ sts, ∀ p, st.metadataPolicy = some p → ∃ q, validatePolicy crit p = .ok q) :
    resolveFrom crit none sts = mergeAll mergePolicy (sts.filterMap (accepted crit)) := by
  suffices hall : ∀ cur, resolveFrom crit cur sts = (sts.filterMap (accepted crit)).foldlM
      (fun cur p => mergeAt mergePolicy cur (some p)) cur from hall none
  induction sts with
  | nil => exact fun cur => rfl
  | cons st sts ih =>
    intro cur
    have htail := ih fun st' hst' => h st' (by simp [hst'])
    cases hp : st.metadataPolicy with
    | none =>
      have hskip : accepted crit st = none := by simp [accepted, hp]
      rw [resolveFrom, hp, filterMap_cons_none hskip]
      exact htail cur
    | some p =>
      obtain ⟨q, hq⟩ := h st (by simp) p hp
      have htake : accepted crit st = some q := by simp [accepted, hp, hq, Except.toOption]
      rw [resolveFrom, hp, filterMap_cons_some htake, foldlM_cons]
      simp only [hq]
      cases cur with
      | none => exact htail (some q)
      | some c =>
        change (mergePolicy c q >>= fun m => resolveFrom crit (some m) sts) =
          ((mergePolicy c q).map some >>= _)
        cases mergePolicy c q with
        | error e => rfl
        | ok m => exact htail (some m)

/-- Merging a list of policies does not depend on their order: for two orders it fails for both,
or both results have the same entity types, parameters and operators, with the same values up to
the order and the repetition of list elements. -/
theorem mergeAll_policies_perm {ps qs : List Policy} (h : ps.Perm qs) :
    Agree (Option.Rel SamePolicy) (mergeAll mergePolicy ps) (mergeAll mergePolicy qs) :=
  commutes_mergePolicy.mergeAll_perm h

theorem resolveFrom_perm {crit : List String} {sts sts' : List Statement} (hp : sts.Perm sts')
    (h : ∀ st ∈ sts, ∀ p, st.metadataPolicy = some p → ∃ q, validatePolicy crit p = .ok q) :
    Agree (Option.Rel SamePolicy) (resolveFrom crit none sts) (resolveFrom crit none sts') := by
  have h' : ∀ st ∈ sts', ∀ p, st.metadataPolicy = some p → ∃ q, validatePolicy crit p = .ok q :=
    fun st hst => h st (hp.mem_iff.mpr hst)
  rw [resolveFrom_eq_mergeAll h, resolveFrom_eq_mergeAll h']
  exact commutes_mergePolicy.mergeAll_perm (hp.filterMap _)

/-- The order in which the critical operators are gathered makes no difference. -/
theorem resolveFrom_congr {crit crit' : List String} (h : crit.Perm crit') :
    resolveFrom crit = resolveFrom crit' := by
  have hdrop (entityType param : String) :
      dropUnknown entityType param crit = dropUnknown entityType param crit' := by
    funext op pp
    simp only [dropUnknown, contains_iff_mem, h.mem_iff]
  have hvalidate : validatePolicy crit = validatePolicy crit' := by
    funext p
    simp only [validatePolicy, cleanParamPolicy, hdrop]
  funext current sts
  induction sts generalizing current with
  | nil => rfl
  | cons st sts ih => simp only [resolveFrom, hvalidate, ih]

/-- So resolving a chain whose policies are accepted does not depend on the order of its
statements. -/
theorem resolvePolicy_perm {leaf leaf' : Statement} {sts sts' : List Statement}
    (hp : sts.Perm sts') (h : ∀ st ∈ sts, ∀ p, st.metadataPolicy = some p →
      ∃ q, validatePolicy (sts.flatMap Statement.metadataPolicyCrit) p = .ok q) :
    Agree (Option.Rel SamePolicy) (resolvePolicy (leaf :: sts))
      (resolvePolicy (leaf' :: sts')) := by
  have hreversed : sts.reverse.Perm sts'.reverse :=
    (reverse_perm sts).trans (hp.trans (reverse_perm sts').symm)
  change Agree _ (resolveFrom (sts.flatMap _) none sts.reverse)
    (resolveFrom (sts'.flatMap _) none sts'.reverse)
  rw [← resolveFrom_congr (hp.flatMap_right Statement.metadataPolicyCrit)]
  exact resolveFrom_perm hreversed fun st hst => h st (mem_reverse.mp hst)

def codeTwice : Policy := grantTypes [(.subsetOf, ["code", "code"])]

def codeOnce : Policy := grantTypes [(.subsetOf, ["code"])]

theorem resolvePolicy_perm_code : Agree (Option.Rel SamePolicy)
    (resolvePolicy [⟨none, []⟩, ⟨some codeTwice, []⟩, ⟨some codeOnce, ["one_of"]⟩])
    (resolvePolicy [⟨none, []⟩, ⟨some codeOnce, ["one_of"]⟩, ⟨some codeTwice, []⟩]) := by
  refine resolvePolicy_perm (.swap _ _ _) fun st hst p hp => ?_
  rcases mem_pair.mp hst with rfl | rfl
  · exact ⟨codeTwice, Option.some.inj hp ▸ rfl⟩
  · exact ⟨codeOnce, Option.some.inj hp ▸ rfl⟩

theorem mergeAll_policies_perm_code :
    (∃ m, mergeAll mergePolicy [codeTwice, codeOnce] = .ok m) ∧
      Agree (Option.Rel SamePolicy) (mergeAll mergePolicy [codeTwice, codeOnce])
        (mergeAll mergePolicy [codeOnce, codeTwice]) :=
  ⟨⟨some codeTwice, by rfl⟩, mergeAll_policies_perm (List.Perm.swap _ _ _)⟩

/-- A list that names a value twice comes out as it is or with the value once, and these are not
the same up to order. -/
theorem mergeAll_repetition :
    validatePolicy [] codeTwice = .ok codeTwice ∧ validatePolicy [] codeOnce = .ok codeOnce ∧
      mergeAll mergePolicy [codeTwice, codeOnce] = .ok (some codeTwice) ∧
      mergeAll mergePolicy [codeOnce, codeTwice] = .ok (some codeOnce) ∧
      ∃ pp qq xs ys,
        paramPolicy codeTwice "openid_relying_party" "grant_types" = some pp ∧
        paramPolicy codeOnce "openid_relying_party" "grant_types" = some qq ∧
        pp.lookup .subsetOf = some (.arr xs) ∧ qq.lookup .subsetOf = some (.arr ys) ∧
        ¬(xs.map valueKey).Perm (ys.map valueKey) := by
  refine ⟨by rfl, by rfl, by rfl, by rfl, _, _, _, _, rfl, rfl, rfl, rfl, ?_⟩
  intro h
  simpa using h.length_eq

end Signari.PolicyOrder
