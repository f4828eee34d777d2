import Signari.ScimPath
import Signari.JsonValues

/-!
# Evaluating value filters

`Matches` of `internal/scim/path.go` against one element of a multi-valued attribute. The
element is a decoded JSON object: its keys are distinct, and the order of the list stands
for an order the map may be walked in. Attribute names are looked up exactly first and
then up to case, except by `pr`, which looks up the lower-case name only.

What a numeral is and how two of them compare is for `strconv.ParseFloat` and the
hardware to say; that is the argument `fl`.
-/
namespace Signari.FilterMatching
open GoStrings ScimPath JsonValues List

/-- The 64-bit floats, as far as a filter needs them. -/
structure Floats (F : Type) where
  parse : String → Option F
  eq : F → F → Bool
  lt : F → F → Bool
  le : F → F → Bool

variable {F : Type}

abbrev Object := List (String × Json)

def member (obj : Object) (key : String) : Option Json :=
  (obj.find? fun m => m.1 = key).map Prod.snd

def lookupFold (obj : Object) (key : String) : Option Json :=
  match member obj key with
  | some v => some v
  | none => (obj.find? fun m => equalFold m.1 key).map Prod.snd

def compareStrings (op found want : String) : Bool :=
  let h := toLower found
  let w := toLower want
  if op = "eq" then h = w
  else if op = "ne" then h ≠ w
  else if op = "co" then contains h w
  else if op = "sw" then hasPrefix h w
  else if op = "ew" then hasSuffix h w
  else if op = "gt" then w < h
  else if op = "lt" then h < w
  else if op = "ge" then ¬ h < w
  else if op = "le" then ¬ w < h
  else false

def compareNumbers (fl : Floats F) (op : String) (found want : F) : Bool :=
  if op = "eq" then fl.eq found want
  else if op = "ne" then !fl.eq found want
  else if op = "gt" then fl.lt want found
  else if op = "lt" then fl.lt found want
  else if op = "ge" then fl.le want found
  else if op = "le" then fl.le found want
  else false

def toFloat (fl : Floats F) : Json → Option F
  | .num n => fl.parse n.text
  | _ => none

def compareValue (fl : Floats F) (op : String) (found : Json) : Literal → Bool
  | .text want =>
    match found with
    | .str s => compareStrings op s want
    | _ => false
  | .bool want =>
    match found with
    | .bool b => op = "eq" && b = want
    | _ => false
  | .null => false
  | .number t =>
    match toFloat fl found, fl.parse t with
    | some n, some want => compareNumbers fl op n want
    | _, _ => false

/-- Whether a value counts as present. -/
def isPresent : Option Json → Bool
  | none => false
  | some .null => false
  | some (.str s) => s ≠ ""
  | some _ => true

/-- `Matches`. -/
def filterMatches (fl : Floats F) : Filter → Object → Bool
  | .and l r, obj => filterMatches fl l obj && filterMatches fl r obj
  | .or l r, obj => filterMatches fl l obj || filterMatches fl r obj
  | .not f, obj => !filterMatches fl f obj
  | .present attr, obj => isPresent (member obj attr)
  | .compare op attr value, obj =>
    match lookupFold obj attr with
    | none => false
    | some v => compareValue fl op v value

def foldKey (k : String) : List Char := k.toList.map foldChar

theorem equalFold_iff {s t : String} : equalFold s t = true ↔ foldKey s = foldKey t :=
  beq_iff_eq

/-- No two keys are the same up to case. -/
def Distinct (obj : Object) : Prop := (obj.map fun m => foldKey m.1).Nodup

theorem distinct_inj {obj : Object} (hd : Distinct obj) {m m' : String × Json} (hm : m ∈ obj)
    (hm' : m' ∈ obj) (h : foldKey m.1 = foldKey m'.1) : m = m' :=
  inj_on_of_nodup_map hd hm hm' h

theorem find_unique {α : Type} {p : α → Bool} {l : List α}
    (h : ∀ x ∈ l, ∀ y ∈ l, p x → p y → x = y) {x : α} :
    l.find? p = some x ↔ x ∈ l ∧ p x := by
  constructor
  · intro hfind
    exact ⟨mem_of_find?_eq_some hfind, find?_some hfind⟩
  · rintro ⟨hx, hp⟩
    cases hfind : l.find? p with
    | none => exact absurd hp (find?_eq_none.mp hfind x hx)
    | some y => rw [h x hx y (mem_of_find?_eq_some hfind) hp (find?_some hfind)]

theorem member_eq_some {obj : Object} (hd : Distinct obj) {key : String} {v : Json} :
    member obj key = some v ↔ (key, v) ∈ obj := by
  have hunique : ∀ m ∈ obj, ∀ m' ∈ obj, decide (m.1 = key) = true → decide (m'.1 = key) = true →
      m = m' := fun m hm m' hm' h h' => distinct_inj hd hm hm'
    (congrArg foldKey ((of_decide_eq_true h).trans (of_decide_eq_true h').symm))
  rw [member, Option.map_eq_some_iff]
  constructor
  · rintro ⟨⟨k, w⟩, hfind, rfl⟩
    obtain ⟨hmem, hk⟩ := (find_unique hunique).mp hfind
    exact of_decide_eq_true hk ▸ hmem
  · intro hmem
    exact ⟨(key, v), (find_unique hunique).mpr ⟨hmem, decide_eq_true rfl⟩, rfl⟩

theorem lookupFold_eq_some {obj : Object} (hd : Distinct obj) {key : String} {v : Json} :
    lookupFold obj key = some v ↔ ∃ k, (k, v) ∈ obj ∧ foldKey k = foldKey key := by
  have hunique : ∀ m ∈ obj, ∀ m' ∈ obj, equalFold m.1 key = true → equalFold m'.1 key = true →
      m = m' := fun m hm m' hm' h h' => distinct_inj hd hm hm'
    ((equalFold_iff.mp h).trans (equalFold_iff.mp h').symm)
  unfold lookupFold
  cases hmember : member obj key with
  | some w =>
    have hmem := (member_eq_some hd).mp hmember
    simp only [Option.some.injEq]
    constructor
    · rintro rfl
      exact ⟨key, hmem, rfl⟩
    · rintro ⟨k, hk, hfold⟩
      exact congrArg Prod.snd (distinct_inj hd hmem hk hfold.symm)
  | none =>
    simp only [Option.map_eq_some_iff]
    constructor
    · rintro ⟨⟨k, w⟩, hfind, rfl⟩
      obtain ⟨hmem, hk⟩ := (find_unique hunique).mp hfind
      exact ⟨k, hmem, equalFold_iff.mp hk⟩
    · rintro ⟨k, hk, hfold⟩
      exact ⟨(k, v), (find_unique hunique).mpr ⟨hk, equalFold_iff.mpr hfold⟩, rfl⟩

theorem member_iff_lookupFold {obj : Object} (hd : Distinct obj) {key : String} {v : Json} :
    member obj key = some v ↔ lookupFold obj key = some v ∧ key ∈ obj.map Prod.fst := by
  rw [member_eq_some hd, lookupFold_eq_some hd, mem_map]
  constructor
  · intro hmem
    exact ⟨⟨key, hmem, rfl⟩, ⟨(key, v), hmem, rfl⟩⟩
  · rintro ⟨⟨k, hk, hfold⟩, ⟨⟨k', w⟩, hw, rfl⟩⟩
    exact distinct_inj hd hw hk hfold.symm ▸ hw

/-- The same members under keys that differ in case only, in any order. -/
def Recased (obj obj' : Object) : Prop :=
  ∃ mid, obj.Perm mid ∧
    List.Forall₂ (fun m m' => foldKey m.1 = foldKey m'.1 ∧ m.2 = m'.2) mid obj'

theorem forall₂_map_fold {obj obj' : Object}
    (h : List.Forall₂ (fun m m' => foldKey m.1 = foldKey m'.1 ∧ m.2 = m'.2) obj obj') :
    (obj.map fun m => (foldKey m.1, m.2)) = obj'.map fun m => (foldKey m.1, m.2) := by
  induction h with
  | nil => rfl
  | cons hm _ ih => rw [map_cons, map_cons, ih, hm.1, hm.2]

theorem Recased.perm {obj obj' : Object} (h : Recased obj obj') :
    (obj.map fun m => (foldKey m.1, m.2)).Perm (obj'.map fun m => (foldKey m.1, m.2)) := by
  obtain ⟨mid, hperm, hmid⟩ := h
  exact (hperm.map _).trans (Perm.of_eq (forall₂_map_fold hmid))

theorem Recased.distinct {obj obj' : Object} (h : Recased obj obj') (hd : Distinct obj) :
    Distinct obj' := by
  have hkeys := h.perm.map Prod.fst
  rw [map_map, map_map] at hkeys
  exact (hkeys.nodup_iff).mp hd

/-- A name finds the same value whatever the case of the keys. -/
theorem Recased.lookupFold {obj obj' : Object} (h : Recased obj obj') (hd : Distinct obj)
    (key : String) : lookupFold obj key = FilterMatching.lookupFold obj' key := by
  have hmem : ∀ (o : Object) (v : Json), (∃ k, (k, v) ∈ o ∧ foldKey k = foldKey key) ↔
      (foldKey key, v) ∈ o.map fun m => (foldKey m.1, m.2) := by
    intro o v
    simp only [mem_map, Prod.exists, Prod.mk.injEq]
    exact ⟨fun ⟨k, hk, hfold⟩ => ⟨k, v, hk, hfold, rfl⟩,
      fun ⟨k, w, hk, hfold, hw⟩ => ⟨k, hw ▸ hk, hfold⟩⟩
  refine Option.ext fun v => ?_
  rw [lookupFold_eq_some hd, lookupFold_eq_some (h.distinct hd), hmem, hmem, h.perm.mem_iff]

def parts : Filter → List Filter
  | .and l r => .and l r :: (parts l ++ parts r)
  | .or l r => .or l r :: (parts l ++ parts r)
  | .not f => .not f :: parts f
  | .present attr => [.present attr]
  | .compare op attr value => [.compare op attr value]

theorem self_mem_parts (f : Filter) : f ∈ parts f := by
  cases f <;> simp [parts]

/-- The recasing spells the key of a present attribute as `pr` looks it up in both
objects or in neither. -/
def SpelledAlike (obj obj' : Object) (attr : String) : Prop :=
  ∀ v, lookupFold obj attr = some v → isPresent (some v) = true →
    (attr ∈ obj.map Prod.fst ↔ attr ∈ obj'.map Prod.fst)

theorem isPresent_member {obj : Object} (hd : Distinct obj) {attr : String} :
    isPresent (member obj attr) = true ↔
      ∃ v, lookupFold obj attr = some v ∧ isPresent (some v) = true ∧
        attr ∈ obj.map Prod.fst := by
  constructor
  · intro h
    cases hmember : member obj attr with
    | none => rw [hmember] at h; exact nomatch h
    | some v =>
      rw [hmember] at h
      obtain ⟨hlookup, hkey⟩ := (member_iff_lookupFold hd).mp hmember
      exact ⟨v, hlookup, h, hkey⟩
  · rintro ⟨v, hlookup, hpresent, hkey⟩
    rwa [(member_iff_lookupFold hd).mpr ⟨hlookup, hkey⟩]

theorem present_agrees_iff {obj obj' : Object} (hr : Recased obj obj') (hd : Distinct obj)
    {attr : String} :
    isPresent (member obj attr) = isPresent (member obj' attr) ↔ SpelledAlike obj obj' attr := by
  have hsame := hr.lookupFold hd attr
  rw [Bool.eq_iff_iff, isPresent_member hd, isPresent_member (hr.distinct hd), ← hsame]
  constructor
  · intro h v hv hpresent
    constructor
    · intro hkey
      obtain ⟨_, _, _, hkey'⟩ := h.mp ⟨v, hv, hpresent, hkey⟩
      exact hkey'
    · intro hkey
      obtain ⟨_, _, _, hkey'⟩ := h.mpr ⟨v, hv, hpresent, hkey⟩
      exact hkey'
  · intro h
    constructor
    · rintro ⟨v, hv, hpresent, hkey⟩
      exact ⟨v, hv, hpresent, (h v hv hpresent).mp hkey⟩
    · rintro ⟨v, hv, hpresent, hkey⟩
      exact ⟨v, hv, hpresent, (h v hv hpresent).mpr hkey⟩

def Comparable (fl : Floats F) : Json → Literal → Prop
  | .str _, .text _ => True
  | .num n, .number t => (fl.parse n.text).isSome ∧ (fl.parse t).isSome
  | .bool b, .bool want => b = want
  | _, _ => False

/-- Two texts or two numbers are either equal or not; two kinds are neither, and two
booleans are never unequal. -/
theorem compareValue_ne_iff (fl : Floats F) (v : Json) (value : Literal) :
    (compareValue fl "ne" v value = true ↔ ¬ compareValue fl "eq" v value = true) ↔
      Comparable fl v value := by
  cases value with
  | text want => cases v <;> simp [compareValue, Comparable, compareStrings]
  | bool want | null => cases v <;> simp [compareValue, Comparable]
  | number t =>
    cases v with
    | num n =>
      cases hn : fl.parse n.text with
      | none => simp [compareValue, Comparable, toFloat, hn]
      | some x =>
        cases ht : fl.parse t with
        | none => simp [compareValue, Comparable, toFloat, hn, ht]
        | some y => simp [compareValue, Comparable, toFloat, hn, ht, compareNumbers]
    | _ => simp [compareValue, Comparable, toFloat]

section

variable {fl : Floats F} {obj obj' : Object}

/-- Two objects answer alike to a filter and to everything inside it. -/
def Agree (fl : Floats F) (obj obj' : Object) (f : Filter) : Prop :=
  ∀ g ∈ parts f, filterMatches fl g obj = filterMatches fl g obj'

theorem Agree.self {f : Filter} (h : Agree fl obj obj' f) :
    filterMatches fl f obj = filterMatches fl f obj' := h f (self_mem_parts f)

theorem agree_not {f : Filter} : Agree fl obj obj' (.not f) ↔ Agree fl obj obj' f := by
  constructor
  · intro h g hg
    exact h g (mem_cons_of_mem _ hg)
  · intro h
    refine forall_mem_cons.mpr ⟨?_, h⟩
    rw [filterMatches, filterMatches, h.self]

theorem agree_branches {f l r : Filter} (hparts : parts f = f :: (parts l ++ parts r))
    (hf : filterMatches fl l obj = filterMatches fl l obj' →
      filterMatches fl r obj = filterMatches fl r obj' →
      filterMatches fl f obj = filterMatches fl f obj') :
    Agree fl obj obj' f ↔ Agree fl obj obj' l ∧ Agree fl obj obj' r := by
  rw [Agree, hparts, forall_mem_cons, forall_mem_append]
  exact and_iff_right_of_imp fun h => hf (Agree.self h.1) (Agree.self h.2)

/-- A recasing changes no comparison, and a `pr` only where it respells a key. -/
theorem agree_iff (hr : Recased obj obj') (hd : Distinct obj) (f : Filter) :
    Agree fl obj obj' f ↔ ∀ attr, .present attr ∈ parts f → SpelledAlike obj obj' attr := by
  induction f with
  | compare op attr value =>
    simp [Agree, parts, filterMatches, hr.lookupFold hd attr]
  | present attr => simp [Agree, parts, filterMatches, present_agrees_iff hr hd]
  | not f ih =>
    rw [agree_not, ih]
    simp only [parts, mem_cons, reduceCtorEq, false_or]
  | and l r ihl ihr | or l r ihl ihr =>
    rw [agree_branches rfl fun hl hr => by rw [filterMatches, filterMatches, hl, hr], ihl, ihr]
    simp only [parts, mem_cons, reduceCtorEq, false_or, mem_append, or_imp,
      forall_and]

end

/-- Recasing the keys of an element changes no answer exactly when every `pr` in the filter
finds its key spelled alike, and an attribute that is there is unequal to a value exactly
when it is not equal, if and only if the two are comparable. -/
theorem filter_laws_iff (fl : Floats F) (f : Filter) (obj obj' : Object) (hd : Distinct obj)
    (hr : Recased obj obj') :
    ((∀ g ∈ parts f, filterMatches fl g obj = filterMatches fl g obj') ↔
      ∀ attr, .present attr ∈ parts f → SpelledAlike obj obj' attr) ∧
    ∀ attr value v, lookupFold obj attr = some v →
      ((filterMatches fl (.compare "ne" attr value) obj = true ↔
        ¬ filterMatches fl (.compare "eq" attr value) obj = true) ↔ Comparable fl v value) := by
  refine ⟨agree_iff hr hd f, fun attr value v hv => ?_⟩
  simp only [filterMatches, hv]
  exact compareValue_ne_iff fl v value

def noFloats : Floats Unit := ⟨fun _ => none, fun _ _ => true, fun _ _ => false, fun _ _ => true⟩

def lowerSample : Object := [("type", .str "work")]

def upperSample : Object := [("Type", .str "work")]

theorem recased_sample : Recased lowerSample upperSample :=
  ⟨lowerSample, .refl _, .cons ⟨by decide, rfl⟩ .nil⟩

theorem filter_laws_iff_sample :
    ((∀ g ∈ parts (.present "type"),
        filterMatches noFloats g lowerSample = filterMatches noFloats g upperSample) ↔
      ∀ attr, .present attr ∈ parts (.present "type") → SpelledAlike lowerSample upperSample attr) ∧
    ∀ attr value v, lookupFold lowerSample attr = some v →
      ((filterMatches noFloats (.compare "ne" attr value) lowerSample = true ↔
        ¬ filterMatches noFloats (.compare "eq" attr value) lowerSample = true) ↔
          Comparable noFloats v value) :=
  filter_laws_iff noFloats (.present "type") lowerSample upperSample
    (nodup_singleton _) recased_sample

/-- `type pr` misses the attribute under a key in another case, and a boolean that is false
is neither equal to true nor unequal to it. -/
theorem presence_and_negation_break :
    (Distinct lowerSample ∧ Recased lowerSample upperSample ∧
      filterMatches noFloats (.present "type") lowerSample = true ∧
      filterMatches noFloats (.present "type") upperSample = false) ∧
    lookupFold [("primary", .bool false)] "primary" = some (.bool false) ∧
      filterMatches noFloats (.compare "ne" "primary" (.bool true))
        [("primary", .bool false)] = false ∧
      filterMatches noFloats (.compare "eq" "primary" (.bool true))
        [("primary", .bool false)] = false :=
  ⟨⟨nodup_singleton _, recased_sample, by decide, by decide⟩, rfl, by decide, by decide⟩

end Signari.FilterMatching
