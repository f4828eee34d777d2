import Signari.IndexedChecks
import Signari.LdapSchema

/-!
# What a Modify asks for

RFC 4511 section 4.6 against `ApplyChanges`. The specification performs the changes in
order on sets of values, an added value being absent, a deleted one present and the
attribute writable, and then looks at the resulting entry: it has the attributes that
`person` and the naming of entries ask for, none of them only empty, and at most one value
of an attribute that is single-valued. The update holds the final values of what was
touched.

`ApplyChanges` asks after each change whether the attribute has two values, and at the end
whether a required attribute has a value at all, be it the empty one. So a second value
that a later change takes away is refused, and an empty `cn` or `sn` is accepted, which
`ValidateNewEntry` would not do.
-/
namespace Signari.LdapModify
open GoStrings IndexedChecks LdapSchema List

/-- The values of an entry, by the lower-case name of the attribute. -/
abbrev Values := String → List String

def key (d : AttrDef) : String := toLower d.name

/-- Adds values one after another, none of them there already. -/
def addAbsent : List String → List String → Option (List String)
  | held, [] => some held
  | held, v :: vs =>
    if ∃ s ∈ held, asciiEqual s v = true then none else addAbsent (held ++ [v]) vs

/-- Deletes values one after another, each of them there. -/
def deletePresent : List String → List String → Option (List String)
  | held, [] => some held
  | held, v :: vs =>
    if ∃ s ∈ held, asciiEqual s v = true then
      deletePresent (held.eraseP fun s => asciiEqual s v) vs
    else none

/-- The values after one change: `add` lists at least one, `delete` without values removes
the attribute, `replace` adds to none. -/
def newValues (held : List String) (ch : Change) : Option (List String) :=
  if ch.op = 0 then
    if ch.values = [] then none else addAbsent held ch.values
  else if ch.op = 1 then
    if ch.values = [] then some [] else deletePresent held ch.values
  else if ch.op = 2 then addAbsent [] ch.values
  else none

def performChange (vals : Values) (ch : Change) : Option Values :=
  match lookupAttr ch.attr with
  | none => none
  | some d =>
    if d.writable then
      (newValues (vals (key d)) ch).map fun after k => if k = key d then after else vals k
    else none

/-- The whole list, in the order it is in. -/
def perform : Values → List Change → Option Values
  | vals, [] => some vals
  | vals, ch :: rest => (performChange vals ch).bind fun vals' => perform vals' rest

def Uncrowded (vals : Values) : Prop := ∀ d ∈ schema, d.single = true → (vals (key d)).length ≤ 1

/-- An entry that the schema allows. -/
structure Conforms (vals : Values) : Prop where
  required : ∀ d ∈ schema, d.requiredForAdd = true → ∃ v ∈ vals (key d), v ≠ ""
  single : Uncrowded vals

def touchedBy (changes : List Change) : List String :=
  changes.filterMap fun ch => (lookupAttr ch.attr).map key

def finalValue (changes : List Change) (vals : Values) (k : String) : Option String :=
  if k ∈ touchedBy changes then some ((vals k).headD "") else none

/-- For each column the final value of its attribute, empty for none, if it was touched. -/
def updateOf (changes : List Change) (vals : Values) : Update where
  email := finalValue changes vals "mail"
  displayName := finalValue changes vals "displayname"
  commonName := finalValue changes vals "cn"
  surname := finalValue changes vals "sn"
  givenName := finalValue changes vals "givenname"
  password := finalValue changes vals "userpassword"

/-- `ApplyChanges` has the semantics of the specification on these changes. -/
def Follows (current : Entry) (changes : List Change) : Prop :=
  ∀ u, applyChanges current changes = .ok u ↔
    ∃ vals, perform (currentValues current) changes = some vals ∧ Conforms vals ∧
      u = updateOf changes vals

def NeverCrowded (vals : Values) : List Change → Prop
  | [] => True
  | ch :: rest => ∀ vals', performChange vals ch = some vals' →
      Uncrowded vals' ∧ NeverCrowded vals' rest

theorem addValues_ok_iff (name : String) (held vs after : List String) :
    addValues name held vs = .ok after ↔ addAbsent held vs = some after := by
  induction vs generalizing held with
  | nil => simp [addValues, addAbsent]
  | cons v vs ih =>
    simp only [addValues, addAbsent, containsFold, any_eq_true]
    split_ifs with h
    · simp
    · exact ih (held ++ [v])

theorem removeFold_eq (v : String) (held : List String) :
    removeFold v held =
      if ∃ s ∈ held, asciiEqual s v = true then some (held.eraseP fun s => asciiEqual s v)
      else none := by
  induction held with
  | nil => simp [removeFold]
  | cons s rest ih =>
    by_cases h : asciiEqual s v = true
    · simp [removeFold, h]
    · simp only [removeFold, h, Bool.false_eq_true, if_false, ih, exists_mem_cons_iff,
        false_or, eraseP_cons]
      split_ifs <;> simp

theorem deleteValues_ok_iff (name : String) (held vs after : List String) :
    deleteValues name held vs = .ok after ↔ deletePresent held vs = some after := by
  induction vs generalizing held with
  | nil => simp [deleteValues, deletePresent]
  | cons v vs ih =>
    simp only [deleteValues, deletePresent, removeFold_eq]
    split_ifs with h
    · exact ih _
    · simp

theorem addAbsent_length {held vs after : List String} (h : addAbsent held vs = some after) :
    after.length = held.length + vs.length := by
  induction vs generalizing held with
  | nil =>
    simp only [addAbsent, Option.some.injEq] at h
    simp [h]
  | cons v vs ih =>
    simp only [addAbsent] at h
    split_ifs at h
    rw [ih h]
    simp
    omega

theorem deletePresent_length {held vs after : List String}
    (h : deletePresent held vs = some after) : after.length ≤ held.length := by
  induction vs generalizing held with
  | nil =>
    simp only [deletePresent, Option.some.injEq] at h
    simp [h]
  | cons v vs ih =>
    simp only [deletePresent] at h
    split_ifs at h
    exact (ih h).trans (length_eraseP_le)

theorem addAbsent_nil {vs : List String} (h : vs.length ≤ 1) : addAbsent [] vs = some vs := by
  match vs, h with
  | [], _ => rfl
  | [v], _ => simp [addAbsent]

theorem addedValues_ok_iff {d : AttrDef} {held vs after : List String}
    {e : List String → ModifyError} (hd : d.single = true) :
    (do
      let r ← addValues d.name held vs
      if d.single && 1 < r.length then throw (e r)
      return r) = Except.ok after ↔ addAbsent held vs = some after ∧ after.length ≤ 1 := by
  rw [bind_ok]
  simp only [addValues_ok_iff, hd, Bool.true_and, decide_eq_true_eq]
  constructor
  · intro h
    obtain ⟨r, hr, hrest⟩ := h
    split_ifs at hrest with hlen
    · cases hrest
    · cases hrest
      exact ⟨hr, Nat.le_of_not_lt hlen⟩
  · intro h
    exact ⟨after, h.1, by rw [if_neg (Nat.not_lt.mpr h.2)]; rfl⟩

theorem changedValues_ok_iff {i : ℕ} {d : AttrDef} {held after : List String} {ch : Change}
    (hd : d.single = true) (hheld : held.length ≤ 1) :
    changedValues i d held ch = .ok after ↔
      newValues held ch = some after ∧ after.length ≤ 1 := by
  unfold changedValues newValues
  split_ifs with h0 hadd h1 hdel h2 hmany
  · simp
  · exact addedValues_ok_iff hd
  · simp only [Except.ok.injEq, Option.some.injEq, iff_self_and]
    rintro rfl
    exact Nat.zero_le 1
  · rw [deleteValues_ok_iff]
    constructor
    · intro h
      exact ⟨h, (deletePresent_length h).trans hheld⟩
    · intro h
      exact h.1
  · simp only [hd, Bool.true_and, decide_eq_true_eq] at hmany
    simp only [false_iff, not_and]
    intro h
    rw [addAbsent_length h]
    simp
    omega
  · simp only [hd, Bool.true_and, decide_eq_true_eq] at hmany
    rw [addAbsent_nil (by omega)]
    simp only [Except.ok.injEq, Option.some.injEq, iff_self_and]
    rintro rfl
    omega
  · simp

theorem writable_single : ∀ d ∈ schema, d.writable = true →
    d.single = true ∧ asciiEqual d.name "objectClass" = false := by
  decide

theorem lookupAttr_mem {name : String} {d : AttrDef} (h : lookupAttr name = some d) :
    d ∈ schema :=
  mem_of_find?_eq_some h

theorem modifiable_ok_iff (i : ℕ) (ch : Change) (d : AttrDef) :
    modifiable i ch = .ok d ↔ lookupAttr ch.attr = some d ∧ d.writable = true := by
  unfold modifiable
  cases h : lookupAttr ch.attr with
  | none => simp
  | some d' =>
    have hmem := lookupAttr_mem h
    simp only [Option.some.injEq]
    by_cases hw : d'.writable = true
    · simp only [(writable_single d' hmem hw).2, hw, Bool.false_eq_true, if_false,
        Bool.true_eq_false, Except.ok.injEq, iff_self_and]
      rintro rfl
      exact hw
    · have hrefused : ¬(d' = d ∧ d.writable = true) := by
        rintro ⟨rfl, hd⟩
        exact hw hd
      simp only [Bool.not_eq_true] at hw
      simp only [hw, if_true]
      split_ifs <;> exact iff_of_false (by simp) hrefused

theorem uncrowded_set {vals : Values} (hvals : Uncrowded vals) {d : AttrDef} (hd : d ∈ schema)
    (hsingle : d.single = true) (after : List String) :
    Uncrowded (fun k => if k = key d then after else vals k) ↔ after.length ≤ 1 := by
  constructor
  · intro h
    simpa using h d hd hsingle
  · intro h d' hd' hsingle'
    by_cases hk : key d' = key d
    · simpa [hk] using h
    · simpa [hk] using hvals d' hd' hsingle'

theorem applyChange_ok_iff {i : ℕ} {w w' : Working} {ch : Change} (hw : Uncrowded w.values) :
    applyChange i w ch = .ok w' ↔ performChange w.values ch = some w'.values ∧
      Uncrowded w'.values ∧ w'.touched = touchedBy [ch] ++ w.touched := by
  unfold applyChange performChange
  rw [bind_ok]
  simp only [modifiable_ok_iff, bind_ok]
  cases h : lookupAttr ch.attr with
  | none => simp
  | some d =>
    have hmem := lookupAttr_mem h
    have htouched : touchedBy [ch] = [key d] := by simp [touchedBy, h]
    cases hwr : d.writable with
    | false => simp [hwr]
    | true =>
      have hsingle := (writable_single d hmem hwr).1
      have hheld := hw d hmem hsingle
      simp only [hwr, if_true, Option.map_eq_some_iff, htouched]
      constructor
      · intro hc
        obtain ⟨d', ⟨hd', _⟩, after, hafter, hw'⟩ := hc
        obtain rfl := Option.some.inj hd'
        obtain ⟨hnew, hlen⟩ := (changedValues_ok_iff hsingle hheld).mp hafter
        cases hw'
        exact ⟨⟨after, hnew, rfl⟩, (uncrowded_set hw hmem hsingle after).mpr hlen, rfl⟩
      · intro hc
        obtain ⟨⟨after, hnew, hvals⟩, hun, ht⟩ := hc
        rw [← hvals] at hun
        have hlen := (uncrowded_set hw hmem hsingle after).mp hun
        refine ⟨d, ⟨rfl, hwr⟩, after, (changedValues_ok_iff hsingle hheld).mpr ⟨hnew, hlen⟩,
          ?_⟩
        cases w'
        cases hvals
        cases ht
        rfl

theorem foldChanges_ok_iff {i : ℕ} {w w' : Working} {changes : List Change}
    (hw : Uncrowded w.values) :
    foldChanges i w changes = .ok w' ↔ perform w.values changes = some w'.values ∧
      NeverCrowded w.values changes ∧ w'.touched = (touchedBy changes).reverse ++ w.touched := by
  induction changes generalizing i w with
  | nil =>
    cases w
    cases w'
    simp [foldChanges, perform, NeverCrowded, touchedBy]
    grind
  | cons ch rest ih =>
    have htouched : (touchedBy (ch :: rest)).reverse =
        (touchedBy rest).reverse ++ touchedBy [ch] := by
      simp only [touchedBy, filterMap_cons, filterMap_nil]
      cases lookupAttr ch.attr <;> simp
    cases hc : applyChange i w ch with
    | error e =>
      simp only [foldChanges, hc, perform, NeverCrowded, reduceCtorEq, false_iff, not_and]
      intro hp hn
      obtain ⟨vals', hone, hrest⟩ := Option.bind_eq_some_iff.mp hp
      have hok : applyChange i w ch = .ok ⟨vals', touchedBy [ch] ++ w.touched⟩ :=
        (applyChange_ok_iff hw).mpr ⟨hone, (hn vals' hone).1, rfl⟩
      rw [hc] at hok
      cases hok
    | ok w₁ =>
      obtain ⟨hone, hun, ht⟩ := (applyChange_ok_iff hw).mp hc
      simp only [foldChanges, hc, perform, hone, Option.bind_some, ih hun, NeverCrowded,
        Option.some.injEq, forall_eq', hun, true_and, ht, htouched, List.append_assoc]

theorem perform_uncrowded {vals vals' : Values} {changes : List Change} (hvals : Uncrowded vals)
    (h : perform vals changes = some vals') (hn : NeverCrowded vals changes) :
    Uncrowded vals' := by
  induction changes generalizing vals with
  | nil =>
    cases h
    exact hvals
  | cons ch rest ih =>
    obtain ⟨vals₁, hone, hrest⟩ := Option.bind_eq_some_iff.mp h
    obtain ⟨hun, hn⟩ := hn vals₁ hone
    exact ih hun hrest hn

def Present (vals : Values) : Prop := ∀ d ∈ schema, d.requiredForAdd = true → vals (key d) ≠ []

/-- Some required attribute has the empty value and no other. -/
def Blank (vals : Values) : Prop :=
  ∃ d ∈ schema, d.requiredForAdd = true ∧ vals (key d) = [""]

theorem required_plain : ∀ d ∈ schema, d.requiredForAdd = true →
    d.single = true ∧ d.secret = false := by
  decide

theorem missingRequired_none_iff (w : Working) : missingRequired w = none ↔ Present w.values := by
  unfold missingRequired Present
  rw [find?_eq_none]
  constructor
  · intro h d hd hreq hempty
    have hsecret := (required_plain d hd hreq).2
    apply h d hd
    simpa [hreq, hsecret, key] using hempty
  · intro h d hd hmiss
    simp only [Bool.and_eq_true, Bool.not_eq_true', List.isEmpty_iff] at hmiss
    exact h d hd hmiss.1.1 hmiss.2

theorem conforms_iff {vals : Values} :
    Conforms vals ↔ Uncrowded vals ∧ Present vals ∧ ¬Blank vals := by
  constructor
  · intro h
    refine ⟨h.single, ?_, ?_⟩
    · intro d hd hreq hnil
      obtain ⟨v, hv, _⟩ := h.required d hd hreq
      rw [hnil] at hv
      cases hv
    · rintro ⟨d, hd, hreq, hblank⟩
      obtain ⟨v, hv, hne⟩ := h.required d hd hreq
      rw [hblank, mem_singleton] at hv
      exact hne hv
  · rintro ⟨hun, hpresent, hblank⟩
    refine ⟨?_, hun⟩
    intro d hd hreq
    have hlen := hun d hd (required_plain d hd hreq).1
    cases hvals : vals (key d) with
    | nil => exact absurd hvals (hpresent d hd hreq)
    | cons v rest =>
      have hrest : rest = [] := by
        rw [hvals, length_cons] at hlen
        exact length_eq_zero_iff.mp (by omega)
      refine ⟨v, by simp, ?_⟩
      rintro rfl
      exact hblank ⟨d, hd, hreq, by rw [hvals, hrest]⟩

/-- What `ApplyChanges` accepts: changes that can be performed without crowding an attribute
and leave every required attribute some value. -/
theorem applyChanges_ok_iff {current : Entry} {changes : List Change} {u : Update}
    (hcurrent : Uncrowded (currentValues current)) (hne : changes ≠ []) :
    applyChanges current changes = .ok u ↔
      ∃ vals, perform (currentValues current) changes = some vals ∧
        NeverCrowded (currentValues current) changes ∧ Present vals ∧
        u = updateOf changes vals := by
  unfold applyChanges
  rw [if_neg hne, bind_ok]
  have htouched : ∀ (vals : Values) (k : String),
      touchedValue ⟨vals, (touchedBy changes).reverse⟩ k = finalValue changes vals k := by
    intro vals k
    simp [touchedValue, finalValue]
  constructor
  · rintro ⟨⟨vals, touched⟩, hw, hend⟩
    obtain ⟨hp, hn, ht⟩ := (foldChanges_ok_iff hcurrent).mp hw
    obtain rfl : touched = (touchedBy changes).reverse := by simpa using ht
    cases hmiss : missingRequired ⟨vals, (touchedBy changes).reverse⟩ with
    | some d => simp [hmiss] at hend
    | none =>
      simp only [hmiss, htouched] at hend
      exact ⟨vals, hp, hn, (missingRequired_none_iff _).mp hmiss, (Except.ok.inj hend).symm⟩
  · rintro ⟨vals, hp, hn, hpresent, rfl⟩
    refine ⟨⟨vals, (touchedBy changes).reverse⟩, ?_, ?_⟩
    · exact (foldChanges_ok_iff hcurrent).mpr ⟨hp, hn, by simp⟩
    · rw [(missingRequired_none_iff _).mpr hpresent]
      simp only [htouched]
      rfl

/-- `ApplyChanges` does what is specified exactly when an end that conforms is reached without
crowding, and an end reached without crowding and with every required attribute present has
none of them blank. -/
theorem follows_iff {current : Entry} {changes : List Change}
    (hcurrent : Conforms (currentValues current)) (hne : changes ≠ []) :
    Follows current changes ↔
      ∀ vals, perform (currentValues current) changes = some vals →
        (Conforms vals → NeverCrowded (currentValues current) changes) ∧
        (NeverCrowded (currentValues current) changes → Present vals → ¬Blank vals) := by
  constructor
  · intro h vals hp
    constructor
    · intro hc
      have hok := (h (updateOf changes vals)).mpr ⟨vals, hp, hc, rfl⟩
      obtain ⟨_, _, hn, _⟩ := (applyChanges_ok_iff hcurrent.single hne).mp hok
      exact hn
    · intro hn hpresent
      have hok := (applyChanges_ok_iff hcurrent.single hne).mpr ⟨vals, hp, hn, hpresent, rfl⟩
      obtain ⟨vals', hp', hc, _⟩ := (h _).mp hok
      obtain rfl := Option.some.inj (hp.symm.trans hp')
      exact (conforms_iff.mp hc).2.2
  · intro h u
    rw [applyChanges_ok_iff hcurrent.single hne]
    constructor
    · rintro ⟨vals, hp, hn, hpresent, hu⟩
      have hun := perform_uncrowded hcurrent.single hp hn
      exact ⟨vals, hp, conforms_iff.mpr ⟨hun, hpresent, (h vals hp).2 hn hpresent⟩, hu⟩
    · rintro ⟨vals, hp, hc, hu⟩
      exact ⟨vals, hp, (h vals hp).1 hc, (conforms_iff.mp hc).2.1, hu⟩

def alice : Entry where
  dn := "uid=alice,dc=example"
  attrs := [("objectClass", objectClasses), ("uid", ["alice"]), ("cn", ["Alice Ames"]),
    ("sn", ["Ames"]), ("mail", ["a@x.org"])]

def newMail : List Change := [⟨0, "mail", ["b@x.org"]⟩, ⟨1, "mail", ["a@x.org"]⟩]

def freshMail : List Change := [⟨1, "mail", ["a@x.org"]⟩, ⟨0, "mail", ["b@x.org"]⟩]

def noName : List Change := [⟨2, "cn", [""]⟩]

theorem alice_conforms : Conforms (currentValues alice) :=
  ⟨by decide, by unfold Uncrowded; decide⟩

/-- Taking the old address away first, the same end is reached, and is accepted. -/
theorem follows_freshMail : Follows alice freshMail := by
  refine (follows_iff alice_conforms (by decide)).mpr ?_
  intro vals hp
  obtain rfl := Option.some.inj hp
  refine ⟨?_, ?_⟩
  · intro _ vals₁ h₁
    obtain rfl := Option.some.inj h₁
    refine ⟨by unfold Uncrowded; decide, ?_⟩
    intro vals₂ h₂
    obtain rfl := Option.some.inj h₂
    exact ⟨by unfold Uncrowded; decide, trivial⟩
  · intro _ _
    unfold Blank
    decide

/-- A second address that the next change takes away is refused, and an empty name is taken. -/
theorem follows_fails : Conforms (currentValues alice) ∧
    ¬Follows alice newMail ∧ ¬Follows alice noName := by
  refine ⟨alice_conforms, ?_, ?_⟩
  · intro h
    have hend : Conforms (fun k => if k = "mail" then ["b@x.org"] else
        if k = "mail" then ["a@x.org", "b@x.org"] else currentValues alice k) :=
      ⟨by decide, by unfold Uncrowded; decide⟩
    have hok := (h (updateOf newMail _)).mpr ⟨_, rfl, hend, rfl⟩
    cases hok
  · intro h
    obtain ⟨vals, hp, hc, _⟩ := (h { commonName := some "" }).mp rfl
    obtain rfl := Option.some.inj hp
    exact (conforms_iff.mp hc).2.2 (by unfold Blank; decide)

end Signari.LdapModify
