import Signari.DetailLimits

/-!
# Constraints that a detail was validated with

`Parse` and `Validate` of `internal/rar/rar.go` with the raw objects, and the JSON that a
`Detail` is written as and read back from. An object is read twice, leniently into the detail
and strictly from its members, and absent fields are left out of what is written.

A field that the client sent is missing in what is written when it was null, an empty array or an
empty identifier, none of which `Validate` refuses; `constraints_kept_iff` says that nothing else is
lost.
-/
namespace Signari.DetailConstraints
open GoStrings IndexedChecks JsonValues RichDetails DetailLimits List

def parseBoth (unmarshal : String → Except String Json) (raw : String) :
    Except String (List Detail × List Object) := do
  let objs ← parseObjects unmarshal raw
  let details ← decodeDetails 0 objs
  .ok (details, objs)

theorem decodeDetails_ok {objs : List Object} {k : ℕ} {ds : List Detail} :
    decodeDetails k objs = .ok ds → List.Forall₂ (fun d o => decodeDetail o = .ok d) ds objs := by
  induction objs generalizing k ds with
  | nil =>
    intro h
    obtain rfl : [] = ds := by simpa [decodeDetails] using h
    exact .nil
  | cons o os ih =>
    intro h
    simp only [decodeDetails, bind_ok, mapError_ok] at h
    obtain ⟨d, hd, rest, hrest, hds⟩ := h
    obtain rfl : d :: rest = ds := by simpa using hds
    exact .cons hd (ih hrest)

def arrayFields : List String := ["locations", "actions", "datatypes", "privileges"]

def knownField (name : String) : Bool := arrayFields.contains name || name == "identifier"

/-- What is registered about a type: the fields it uses, and which of them it requires. -/
structure TypeSpec where
  type : String
  fields : List String
  required : List String

def TypeSpec.permits (s : TypeSpec) (field : String) : Bool := s.fields.contains field

/-- A map by the type. -/
structure Registry where
  specs : List (String × TypeSpec)
  unique : (specs.map Prod.fst).Nodup

def Registry.types (r : Registry) : List String :=
  (r.specs.map Prod.fst).insertionSort fun a b => a ≤ b

def present (obj : Object) (field : String) : Bool := (obj.lookup field).any fun raw => !raw.isNull

def stringOrNull : Json → Bool
  | .str _ | .null => true
  | _ => false

/-- Whether `json.Unmarshal` into a `[]string` is without error. -/
def readsAsStrings : Json → Bool
  | .null => true
  | .arr items => items.all stringOrNull
  | _ => false

def checkFieldType (name : String) (raw : Json) : Except String Unit :=
  if arrayFields.contains name then
    refuseIf (readsAsStrings raw = false) (name ++ " must be an array of strings")
  else refuseIf (stringOrNull raw = false) (name ++ " must be a string")

def checkValues (d : Detail) : Except String Unit :=
  checkAll (fun _ pair => checkAll (fun _ v => refuseIf (trimSpace v = "")
      (pair.1 ++ " contains an empty value")) 0 pair.2) 0
    [("locations", d.locations), ("actions", d.actions), ("datatypes", d.datatypes),
      ("privileges", d.privileges)]

def sortedNames (obj : Object) : List String := (obj.map Prod.fst).insertionSort fun a b => a ≤ b

/-- How the messages about an object of a known type begin. -/
def ofType (i : ℕ) (d : Detail) : String := s!"authorization_details[{i}] of type " ++ quote d.type

def checkMember (spec : TypeSpec) (i : ℕ) (d : Detail) (obj : Object) (name : String) :
    Except String Unit :=
  if name = "type" then .ok ()
  else do
    refuseIf (knownField name = false) (ofType i d ++ " contains the unknown field " ++ quote name)
    refuseIf (spec.permits name = false) (ofType i d ++ " contains the field " ++ quote name ++
      ", which that type does not use; it would be carried and never read")
    (checkFieldType name ((obj.lookup name).getD .null)).mapError fun e => ofType i d ++ ": " ++ e

def validateDetail (reg : Registry) (i : ℕ) (d : Detail) (obj : Object) : Except String Unit := do
  refuseIf (trimSpace d.type = "") s!"authorization_details[{i}] has no type"
  match reg.specs.lookup d.type with
  | none => .error (s!"authorization_details[{i}] has type " ++ quote d.type ++
      ", which this server does not know; registered types are " ++ join reg.types ", ")
  | some spec => do
      checkAll (fun _ name => checkMember spec i d obj name) 0 (sortedNames obj)
      checkAll (fun _ req => refuseIf (present obj req = false)
        (ofType i d ++ " is missing the required field " ++ quote req)) 0 spec.required
      (checkValues d).mapError fun e => ofType i d ++ ": " ++ e

def validate (details : List Detail) (objs : List Object) (reg : Registry) : Except String Unit :=
  checkAll (fun i pair => validateDetail reg i pair.1 pair.2) 0 (details.zip objs)

/-- `omitempty` of a slice. -/
def omitStrings (vals : List String) : Option Json :=
  if vals = [] then none else some (.arr (vals.map .str))

/-- `omitempty` of a string. -/
def omitString (s : String) : Option Json := if s = "" then none else some (.str s)

/-- The fields of the struct in their order, those that are left out with no value. -/
def jsonFields (d : Detail) : List (String × Option Json) :=
  [("type", some (.str d.type)), ("locations", omitStrings d.locations),
    ("actions", omitStrings d.actions), ("datatypes", omitStrings d.datatypes),
    ("identifier", omitString d.identifier), ("privileges", omitStrings d.privileges)]

/-- The members `json.Marshal` writes. -/
def encodeDetail (d : Detail) : Object := (jsonFields d).filterMap fun f => f.2.map (Prod.mk f.1)

/-- A field of a `[]string`, read strictly; an element that is null stays empty. -/
def readStrings : Option Json → Except String (List String)
  | none | some .null => .ok []
  | some (.arr items) =>
    if items.all stringOrNull then .ok (lenientStrings (some (.arr items)))
    else .error "json: cannot unmarshal into Go value of type string"
  | some _ => .error "json: cannot unmarshal into Go value of type []string"

def readString : Option Json → Except String String
  | none | some .null => .ok ""
  | some (.str s) => .ok s
  | some _ => .error "json: cannot unmarshal into Go value of type string"

/-- `json.Unmarshal` into a `Detail`, of members with the names they are written with. -/
def readDetail (obj : Object) : Except String Detail := do
  let type ← readString (obj.lookup "type")
  let locations ← readStrings (obj.lookup "locations")
  let actions ← readStrings (obj.lookup "actions")
  let datatypes ← readStrings (obj.lookup "datatypes")
  let identifier ← readString (obj.lookup "identifier")
  let privileges ← readStrings (obj.lookup "privileges")
  .ok { type, locations, actions, datatypes, identifier, privileges }

theorem lookup_filterMap {l : List (String × Option Json)} (h : (l.map Prod.fst).Nodup)
    (name : String) :
    (l.filterMap fun f => f.2.map (Prod.mk f.1)).lookup name = (l.lookup name).join := by
  induction l with
  | nil => rfl
  | cons f l ih =>
    obtain ⟨key, value⟩ := f
    rw [map_cons, nodup_cons] at h
    have hrest := ih h.2
    by_cases hkey : name = key
    · subst hkey
      have hnone : l.lookup name = none := by
        rw [lookup_eq_none_iff]
        intro p hp
        have hne : name ≠ p.1 := fun he => h.1 (mem_map.mpr ⟨p, hp, he.symm⟩)
        simpa using hne
      cases value with
      | none => simpa [lookup_cons, hnone] using hrest
      | some v => simp
    · have hbeq : (name == key) = false := by simpa using hkey
      cases value with
      | none => simpa [lookup_cons, hbeq] using hrest
      | some v => simpa [lookup_cons, hbeq] using hrest

theorem encode_lookup (d : Detail) (name : String) :
    (encodeDetail d).lookup name = ((jsonFields d).lookup name).join := by
  have hnames : ((jsonFields d).map Prod.fst).Nodup := by simp [jsonFields]
  exact lookup_filterMap hnames name

theorem stringOrNull_strings (vals : List String) :
    (vals.map Json.str).all stringOrNull = true := by
  simp [stringOrNull]

theorem lenientStrings_strings (vals : List String) :
    lenientStrings (some (.arr (vals.map .str))) = vals := by
  simp [lenientStrings, Function.comp_def]

theorem readStrings_omit (vals : List String) : readStrings (omitStrings vals) = .ok vals := by
  unfold omitStrings
  split_ifs with hnone
  · rw [hnone]
    rfl
  · rw [readStrings, if_pos (stringOrNull_strings vals), lenientStrings_strings]

theorem readString_omit (s : String) : readString (omitString s) = .ok s := by
  unfold omitString
  split_ifs with hnone
  · rw [hnone]
    rfl
  · rfl

theorem readDetail_encode (d : Detail) : readDetail (encodeDetail d) = .ok d := by
  have hlookups : (encodeDetail d).lookup "type" = some (.str d.type) ∧
      (encodeDetail d).lookup "locations" = omitStrings d.locations ∧
      (encodeDetail d).lookup "actions" = omitStrings d.actions ∧
      (encodeDetail d).lookup "datatypes" = omitStrings d.datatypes ∧
      (encodeDetail d).lookup "identifier" = omitString d.identifier ∧
      (encodeDetail d).lookup "privileges" = omitStrings d.privileges := by
    simp only [encode_lookup]
    exact ⟨rfl, rfl, rfl, rfl, rfl, rfl⟩
  obtain ⟨htype, hlocations, hactions, hdatatypes, hidentifier, hprivileges⟩ := hlookups
  simp only [readDetail, htype, hlocations, hactions, hdatatypes, hidentifier, hprivileges,
    readStrings_omit, readString_omit]
  rfl

def fieldName : Field → String
  | .locations => "locations"
  | .actions => "actions"
  | .datatypes => "datatypes"
  | .identifier => "identifier"
  | .privileges => "privileges"

theorem knownField_iff {name : String} : knownField name = true ↔ ∃ f, name = fieldName f := by
  constructor
  · intro h
    simp only [knownField, arrayFields, Bool.or_eq_true, contains_iff_mem, mem_cons,
      not_mem_nil, or_false, beq_iff_eq] at h
    rcases h with (rfl | rfl | rfl | rfl) | rfl
    exacts [⟨.locations, rfl⟩, ⟨.actions, rfl⟩, ⟨.datatypes, rfl⟩, ⟨.privileges, rfl⟩,
      ⟨.identifier, rfl⟩]
  · rintro ⟨f, rfl⟩
    cases f <;> decide

/-- A value with something to meet: a string that is not blank, or an array with one. -/
def NonBlank : Json → Prop
  | .str s => trimSpace s ≠ ""
  | .arr items => ∃ s, Json.str s ∈ items ∧ trimSpace s ≠ ""
  | _ => False

theorem omitStrings_nonBlank (vals : List String) :
    (∃ v, omitStrings vals = some v ∧ NonBlank v) ↔ ∃ s ∈ vals, trimSpace s ≠ "" := by
  unfold omitStrings
  split_ifs with hnone
  · simp [hnone]
  · simp [NonBlank]

theorem omitString_nonBlank (s : String) :
    (∃ v, omitString s = some v ∧ NonBlank v) ↔ trimSpace s ≠ "" := by
  unfold omitString
  split_ifs with hnone
  · subst hnone
    exact iff_of_false nofun (by decide)
  · simp [NonBlank]

theorem written_iff (d : Detail) (f : Field) :
    (∃ v, (encodeDetail d).lookup (fieldName f) = some v ∧ NonBlank v) ↔
      ∃ s ∈ fieldValues d f, trimSpace s ≠ "" := by
  rw [encode_lookup]
  cases f with
  | locations => exact omitStrings_nonBlank d.locations
  | actions => exact omitStrings_nonBlank d.actions
  | datatypes => exact omitStrings_nonBlank d.datatypes
  | privileges => exact omitStrings_nonBlank d.privileges
  | identifier =>
    refine (omitString_nonBlank d.identifier).trans ?_
    by_cases hnone : d.identifier = ""
    · simp only [fieldValues, hnone, if_true]
      exact iff_of_false (by decide) (by simp)
    · simp [fieldValues, hnone]

/-- A value that says nothing: null, an empty array or a blank string. -/
def vacant : Json → Bool
  | .null => true
  | .arr items => items.isEmpty
  | .str s => trimSpace s == ""
  | _ => false

theorem strings_vacant {raw : Json} (htype : readsAsStrings raw = true)
    (hvalues : ∀ s ∈ lenientStrings (some raw), trimSpace s ≠ "") :
    (∃ s ∈ lenientStrings (some raw), trimSpace s ≠ "") ↔ vacant raw = false := by
  cases raw with
  | arr items =>
    cases items with
    | nil => exact iff_of_false (by simp [lenientStrings]) (by decide)
    | cons item items =>
      refine iff_of_true ?_ rfl
      have hfirst := hvalues _ mem_cons_self
      exact ⟨_, mem_cons_self, hfirst⟩
  | null => exact iff_of_false (by simp [lenientStrings]) (by decide)
  | bool b | num n | str s | obj members => exact absurd htype (by simp [readsAsStrings])

theorem string_vacant {raw : Json} (htype : stringOrNull raw = true) :
    trimSpace (lenientString (some raw)) ≠ "" ↔ vacant raw = false := by
  cases raw with
  | str s => simp [lenientString, vacant]
  | null => exact iff_of_false (by decide) (by decide)
  | bool b | num n | arr items | obj members => exact absurd htype (by simp [stringOrNull])

section
variable {reg : Registry} {obj : Object} {d : Detail}

/-- No permission field of the object is null, an empty array or blank. -/
def Filled (obj : Object) : Prop :=
  ∀ name raw, knownField name = true → obj.lookup name = some raw → vacant raw = false

def Demanded (reg : Registry) (obj : Object) (d : Detail) (name : String) : Prop :=
  (∃ spec, reg.specs.lookup d.type = some spec ∧ name ∈ spec.required) ∨
    (knownField name = true ∧ name ∈ obj.map Prod.fst)

/-- The detail is read back as it was, from an object that has all that was demanded. -/
structure Keeps (reg : Registry) (obj : Object) (d : Detail) : Prop where
  readBack : readDetail (encodeDetail d) = .ok d
  written : ∀ name, Demanded reg obj d name →
    ∃ v, (encodeDetail d).lookup name = some v ∧ NonBlank v

theorem decodeDetail_ok (h : decodeDetail obj = .ok d) :
    d = { type := d.type
          locations := lenientStrings (obj.lookup "locations")
          actions := lenientStrings (obj.lookup "actions")
          datatypes := lenientStrings (obj.lookup "datatypes")
          identifier := lenientString (obj.lookup "identifier")
          privileges := lenientStrings (obj.lookup "privileges") } := by
  unfold decodeDetail at h
  split at h
  · rw [← Except.ok.inj h]
  · rw [← Except.ok.inj h]
  · rw [← Except.ok.inj h]
  · cases h

/-- What is known of an accepted object: its type, its members and its values. -/
structure Accepted (reg : Registry) (obj : Object) (d : Detail) : Prop where
  type : trimSpace d.type ≠ ""
  typed : ∀ f raw, obj.lookup (fieldName f) = some raw → checkFieldType (fieldName f) raw = .ok ()
  known : ∀ name ∈ obj.map Prod.fst, name = "type" ∨ knownField name = true
  required : ∀ spec, reg.specs.lookup d.type = some spec →
    ∀ name ∈ spec.required, present obj name = true
  values : checkValues d = .ok ()

theorem mem_names {name : String} :
    name ∈ obj.map Prod.fst ↔ ∃ raw, obj.lookup name = some raw := by
  rw [← Option.isSome_iff_exists, ← not_iff_not, Bool.not_eq_true, Option.isSome_eq_false_iff,
    Option.isNone_iff_eq_none, lookup_eq_none_iff, mem_map]
  simp only [bne_iff_ne, ne_eq]
  constructor
  · exact fun h p hp he => h ⟨p, hp, he.symm⟩
  · rintro h ⟨p, hp, rfl⟩
    exact h p hp rfl

theorem fieldName_ne_type (f : Field) : fieldName f ≠ "type" := by
  cases f <;> decide

theorem validateDetail_ok {i : ℕ} (h : validateDetail reg i d obj = .ok ()) :
    Accepted reg obj d := by
  unfold validateDetail at h
  rw [seq_ok, refuseIf_ok] at h
  obtain ⟨htype, h⟩ := h
  cases hspec : reg.specs.lookup d.type with
  | none => simp [hspec] at h
  | some spec =>
    simp only [hspec, seq_ok, mapError_ok, checkAll_forall, refuseIf_ok, Bool.not_eq_false] at h
    obtain ⟨hmembers, hrequired, hvalues⟩ := h
    have hmember {name : String} (hname : name ∈ obj.map Prod.fst) (hne : name ≠ "type") :
        knownField name = true ∧ checkFieldType name ((obj.lookup name).getD .null) = .ok () := by
      have hcheck := hmembers name (mem_insertionSort _ |>.mpr hname)
      simp only [checkMember, if_neg hne, seq_ok, refuseIf_ok, mapError_ok, Bool.not_eq_false]
        at hcheck
      exact ⟨hcheck.1, hcheck.2.2⟩
    refine ⟨htype, fun f raw hraw => ?_, fun name hname => ?_, fun other hother => ?_, hvalues⟩
    · have hchecked := (hmember (mem_names.mpr ⟨raw, hraw⟩) (fieldName_ne_type f)).2
      rwa [hraw] at hchecked
    · by_cases hne : name = "type"
      · exact .inl hne
      · exact .inr (hmember hname hne).1
    · obtain rfl : spec = other := Option.some.inj (hspec.symm.trans hother)
      exact hrequired

theorem Accepted.values_ne (h : Accepted reg obj d) {f : Field} (hf : f ≠ .identifier) :
    ∀ s ∈ fieldValues d f, trimSpace s ≠ "" := by
  have hvalues := h.values
  simp only [checkValues, checkAll_forall, refuseIf_ok, forall_mem_cons] at hvalues
  obtain ⟨hlocations, hactions, hdatatypes, hprivileges, -⟩ := hvalues
  cases f with
  | locations => exact hlocations
  | actions => exact hactions
  | datatypes => exact hdatatypes
  | privileges => exact hprivileges
  | identifier => exact absurd rfl hf

theorem fieldValues_decode (hd : decodeDetail obj = .ok d) {f : Field} (hf : f ≠ .identifier) :
    fieldValues d f = lenientStrings (obj.lookup (fieldName f)) := by
  rw [decodeDetail_ok hd]
  cases f with
  | identifier => exact absurd rfl hf
  | _ => rfl

theorem identifier_decode (hd : decodeDetail obj = .ok d) :
    d.identifier = lenientString (obj.lookup "identifier") := by
  rw [decodeDetail_ok hd]

theorem Accepted.written_iff_vacant (h : Accepted reg obj d) (hd : decodeDetail obj = .ok d)
    {f : Field} {raw : Json} (hraw : obj.lookup (fieldName f) = some raw) :
    (∃ v, (encodeDetail d).lookup (fieldName f) = some v ∧ NonBlank v) ↔ vacant raw = false := by
  have htyped := h.typed f raw hraw
  by_cases hf : f = .identifier
  · subst hf
    have htype : stringOrNull raw = true := by
      simpa [checkFieldType, fieldName, arrayFields] using htyped
    rw [← string_vacant htype, encode_lookup]
    refine (omitString_nonBlank d.identifier).trans ?_
    rw [identifier_decode hd, ← hraw, fieldName]
  · have htype : readsAsStrings raw = true := by
      cases f with
      | identifier => exact absurd rfl hf
      | _ => simpa [checkFieldType, fieldName, arrayFields] using htyped
    have hread := fieldValues_decode hd hf
    rw [hraw] at hread
    rw [written_iff, hread]
    exact strings_vacant htype (hread ▸ h.values_ne hf)

theorem Accepted.demanded (h : Accepted reg obj d) {name : String}
    (hname : Demanded reg obj d name) :
    name ∈ obj.map Prod.fst ∧ (name = "type" ∨ ∃ f, name = fieldName f) := by
  have hmem : name ∈ obj.map Prod.fst := by
    rcases hname with ⟨spec, hspec, hrequired⟩ | ⟨-, hmem⟩
    · have hpresent := h.required spec hspec name hrequired
      rw [present] at hpresent
      cases hraw : obj.lookup name with
      | none => simp [hraw] at hpresent
      | some raw => exact mem_names.mpr ⟨raw, hraw⟩
    · exact hmem
  exact ⟨hmem, (h.known name hmem).imp_right knownField_iff.mp⟩

theorem keeps_iff (h : Accepted reg obj d) (hd : decodeDetail obj = .ok d) :
    Keeps reg obj d ↔ Filled obj := by
  constructor
  · intro hkeeps name raw hknown hraw
    obtain ⟨f, rfl⟩ := knownField_iff.mp hknown
    refine (h.written_iff_vacant hd hraw).mp (hkeeps.written _ (.inr ⟨hknown, ?_⟩))
    exact mem_names.mpr ⟨raw, hraw⟩
  · intro hfilled
    refine ⟨readDetail_encode d, fun name hname => ?_⟩
    obtain ⟨hmem, rfl | ⟨f, rfl⟩⟩ := h.demanded hname
    · exact ⟨.str d.type, by rw [encode_lookup]; rfl, h.type⟩
    · obtain ⟨raw, hraw⟩ := mem_names.mp hmem
      exact (h.written_iff_vacant hd hraw).mpr (hfilled _ raw (knownField_iff.mpr ⟨f, rfl⟩) hraw)

end

section
variable {unmarshal : String → Except String Json} {raw : String} {reg : Registry}
  {details : List Detail} {objs : List Object}

theorem parseBoth_ok (h : parseBoth unmarshal raw = .ok (details, objs)) :
    List.Forall₂ (fun d o => decodeDetail o = .ok d) details objs := by
  simp only [parseBoth, bind_ok, Except.ok.injEq, Prod.mk.injEq] at h
  obtain ⟨os, -, ds, hdetails, rfl, rfl⟩ := h
  exact decodeDetails_ok hdetails

/-- Each detail of an accepted parameter keeps what it was validated with exactly where its
object has no permission field that says nothing. -/
theorem constraints_kept_iff (hparse : parseBoth unmarshal raw = .ok (details, objs))
    (hvalid : validate details objs reg = .ok ()) :
    (∀ pair ∈ details.zip objs, Keeps reg pair.2 pair.1) ↔ ∀ obj ∈ objs, Filled obj := by
  have hdecoded := parseBoth_ok hparse
  have heach {pair : Detail × Object} (hpair : pair ∈ details.zip objs) :
      Keeps reg pair.2 pair.1 ↔ Filled pair.2 := by
    obtain ⟨i, hi⟩ := checkAll_mem hvalid hpair
    exact keeps_iff (validateDetail_ok hi) (List.forall₂_zip hdecoded hpair)
  have hobjs : (details.zip objs).map Prod.snd = objs :=
    map_snd_zip (le_of_eq hdecoded.length_eq.symm)
  constructor
  · intro h obj hobj
    rw [← hobjs, mem_map] at hobj
    obtain ⟨pair, hpair, rfl⟩ := hobj
    exact (heach hpair).mp (h pair hpair)
  · intro h pair hpair
    exact (heach hpair).mpr (h _ (of_mem_zip hpair).2)

end

def reads (text : String) (doc : Json) (s : String) : Except String Json :=
  if s = text then .ok doc else .error "unexpected end of JSON input"

def bank : Registry where
  specs := [("payment", ⟨"payment", ["actions", "identifier"], ["actions"]⟩)]
  unique := by decide

def transferText : String := "[\x7b\"type\":\"payment\",\"actions\":[\"transfer\"]\x7d]"

def transfer : Object := [("type", .str "payment"), ("actions", .arr [.str "transfer"])]

theorem constraints_kept_iff_transfer :
    (∀ pair ∈ [(({ type := "payment", actions := ["transfer"] } : Detail), transfer)],
        Keeps bank pair.2 pair.1) ↔ ∀ obj ∈ [transfer], Filled obj :=
  have hparse : parseBoth (reads transferText (.arr [.obj transfer])) transferText =
      .ok ([{ type := "payment", actions := ["transfer"] }], [transfer]) := by rfl
  have hvalid : validate [{ type := "payment", actions := ["transfer"] }] [transfer] bank =
      .ok () := by rfl
  constraints_kept_iff hparse hvalid

def emptyText : String := "[\x7b\"type\":\"payment\",\"actions\":[]\x7d]"

def emptyActions : Object := [("type", .str "payment"), ("actions", .arr [])]

/-- The required actions may be an empty array, and the grant has none. -/
theorem empty_actions_dropped :
    parseBoth (reads emptyText (.arr [.obj emptyActions])) emptyText =
        .ok ([{ type := "payment" }], [emptyActions]) ∧
      validate [{ type := "payment" }] [emptyActions] bank = .ok () ∧
      ¬Keeps bank emptyActions { type := "payment" } := by
  refine ⟨by rfl, by rfl, fun h => ?_⟩
  obtain ⟨v, hv, -⟩ := h.written "actions" (.inr ⟨by decide, by decide⟩)
  exact nomatch hv

end Signari.DetailConstraints
