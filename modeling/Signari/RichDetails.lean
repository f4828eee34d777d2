import Signari.JsonValues
import Signari.IndexedChecks

/-!
# Rich authorization details

`internal/rar/rar.go`: the typed permissions a grant may carry besides scopes. `parse`
reads the request parameter leniently, `narrow` lets a request ask for less than was
granted, and `filterByAudience` keeps the details that concern the resource servers a token
is for.

Where a message quotes the JSON decoder, the decoder's own words are abbreviated. `covers` is
a preorder, so narrowing a narrowed grant is still below the first grant.
-/
namespace Signari.RichDetails
open GoStrings IndexedChecks JsonValues List

/-- One authorization details object. -/
structure Detail where
  type : String
  locations : List String := []
  actions : List String := []
  datatypes : List String := []
  identifier : String := ""
  privileges : List String := []
  deriving DecidableEq

/-- An array field decoded with its error ignored: elements of another kind stay empty. -/
def lenientStrings (j : Option Json) : List String := match j with
  | some (.arr items) => items.map fun | .str s => s | _ => ""
  | _ => []

def lenientString (j : Option Json) : String := match j with
  | some (.str s) => s
  | _ => ""

/-- Reads one object field by field; only the type is read strictly. -/
def decodeDetail (members : List (String × Json)) : Except String Detail :=
  let detail (type : String) : Detail :=
    { type
      locations := lenientStrings (members.lookup "locations")
      actions := lenientStrings (members.lookup "actions")
      datatypes := lenientStrings (members.lookup "datatypes")
      identifier := lenientString (members.lookup "identifier")
      privileges := lenientStrings (members.lookup "privileges") }
  match members.lookup "type" with
  | none | some .null => .ok (detail "")
  | some (.str t) => .ok (detail t)
  | some _ => .error "type must be a string"

/-- An element of the array as a member list; `null` decodes to no members. -/
def asMembers : Json → Option (List (String × Json))
  | .obj members => some members
  | .null => some []
  | _ => none

def decodeDetails (i : ℕ) : List (List (String × Json)) → Except String (List Detail)
  | [] => .ok []
  | o :: os => do
      let d ← (decodeDetail o).mapError fun e => s!"authorization_details[{i}]: " ++ e
      let ds ← decodeDetails (i + 1) os
      .ok (d :: ds)

/-- One object of the parameter, undecoded. -/
abbrev Object := List (String × Json)

/-- The objects of the `authorization_details` parameter, which `Parse` returns beside what it reads
in them. `unmarshal` is the JSON reader. -/
def parseObjects (unmarshal : String → Except String Json) (raw : String) :
    Except String (List Object) :=
  let raw := trimSpace raw
  if raw = "" then .ok []
  else match unmarshal raw with
    | .error e => .error ("authorization_details is not a JSON array: " ++ e)
    | .ok doc =>
      match noDuplicateKeys [] doc with
      | some dup => .error ("authorization_details: " ++ duplicateMessage dup)
      | none =>
        match doc with
        | .null | .arr [] => .error ("authorization_details is an empty array; omit the " ++
            "parameter entirely if no rich permissions are being requested")
        | .arr items =>
          match items.mapM asMembers with
          | some objs => .ok objs
          | none => .error "authorization_details is not a JSON array: of objects"
        | .obj _ => .error ("authorization_details must be a JSON array of objects, and " ++
            "this is a single object; wrap it in [ ]")
        | _ => .error "authorization_details is not a JSON array"

def parse (unmarshal : String → Except String Json) (raw : String) :
    Except String (List Detail) := do
  let objs ← parseObjects unmarshal raw
  decodeDetails 0 objs

def subset (want held : List String) : Bool := want.all fun w => held.contains w

/-- Whether `held` permits everything `want` asks for. -/
def covers (held want : Detail) : Bool :=
  !(want.identifier != "" && want.identifier != held.identifier) &&
    subset want.locations held.locations && subset want.actions held.actions &&
    subset want.datatypes held.datatypes && subset want.privileges held.privileges

def narrow (granted requested : List Detail) : Except String (List Detail) :=
  if requested = [] then .ok granted
  else do
    checkAll (fun i want => refuseIf
      ((granted.any fun held => held.type == want.type && covers held want) = false)
      (s!"authorization_details[{i}] of type " ++ quote want.type ++
        " asks for more than this grant authorized")) 0 requested
    .ok requested

def Detail.concerns (d : Detail) (audience : List String) : Bool :=
  d.locations.isEmpty || d.locations.any fun loc => audience.contains loc

def filterByAudience (details : List Detail) (audience : List String) : List Detail :=
  details.filter fun d => d.concerns audience

theorem subset_iff {want held : List String} : subset want held = true ↔ want ⊆ held := by
  simp [subset, subset_def]

theorem covers_iff {held want : Detail} :
    covers held want = true ↔ (want.identifier ≠ "" → want.identifier = held.identifier) ∧
      want.locations ⊆ held.locations ∧ want.actions ⊆ held.actions ∧
      want.datatypes ⊆ held.datatypes ∧ want.privileges ⊆ held.privileges := by
  simp only [covers, Bool.and_eq_true, subset_iff, and_assoc]
  refine and_congr_left fun _ => ?_
  by_cases h₁ : want.identifier = "" <;> by_cases h₂ : want.identifier = held.identifier <;>
    simp [h₁, h₂]

theorem covers_refl (d : Detail) : covers d d = true :=
  covers_iff.mpr ⟨fun _ => rfl, Subset.refl _, Subset.refl _, Subset.refl _, Subset.refl _⟩

theorem covers_trans {a b c : Detail} (h₁ : covers a b = true) (h₂ : covers b c = true) :
    covers a c = true := by
  obtain ⟨hi, hl, ha, hd, hp⟩ := covers_iff.mp h₁
  obtain ⟨hi', hl', ha', hd', hp'⟩ := covers_iff.mp h₂
  refine covers_iff.mpr ⟨fun hne => ?_, Subset.trans hl' hl,
    Subset.trans ha' ha, Subset.trans hd' hd, Subset.trans hp' hp⟩
  have heq := hi' hne
  exact heq.trans (hi (heq ▸ hne))

def CoveredBy (original details : List Detail) : Prop :=
  ∀ d ∈ details, ∃ o ∈ original, covers o d = true

theorem CoveredBy.trans {a b c : List Detail} (h₁ : CoveredBy a b) (h₂ : CoveredBy b c) :
    CoveredBy a c := by
  intro d hd
  obtain ⟨o, ho, hod⟩ := h₂ d hd
  obtain ⟨p, hp, hpo⟩ := h₁ o ho
  exact ⟨p, hp, covers_trans hpo hod⟩

/-- Narrowing carries what was requested, or the whole grant when nothing was, and stays
below the grant. -/
theorem narrow_ok {granted requested out : List Detail} (h : narrow granted requested = .ok out) :
    out = (if requested = [] then granted else requested) ∧ CoveredBy granted out := by
  unfold narrow at h
  split_ifs at h with hr
  · obtain rfl : granted = out := by simpa using h
    exact ⟨by simp [hr], fun d hd => ⟨d, hd, covers_refl d⟩⟩
  · rw [seq_ok] at h
    obtain ⟨hall, hout⟩ := h
    obtain rfl : requested = out := by simpa using hout
    refine ⟨by simp [hr], fun d hd => ?_⟩
    obtain ⟨i, hi⟩ := checkAll_mem hall hd
    simp only [refuseIf_ok, Bool.not_eq_false, any_eq_true, Bool.and_eq_true] at hi
    obtain ⟨o, ho, _, hod⟩ := hi
    exact ⟨o, ho, hod⟩

theorem filterByAudience_subset (details : List Detail) (audience : List String) :
    filterByAudience details audience ⊆ details :=
  fun _ hd => (mem_filter.mp hd).1

theorem filterByAudience_ne_nil {details : List Detail} {audience : List String} :
    filterByAudience details audience ≠ [] ↔ ∃ d ∈ details, d.concerns audience = true := by
  simp [filterByAudience, filter_eq_nil_iff]

end Signari.RichDetails
