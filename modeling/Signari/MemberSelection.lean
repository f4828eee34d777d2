import Signari.FilterMatching
import Signari.FilterSyntax
import Signari.ScimGroupPatch

/-!
# The member a filtered path names

`memberIDFromPath` of `internal/scim/grouppatch.go` reads an id off the filter of a
`members` path without evaluating it: it looks for `value eq "…"` among the conjuncts,
leftmost first. A filter matches what all its conjuncts match, so the elements it selects
have that id for a value, in some case, and the element of the id alone is selected when
the other conjuncts let it through.
-/
namespace Signari.MemberSelection
open GoStrings IndexedChecks ScimPath FilterSyntax FilterMatching ScimGroupPatch JsonValues

variable {F : Type}

/-- The filters joined by `and` at the top. -/
def conjuncts : Filter → List Filter
  | .and l r => conjuncts l ++ conjuncts r
  | f => [f]

theorem matches_conjuncts (fl : Floats F) (obj : Object) (f : Filter) :
    filterMatches fl f obj = true ↔ ∀ g ∈ conjuncts f, filterMatches fl g obj = true := by
  induction f with
  | and l r ihl ihr =>
    rw [filterMatches, Bool.and_eq_true, ihl, ihr, conjuncts, List.forall_mem_append]
  | _ => simp [conjuncts]

def namesMember (id : String) : Filter := .compare "eq" "value" (.text id)

theorem namesMember_mem (f : Filter) (h : memberValueSelectedBy f ≠ "") :
    namesMember (memberValueSelectedBy f) ∈ conjuncts f := by
  induction f with
  | compare op attr value =>
    cases value with
    | text s =>
      simp only [memberValueSelectedBy] at h ⊢
      split_ifs at h ⊢ with hop
      · obtain ⟨rfl, rfl⟩ := hop
        exact List.mem_singleton_self _
      · exact absurd rfl h
    | _ => exact absurd (by simp [memberValueSelectedBy]) h
  | and l r ihl ihr =>
    rw [memberValueSelectedBy] at h ⊢
    rw [conjuncts, List.mem_append]
    split_ifs at h ⊢ with hl
    · exact .inl (ihl hl)
    · exact .inr (ihr h)
  | _ => exact absurd rfl h

theorem matches_namesMember (fl : Floats F) (obj : Object) (id : String) :
    filterMatches fl (namesMember id) obj = true ↔
      ∃ s, lookupFold obj "value" = some (.str s) ∧ toLower s = toLower id := by
  rw [namesMember, filterMatches]
  cases lookupFold obj "value" with
  | none => simp
  | some v => cases v <;> simp [compareValue, compareStrings]

/-- What a filtered path that names a member says about the elements its filter selects. -/
theorem memberIDFromPath_selects (fl : Floats F) (path id : String)
    (h : memberIDFromPath (fun t => (fl.parse t).isSome) path = .ok id) (hid : id ≠ "") :
    ∃ p f, parsePath (fun t => (fl.parse t).isSome) path = .ok p ∧ p.attr = "members" ∧
      p.filter = some f ∧ namesMember id ∈ conjuncts f ∧
      (filterMatches fl f [("value", .str id)] = true ↔
        ∀ g ∈ conjuncts f, g ≠ namesMember id → filterMatches fl g [("value", .str id)] = true) ∧
      ∀ obj, filterMatches fl f obj = true →
        ∃ s, lookupFold obj "value" = some (.str s) ∧ toLower s = toLower id := by
  obtain ⟨p, hp, hrest⟩ := bind_ok.1 h
  cases hf : p.filter with
  | none =>
    rw [hf] at hrest
    exact absurd (Except.ok.inj hrest).symm hid
  | some f =>
    simp only [hf] at hrest
    split_ifs at hrest with hattr
    · exact absurd (Except.ok.inj hrest).symm hid
    · obtain ⟨_, _, hrest⟩ := bind_ok.1 hrest
      obtain ⟨_, hsel, hrest⟩ := bind_ok.1 hrest
      cases hrest
      have hmem := namesMember_mem f (refuseIf_ok.1 hsel)
      refine ⟨p, f, hp, not_not.1 hattr, hf, hmem, ?_, fun obj hobj => ?_⟩
      · rw [matches_conjuncts]
        refine ⟨fun hall g hg _ => hall g hg, fun hall g hg => ?_⟩
        by_cases hg' : g = namesMember (memberValueSelectedBy f)
        · rw [hg', matches_namesMember]
          exact ⟨_, rfl, rfl⟩
        · exact hall g hg hg'
      · exact (matches_namesMember fl obj _).1 ((matches_conjuncts fl obj f).1 hobj _ hmem)

def entraPath : String := "members[value eq \"x\" and type eq \"User\"]"

def entraFilter : Filter := .and (namesMember "x") (.compare "eq" "type" (.text "User"))

theorem parsePath_entra :
    parsePath (fun _ => false) entraPath =
      .ok { attr := "members", filter := some entraFilter } := by
  have hvalue : ∀ rest, Reads (fun _ => false) .operand
      (⟨"value", false⟩ :: ⟨"eq", false⟩ :: ⟨"x", true⟩ :: rest) (namesMember "x") rest :=
    fun _ => .compare (by decide) (by decide) (by decide)
  have htype : Reads (fun _ => false) .operand
      [⟨"type", false⟩, ⟨"eq", false⟩, ⟨"User", true⟩] (.compare "eq" "type" (.text "User")) [] :=
    .compare (by decide) (by decide) (by decide)
  have hfilter : parseFilter (fun _ => false) "value eq \"x\" and type eq \"User\"".toList =
      .ok entraFilter := parseFilter_ok.2 ⟨[⟨"value", false⟩, ⟨"eq", false⟩, ⟨"x", true⟩,
        ⟨"and", false⟩, ⟨"type", false⟩, ⟨"eq", false⟩, ⟨"User", true⟩], rfl,
        ((hvalue _).operand.and (by decide) htype).conjunction⟩
  have hopen : cutFirst (trimChars entraPath.toList) '[' =
      some ("members".toList, "value eq \"x\" and type eq \"User\"]".toList) := by decide
  have hclose : cutLast "value eq \"x\" and type eq \"User\"]".toList ']' =
      some ("value eq \"x\" and type eq \"User\"".toList, []) := by decide
  have hattr : lowerTrim "members".toList = "members" := by decide
  have hpath := parsePath_filtered (s := entraPath) (by decide) (by decide) hopen hclose hfilter
    rfl (by decide)
  rwa [hattr] at hpath

theorem memberIDFromPath_entra : memberIDFromPath (fun _ => false) entraPath = .ok "x" := by
  rw [memberIDFromPath, parsePath_entra]
  rfl

/-- The path names `x`, and the element of that id alone is not selected: it has no type. -/
theorem entra_not_selected :
    memberIDFromPath (fun _ => false) entraPath = .ok "x" ∧
      parsePath (fun _ => false) entraPath = .ok { attr := "members", filter := some entraFilter } ∧
      filterMatches noFloats entraFilter [("value", .str "x")] = false :=
  ⟨memberIDFromPath_entra, parsePath_entra, by decide⟩

theorem memberIDFromPath_selects_entra :
    ∃ p f, parsePath (fun _ => false) entraPath = .ok p ∧ p.attr = "members" ∧
      p.filter = some f ∧ namesMember "x" ∈ conjuncts f ∧
      (filterMatches noFloats f [("value", .str "x")] = true ↔
        ∀ g ∈ conjuncts f, g ≠ namesMember "x" →
          filterMatches noFloats g [("value", .str "x")] = true) ∧
      ∀ obj, filterMatches noFloats f obj = true →
        ∃ s, lookupFold obj "value" = some (.str s) ∧ toLower s = toLower "x" :=
  memberIDFromPath_selects noFloats entraPath "x" memberIDFromPath_entra (by decide)

end Signari.MemberSelection
