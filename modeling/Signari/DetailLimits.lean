import Signari.RichDetails
import Mathlib.Data.Set.Finite.List

/-!
# What an authorization detail permits

A field of an authorization detail limits what may be asked for, and an absent field limits nothing:
`FilterByAudience` of `internal/rar/rar.go` hands a detail without locations to every audience.

`Narrow` compares the fields with the absent one as an empty list. A request that leaves out
a field is covered by every grant and permits more than one that has the field.
-/
namespace Signari.DetailLimits
open IndexedChecks RichDetails List

section

variable {α : Type*}

/-- The values that a field lets through; without any it lets everything through. -/
def allowed (xs : List α) : Set α := { x | xs = [] ∨ x ∈ xs }

theorem allowed_nil : allowed ([] : List α) = Set.univ := Set.eq_univ_of_forall fun _ => .inl rfl

theorem mem_allowed {xs : List α} (h : xs ≠ []) {x : α} : x ∈ allowed xs ↔ x ∈ xs := or_iff_right h

theorem allowed_nonempty [Nonempty α] (xs : List α) : (allowed xs).Nonempty := by
  cases xs with
  | nil => exact allowed_nil (α := α) ▸ Set.univ_nonempty
  | cons x xs => exact ⟨x, .inr mem_cons_self⟩

/-- One field is at least as tight as another when that one is absent, or both are there and
the values are among the other's. -/
theorem allowed_subset_iff [Infinite α] {xs ys : List α} :
    allowed xs ⊆ allowed ys ↔ ys = [] ∨ xs ≠ [] ∧ xs ⊆ ys := by
  by_cases hys : ys = []
  · subst hys
    rw [allowed_nil]
    exact iff_of_true (Set.subset_univ _) (.inl rfl)
  · rw [or_iff_right hys]
    refine ⟨fun h => ⟨?_, fun x hx => ?_⟩, fun ⟨hxs, h⟩ x hx => ?_⟩
    · rintro rfl
      obtain ⟨x, hx⟩ := (finite_toSet ys).exists_notMem
      exact hx ((mem_allowed hys).mp (h (.inl rfl)))
    · exact (mem_allowed hys).mp (h (.inr hx))
    · exact (mem_allowed hys).mpr (h ((mem_allowed hxs).mp hx))

end

/-- The fields that limit a detail. -/
inductive Field where
  | locations | actions | datatypes | identifier | privileges
  deriving DecidableEq

def fieldValues (d : Detail) : Field → List String
  | .locations => d.locations
  | .actions => d.actions
  | .datatypes => d.datatypes
  | .identifier => if d.identifier = "" then [] else [d.identifier]
  | .privileges => d.privileges

/-- The requests that a detail permits, each with a location, an action, a datatype, an
identifier and a privilege. -/
def permitted (d : Detail) : Set (Field → String) := Set.univ.pi fun f => allowed (fieldValues d f)

/-- A detail has every limit that another has, at least as tight. -/
def KeepsLimits (held want : Detail) : Prop :=
  ∀ f, fieldValues held f = [] ∨ fieldValues want f ≠ [] ∧ fieldValues want f ⊆ fieldValues held f

theorem permitted_subset_iff {held want : Detail} :
    permitted want ⊆ permitted held ↔ KeepsLimits held want := by
  have hnonempty : ¬ ∃ f, allowed (fieldValues want f) = ∅ :=
    fun ⟨f, hf⟩ => (allowed_nonempty (fieldValues want f)).ne_empty hf
  rw [permitted, permitted, Set.univ_pi_subset_univ_pi_iff, or_iff_left hnonempty]
  exact forall_congr' fun _ => allowed_subset_iff

def Narrows (granted out : List Detail) : Prop :=
  ∀ d ∈ out, ∃ held ∈ granted, held.type = d.type ∧ permitted d ⊆ permitted held

theorem narrows_refl (granted : List Detail) : Narrows granted granted :=
  fun d hd => ⟨d, hd, rfl, Set.Subset.rfl⟩

/-- `Narrow` returns no more than was granted exactly when every requested detail has each
limit of a granted detail of its type. -/
theorem narrow_narrows_iff {granted requested out : List Detail}
    (h : narrow granted requested = .ok out) :
    Narrows granted out ↔
      ∀ want ∈ requested, ∃ held ∈ granted, held.type = want.type ∧ KeepsLimits held want := by
  obtain ⟨rfl, -⟩ := narrow_ok h
  split_ifs with hnone
  · subst hnone
    exact iff_of_true (narrows_refl granted) (forall_mem_nil _)
  · simp only [Narrows, permitted_subset_iff]

theorem narrow_narrows_iff_read :
    Narrows [{ type := "payment", actions := ["read", "write"] }]
        [{ type := "payment", actions := ["read"] }] ↔
      ∀ want ∈ [({ type := "payment", actions := ["read"] } : Detail)],
        ∃ held ∈ [({ type := "payment", actions := ["read", "write"] } : Detail)],
          held.type = want.type ∧ KeepsLimits held want :=
  narrow_narrows_iff rfl

/-- A request that names no action comes back with every action. -/
theorem absent_actions_widen :
    narrow [{ type := "payment", actions := ["read"] }] [{ type := "payment" }] =
      .ok [{ type := "payment" }] ∧
    ¬ Narrows [{ type := "payment", actions := ["read"] }] [{ type := "payment" }] := by
  refine ⟨rfl, fun h => ?_⟩
  obtain ⟨held, hheld, -, hsub⟩ := h { type := "payment" } mem_cons_self
  obtain rfl := mem_singleton.mp hheld
  rcases permitted_subset_iff.mp hsub .actions with habsent | ⟨hpresent, -⟩
  · exact absurd habsent (by decide)
  · exact absurd rfl hpresent

end Signari.DetailLimits
