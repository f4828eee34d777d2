import Mathlib.Algebra.Order.Field.Basic
import Mathlib.Data.List.Basic
import Mathlib.Tactic.Linarith
import Mathlib.Tactic.Ring

/-!
# Levels and windows

A store of limited capacity that fills at a constant rate, seen from the times at which a unit was
drawn from it. Over a window that ends now the store can have had its capacity and the refill of the
window; what was drawn in the window is gone. The level is the least of what the windows leave
(`IsLevel`), which makes a level that is not negative the same as the bound on every window
(`IsLevel.drawn_le`).
-/
namespace Signari.LevelWindows

section
variable {K : Type} [LinearOrder K] {last now s t : K} {times : List K}

/-- How often the store was drawn from, from `s` to `t`. -/
def drawn (times : List K) (s t : K) : ℕ := times.countP fun g => decide (s ≤ g ∧ g ≤ t)

theorem drawn_eq_zero (h : ∀ g ∈ times, g < s) : drawn times s t = 0 := by
  rw [drawn, List.countP_eq_zero]
  intro g hg
  simp [not_le.mpr (h g hg)]

theorem drawn_late (h : ∀ g ∈ times, g ≤ last) (hlate : last ≤ now) :
    drawn times s now = drawn times s last := by
  apply List.countP_congr
  intro g hg
  have hnow : g ≤ now := (h g hg).trans hlate
  simp [h g hg, hnow]

theorem drawn_append_early (h : t < now) : drawn (times ++ [now]) s t = drawn times s t := by
  simp [drawn, not_le.mpr h]

theorem drawn_append (h : s ≤ now) : drawn (times ++ [now]) s now = drawn times s now + 1 := by
  simp [drawn, h]

end

variable {K : Type} [Field K] [LinearOrder K] {capacity rate last now s t x : K} {times : List K}

/-- What the window from `s` to `now` leaves. -/
def remaining (capacity rate : K) (times : List K) (now s : K) : K :=
  capacity + rate * (now - s) - drawn times s now

def IsLevel (capacity rate : K) (times : List K) (now x : K) : Prop :=
  IsLeast ((remaining capacity rate times now) '' Set.Iic now) x

theorem IsLevel.le_remaining (h : IsLevel capacity rate times now x) (hs : s ≤ now) :
    x ≤ remaining capacity rate times now s :=
  h.2 ⟨s, hs, rfl⟩

variable [IsStrictOrderedRing K]

theorem IsLevel.new (capacity : K) (hrate : 0 ≤ rate) (now : K) :
    IsLevel capacity rate [] now capacity := by
  refine ⟨⟨now, le_rfl, by simp [remaining, drawn]⟩, ?_⟩
  rintro _ ⟨s, hs, rfl⟩
  have hgain : 0 ≤ rate * (now - s) := mul_nonneg hrate (sub_nonneg.mpr hs)
  simpa [remaining, drawn] using hgain

theorem IsLevel.le_capacity (h : IsLevel capacity rate times now x) : x ≤ capacity := by
  have hnow := h.le_remaining le_rfl
  have hdrawn : (0 : K) ≤ drawn times now now := Nat.cast_nonneg _
  simp only [remaining, sub_self, mul_zero, add_zero] at hnow
  linarith

theorem IsLevel.refill (h : IsLevel capacity rate times last x) (hrate : 0 ≤ rate)
    (hpast : ∀ g ∈ times, g ≤ last) (hnow : last ≤ now) :
    IsLevel capacity rate times now (min capacity (x + rate * (now - last))) := by
  have hshift (s : K) : remaining capacity rate times now s =
      remaining capacity rate times last s + rate * (now - last) := by
    simp only [remaining, drawn_late hpast hnow]
    ring
  constructor
  · rcases le_total capacity (x + rate * (now - last)) with hfull | hpart
    · rw [min_eq_left hfull]
      rcases hnow.eq_or_lt with rfl | hlater
      · have hx : x = capacity := le_antisymm h.le_capacity (by simpa using hfull)
        exact hx ▸ h.1
      · refine ⟨now, le_rfl, ?_⟩
        simp [remaining, drawn_eq_zero fun g hg => (hpast g hg).trans_lt hlater]
    · rw [min_eq_right hpart]
      obtain ⟨s, hs, hx⟩ := h.1
      exact ⟨s, le_trans hs hnow, by rw [hshift, hx]⟩
  · rintro _ ⟨s, hs, rfl⟩
    rcases le_or_gt s last with hold | hnew
    · have hle := h.le_remaining hold
      rw [hshift]
      exact (min_le_right _ _).trans (by linarith)
    · have hgain : 0 ≤ rate * (now - s) := mul_nonneg hrate (sub_nonneg.mpr hs)
      have hnone : drawn times s now = 0 := drawn_eq_zero fun g hg => (hpast g hg).trans_lt hnew
      apply (min_le_left _ _).trans
      simpa [remaining, hnone] using hgain

theorem IsLevel.draw (h : IsLevel capacity rate times now x) :
    IsLevel capacity rate (times ++ [now]) now (x - 1) := by
  have hless {s : K} (hs : s ≤ now) : remaining capacity rate (times ++ [now]) now s =
      remaining capacity rate times now s - 1 := by
    simp only [remaining, drawn_append hs]
    push_cast
    ring
  constructor
  · obtain ⟨s, hs, rfl⟩ := h.1
    exact ⟨s, hs, hless hs⟩
  · rintro _ ⟨s, hs, rfl⟩
    rw [hless hs]
    exact sub_le_sub_right (h.le_remaining hs) 1

theorem IsLevel.drawn_le (h : IsLevel capacity rate times now x) (hx : 0 ≤ x)
    (hcapacity : 0 ≤ capacity) (hrate : 0 ≤ rate) (hpast : ∀ g ∈ times, g ≤ now) (hst : s ≤ t)
    (ht : now ≤ t) : (drawn times s t : K) ≤ capacity + rate * (t - s) := by
  have hwindow : 0 ≤ rate * (t - s) := mul_nonneg hrate (sub_nonneg.mpr hst)
  rcases le_or_gt s now with hs | hs
  · have hleft : 0 ≤ remaining capacity rate times now s := hx.trans (h.le_remaining hs)
    have hmore : rate * (now - s) ≤ rate * (t - s) :=
      mul_le_mul_of_nonneg_left (sub_le_sub_right ht s) hrate
    rw [drawn_late hpast ht]
    simp only [remaining] at hleft
    linarith
  · rw [drawn_eq_zero fun g hg => (hpast g hg).trans_lt hs]
    push_cast
    linarith

end Signari.LevelWindows
