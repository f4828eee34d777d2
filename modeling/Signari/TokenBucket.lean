import Signari.LabelledRuns
import Signari.LevelWindows

/-!
# The token bucket

`Bucket.Allow` of `internal/ratelimit`, over the rationals. The bucket stores one number and
the time of the last call; a call adds what has come in since, clips it at the capacity and
takes a token if there is a whole one. Calls are served one at a time, and each
reads the clock when it is served, so a run is a sequence of calls at times that do not
decrease.

What the bucket stores is the level of its windows (`LevelWindows`).
-/
namespace Signari.TokenBucket
open LabelledRuns LevelWindows List

/-- The two constants a bucket is built with. -/
structure Limits where
  rate : ℚ
  capacity : ℚ
  rate_nonneg : 0 ≤ rate
  capacity_nonneg : 0 ≤ capacity

structure Bucket where
  tokens : ℚ
  last : ℚ

def newBucket (L : Limits) (now : ℚ) : Bucket := ⟨L.capacity, now⟩

def Bucket.refilled (L : Limits) (b : Bucket) (now : ℚ) : ℚ :=
  let tokens := b.tokens + (now - b.last) * L.rate
  if L.capacity < tokens then L.capacity else tokens

def allow (L : Limits) (b : Bucket) (now : ℚ) : Bool × Bucket :=
  if b.refilled L now < 1 then (false, ⟨b.refilled L now, now⟩)
  else (true, ⟨b.refilled L now - 1, now⟩)

/-- A call and its answer; the clock does not go back. -/
def Step (L : Limits) (b : Bucket) (call : ℚ × Bool) (b' : Bucket) : Prop :=
  b.last ≤ call.1 ∧ allow L b call.1 = (call.2, b')

/-- The times of the calls that were let through. -/
def granted (calls : List (ℚ × Bool)) : List ℚ := (calls.filter fun c => c.2).map Prod.fst

theorem refilled_eq_min (L : Limits) (b : Bucket) (now : ℚ) :
    b.refilled L now = min L.capacity (b.tokens + L.rate * (now - b.last)) := by
  rw [Bucket.refilled, mul_comm, min_def_lt]

/-- What holds between the calls so far and the bucket. -/
structure Tracks (L : Limits) (calls : List (ℚ × Bool)) (b : Bucket) : Prop where
  past : ∀ g ∈ granted calls, g ≤ b.last
  level : IsLevel L.capacity L.rate (granted calls) b.last b.tokens
  tokens_nonneg : 0 ≤ b.tokens
  bounded : ∀ s t, s ≤ t → (drawn (granted calls) s t : ℚ) ≤ L.capacity + L.rate * (t - s)

variable {L : Limits} {calls : List (ℚ × Bool)} {b b' : Bucket} {now start : ℚ}

theorem Tracks.new (L : Limits) (start : ℚ) : Tracks L [] (newBucket L start) where
  past := by simp [granted]
  level := IsLevel.new L.capacity L.rate_nonneg start
  tokens_nonneg := L.capacity_nonneg
  bounded s t hst := by
    have hwindow : 0 ≤ L.rate * (t - s) := mul_nonneg L.rate_nonneg (sub_nonneg.mpr hst)
    have hcapacity := L.capacity_nonneg
    simp only [granted, drawn, filter_nil, map_nil, countP_nil, Nat.cast_zero]
    linarith

theorem Tracks.refilled_level (h : Tracks L calls b) (hnow : b.last ≤ now) :
    IsLevel L.capacity L.rate (granted calls) now (b.refilled L now) := by
  rw [refilled_eq_min]
  exact h.level.refill L.rate_nonneg h.past hnow

theorem Tracks.refilled_nonneg (h : Tracks L calls b) (hnow : b.last ≤ now) :
    0 ≤ b.refilled L now := by
  have hgain : 0 ≤ L.rate * (now - b.last) := mul_nonneg L.rate_nonneg (sub_nonneg.mpr hnow)
  rw [refilled_eq_min]
  exact le_min L.capacity_nonneg (add_nonneg h.tokens_nonneg hgain)

theorem Tracks.refused (h : Tracks L calls b) (hnow : b.last ≤ now) :
    Tracks L (calls ++ [(now, false)]) ⟨b.refilled L now, now⟩ := by
  have hsame : granted (calls ++ [(now, false)]) = granted calls := by simp [granted]
  exact {
    past g hg := (h.past g (hsame ▸ hg)).trans hnow
    level := hsame ▸ h.refilled_level hnow
    tokens_nonneg := h.refilled_nonneg hnow
    bounded := hsame ▸ h.bounded }

theorem Tracks.allowed (h : Tracks L calls b) (hnow : b.last ≤ now)
    (htoken : 1 ≤ b.refilled L now) :
    Tracks L (calls ++ [(now, true)]) ⟨b.refilled L now - 1, now⟩ := by
  have hmore : granted (calls ++ [(now, true)]) = granted calls ++ [now] := by simp [granted]
  have hpast : ∀ g ∈ granted calls ++ [now], g ≤ now := by
    intro g hg
    rcases mem_append.mp hg with hg | hg
    · exact (h.past g hg).trans hnow
    · exact (mem_singleton.mp hg).le
  have hlevel : IsLevel L.capacity L.rate (granted calls ++ [now]) now (b.refilled L now - 1) :=
    (h.refilled_level hnow).draw
  have hleft : 0 ≤ b.refilled L now - 1 := sub_nonneg.mpr htoken
  refine ⟨hmore ▸ hpast, hmore ▸ hlevel, hleft, ?_⟩
  intro s t hst
  rw [hmore]
  rcases lt_or_ge t now with hearly | hlate
  · rw [drawn_append_early hearly]
    exact h.bounded s t hst
  · exact hlevel.drawn_le hleft L.capacity_nonneg L.rate_nonneg hpast hst hlate

theorem Tracks.step {call : ℚ × Bool} (h : Tracks L calls b) (hstep : Step L b call b') :
    Tracks L (calls ++ [call]) b' := by
  obtain ⟨now, ok⟩ := call
  obtain ⟨hnow, hcall⟩ := hstep
  rw [allow] at hcall
  split_ifs at hcall with hfew
  · obtain ⟨rfl, rfl⟩ := Prod.mk.inj hcall
    exact h.refused hnow
  · obtain ⟨rfl, rfl⟩ := Prod.mk.inj hcall
    exact h.allowed hnow (not_lt.mp hfew)

theorem Tracks.of_run (hrun : Run (Step L) (newBucket L start) calls b) : Tracks L calls b :=
  hrun.invariant (Tracks.new L start) Tracks.step

theorem Tracks.allow_eq_false_iff (h : Tracks L calls b) (hnow : b.last ≤ now) :
    (allow L b now).1 = false ↔ ∃ x, IsLevel L.capacity L.rate (granted calls) now x ∧ x < 1 := by
  have hlevel := h.refilled_level hnow
  constructor
  · intro hrefused
    rw [allow] at hrefused
    split_ifs at hrefused with hfew
    exact ⟨_, hlevel, hfew⟩
  · rintro ⟨x, hx, hfew⟩
    rw [IsLeast.unique hx hlevel] at hfew
    rw [allow, if_pos hfew]

/-- Over every run: no window holds more grants than the capacity and its refill, and the next
call is refused exactly when the level is below one token. -/
theorem allow_bounded (hrun : Run (Step L) (newBucket L start) calls b) :
    (∀ s t, s ≤ t → (drawn (granted calls) s t : ℚ) ≤ L.capacity + L.rate * (t - s)) ∧
      ∀ now, b.last ≤ now → ((allow L b now).1 = false ↔
        ∃ x, IsLevel L.capacity L.rate (granted calls) now x ∧ x < 1) :=
  ⟨(Tracks.of_run hrun).bounded, fun _ hnow => (Tracks.of_run hrun).allow_eq_false_iff hnow⟩

def slow : Limits := ⟨1, 2, by norm_num, by norm_num⟩

theorem slow_run : Run (Step slow) (newBucket slow 0)
    [(0, true), (0, true), (1 / 2, false), (1, true)] ⟨0, 1⟩ := by
  have h₀ : Run (Step slow) (newBucket slow 0) [] ⟨2, 0⟩ := .nil
  have h₁ := h₀.snoc (x := (0, true)) (u := ⟨1, 0⟩)
    ⟨le_rfl, by norm_num [allow, Bucket.refilled, slow]⟩
  have h₂ := h₁.snoc (x := (0, true)) (u := ⟨0, 0⟩)
    ⟨le_rfl, by norm_num [allow, Bucket.refilled, slow]⟩
  have h₃ := h₂.snoc (x := (1 / 2, false)) (u := ⟨1 / 2, 1 / 2⟩)
    ⟨by norm_num, by norm_num [allow, Bucket.refilled, slow]⟩
  exact h₃.snoc ⟨by norm_num, by norm_num [allow, Bucket.refilled, slow]⟩

theorem allow_bounded_slow :
    (∀ s t, s ≤ t → (drawn (granted [(0, true), (0, true), (1 / 2, false), (1, true)]) s t : ℚ) ≤
        slow.capacity + slow.rate * (t - s)) ∧
      ∀ now, (⟨0, 1⟩ : Bucket).last ≤ now → ((allow slow ⟨0, 1⟩ now).1 = false ↔
        ∃ x, IsLevel slow.capacity slow.rate
          (granted [(0, true), (0, true), (1 / 2, false), (1, true)]) now x ∧ x < 1) :=
  allow_bounded slow_run

end Signari.TokenBucket
