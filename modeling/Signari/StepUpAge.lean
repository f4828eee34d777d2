import Signari.AuthorizeRequest

/-!
# How old a sign-in may be

`SessionSufficient` of `internal/oauth/acr.go` compares the age of a sign-in, which stops at the
ends of the 64-bit range, with the `max_age` of the client times a second, which wraps around.
What it is for is a comparison of integers (`JudgesAge`), and a judgement that more factors and a
larger `max_age` do not turn (`Lasting`).

The product fits up to 9223372036 seconds, 292 years, and `stepUp_sound_iff` says that both hold
exactly up to there: the wrapped product is even, so the longest difference is always above it.
-/
namespace Signari.StepUpAge
open GoTime AuthnContext List

/-- The largest `max_age` whose nanoseconds fit. -/
def maxSeconds : ℕ := 9223372036

theorem seconds_eq {m : ℕ} (h : m ≤ maxSeconds) : seconds m = m * nanosPerSecond := by
  have hfits : (m : ℤ) ≤ 9223372036 := by exact_mod_cast h
  rw [seconds, nanosPerSecond]
  exact Int.bmod_eq_of_le_mul_two (by omega) (by omega)

theorem seconds_lt_max (m : ℕ) : seconds m < maxDuration := by
  have hrange : seconds m < 2 ^ 63 := Int.bmod_lt (by decide)
  have hwraps : ((2 ^ 64 : ℕ) : ℤ) ∣ m * nanosPerSecond - seconds m := Int.dvd_self_sub_bmod
  have heven : (2 : ℤ) ∣ m * nanosPerSecond - seconds m := Dvd.dvd.trans (by decide) hwraps
  rw [nanosPerSecond] at heven
  rw [maxDuration]
  omega

theorem lt_sub_iff {d : ℤ} (hlow : minDuration ≤ d) (hhigh : d < maxDuration) (now t : ℤ) :
    d < sub now t ↔ d < now - t := by
  rw [sub, lt_max_iff, lt_min_iff]
  constructor
  · rintro (hmin | ⟨-, h⟩)
    · omega
    · exact h
  · exact fun h => .inr ⟨hhigh, h⟩

theorem age_exact_iff (m : ℕ) :
    (∀ now t, seconds m < sub now t ↔ m * nanosPerSecond < now - t) ↔ m ≤ maxSeconds := by
  constructor
  · intro hexact
    by_contra hlarge
    have hlonger : seconds m < sub maxDuration 0 := seconds_lt_max m
    have hage := (hexact maxDuration 0).mp hlonger
    simp only [maxSeconds, nanosPerSecond, maxDuration] at hlarge hage
    omega
  · intro hfits now t
    rw [seconds_eq hfits]
    refine lt_sub_iff ?_ (seconds_eq hfits ▸ seconds_lt_max m) now t
    simp only [minDuration, nanosPerSecond]
    omega

section
variable {amr amr' : List String}

theorem acrFromAMR_cases (amr : List String) :
    acrFromAMR amr = acrMultiFactor ∨ acrFromAMR amr = acrSingleFactor := by
  unfold acrFromAMR
  split_ifs
  · exact .inl rfl
  · exact .inr rfl

theorem acrFromAMR_mono (h : amr ⊆ amr') (hmulti : acrFromAMR amr = acrMultiFactor) :
    acrFromAMR amr' = acrMultiFactor := by
  unfold acrFromAMR at hmulti ⊢
  split_ifs at hmulti with htwo
  · have hkinds : (amr.flatMap factorKinds).dedup ⊆ (amr'.flatMap factorKinds).dedup := by
      intro kind hkind
      obtain ⟨m, hm, hof⟩ := mem_flatMap.mp (mem_dedup.mp hkind)
      exact mem_dedup.mpr (mem_flatMap.mpr ⟨m, h hm, hof⟩)
    have hlength := (subperm_of_subset (nodup_dedup _) hkinds).length_le
    rw [if_pos (htwo.trans hlength)]
  · exact absurd hmulti (by decide)

theorem satisfies_multi {requested : String} (h : satisfies acrSingleFactor requested = true) :
    satisfies acrMultiFactor requested = true := by
  unfold satisfies at h ⊢
  split_ifs at h ⊢
  · rfl
  · rfl

theorem satisfies_mono (h : amr ⊆ amr') {requested : String}
    (hmet : satisfies (acrFromAMR amr) requested = true) :
    satisfies (acrFromAMR amr') requested = true := by
  rcases acrFromAMR_cases amr with hmulti | hsingle
  · rwa [acrFromAMR_mono h hmulti, ← hmulti]
  · rw [hsingle] at hmet
    rcases acrFromAMR_cases amr' with hmulti' | hsingle'
    · rw [hmulti']
      exact satisfies_multi hmet
    · rwa [hsingle']

end

/-- The client does not ask for a new sign-in whatever there is. -/
def Unforced (prompt : String) : Prop :=
  hasPrompt prompt promptLogin = false ∧ hasPrompt prompt promptSelectAccount = false

theorem unforced_empty : Unforced "" := ⟨by decide, by decide⟩

/-- The requested contexts are met, if there are any. -/
def MeetsValues (amr : List String) (acrValues : String) : Prop :=
  parseACRValues acrValues = [] ∨ (parseACRValues acrValues).any (satisfies (acrFromAMR amr)) = true

theorem MeetsValues.mono {amr amr' : List String} {acrValues : String} (h : amr ⊆ amr')
    (hmet : MeetsValues amr acrValues) : MeetsValues amr' acrValues := by
  refine hmet.imp_right fun hany => ?_
  obtain ⟨want, hwant, hsat⟩ := any_eq_true.mp hany
  exact any_eq_true.mpr ⟨want, hwant, satisfies_mono h hsat⟩

/-- The answer, by the three grounds in their order. -/
theorem sufficient_cases (amr : List String) (t now : ℤ) (acrValues : String) (m : ℕ)
    (prompt : String) :
    let reason := (sessionSufficient amr (some t) now acrValues (some m) prompt).1
    (¬Unforced prompt ∧ reason = .forced) ∨
      (Unforced prompt ∧ seconds m < sub now t ∧ reason = .tooOld) ∨
      (Unforced prompt ∧ sub now t ≤ seconds m ∧ MeetsValues amr acrValues ∧ reason = .none) ∨
      (Unforced prompt ∧ sub now t ≤ seconds m ∧ ¬MeetsValues amr acrValues ∧
        reason = .needStronger) := by
  simp only [sessionSufficient, Unforced, MeetsValues, Bool.or_eq_true, decide_eq_true_eq]
  split_ifs with hforced hold hempty hmet
  · left
    refine ⟨?_, rfl⟩
    rcases hforced with h | h <;> simp [h]
  all_goals have hunforced := by simpa [not_or] using hforced
  · exact .inr (.inl ⟨hunforced, hold, rfl⟩)
  · exact .inr (.inr (.inl ⟨hunforced, not_lt.mp hold, .inl hempty, rfl⟩))
  · exact .inr (.inr (.inl ⟨hunforced, not_lt.mp hold, .inr hmet, rfl⟩))
  · exact .inr (.inr (.inr ⟨hunforced, not_lt.mp hold, not_or.mpr ⟨hempty, hmet⟩, rfl⟩))

def JudgesAge (m : ℕ) : Prop :=
  ∀ amr t now acrValues prompt, Unforced prompt →
    ((sessionSufficient amr (some t) now acrValues (some m) prompt).1 = .tooOld ↔
      m * nanosPerSecond < now - t)

/-- What is enough for a smaller `max_age` and fewer factors is enough for this one. -/
def Lasting (m : ℕ) : Prop :=
  ∀ amr amr' authTime now acrValues prompt m₀, amr ⊆ amr' → m₀ ≤ m →
    (sessionSufficient amr authTime now acrValues (some m₀) prompt).1 = .none →
    (sessionSufficient amr' authTime now acrValues (some m) prompt).1 = .none

theorem tooOld_iff {prompt : String} (h : Unforced prompt) (amr : List String) (t now : ℤ)
    (acrValues : String) (m : ℕ) :
    (sessionSufficient amr (some t) now acrValues (some m) prompt).1 = .tooOld ↔
      seconds m < sub now t := by
  rcases sufficient_cases amr t now acrValues m prompt with
    ⟨hforced, -⟩ | ⟨-, hold, hr⟩ | ⟨-, hyoung, -, hr⟩ | ⟨-, hyoung, -, hr⟩
  · exact absurd h hforced
  · exact iff_of_true hr hold
  · exact iff_of_false (by simp [hr]) hyoung.not_gt
  · exact iff_of_false (by simp [hr]) hyoung.not_gt

theorem none_iff (amr : List String) (t now : ℤ) (acrValues : String) (m : ℕ) (prompt : String) :
    (sessionSufficient amr (some t) now acrValues (some m) prompt).1 = .none ↔
      Unforced prompt ∧ sub now t ≤ seconds m ∧ MeetsValues amr acrValues := by
  rcases sufficient_cases amr t now acrValues m prompt with
    ⟨hforced, hr⟩ | ⟨hunforced, hold, hr⟩ | ⟨hunforced, hyoung, hmet, hr⟩ |
    ⟨hunforced, hyoung, hunmet, hr⟩
  · exact iff_of_false (by simp [hr]) fun h => hforced h.1
  · exact iff_of_false (by simp [hr]) fun h => h.2.1.not_gt hold
  · exact iff_of_true hr ⟨hunforced, hyoung, hmet⟩
  · exact iff_of_false (by simp [hr]) fun h => hunmet h.2.2

theorem judgesAge_iff (m : ℕ) : JudgesAge m ↔ m ≤ maxSeconds := by
  rw [← age_exact_iff]
  constructor
  · intro h now t
    exact (tooOld_iff unforced_empty [] t now "" m).symm.trans (h [] t now "" "" unforced_empty)
  · intro h amr t now acrValues prompt hunforced
    exact (tooOld_iff hunforced amr t now acrValues m).trans (h now t)

theorem lasting_of_le {m : ℕ} (h : m ≤ maxSeconds) : Lasting m := by
  intro amr amr' authTime now acrValues prompt m₀ hfactors hm₀ henough
  cases authTime with
  | none =>
    have hold : (sessionSufficient amr none now acrValues (some m₀) prompt).1 ≠ .none := by
      simp only [sessionSufficient]
      split_ifs <;> decide
    exact absurd henough hold
  | some t =>
    obtain ⟨hunforced, hyoung, hmet⟩ := (none_iff ..).mp henough
    refine (none_iff ..).mpr ⟨hunforced, hyoung.trans ?_, hmet.mono hfactors⟩
    have hseconds : (m₀ : ℤ) ≤ m := by exact_mod_cast hm₀
    rw [seconds_eq h, seconds_eq (hm₀.trans h)]
    exact mul_le_mul_of_nonneg_right hseconds (by decide)

/-- A sign-in is judged by the integers, and lastingly, exactly where the product fits. -/
theorem stepUp_sound_iff (m : ℕ) : JudgesAge m ∧ Lasting m ↔ m ≤ maxSeconds := by
  rw [judgesAge_iff]
  exact and_iff_left_of_imp lasting_of_le

/-- The least `max_age` that does not fit asks for a new sign-in at once, and one second less
does not. -/
theorem overflowing_age_refused :
    AuthorizeRequest.parseMaxAge "9223372037" = some 9223372037 ∧
      ¬JudgesAge 9223372037 ∧ ¬Lasting 9223372037 := by
  refine ⟨by decide, fun h => ?_, fun h => ?_⟩
  · have hreported := (h [] 0 0 "" "" unforced_empty).mp (by decide)
    exact absurd hreported (by decide)
  · exact absurd (h [] [] (some 0) 0 "" "" 9223372036 (by decide) (by decide) (by decide))
      (by decide)

end Signari.StepUpAge
