import Signari.GoTime
import Signari.StatementPrograms

/-!
# Login throttling

`LoginDelay` and `RecordLoginFailure` of `internal/store/throttle.go`, for one account. The
failure is counted by one statement, which returns the count, and the deadline that goes with
the count is written by another. Calls that run at once may write their deadlines in another
order than the one they counted in, and the column keeps what was written last.

`lockout_kept` says when that does no harm: a deadline is written while the call that recorded the
latest failure has yet to write its own, or it is late enough to make up for the smaller count.
-/
namespace Signari.LoginThrottle
open GoTime LabelledRuns StatementPrograms Function

def freeAttempts : ℕ := 3

def maxLoginDelay : ℤ := 15 * 60 * nanosPerSecond

def failureDecay : ℤ := 60 * 60 * nanosPerSecond

/-- `time.Duration(math.Pow(2, e))`; a float too large for the integer becomes the least one. -/
def powDuration (e : ℕ) : ℤ := if e < 63 then 2 ^ e else -2 ^ 63

def loginDelay (failures : ℕ) : ℤ := if failures ≤ freeAttempts then 0
  else let d := (nanosPerSecond * powDuration (failures - freeAttempts - 1)).bmod (2 ^ 64)
    if maxLoginDelay < d ∨ d ≤ 0 then maxLoginDelay else d

/-- The columns of `core.password_credentials` that throttling uses. -/
structure Row where
  failedAttempts : ℕ := 0
  throttledUntil : Option ℤ := none
  lastFailureAt : Option ℤ := none

structure Store where
  row : Option Row
  clock : ℤ := 0

/-- The two statements of a call. -/
inductive Op where
  | count
  | setThrottle (d : ℤ)

/-- Counting returns an error, no row, or the count. -/
@[reducible] def Res : Op → Type
  | .count => Option (Option ℕ)
  | .setThrottle _ => Bool

inductive Answer where
  | recorded
  | recordingFailed
  | settingFailed

abbrev Handler := Prog Op Res Answer

def setThrottle (d : ℤ) : Handler := do
  let ok ← Prog.call (.setThrottle d)
  pure (if ok then .recorded else .settingFailed)

def afterCount (r : Option (Option ℕ)) : Handler := match r with
  | none => pure .recordingFailed
  | some none => pure .recorded
  | some (some failures) =>
    if 0 < loginDelay failures then setThrottle (loginDelay failures) else pure .recorded

def recordLoginFailure (_ : Unit) : Handler := do
  let r ← Prog.call .count
  afterCount r

def Row.counted (row : Row) (now : ℤ) : Row :=
  { row with
    failedAttempts := match row.lastFailureAt with
      | none => 1
      | some last => if last < now - failureDecay then 1 else row.failedAttempts + 1
    lastFailureAt := some now }

/-- What a statement does in one step. One that reports an error may have taken effect. -/
def Exec (s : Store) : (o : Op) → Res o → Store → Prop
  | .count, r, s' => (r = none ∧ s' = s) ∨ (s.row = none ∧ r = some none ∧ s' = s) ∨
      ∃ row, s.row = some row ∧ s' = { s with row := some (row.counted s.clock) } ∧
        (r = none ∨ r = some (some (row.counted s.clock).failedAttempts))
  | .setThrottle d, r, s' => (r = false ∧ s' = s) ∨
      s' = { s with row := s.row.map fun row =>
        { row with throttledUntil := some (s.clock + d) } }

/-- Time passes. -/
inductive Change where
  | tick (d : ℕ)

def Changes (s : Store) (e : Change) (s' : Store) : Prop := match e with
  | .tick d => s' = { s with clock := s.clock + d }

abbrev Ev := Event Op Res Unit Answer Change

abbrev World := Pool Op Res Answer Store

abbrev Moving : World → Ev → World → Prop := Step recordLoginFailure Exec Changes

/-- The lock-out that the recorded failures call for is in place. Where the delay is nothing,
nothing is called for. -/
def Row.Locked (row : Row) : Prop :=
  ∀ last, row.lastFailureAt = some last → 0 < loginDelay row.failedAttempts →
    ∃ deadline, row.throttledUntil = some deadline ∧ last + loginDelay row.failedAttempts ≤ deadline

/-- A call that has counted and will write a deadline with this delay. -/
def Pending (p : World) (j : ℕ) (d : ℤ) : Prop := p.flights j = some (setThrottle d)

/-- The statement succeeds. A deadline is written while a call with the delay of the latest count
has yet to write its own, or the time since the latest failure makes up for the difference of the
delays. -/
def Orderly (p : World) : Ev → Prop
  | .ran _ .count r => r ≠ none
  | .ran k (.setThrottle d) ok => ok = true ∧
      ∀ row last, p.state.row = some row → row.lastFailureAt = some last →
        (∃ j, j ≠ k ∧ Pending p j (loginDelay row.failedAttempts)) ∨
          loginDelay row.failedAttempts - d ≤ p.state.clock - last
  | _ => True

def OrderlyStep (p : World) (e : Ev) (q : World) : Prop := Moving p e q ∧ Orderly p e

/-- Where a call can stand between two statements. -/
def Stage (prog : Handler) : Prop :=
  prog = recordLoginFailure () ∨ (∃ d, prog = setThrottle d) ∨ ∃ a, prog = .ret a

/-- What holds of the account and the calls under way. -/
structure Sound (p : World) : Prop where
  unused : ∀ k, p.next ≤ k → p.flights k = none
  staged : ∀ k prog, p.flights k = some prog → Stage prog
  past : ∀ row last, p.state.row = some row → row.lastFailureAt = some last → last ≤ p.state.clock
  owed : ∀ row, p.state.row = some row →
    row.Locked ∨ ∃ j, Pending p j (loginDelay row.failedAttempts)

theorem stage_afterCount (r : Option (Option ℕ)) : Stage (afterCount r) := by
  match r with
  | none => exact .inr (.inr ⟨_, rfl⟩)
  | some none => exact .inr (.inr ⟨_, rfl⟩)
  | some (some failures) =>
    rw [afterCount]
    split_ifs
    · exact .inr (.inl ⟨_, rfl⟩)
    · exact .inr (.inr ⟨_, rfl⟩)

theorem Sound.start {s : Store} (hlocked : ∀ row, s.row = some row → row.Locked)
    (hpast : ∀ row last, s.row = some row → row.lastFailureAt = some last → last ≤ s.clock) :
    Sound (Pool.start s) where
  unused _ _ := rfl
  staged _ _ h := nomatch h
  past := hpast
  owed row hrow := .inl (hlocked row hrow)

/-- The calls of a pool after one of them has moved on. -/
theorem staged_update {fl : ℕ → Option Handler} {k : ℕ} (rest : Option Handler)
    (h : ∀ j prog, fl j = some prog → Stage prog) (hrest : ∀ prog, rest = some prog → Stage prog) :
    ∀ j prog, update fl k rest j = some prog → Stage prog := by
  intro j prog hj
  by_cases hjk : j = k
  · subst hjk
    rw [update_self] at hj
    exact hrest prog hj
  · rw [update_of_ne hjk] at hj
    exact h j prog hj

theorem unused_update {fl : ℕ → Option Handler} {n k : ℕ} {prog : Handler}
    (rest : Option Handler) (h : ∀ j, n ≤ j → fl j = none) (hk : fl k = some prog) :
    ∀ j, n ≤ j → update fl k rest j = none := by
  intro j hj
  have hne : j ≠ k := by
    rintro rfl
    exact absurd (h j hj) (by simp [hk])
  rw [update_of_ne hne, h j hj]

theorem Sound.began {p : World} (h : Sound p) : Sound
    ⟨p.state, p.next + 1, update p.flights p.next (some (recordLoginFailure ()))⟩ where
  unused k hk := by
    change p.next + 1 ≤ k at hk
    have hne : k ≠ p.next := by omega
    exact (update_of_ne hne _ _).trans (h.unused k (by omega))
  staged := staged_update _ h.staged fun prog hprog => .inl (Option.some.inj hprog).symm
  past := h.past
  owed row hrow := by
    refine (h.owed row hrow).imp_right ?_
    rintro ⟨j, hj⟩
    have hne : j ≠ p.next := by
      rintro rfl
      exact absurd (h.unused _ le_rfl) (by simp [show p.flights p.next = _ from hj])
    exact ⟨j, (update_of_ne hne _ _).trans hj⟩

/-- A call that is done was not going to write. -/
theorem Sound.answered {p : World} {k : ℕ} {a : Answer} (h : Sound p)
    (hk : p.flights k = some (.ret a)) :
    Sound ⟨p.state, p.next, update p.flights k none⟩ where
  unused := unused_update _ h.unused hk
  staged := staged_update _ h.staged fun _ hprog => nomatch hprog
  past := h.past
  owed row hrow := by
    refine (h.owed row hrow).imp_right ?_
    rintro ⟨j, hj⟩
    have hne : j ≠ k := by
      rintro rfl
      exact absurd (hj.symm.trans hk) nofun
    exact ⟨j, (update_of_ne hne _ _).trans hj⟩

theorem Sound.ticked {p : World} (h : Sound p) (d : ℕ) :
    Sound ⟨{ p.state with clock := p.state.clock + d }, p.next, p.flights⟩ where
  unused := h.unused
  staged := h.staged
  past row last hrow hlast := by
    have hle := h.past row last hrow hlast
    change last ≤ p.state.clock + d
    omega
  owed := h.owed

theorem Sound.counts {p : World} {k : ℕ} {next : Option (Option ℕ) → Handler}
    {r : Option (Option ℕ)} {s : Store} (h : Sound p) (hk : p.flights k = some (.stmt .count next))
    (hexec : Exec p.state .count r s) (hok : r ≠ none) :
    Sound ⟨s, p.next, update p.flights k (some (next r))⟩ := by
  obtain rfl : next = afterCount := by
    rcases h.staged k _ hk with he | ⟨d, he⟩ | ⟨a, he⟩
    · cases he
      rfl
    · exact nomatch he
    · exact nomatch he
  have hstaged := staged_update (k := k) (some (afterCount r)) h.staged
    fun prog hprog => Option.some.inj hprog ▸ stage_afterCount r
  have hunused := unused_update (some (afterCount r)) h.unused hk
  rcases hexec with ⟨hr, -⟩ | ⟨hrow, -, rfl⟩ | ⟨row, hrow, rfl, hr⟩
  · exact absurd hr hok
  · exact ⟨hunused, hstaged, h.past, fun row hsome => absurd (hrow.symm.trans hsome) nofun⟩
  · obtain rfl := hr.resolve_left hok
    refine ⟨hunused, hstaged, ?_, ?_⟩
    · intro row' last hsome hlast
      obtain rfl := Option.some.inj hsome
      exact (Option.some.inj hlast).ge
    · intro row' hsome
      obtain rfl := Option.some.inj hsome
      by_cases hdelay : 0 < loginDelay (row.counted p.state.clock).failedAttempts
      · refine .inr ⟨k, ?_⟩
        simp only [Pending, update_self, afterCount, if_pos hdelay]
      · exact .inl fun _ _ hpos => absurd hpos hdelay

theorem Sound.sets {p : World} {k : ℕ} {d : ℤ} {next : Bool → Handler} {ok : Bool} {s : Store}
    (h : Sound p) (hk : p.flights k = some (.stmt (.setThrottle d) next))
    (hexec : Exec p.state (.setThrottle d) ok s)
    (horderly : Orderly p (.ran k (.setThrottle d) ok)) :
    Sound ⟨s, p.next, update p.flights k (some (next ok))⟩ := by
  obtain ⟨rfl, hlate⟩ := horderly
  obtain ⟨a, hnext⟩ : ∃ a, next true = .ret a := by
    rcases h.staged k _ hk with he | ⟨d', he⟩ | ⟨a, he⟩
    · exact nomatch he
    · cases he
      exact ⟨_, rfl⟩
    · exact nomatch he
  have hstaged := staged_update (k := k) (some (next true)) h.staged
    fun prog hprog => .inr (.inr ⟨a, (Option.some.inj hprog).symm.trans hnext⟩)
  have hunused := unused_update (some (next true)) h.unused hk
  obtain ⟨hfalse, -⟩ | rfl := hexec
  · exact nomatch hfalse
  · refine ⟨hunused, hstaged, ?_, ?_⟩
    · intro row' last hsome hlast
      obtain ⟨row, hrow, rfl⟩ := Option.map_eq_some_iff.mp hsome
      exact h.past row last hrow hlast
    · intro row' hsome
      obtain ⟨row, hrow, rfl⟩ := Option.map_eq_some_iff.mp hsome
      cases hlast : row.lastFailureAt with
      | none => exact .inl fun last hsome => nomatch hsome
      | some last =>
        rcases hlate row last hrow hlast with ⟨j, hne, hj⟩ | htime
        · exact .inr ⟨j, (update_of_ne hne _ _).trans hj⟩
        · refine .inl fun last' hsome _ => ⟨p.state.clock + d, rfl, ?_⟩
          obtain rfl : last = last' := Option.some.inj hsome
          change last + loginDelay row.failedAttempts ≤ p.state.clock + d
          omega

theorem Sound.step {p q : World} {e : Ev} (h : Sound p) (hstep : OrderlyStep p e q) : Sound q := by
  obtain ⟨hmoves, horderly⟩ := hstep
  cases hmoves with
  | began c => exact h.began
  | answered hk => exact h.answered hk
  | env hchange =>
    rename_i change s
    obtain ⟨d⟩ := change
    obtain rfl : s = _ := hchange
    exact h.ticked d
  | ran hk hexec =>
    rename_i k o next r s
    cases o with
    | count => exact h.counts hk hexec horderly
    | setThrottle d => exact h.sets hk hexec horderly

/-- Once every call is done, the account is locked for as long as its failures call for. -/
theorem lockout_kept {s : Store} {es : List Ev} {p : World}
    (hlocked : ∀ row, s.row = some row → row.Locked)
    (hpast : ∀ row last, s.row = some row → row.lastFailureAt = some last → last ≤ s.clock)
    (hrun : Run OrderlyStep (Pool.start s) es p) (hdone : ∀ k, p.flights k = none) :
    ∀ row, p.state.row = some row → row.Locked := by
  have hsound : Sound p :=
    hrun.invariant (I := fun _ q => Sound q) (Sound.start hlocked hpast) fun h hstep => h.step hstep
  intro row hrow
  refine (hsound.owed row hrow).resolve_right ?_
  rintro ⟨j, hj⟩
  exact absurd ((hdone j).symm.trans hj) nofun

def threeFailures : Store := { row := some { failedAttempts := 3, lastFailureAt := some 0 } }

def lockedUntil (failures : ℕ) (deadline : ℤ) : Row where
  failedAttempts := failures
  throttledUntil := some deadline
  lastFailureAt := some 0

/-- One call more, which writes its own deadline. -/
theorem fourth_failure : ∃ es p, Run OrderlyStep (Pool.start threeFailures) es p ∧
    (∀ k, p.flights k = none) ∧ p.state.row = some (lockedUntil 4 1000000000) := by
  have h₀ : Run OrderlyStep (Pool.start threeFailures) [] (Pool.start threeFailures) := .nil
  have h₁ := h₀.snoc ⟨Step.began (), trivial⟩
  have h₂ := h₁.snoc ⟨Step.ran (k := 0) rfl (.inr (.inr ⟨_, rfl, rfl, .inr rfl⟩)), nofun⟩
  have h₃ := h₂.snoc (x := (Event.ran 0 (.setThrottle 1000000000) true : Ev))
    ⟨Step.ran rfl (.inr rfl), rfl, fun row last hrow hlast => .inr (by
      obtain rfl := Option.some.inj hrow
      obtain rfl := Option.some.inj hlast
      decide)⟩
  have h₄ := h₃.snoc ⟨Step.answered (k := 0) (a := .recorded) rfl, trivial⟩
  refine ⟨_, _, h₄, fun k => ?_, rfl⟩
  by_cases hk : k = 0 <;> simp [Pool.start, update, hk]

theorem threeFailures_locked : ∀ row, threeFailures.row = some row → row.Locked := by
  intro row hrow
  obtain rfl := Option.some.inj hrow
  exact fun _ _ hpos => absurd hpos (by decide)

theorem lockout_kept_fourth : (lockedUntil 4 1000000000).Locked := by
  obtain ⟨es, p, hrun, hdone, hrow⟩ := fourth_failure
  refine lockout_kept threeFailures_locked ?_ hrun hdone _ hrow
  intro row last hrow hlast
  obtain rfl := Option.some.inj hrow
  exact (Option.some.inj hlast).ge

/-- Two more guesses at once. The fifth failure is counted and its deadline written between the
two statements of the fourth. -/
theorem late_writer_shortens : ∃ es p, Run Moving (Pool.start threeFailures) es p ∧
    (∀ row, threeFailures.row = some row → row.Locked) ∧ (∀ k, p.flights k = none) ∧
    p.state.row = some (lockedUntil 5 1000000000) ∧ ¬(lockedUntil 5 1000000000).Locked := by
  have h₀ : Run Moving (Pool.start threeFailures) [] (Pool.start threeFailures) := .nil
  have h₁ := (h₀.snoc (.began ())).snoc (.began ())
  have h₂ := h₁.snoc (.ran (k := 0) rfl (.inr (.inr ⟨_, rfl, rfl, .inr rfl⟩)))
  have h₃ := h₂.snoc (.ran (k := 1) rfl (.inr (.inr ⟨_, rfl, rfl, .inr rfl⟩)))
  have h₄ := h₃.snoc (x := (Event.ran 1 (.setThrottle 2000000000) true : Ev)) (.ran rfl (.inr rfl))
  have h₅ := h₄.snoc (x := (Event.ran 0 (.setThrottle 1000000000) true : Ev)) (.ran rfl (.inr rfl))
  have h₆ := h₅.snoc (.answered (k := 1) (a := .recorded) rfl)
  have h₇ := h₆.snoc (.answered (k := 0) (a := .recorded) rfl)
  refine ⟨_, _, h₇, threeFailures_locked, fun k => ?_, rfl, fun hlocked => ?_⟩
  · by_cases h0 : k = 0 <;> by_cases h1 : k = 1 <;> simp [Pool.start, update, h0, h1]
  · obtain ⟨deadline, hdeadline, hle⟩ := hlocked 0 rfl (by decide)
    obtain rfl := Option.some.inj hdeadline
    revert hle
    decide

end Signari.LoginThrottle
