import Mathlib.Algebra.Order.Ring.Int

/-!
# Times and durations

A `time.Time` is a count of nanoseconds. A `time.Duration` is an `int64` of them: products
wrap around, while the difference of two times stops at the ends of the range.
-/
namespace Signari.GoTime

def nanosPerSecond : ℤ := 1000000000

def maxDuration : ℤ := 2 ^ 63 - 1

def minDuration : ℤ := -2 ^ 63

/-- `time.Duration(n) * time.Second`. -/
def seconds (n : ℤ) : ℤ := (n * nanosPerSecond).bmod (2 ^ 64)

/-- `t.Sub(u)`. -/
def sub (t u : ℤ) : ℤ := max minDuration (min maxDuration (t - u))

/-- A time as the database keeps it, in whole microseconds. -/
def micros (t : ℤ) : ℤ := t / 1000

theorem micros_mono {t u : ℤ} (h : t ≤ u) : micros t ≤ micros u := Int.ediv_le_ediv (by decide) h

end Signari.GoTime
