import Mathlib.Data.List.Basic

/-!
# Parsed query strings and forms

Go's `url.Values`, as the list of pairs in the order they were sent. Requests enter the
development already parsed: percent-decoding belongs to `net/url`, and no modelled
function sees the raw text.
-/
namespace Signari.UrlValues

/-- The pairs of a query string or a form body, in order. -/
abbrev Values := List (String × String)

/-- `Values.Get`: the first value of a key, empty when the key is absent. -/
def get (v : Values) (k : String) : String := (v.lookup k).getD ""

/-- `v[k]`: every value of a key, in order. -/
def values (v : Values) (k : String) : List String :=
  v.filterMap fun p => if p.1 = k then some p.2 else none

/-- `v.Set(k, x)`: one value in the place of whatever the key had. -/
def set (v : Values) (k x : String) : Values := (k, x) :: v.filter fun p => p.1 != k

/-- The pairs whose key is not among `ks`. -/
def without (v : Values) (ks : List String) : Values := v.filter fun p => !ks.contains p.1

/-- What `url.Parse` finds in a URI, as far as it is looked at. -/
structure ParsedURL where
  scheme : String
  fragment : String
  hostname : String := ""
  path : String := ""
  rawQuery : String := ""

@[simp] theorem get_set (v : Values) (k x : String) : get (set v k x) k = x := by
  simp [get, set]

theorem get_eq_head (v : Values) (k : String) : get v k = (values v k).headD "" := by
  induction v with
  | nil => rfl
  | cons p v ih =>
    obtain ⟨j, x⟩ := p
    by_cases h : k = j
    · simp [get, values, h]
    · have hb : (k == j) = false := by simpa using h
      have hstep : get ((j, x) :: v) k = get v k := by simp only [get, List.lookup_cons, hb]
      rw [hstep, ih]
      simp [values, Ne.symm h]

theorem values_filter (v : Values) (f : String × String → Bool) (k : String)
    (h : ∀ x, f (k, x) = true) : values (v.filter f) k = values v k := by
  induction v with
  | nil => rfl
  | cons p v ih =>
    unfold values at ih ⊢
    by_cases hk : p.1 = k
    · have hf : f p = true := by
        rw [← hk] at h
        exact h p.2
      simp [hf, hk, ih]
    · by_cases hf : f p <;> simp [hf, hk, ih]

theorem values_set_ne (v : Values) {k j : String} (x : String) (h : j ≠ k) :
    values (set v k x) j = values v j := by
  have hj : values ((k, x) :: v.filter fun p => p.1 != k) j =
      values (v.filter fun p => p.1 != k) j := by simp [values, Ne.symm h]
  rw [set, hj]
  exact values_filter v _ j fun _ => by simpa using h

theorem values_without (v : Values) {ks : List String} {k : String} (h : k ∉ ks) :
    values (without v ks) k = values v k :=
  values_filter v _ k fun _ => by simpa using h

theorem get_set_ne (v : Values) {k j : String} (x : String) (h : j ≠ k) :
    get (set v k x) j = get v j := by
  rw [get_eq_head, get_eq_head, values_set_ne v x h]

theorem get_without (v : Values) {ks : List String} {k : String} (h : k ∉ ks) :
    get (without v ks) k = get v k := by
  rw [get_eq_head, get_eq_head, values_without v h]

end Signari.UrlValues
