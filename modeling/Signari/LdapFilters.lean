import Signari.KleeneLogic
import Signari.LdapRequests

/-!
# Filters the server does not understand

RFC 4511 gives a filter one of three values, and what the server does not understand is
Undefined; `Matches` has two and takes it as false. Below a `not` that is the wrong way
round: the entry matches although the filter is Undefined there.

`taken` reads a filter classically, with the constructs that are not understood taken one way under
an even number of `not`s and another way under an odd number. `Matches` takes both as false; the
filter is True when it still holds with the odd ones taken as true.
-/
namespace Signari.LdapFilters
open KleeneLogic LdapSchema LdapRequests

mutual

def truth (e : Entry) : Filter → Truth
  | .and children => allTruth e children
  | .or children => anyTruth e children
  | .not child => (truth e child).not
  | .equality attr value => .ofBool ((attrValues e attr).any fun v => asciiEqual v value)
  | .present attr => .ofBool (0 < (attrValues e attr).length)
  | .unsupported => .undefined

def allTruth (e : Entry) : List Filter → Truth
  | [] => .true
  | c :: cs => (truth e c).and (allTruth e cs)

def anyTruth (e : Entry) : List Filter → Truth
  | [] => .false
  | c :: cs => (truth e c).or (anyTruth e cs)

end

mutual

/-- The classical value with unsupported constructs taken as `even` under an even number of
`not`s and as `odd` under an odd number. -/
def taken (e : Entry) (even odd : Bool) : Filter → Bool
  | .and children => allTaken e even odd children
  | .or children => anyTaken e even odd children
  | .not child => !taken e odd even child
  | .equality attr value => (attrValues e attr).any fun v => asciiEqual v value
  | .present attr => 0 < (attrValues e attr).length
  | .unsupported => even

def allTaken (e : Entry) (even odd : Bool) : List Filter → Bool
  | [] => true
  | c :: cs => taken e even odd c && allTaken e even odd cs

def anyTaken (e : Entry) (even odd : Bool) : List Filter → Bool
  | [] => false
  | c :: cs => taken e even odd c || anyTaken e even odd cs

end

variable (e : Entry)

mutual

/-- `Matches` takes every unsupported construct as false. -/
theorem holds_eq_taken : ∀ f : Filter, f.holds e = taken e false false f
  | .and children => by simpa [Filter.holds, taken] using allHold_eq_taken children
  | .or children => by simpa [Filter.holds, taken] using anyHolds_eq_taken children
  | .not child => by simp [Filter.holds, taken, holds_eq_taken child]
  | .equality attr value => by simp [Filter.holds, taken]
  | .present attr => by simp [Filter.holds, taken]
  | .unsupported => by simp [Filter.holds, taken]

theorem allHold_eq_taken : ∀ cs : List Filter, Filter.allHold e cs = allTaken e false false cs
  | [] => by simp [Filter.allHold, allTaken]
  | c :: cs => by simp [Filter.allHold, allTaken, holds_eq_taken c, allHold_eq_taken cs]

theorem anyHolds_eq_taken : ∀ cs : List Filter, Filter.anyHolds e cs = anyTaken e false false cs
  | [] => by simp [Filter.anyHolds, anyTaken]
  | c :: cs => by simp [Filter.anyHolds, anyTaken, holds_eq_taken c, anyHolds_eq_taken cs]

end

mutual

/-- The bounds of a filter's value are the two readings that take what is undefined against
it and for it. -/
theorem truth_bounds : ∀ f : Filter,
    (truth e f).must = taken e false true f ∧ (truth e f).may = taken e true false f
  | .and children => by simpa [truth, taken] using allTruth_bounds children
  | .or children => by simpa [truth, taken] using anyTruth_bounds children
  | .not child => by simp [truth, taken, truth_bounds child]
  | .equality attr value => by simp [truth, taken]
  | .present attr => by simp [truth, taken]
  | .unsupported => by simp [truth, taken]

theorem allTruth_bounds : ∀ cs : List Filter,
    (allTruth e cs).must = allTaken e false true cs ∧ (allTruth e cs).may = allTaken e true false cs
  | [] => ⟨rfl, rfl⟩
  | c :: cs => by simp [allTruth, allTaken, truth_bounds c, allTruth_bounds cs]

theorem anyTruth_bounds : ∀ cs : List Filter,
    (anyTruth e cs).must = anyTaken e false true cs ∧ (anyTruth e cs).may = anyTaken e true false cs
  | [] => ⟨rfl, rfl⟩
  | c :: cs => by simp [anyTruth, anyTaken, truth_bounds c, anyTruth_bounds cs]

end

theorem truth_eq_true_iff (f : Filter) : truth e f = .true ↔ taken e false true f = true := by
  rw [← Truth.must_eq_true, (truth_bounds e f).1]

section
variable {e}

mutual

/-- A reading can only gain from more under an even number of `not`s and less under an odd. -/
theorem taken_mono {even odd even' odd' : Bool} (heven : even → even') (hodd : odd' → odd) :
    ∀ f : Filter, taken e even odd f → taken e even' odd' f
  | .and children => by simpa only [taken] using allTaken_mono heven hodd children
  | .or children => by simpa only [taken] using anyTaken_mono heven hodd children
  | .not child => by
      have h := taken_mono hodd heven child
      simp only [taken, Bool.not_eq_true', ← Bool.not_eq_true]
      exact mt h
  | .equality attr value => by simp only [taken, imp_self]
  | .present attr => by simp only [taken, imp_self]
  | .unsupported => by simpa only [taken] using heven

theorem allTaken_mono {even odd even' odd' : Bool} (heven : even → even') (hodd : odd' → odd) :
    ∀ cs : List Filter, allTaken e even odd cs → allTaken e even' odd' cs
  | [] => by simp [allTaken]
  | c :: cs => by
      simp only [allTaken, Bool.and_eq_true]
      exact And.imp (taken_mono heven hodd c) (allTaken_mono heven hodd cs)

theorem anyTaken_mono {even odd even' odd' : Bool} (heven : even → even') (hodd : odd' → odd) :
    ∀ cs : List Filter, anyTaken e even odd cs → anyTaken e even' odd' cs
  | [] => by simp [anyTaken]
  | c :: cs => by
      simp only [anyTaken, Bool.or_eq_true]
      exact Or.imp (taken_mono heven hodd c) (anyTaken_mono heven hodd cs)

end

end

/-- A match is a filter that is True, unless the unsupported constructs under an odd number of
`not`s decide it: the others taken as false, the filter holds with these taken as false and
does not with these taken as true. -/
theorem matches_true_iff (f : Filter) :
    (f.holds e = true → truth e f = .true) ↔ taken e false false f = taken e false true f := by
  have hmono : taken e false true f = true → taken e false false f = true :=
    taken_mono id (fun _ => rfl) f
  rw [holds_eq_taken, truth_eq_true_iff]
  constructor
  · intro h
    exact Bool.eq_iff_iff.mpr ⟨h, hmono⟩
  · intro h
    rw [h]
    exact id

/-- `(!(uid=adm*))` as it is on the wire: a `not` around a substring filter. -/
def notSubstring : Packet :=
  .mk 2 .other "" [.mk 4 .other "" [.mk 4 (.str "uid") "uid" [], .mk 16 .other "" []]]

def bob : Entry where
  dn := "uid=bob,dc=example"
  attrs := [("objectClass", objectClasses), ("uid", ["bob"]), ("cn", ["Bob"]), ("sn", ["Bob"])]

/-- The negated substring filter matches an entry at which it is Undefined. -/
theorem notSubstring_widens : (decodeFilter notSubstring).holds bob = true ∧
    truth bob (decodeFilter notSubstring) = .undefined :=
  ⟨rfl, rfl⟩

end Signari.LdapFilters
