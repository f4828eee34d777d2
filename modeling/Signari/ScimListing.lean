import Mathlib.Data.List.Sort
import Mathlib.Tactic.IntervalCases

/-!
# Listing and verifying a SCIM target

`Client.ListUsers` of `internal/scim/client.go` pages through the users a target holds, and
`Verify` of `internal/scim/verify.go` compares what came back with the intent recorded here.

`Conforming` is a target that holds the users `us` in a fixed order and answers each request with
some of those that remain. The listing stops at the first page shorter than asked for, whatever
total was announced, and never asks past index 100000; `listUsers_iff` says exactly when that is all
of them.
-/
namespace Signari.ScimListing
open List

/-- What the listing and the comparison read of a remote account. -/
structure User where
  id : String
  userName : String
  active : Bool
  deriving DecidableEq

structure ListResponse where
  totalResults : ℤ
  resources : List User

/-- A target, as the answer to `GET /Users?startIndex=&count=`. -/
abbrev Target := ℕ → ℕ → Except String ListResponse

/-- The loop of `ListUsers`: the users returned, and the error beside them. -/
def listFrom (target : Target) (pageSize start : ℕ) (all : List User) :
    List User × Option String :=
  match target start pageSize with
  | .error e => ([], some e)
  | .ok list =>
    if list.resources = [] ∨ list.totalResults ≤ (all ++ list.resources).length ∨
        list.resources.length < pageSize then
      (all ++ list.resources, none)
    else if 100000 < start + list.resources.length then
      (all ++ list.resources, some ("stopped paging after 100000 users; the target is not " ++
        "advancing its pages"))
    else listFrom target pageSize (start + list.resources.length) (all ++ list.resources)
termination_by 100001 - start
decreasing_by
  rename_i hstop hcap
  have hne : list.resources ≠ [] := fun h => hstop (.inl h)
  have hpos := length_pos_iff.mpr hne
  omega

def defaultPageSize (pageSize : ℤ) : ℕ := if pageSize ≤ 0 then 100 else pageSize.toNat

def listUsers (target : Target) (pageSize : ℤ) : List User × Option String :=
  listFrom target (defaultPageSize pageSize) 1 []

theorem defaultPageSize_pos (pageSize : ℤ) : 0 < defaultPageSize pageSize := by
  unfold defaultPageSize
  split_ifs <;> omega

/-- A target that holds `us`: it answers a request with between one and `count` of the users
that remain at the index, none when none remain, and with the right total. -/
structure Conforming (us : List User) (target : Target) : Prop where
  answer : ∀ start count, 1 ≤ start → 1 ≤ count → ∃ k, 1 ≤ k ∧ k ≤ count ∧
    target start count = .ok ⟨us.length, (us.drop (start - 1)).take k⟩

/-- How many users the target puts on a page. -/
def pageLength (target : Target) (start count : ℕ) : ℕ :=
  match target start count with
  | .error _ => 0
  | .ok list => list.resources.length

/-- A page that holds as many users as were asked for, or all that remain. -/
def FullPage (us : List User) (target : Target) (pageSize i : ℕ) : Prop :=
  pageLength target (i * pageSize + 1) pageSize = min pageSize (us.length - i * pageSize)

section
variable {us : List User} {target : Target} {p : ℕ}

theorem listFrom_page (h : Conforming us target) (hp : 0 < p) {n : ℕ} (hn : n < us.length) :
    ∃ m, pageLength target (n + 1) p = m ∧ 1 ≤ m ∧ m ≤ p ∧ n + m ≤ us.length ∧
      listFrom target p (n + 1) (us.take n) =
        if us.length ≤ n + m ∨ m < p then (us.take (n + m), none)
        else if 100000 < n + m + 1 then
          (us.take (n + m), some ("stopped paging after 100000 users; the target is not " ++
            "advancing its pages"))
        else listFrom target p (n + m + 1) (us.take (n + m)) := by
  obtain ⟨k, hk, hkp, hanswer⟩ := h.answer (n + 1) p (by omega) hp
  rw [Nat.add_sub_cancel] at hanswer
  have hlen : ((us.drop n).take k).length = min k (us.length - n) := by simp
  have hne : (us.drop n).take k ≠ [] := by
    rw [← length_pos_iff, hlen]
    omega
  have hall : us.take n ++ (us.drop n).take k = us.take (n + min k (us.length - n)) := by
    rw [take_add, append_cancel_left_eq, take_eq_take_iff, length_drop]
    omega
  refine ⟨min k (us.length - n), by rw [pageLength, hanswer]; exact hlen, by omega, by omega,
    by omega, ?_⟩
  rw [listFrom, hanswer]
  dsimp only
  have hcond : (us.drop n).take k = [] ∨
      (us.length : ℤ) ≤ (us.take (n + min k (us.length - n))).length ∨
        min k (us.length - n) < p ↔
      us.length ≤ n + min k (us.length - n) ∨ min k (us.length - n) < p := by
    simp only [hne, false_or, length_take]
    omega
  rw [hall, hlen, Nat.add_right_comm n 1]
  simp only [hcond]

/-- From a page on, everything arrives exactly when this page and all later ones are full
and the later ones are within reach. -/
theorem listFrom_iff (h : Conforming us target) (hp : 0 < p) (i : ℕ) (hi : i * p < us.length) :
    listFrom target p (i * p + 1) (us.take (i * p)) = (us, none) ↔
      FullPage us target p i ∧
        ∀ j, i < j → j * p < us.length → j * p < 100000 ∧ FullPage us target p j := by
  induction hn : us.length - i * p using Nat.strong_induction_on generalizing i with
  | _ n ih =>
    obtain ⟨m, hpage, hm, hmp, hle, heq⟩ := listFrom_page h hp hi
    have hnext : (i + 1) * p = i * p + p := Nat.succ_mul i p
    have hfull : FullPage us target p i ↔ m = min p (us.length - i * p) := by
      rw [FullPage, hpage]
    rw [heq, hfull]
    by_cases hdone : us.length ≤ i * p + m
    · rw [if_pos (.inl hdone), take_of_length_le hdone]
      simp only [true_iff]
      refine ⟨by omega, fun j hj hjn => ?_⟩
      have : (i + 1) * p ≤ j * p := Nat.mul_le_mul_right p hj
      omega
    · by_cases hshort : m < p
      · rw [if_pos (.inr hshort)]
        refine iff_of_false ?_ (fun hc => by omega)
        intro hsame
        have := congrArg (fun r => r.1.length) hsame
        simp only [length_take] at this
        omega
      · obtain rfl : m = p := by omega
        rw [if_neg (by omega), ← hnext]
        by_cases hcap : 100000 < (i + 1) * m + 1
        · rw [if_pos hcap]
          refine iff_of_false (by simp) ?_
          rintro ⟨_, hlater⟩
          have := (hlater (i + 1) (by omega) (by omega)).1
          omega
        · rw [if_neg hcap, ih _ (by omega) (i + 1) (by omega) rfl]
          constructor
          · rintro ⟨hfirst, hlater⟩
            refine ⟨by omega, fun j hj hjn => ?_⟩
            rcases Nat.lt_or_ge (i + 1) j with hlt | hge
            · exact hlater j hlt hjn
            · obtain rfl : j = i + 1 := by omega
              exact ⟨by omega, hfirst⟩
          · rintro ⟨_, hlater⟩
            exact ⟨(hlater (i + 1) (by omega) (by omega)).2,
              fun j hj hjn => hlater j (by omega) hjn⟩

end

/-- A target that holds `us` and puts at most `cap` users on a page. -/
def serving (us : List User) (cap : ℕ) : Target := fun start count =>
  .ok ⟨us.length, (us.drop (start - 1)).take (min count cap)⟩

theorem serving_conforming (us : List User) {cap : ℕ} (hcap : 1 ≤ cap) :
    Conforming us (serving us cap) :=
  ⟨fun _ count _ hcount => ⟨min count cap, by omega, by omega, rfl⟩⟩

def staff : List User := [⟨"1", "ada", true⟩, ⟨"2", "bo", false⟩, ⟨"3", "cy", true⟩]

/-- How bad a disagreement is: somebody has access they should not, the records disagree in
a way that is not a security problem, or it is only worth knowing. -/
inductive Severity where
  | critical | warning | info
  deriving DecidableEq

def Severity.rank : Severity → ℕ
  | .critical => 0
  | .warning => 1
  | .info => 2

structure Finding where
  severity : Severity
  remoteID : String
  userName : String
  summary : String
  fix : String

/-- The intent for one user at one target. -/
structure Expected where
  userID : String
  remoteID : String
  userName : String
  active : Bool
  synced : Bool

structure VerifyReport where
  target : String
  checked : ℕ := 0
  remoteTotal : ℕ := 0
  findings : List Finding := []
  unreachable : Bool := false
  unreachErr : String := ""

/-- The map by id; a later account with the same id replaces an earlier one. -/
def byID (remote : List User) (id : String) : Option User :=
  remote.reverse.find? fun u => u.id == id

def stillActive (e : Expected) (u : User) : Finding where
  severity := .critical
  remoteID := e.remoteID
  userName := u.userName
  summary := "was deactivated here and is STILL ACTIVE at the target"
  fix := "this person retains access they should not have. Deactivate them at the target " ++
    "now, then find out why the change did not arrive -- check the parked provisioning queue."

def compare (remote : List User) (e : Expected) : List Finding :=
  match byID remote e.remoteID with
  | none =>
    if e.active then [⟨.warning, e.remoteID, e.userName,
      "should have access and the remote account does not exist",
      "re-run provisioning for this user; they cannot sign in to this application"⟩]
    else []
  | some u =>
    if !e.active && u.active then [stillActive e u]
    else if e.active && !u.active then [⟨.warning, e.remoteID, u.userName,
      "is active here and deactivated at the target",
      "somebody deactivated them at the target directly; re-provision or deactivate here too"⟩]
    else if !e.synced then [⟨.info, e.remoteID, u.userName,
      "linked but never confirmed synced",
      "run a provisioning pass to bring the target up to date"⟩]
    else []

def orphans (remote : List User) (expected : List Expected) : List User :=
  (remote.filter fun u => !(expected.any fun e => e.remoteID == u.id) && u.active).mergeSort
    fun a b => decide (a.userName ≤ b.userName)

def orphanFinding (u : User) : Finding where
  severity := .info
  remoteID := u.id
  userName := u.userName
  summary := "active at the target and not provisioned by Signari"
  fix := "left alone deliberately -- it may be a service account or predate this " ++
    "integration. Remove it at the target if it should not be there."

/-- Reads the target's actual state and compares it with the intent; the most severe
findings come first. -/
def verify (slug : String) (target : Target) (expected : List Expected) : VerifyReport :=
  match listUsers target 100 with
  | (_, some e) => { target := slug, unreachable := true, unreachErr := e }
  | (remote, none) =>
    { target := slug
      checked := expected.length
      remoteTotal := remote.length
      findings := (expected.flatMap (compare remote) ++
        (orphans remote expected).map orphanFinding).mergeSort
          fun a b => decide (a.severity.rank ≤ b.severity.rank) }

def VerifyReport.criticalFindings (r : VerifyReport) : List Finding :=
  r.findings.filter fun f => f.severity == .critical

theorem byID_eq_some {remote : List User} (hids : (remote.map User.id).Nodup) {id : String}
    {u : User} : byID remote id = some u ↔ u ∈ remote ∧ u.id = id := by
  constructor
  · intro h
    have hmem := mem_of_find?_eq_some h
    have hid := find?_some h
    exact ⟨by simpa using hmem, by simpa using hid⟩
  · rintro ⟨hmem, rfl⟩
    cases hfind : byID remote u.id with
    | none =>
      have := find?_eq_none.mp hfind u (by simpa using hmem)
      simp at this
    | some v =>
      have hv : v ∈ remote := by simpa using mem_of_find?_eq_some hfind
      have hid : v.id = u.id := by simpa using find?_some hfind
      rw [inj_on_of_nodup_map hids hv hmem hid]

theorem mem_compare_critical {remote : List User} {e : Expected} {f : Finding}
    (hf : f.severity = .critical) :
    f ∈ compare remote e ↔ ∃ u, byID remote e.remoteID = some u ∧ e.active = false ∧
      u.active = true ∧ f = stillActive e u := by
  unfold compare
  cases byID remote e.remoteID with
  | none =>
    simp only [reduceCtorEq, false_and, exists_false, iff_false]
    split_ifs
    · intro hmem
      rw [mem_singleton.mp hmem] at hf
      cases hf
    · simp
  | some u =>
    simp only [Option.some.injEq, exists_eq_left']
    by_cases hstill : (!e.active && u.active) = true
    · rw [if_pos hstill, mem_singleton]
      simp only [Bool.and_eq_true, Bool.not_eq_true'] at hstill
      simp [hstill]
    · rw [if_neg hstill]
      have hno : ¬(e.active = false ∧ u.active = true ∧ f = stillActive e u) := by
        rintro ⟨he, hu, _⟩
        simp [he, hu] at hstill
      simp only [hno, iff_false]
      split_ifs
      · intro hmem
        rw [mem_singleton.mp hmem] at hf
        cases hf
      · intro hmem
        rw [mem_singleton.mp hmem] at hf
        cases hf
      · simp

/-- Over a complete listing the critical findings are exactly the accounts deactivated here
that are still active at the target. -/
theorem mem_criticalFindings {us : List User} {target : Target}
    (hlist : listUsers target 100 = (us, none)) (hids : (us.map User.id).Nodup) (slug : String)
    (expected : List Expected) (f : Finding) :
    f ∈ (verify slug target expected).criticalFindings ↔
      ∃ e ∈ expected, ∃ u ∈ us, u.id = e.remoteID ∧ e.active = false ∧ u.active = true ∧
        f = stillActive e u := by
  simp only [VerifyReport.criticalFindings, verify, hlist, mem_filter, mem_mergeSort,
    mem_append, mem_flatMap, mem_map, beq_iff_eq]
  constructor
  · rintro ⟨⟨e, he, hf⟩ | ⟨u, _, rfl⟩, hcrit⟩
    · obtain ⟨u, hu, hinactive, hactive, rfl⟩ := (mem_compare_critical hcrit).mp hf
      obtain ⟨hmem, hid⟩ := (byID_eq_some hids).mp hu
      exact ⟨e, he, u, hmem, hid, hinactive, hactive, rfl⟩
    · cases hcrit
  · rintro ⟨e, he, u, hu, hid, hinactive, hactive, rfl⟩
    refine ⟨.inl ⟨e, he, (mem_compare_critical rfl).mpr ?_⟩, rfl⟩
    exact ⟨u, (byID_eq_some hids).mpr ⟨hu, hid⟩, hinactive, hactive, rfl⟩

def eve : User := ⟨"r1", "eve", true⟩

theorem mem_criticalFindings_eve :
    stillActive ⟨"u1", "r1", "eve", false, true⟩ eve ∈
      (verify "crm" (serving [eve] 1) [⟨"u1", "r1", "eve", false, true⟩]).criticalFindings := by
  have hlist : listUsers (serving [eve] 1) 100 = ([eve], none) := by
    rw [listUsers, listFrom]
    simp [defaultPageSize, serving]
  refine (mem_criticalFindings hlist (by decide) _ _ _).mpr ?_
  exact ⟨_, List.mem_singleton_self _, eve, List.mem_singleton_self _, rfl, rfl, rfl, rfl⟩

end Signari.ScimListing
