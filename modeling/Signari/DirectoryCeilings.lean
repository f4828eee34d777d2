import Signari.DirectoryApply
import Signari.DirectoryGroups

/-!
# The ceilings of a directory sync

`checkCeiling` and `checkRemovalCeiling` compare a share in whole percent with the ceiling:
the quotient drops what is left over, so a plan that is over the ceiling by less than one
percent of the base is let through. The base and the removals are counted here on what a sync
is given (`deactivated`, `removed`), and the counts of the plans are these.

A refused plan is refused again where it would be applied, before the first statement.
-/
namespace Signari.DirectoryCeilings
open KeyedMaps KeyedRows List
open DirectoryPlan DirectoryApply

/-! ## Shares -/

/-- More than `p` percent, by less than one percent of the base. -/
def JustOver (p : ℤ) (part base : ℕ) : Prop := p * base < 100 * part ∧ 100 * part < (p + 1) * base

theorem share_le_iff {p : ℤ} {part base : ℕ} (hbase : 0 < base) :
    ((part * 100 / base : ℕ) : ℤ) ≤ p ↔ (100 * part : ℤ) < (p + 1) * base := by
  rw [← Int.lt_add_one_iff, Int.natCast_ediv, Int.ediv_lt_iff_lt_mul (by exact_mod_cast hbase)]
  push_cast
  rw [Int.mul_comm (part : ℤ) 100]

theorem share_exact_iff {p : ℤ} {part base : ℕ} (hbase : 0 < base) :
    (¬((part * 100 / base : ℕ) : ℤ) ≤ p ↔ p * base < 100 * part) ↔ ¬JustOver p part base := by
  rw [share_le_iff hbase, not_lt, JustOver, not_and, not_lt]
  constructor
  · intro h
    exact h.mpr
  · intro h
    refine ⟨fun hover => ?_, h⟩
    have hpos : (0 : ℤ) < base := by exact_mod_cast hbase
    linarith

/-! ## Deactivations -/

section
variable (remote : List RemoteUser) (locals : List LocalUser) (onMissing : OnMissing)

def leavesUpstream (r : RemoteUser) : Bool :=
  r.id != "" && (byRemoteID locals r.id).any fun l => r.suspended && l.active

/-- An active account with a link that the directory does not list. -/
def unlisted (l : LocalUser) : Bool :=
  l.remoteID != "" && !(remote.any fun r => r.id == l.remoteID) && l.active

/-- How many accounts a sync would deactivate. -/
def deactivated : ℕ :=
  remote.countP (leavesUpstream locals) +
    if onMissing = .deactivate then locals.countP (unlisted remote) else 0

def activeBefore : ℕ := locals.countP (·.active)

variable {remote locals onMissing} {casing : Casing} {maxPercent : ℤ}

theorem remoteAction_deactivates (r : RemoteUser) :
    ((remoteAction casing locals r).map (·.kind == .deactivate)).getD false =
      leavesUpstream locals r := by
  unfold remoteAction leavesUpstream
  by_cases hid : r.id = ""
  · simp [hid]
  · cases hl : byRemoteID locals r.id with
    | none => cases hs : r.suspended <;> simp [hid]
    | some l =>
      simp only [hid, if_false, knownAction, updateAction]
      cases hs : r.suspended <;> cases ha : l.active <;> simp [hid, ha] <;> split_ifs <;> simp

theorem unlisted_iff (l : LocalUser) : unlisted remote l = true ↔
    ¬(l.remoteID = "" ∨ (∃ r ∈ remote, r.id = l.remoteID) ∨ l.active = false) := by
  simp [unlisted, and_assoc]

theorem missingAction_deactivates (l : LocalUser) :
    ((missingAction onMissing remote l).map (·.kind == .deactivate)).getD false =
      (decide (onMissing = .deactivate) && unlisted remote l) := by
  unfold missingAction
  by_cases h : unlisted remote l = true
  · rw [if_neg ((unlisted_iff l).mp h), h]
    by_cases hkind : onMissing = .deactivate <;> simp [hkind]
  · rw [if_pos (not_not.mp (mt (unlisted_iff l).mpr h))]
    simp [h]

theorem count_deactivate :
    ((foundActions casing remote locals onMissing).mergeSort Action.le).countP
      (·.kind == .deactivate) = deactivated remote locals onMissing := by
  rw [(mergeSort_perm _ _).countP_eq, foundActions, countP_append,
    countP_filterMap, countP_filterMap, deactivated]
  simp only [remoteAction_deactivates, missingAction_deactivates]
  by_cases h : onMissing = .deactivate <;> simp [h]

theorem activeBefore_pos (h : 0 < deactivated remote locals onMissing) :
    0 < activeBefore locals := by
  rw [activeBefore, countP_pos_iff]
  by_cases hremote : 0 < remote.countP (leavesUpstream locals)
  · obtain ⟨r, -, hr⟩ := countP_pos_iff.mp hremote
    simp only [leavesUpstream, Bool.and_eq_true, Option.any_eq_true] at hr
    obtain ⟨-, l, hl, -, hactive⟩ := hr
    exact ⟨l, mem_of_mem_filter (mem_of_getLast? hl), hactive⟩
  · have hmissing : 0 < if onMissing = .deactivate then locals.countP (unlisted remote) else 0 := by
      unfold deactivated at h
      omega
    split_ifs at hmissing
    · obtain ⟨l, hl, hunlisted⟩ := countP_pos_iff.mp hmissing
      simp only [unlisted, Bool.and_eq_true] at hunlisted
      exact ⟨l, hl, hunlisted.2⟩
    · exact absurd hmissing (lt_irrefl 0)

theorem buildPlan_counts :
    (buildPlan casing remote locals onMissing maxPercent).count .deactivate =
        deactivated remote locals onMissing ∧
      (buildPlan casing remote locals onMissing maxPercent).activeBefore = activeBefore locals := by
  constructor
  · rw [Plan.count, buildPlan_actions, count_deactivate]
  · unfold buildPlan checkCeiling
    dsimp only
    split_ifs <;> rfl

theorem checkCeiling_safe {p : Plan} (hp : p.refused = "") :
    (checkCeiling maxPercent p).safe = false ↔ p.count .deactivate ≠ 0 ∧ p.activeBefore ≠ 0 ∧
      ¬((p.count .deactivate * 100 / p.activeBefore : ℕ) : ℤ) ≤ maxPercent := by
  unfold checkCeiling
  dsimp only
  split_ifs with h
  · simp only [Plan.safe, hp]
    grind
  · refine iff_of_true ?_ (by simpa only [not_or] using h)
    simp [Plan.safe]

theorem buildPlan_refused_iff :
    (buildPlan casing remote locals onMissing maxPercent).safe = false ↔
      deactivated remote locals onMissing ≠ 0 ∧
        ¬((deactivated remote locals onMissing * 100 / activeBefore locals : ℕ) : ℤ) ≤
          maxPercent := by
  rw [buildPlan, checkCeiling_safe rfl, Plan.count, count_deactivate]
  constructor
  · rintro ⟨hne, -, hover⟩
    exact ⟨hne, hover⟩
  · rintro ⟨hne, hover⟩
    exact ⟨hne, (activeBefore_pos (Nat.pos_of_ne_zero hne)).ne', hover⟩

end

/-! ## Memberships -/

namespace Groups
open DirectoryGroups

section
variable (mappings : List GroupMapping) (remote current : Map String (List String))

/-- A membership in a governed group that no reported name grants. -/
def unwanted (names : List String) (gid : String) : Bool :=
  decide (gid ∉ want mappings names) && (governed mappings gid).isSome

/-- How many memberships a sync would remove. -/
def removed : ℕ :=
  (remote.entries.map fun e => (held current e.1).countP (unwanted mappings e.2)).sum

def membershipsBefore : ℕ := (current.entries.map fun e => e.2.length).sum

variable {mappings remote current} {maxPercent : ℤ}

theorem userActions_leaves (u : String) (names : List String) :
    (userActions mappings current u names).countP (·.kind == .leave) =
      (held current u).countP (unwanted mappings names) := by
  simp only [userActions]
  rw [countP_append, countP_filterMap, countP_filterMap]
  have hjoins : ∀ e ∈ (want mappings names).entries,
      ¬(((if e.1 ∈ held current u then none
        else some (⟨.join, u, e.1, e.2.groupName, e.2.remoteGroup⟩ : GroupAction)).map
          (·.kind == .leave)).getD false) = true := by
    intro e _
    split_ifs <;> simp
  rw [countP_eq_zero.mpr hjoins, Nat.zero_add]
  refine countP_congr fun gid _ => ?_
  unfold unwanted
  split_ifs with h
  · simp [h]
  · cases hg : governed mappings gid <;> simp [h]

theorem count_leave :
    ((remote.entries.flatMap fun e => userActions mappings current e.1 e.2).mergeSort
      GroupAction.le).countP (·.kind == .leave) = removed mappings remote current := by
  rw [(mergeSort_perm _ _).countP_eq, countP_flatMap, removed]
  refine congrArg List.sum (map_congr_left fun e _ => ?_)
  exact userActions_leaves e.1 e.2

theorem membershipsBefore_pos (h : 0 < removed mappings remote current) :
    0 < membershipsBefore current := by
  obtain ⟨n, hn, hpos⟩ := List.sum_pos_iff_exists_pos_nat.mp h
  obtain ⟨e, -, rfl⟩ := mem_map.mp hn
  obtain ⟨gid, hgid, -⟩ := countP_pos_iff.mp hpos
  have hgid := mem_dedup.mp hgid
  cases hlookup : current.lookup e.1 with
  | none => simp [hlookup] at hgid
  | some ids =>
    rw [hlookup, Option.getD_some] at hgid
    have hmem := AList.mem_lookup_iff.mp hlookup
    exact List.sum_pos_iff_exists_pos_nat.mpr
      ⟨ids.length, mem_map.mpr ⟨_, hmem, rfl⟩, length_pos_of_mem hgid⟩

theorem buildGroupPlan_counts :
    (buildGroupPlan mappings remote current maxPercent).count .leave =
        removed mappings remote current ∧
      (buildGroupPlan mappings remote current maxPercent).membershipsBefore =
        membershipsBefore current := by
  constructor
  · rw [GroupPlan.count, buildGroupPlan_actions, count_leave]
  · unfold buildGroupPlan checkRemovalCeiling
    dsimp only
    split_ifs <;> rfl

theorem checkRemovalCeiling_safe {p : GroupPlan} (hp : p.refused = "") :
    (checkRemovalCeiling maxPercent p).safe = false ↔
      p.count .leave ≠ 0 ∧ p.membershipsBefore ≠ 0 ∧ ¬maxPercent ≤ 0 ∧
        ¬((p.count .leave * 100 / p.membershipsBefore : ℕ) : ℤ) ≤ maxPercent := by
  unfold checkRemovalCeiling
  dsimp only
  split_ifs with h
  · simp only [GroupPlan.safe, hp]
    grind
  · refine iff_of_true ?_ (by simpa only [not_or] using h)
    simp [GroupPlan.safe]

theorem buildGroupPlan_refused_iff (hpos : 0 < maxPercent) :
    (buildGroupPlan mappings remote current maxPercent).safe = false ↔
      removed mappings remote current ≠ 0 ∧
        ¬((removed mappings remote current * 100 / membershipsBefore current : ℕ) : ℤ) ≤
          maxPercent := by
  rw [buildGroupPlan, checkRemovalCeiling_safe rfl, GroupPlan.count, count_leave]
  constructor
  · rintro ⟨hne, -, -, hover⟩
    exact ⟨hne, hover⟩
  · rintro ⟨hne, hover⟩
    exact ⟨hne, (membershipsBefore_pos (Nat.pos_of_ne_zero hne)).ne', not_le.mpr hpos, hover⟩

end

end Groups

/-! ## Both ceilings -/

/-- What is there after a transaction that may have failed. -/
def after {σ : Type} (s : σ) (r : Except String σ) : σ := r.toOption.getD s

theorem refused_exact_iff {p : ℤ} (hp : 0 < p) {part base : ℕ} (hbase : 0 < part → 0 < base) :
    ((part ≠ 0 ∧ ¬((part * 100 / base : ℕ) : ℤ) ≤ p) ↔ p * base < 100 * part) ↔
      ¬JustOver p part base := by
  by_cases hpart : part = 0
  · rw [hpart, JustOver]
    have hnone : ¬p * (base : ℤ) < 100 * ((0 : ℕ) : ℤ) := by
      have := Int.mul_nonneg hp.le (Int.natCast_nonneg base)
      omega
    exact iff_of_true (iff_of_false (fun h => h.1 rfl) hnone) fun h => hnone h.1
  · rw [← share_exact_iff (hbase (Nat.pos_of_ne_zero hpart)), and_iff_right hpart]

/-- A sync is refused exactly when it is over its ceiling, unless it is just over it; and what
is refused is not applied. -/
theorem ceilings_exact_iff (casing : Casing) (uuids : Uuids) (remote : List RemoteUser)
    (locals : List LocalUser) (onMissing : OnMissing)
    (mappings : List DirectoryGroups.GroupMapping) (sourceID orgID : String)
    (remoteGroups current : Map String (List String)) {p : ℤ} (hp : 0 < p) :
    let plan := buildPlan casing remote locals onMissing p
    let groups := DirectoryGroups.buildGroupPlan mappings remoteGroups current p
    ((plan.safe = false ↔ p * plan.activeBefore < 100 * plan.count .deactivate) ↔
      ¬JustOver p (deactivated remote locals onMissing) (activeBefore locals)) ∧
    ((groups.safe = false ↔ p * groups.membershipsBefore < 100 * groups.count .leave) ↔
      ¬JustOver p (Groups.removed mappings remoteGroups current)
        (Groups.membershipsBefore current)) ∧
    (∀ d, plan.safe = false → after d (apply casing uuids d plan) = d) ∧
    ∀ store, groups.safe = false →
      after store (DirectoryGroups.applyGroupPlan sourceID orgID store groups) = store := by
  intro plan groups
  refine ⟨?_, ?_, ?_, ?_⟩
  · rw [buildPlan_counts.1, buildPlan_counts.2, buildPlan_refused_iff]
    exact refused_exact_iff hp activeBefore_pos
  · rw [Groups.buildGroupPlan_counts.1, Groups.buildGroupPlan_counts.2,
      Groups.buildGroupPlan_refused_iff hp]
    exact refused_exact_iff hp Groups.membershipsBefore_pos
  · intro d hsafe
    rw [apply, if_pos hsafe]
    rfl
  · intro store hsafe
    rw [DirectoryGroups.applyGroupPlan, if_pos hsafe]
    rfl

def thirdLeaves : List RemoteUser × List LocalUser :=
  ([⟨"r1", "a@x", "A", true⟩, ⟨"r2", "b@x", "B", false⟩, ⟨"r3", "c@x", "C", false⟩],
    [⟨"u1", "r1", "a@x", "A", true⟩, ⟨"u2", "r2", "b@x", "B", true⟩,
      ⟨"u3", "r3", "c@x", "C", true⟩])

/-- One in three is more than 33 percent, and is not refused. -/
theorem third_not_refused : let plan := buildPlan goCasing thirdLeaves.1 thirdLeaves.2 .report 33
    33 * plan.activeBefore < 100 * plan.count .deactivate ∧ plan.safe = true := by
  intro plan
  rw [buildPlan_counts.1, buildPlan_counts.2, ← Bool.not_eq_false, buildPlan_refused_iff]
  decide

theorem ceilings_exact_sample :
    (buildPlan goCasing thirdLeaves.1 thirdLeaves.2 .report 32).safe = false := by
  have h := (ceilings_exact_iff goCasing longerUuids thirdLeaves.1 thirdLeaves.2 .report [] "s"
    "o" ∅ ∅ (show (0 : ℤ) < 32 by decide)).1
  refine (h.mpr (by unfold JustOver; decide)).mpr ?_
  rw [buildPlan_counts.1, buildPlan_counts.2]
  decide

end Signari.DirectoryCeilings
