import Mathlib.Data.List.Sort

/-!
# The plan of a directory sync

`BuildPlan` compares the people a directory lists with the accounts of an organisation. A person is
matched by the directory's immutable id alone, through the link an earlier sync left, and each gets
at most one action; people with a link whom the directory does not list are deactivated or reported.

How the database lowers an address and how Go compares two up to case are arguments.
-/
namespace Signari.DirectoryPlan
open List

/-- `lower` of the database and `strings.EqualFold`. -/
structure Casing where
  lower : String → String
  equalFold : String → String → Bool
  refl : ∀ s, equalFold s s = true

structure RemoteUser where
  id : String
  email : String
  name : String
  suspended : Bool

structure LocalUser where
  userID : String
  remoteID : String
  email : String
  name : String
  active : Bool
  deriving DecidableEq

inductive ActionKind where
  | create | deactivate | reactivate | reportMissing | update
  deriving DecidableEq

def ActionKind.text : ActionKind → String
  | .create => "create"
  | .deactivate => "deactivate"
  | .reactivate => "reactivate"
  | .reportMissing => "report-missing"
  | .update => "update"

structure Action where
  kind : ActionKind
  remoteID : String
  email : String
  was : String
  now : String
  userID : String
  name : String
  deriving DecidableEq

inductive OnMissing where
  | report | deactivate
  deriving DecidableEq

structure Plan where
  actions : List Action
  activeBefore : ℕ
  refused : String

def Plan.count (p : Plan) (kind : ActionKind) : ℕ := p.actions.countP (·.kind == kind)

def Plan.safe (p : Plan) : Bool := p.refused == ""

section

variable (casing : Casing)

/-- `byRemoteID`: of several accounts with one id, the last. -/
def byRemoteID (locals : List LocalUser) (id : String) : Option LocalUser :=
  (locals.filter fun l => l.remoteID == id).getLast?

/-- The record differs from what the last sync left. -/
def differs (r : RemoteUser) (l : LocalUser) : Bool :=
  !casing.equalFold r.email l.email || r.name != l.name

def updateAction (r : RemoteUser) (l : LocalUser) : Action :=
  if casing.equalFold r.email l.email then
    ⟨.update, r.id, r.email, l.name, r.name, l.userID, r.name⟩
  else ⟨.update, r.id, r.email, l.email, r.email, l.userID, r.name⟩

/-- What is done about one person with a link. -/
def knownAction (r : RemoteUser) (l : LocalUser) : Option Action :=
  if r.suspended && l.active then
    some ⟨.deactivate, r.id, l.email, "active", "suspended upstream", l.userID, ""⟩
  else if !r.suspended && !l.active then
    some ⟨.reactivate, r.id, l.email, "inactive", "active upstream", l.userID, ""⟩
  else if differs casing r l then some (updateAction casing r l)
  else none

/-- What is done about one person the directory lists. -/
def remoteAction (locals : List LocalUser) (r : RemoteUser) : Option Action :=
  if r.id = "" then none
  else match byRemoteID locals r.id with
    | none =>
      if r.suspended then none
      else some ⟨.create, r.id, r.email, "", r.email, "", r.name⟩
    | some l => knownAction casing r l

/-- What is done about an account with a link that the directory does not list. -/
def missingAction (onMissing : OnMissing) (remote : List RemoteUser) (l : LocalUser) :
    Option Action :=
  if l.remoteID = "" ∨ (∃ r ∈ remote, r.id = l.remoteID) ∨ l.active = false then none
  else let kind := if onMissing = .deactivate then ActionKind.deactivate else .reportMissing
    some ⟨kind, l.remoteID, l.email, "active", "absent from the directory", l.userID, ""⟩

def Action.le (a b : Action) : Bool := decide (a.kind.text ≤ b.kind.text)

def checkCeiling (maxPercent : ℤ) (p : Plan) : Plan := let deactivate := p.count .deactivate
  let share := deactivate * 100 / p.activeBefore
  if deactivate = 0 ∨ p.activeBefore = 0 ∨ (share : ℤ) ≤ maxPercent then p
  else
    { p with
      refused := "this sync would deactivate " ++ toString deactivate ++ " of " ++
        toString p.activeBefore ++ " active users (" ++ toString share ++ "%), over the " ++
        toString maxPercent ++ "% ceiling. " ++
        "Nothing has been applied. A cliff like this is almost always a bad fetch " ++
        "-- a filter matching too little, a truncated page, an upstream outage -- " ++
        "rather than that many people leaving at once. Check the plan, and raise " ++
        "the ceiling deliberately if it is genuinely correct" }

def foundActions (remote : List RemoteUser) (locals : List LocalUser) (onMissing : OnMissing) :
    List Action :=
  remote.filterMap (remoteAction casing locals) ++ locals.filterMap (missingAction onMissing remote)

def buildPlan (remote : List RemoteUser) (locals : List LocalUser) (onMissing : OnMissing)
    (maxDeactivatePercent : ℤ) : Plan :=
  checkCeiling maxDeactivatePercent
    { actions := (foundActions casing remote locals onMissing).mergeSort Action.le
      activeBefore := locals.countP (·.active)
      refused := "" }

end

section

variable {α : Type} (rank : α → ℕ)

theorem sorted_split {n : ℕ} {l : List α} (hsorted : l.Pairwise fun a b => rank a ≤ rank b)
    (hlt : ∀ a ∈ l, rank a < n + 1) :
    l = (l.filter fun a => decide (rank a < n)) ++ l.filter fun a => rank a == n := by
  induction l with
  | nil => rfl
  | cons a l ih =>
    rw [pairwise_cons] at hsorted
    have ih := ih hsorted.2 fun b hb => hlt b (mem_cons_of_mem a hb)
    by_cases ha : rank a < n
    · rw [filter_cons_of_pos (by simpa using ha),
        filter_cons_of_neg (by simpa using Nat.ne_of_lt ha), cons_append, ← ih]
    · have hle := hlt a mem_cons_self
      have hall : ∀ b ∈ l, rank b = n := by
        intro b hb
        have h₁ := hsorted.1 b hb
        have h₂ := hlt b (mem_cons_of_mem a hb)
        omega
      have hnone : (l.filter fun b => decide (rank b < n)) = [] := by
        rw [filter_eq_nil_iff]
        intro b hb
        simp [hall b hb]
      have hfull : (l.filter fun b => rank b == n) = l := by
        rw [filter_eq_self]
        intro b hb
        simp [hall b hb]
      rw [filter_cons_of_neg (by simpa using ha), hnone,
        filter_cons_of_pos (by rw [beq_iff_eq]; omega), hfull, nil_append]

theorem sorted_buckets (n : ℕ) {l : List α} (hsorted : l.Pairwise fun a b => rank a ≤ rank b)
    (hlt : ∀ a ∈ l, rank a < n) :
    l = (List.range n).flatMap fun k => l.filter fun a => rank a == k := by
  induction n generalizing l with
  | zero =>
    obtain rfl : l = [] := eq_nil_iff_forall_not_mem.mpr fun a ha => by
      have := hlt a ha
      omega
    rfl
  | succ n ih =>
    have hlow := ih (hsorted.sublist (filter_sublist (p := fun a => decide (rank a < n)))) (by simp)
    rw [range_succ, flatMap_append, flatMap_singleton]
    have hbuckets : ∀ k ∈ List.range n, ((l.filter fun a => decide (rank a < n)).filter
        fun a => rank a == k) = l.filter fun a => rank a == k := by
      intro k hk
      rw [mem_range] at hk
      rw [filter_filter]
      refine filter_congr fun a _ => ?_
      by_cases ha : rank a = k <;> simp [ha, hk]
    rw [flatMap_congr hbuckets] at hlow
    exact (sorted_split rank hsorted hlt).trans (by rw [← hlow])

theorem mergeSort_buckets {le : α → α → Bool} (hle : ∀ a b, le a b = true ↔ rank a ≤ rank b)
    (n : ℕ) {l : List α} (hlt : ∀ a ∈ l, rank a < n) :
    l.mergeSort le = (List.range n).flatMap fun k => l.filter fun a => rank a == k := by
  have htrans : ∀ a b c : α, le a b = true → le b c = true → le a c = true := by
    intro a b c hab hbc
    rw [hle] at hab hbc ⊢
    omega
  have htotal : ∀ a b : α, (le a b || le b a) = true := by
    intro a b
    rw [Bool.or_eq_true, hle, hle]
    omega
  have hsorted := pairwise_mergeSort htrans htotal l
  have hsame : ∀ k, ((l.mergeSort le).filter fun a => rank a == k) =
      l.filter fun a => rank a == k := by
    intro k
    have hrank : (l.filter fun a => rank a == k).Pairwise fun a b => le a b = true := by
      refine Pairwise.imp_of_mem ?_ (pairwise_of_forall (R := fun _ _ => True) fun _ _ => trivial)
      intro a b ha hb _
      rw [mem_filter, beq_iff_eq] at ha hb
      rw [hle]
      omega
    have hsub := (sublist_mergeSort htrans htotal hrank filter_sublist).filter fun a => rank a == k
    rw [filter_filter] at hsub
    simp only [Bool.and_self] at hsub
    refine (hsub.eq_of_length ?_).symm
    exact ((mergeSort_perm l le).symm.filter _).length_eq
  have h := sorted_buckets rank n (hsorted.imp fun hab => (hle _ _).mp hab)
    (fun a ha => hlt a ((mem_mergeSort).mp ha))
  rw [h]
  exact flatMap_congr fun k _ => hsame k

end

section

def ActionKind.rank : ActionKind → ℕ
  | .create => 0
  | .deactivate => 1
  | .reactivate => 2
  | .reportMissing => 3
  | .update => 4

theorem text_le_iff (k j : ActionKind) : k.text ≤ j.text ↔ k.rank ≤ j.rank := by
  cases k <;> cases j <;> decide

variable {casing : Casing} {remote : List RemoteUser} {locals : List LocalUser}
  {onMissing : OnMissing} {maxPercent : ℤ}

theorem buildPlan_actions : (buildPlan casing remote locals onMissing maxPercent).actions =
    (foundActions casing remote locals onMissing).mergeSort Action.le := by
  unfold buildPlan checkCeiling
  dsimp only
  split <;> rfl

def ofKind (kind : ActionKind) (actions : List Action) : List Action :=
  actions.filter fun a => a.kind == kind

theorem actions_by_kind : (buildPlan casing remote locals onMissing maxPercent).actions =
    let found := foundActions casing remote locals onMissing
    ofKind .create found ++ (ofKind .deactivate found ++ (ofKind .reactivate found ++
      (ofKind .reportMissing found ++ ofKind .update found))) := by
  have hrank : ∀ kind : ActionKind, (fun a : Action => a.kind.rank == kind.rank) =
      fun a => a.kind == kind := by
    intro kind
    funext a
    cases a.kind <;> cases kind <;> rfl
  rw [buildPlan_actions, mergeSort_buckets (fun a => a.kind.rank) (n := 5)]
  · simp only [range_succ, range_zero, flatMap_append, flatMap_singleton, nil_append]
    simp only [ofKind, ← hrank, List.append_assoc]
    rfl
  · intro a b
    rw [Action.le, decide_eq_true_iff]
    exact text_le_iff a.kind b.kind
  · intro a _
    cases a.kind <;> decide

theorem mem_ofKind {kind : ActionKind} {actions : List Action} {a : Action} :
    a ∈ ofKind kind actions ↔ a ∈ actions ∧ a.kind = kind := by
  rw [ofKind, mem_filter, beq_iff_eq]

theorem actions_split : ∃ created others,
    (buildPlan casing remote locals onMissing maxPercent).actions = created ++ others ∧
      (∀ a ∈ created, a.kind = .create) ∧ ∀ a ∈ others, a.kind ≠ .create := by
  refine ⟨_, _, actions_by_kind, ?_, ?_⟩
  · exact fun a ha => (mem_ofKind.mp ha).2
  · intro a ha
    simp only [mem_append, mem_ofKind] at ha
    rcases ha with ⟨-, hk⟩ | ⟨-, hk⟩ | ⟨-, hk⟩ | ⟨-, hk⟩ <;> simp [hk]

theorem actions_sorted : (buildPlan casing remote locals onMissing maxPercent).actions.Pairwise
    fun a b => a.kind.rank ≤ b.kind.rank := by
  rw [buildPlan_actions]
  have hsorted : ((foundActions casing remote locals onMissing).mergeSort Action.le).Pairwise
      fun a b => Action.le a b = true := by
    refine pairwise_mergeSort ?_ ?_ _
    · intro a b c hab hbc
      have h₁ := (text_le_iff _ _).mp (of_decide_eq_true hab)
      have h₂ := (text_le_iff _ _).mp (of_decide_eq_true hbc)
      exact decide_eq_true ((text_le_iff _ _).mpr (by omega))
    · intro a b
      rw [Bool.or_eq_true]
      refine (Nat.le_total a.kind.rank b.kind.rank).imp ?_ ?_ <;>
      · intro h
        exact decide_eq_true ((text_le_iff _ _).mpr h)
  exact hsorted.imp fun h => (text_le_iff _ _).mp (of_decide_eq_true h)

theorem creates_first {pre rest : List Action} {a : Action}
    (h : (buildPlan casing remote locals onMissing maxPercent).actions = pre ++ a :: rest)
    (ha : a.kind = .create) : ∀ b ∈ pre, b.kind = .create := by
  intro b hb
  have hsorted : (pre ++ a :: rest).Pairwise fun a b => a.kind.rank ≤ b.kind.rank :=
    h ▸ actions_sorted
  rw [pairwise_append] at hsorted
  have hle := hsorted.2.2 b hb a mem_cons_self
  rw [ha] at hle
  revert hle
  cases b.kind <;> decide

theorem mem_plan {a : Action} : a ∈ (buildPlan casing remote locals onMissing maxPercent).actions ↔
    (∃ r ∈ remote, remoteAction casing locals r = some a) ∨
      ∃ l ∈ locals, missingAction onMissing remote l = some a := by
  rw [buildPlan_actions, mem_mergeSort, foundActions, mem_append, mem_filterMap, mem_filterMap]

theorem updateAction_fields (casing : Casing) (r : RemoteUser) (l : LocalUser) :
    (updateAction casing r l).kind = .update ∧ (updateAction casing r l).remoteID = r.id ∧
      (updateAction casing r l).userID = l.userID ∧ (updateAction casing r l).email = r.email ∧
      (updateAction casing r l).name = r.name := by
  unfold updateAction
  split <;> exact ⟨rfl, rfl, rfl, rfl, rfl⟩

/-- What a person with a link gets, with the conditions under which it is so. -/
theorem knownAction_cases {r : RemoteUser} {l : LocalUser} {a : Action}
    (h : knownAction casing r l = some a) :
    a.remoteID = r.id ∧ a.userID = l.userID ∧
      ((a.kind = .deactivate ∧ r.suspended = true ∧ l.active = true) ∨
        (a.kind = .reactivate ∧ r.suspended = false ∧ l.active = false) ∨
        (a.kind = .update ∧ r.suspended = !l.active ∧ differs casing r l = true ∧
          a.email = r.email ∧ a.name = r.name)) := by
  unfold knownAction at h
  split_ifs at h with hsuspended hrestored hdiff
  · rw [Bool.and_eq_true] at hsuspended
    obtain rfl := Option.some.inj h
    exact ⟨rfl, rfl, .inl ⟨rfl, hsuspended⟩⟩
  · simp only [Bool.and_eq_true, Bool.not_eq_true'] at hrestored
    obtain rfl := Option.some.inj h
    exact ⟨rfl, rfl, .inr (.inl ⟨rfl, hrestored⟩)⟩
  · obtain rfl := Option.some.inj h
    obtain ⟨hkind, hremote, huser, hemail, hname⟩ := updateAction_fields casing r l
    refine ⟨hremote, huser, .inr (.inr ⟨hkind, ?_, hdiff, hemail, hname⟩)⟩
    cases hs : r.suspended <;> cases hl : l.active <;> simp [hs, hl] at hsuspended hrestored ⊢

theorem buildPlan_single {a : Action} (h : foundActions casing remote locals onMissing = [a])
    (hk : a.kind ≠ .deactivate) : buildPlan casing remote locals onMissing maxPercent =
      ⟨[a], locals.countP (·.active), ""⟩ := by
  unfold buildPlan checkCeiling
  rw [h, mergeSort_singleton]
  dsimp only
  rw [if_pos (.inl (by simp [Plan.count, hk]))]

/-- What one person's record leads to. -/
theorem remoteAction_cases {r : RemoteUser} {a : Action}
    (h : remoteAction casing locals r = some a) :
    r.id ≠ "" ∧
      ((byRemoteID locals r.id = none ∧ r.suspended = false ∧ a.kind = .create ∧
          a.remoteID = r.id ∧ a.email = r.email ∧ a.name = r.name) ∨
        ∃ l, byRemoteID locals r.id = some l ∧ knownAction casing r l = some a) := by
  unfold remoteAction at h
  split at h
  · cases h
  · rename_i hid
    refine ⟨hid, ?_⟩
    cases hl : byRemoteID locals r.id with
    | none =>
      cases hs : r.suspended with
      | true => simp [hl, hs] at h
      | false =>
        simp only [hl, hs, Bool.false_eq_true, if_false, Option.some.injEq] at h
        subst h
        exact .inl ⟨rfl, rfl, rfl, rfl, rfl, rfl⟩
    | some l =>
      simp only [hl] at h
      exact .inr ⟨l, rfl, h⟩

theorem missingAction_cases {l : LocalUser} {a : Action}
    (h : missingAction onMissing remote l = some a) :
    l.remoteID ≠ "" ∧ (∀ r ∈ remote, r.id ≠ l.remoteID) ∧ l.active = true ∧
      a.userID = l.userID ∧ a.remoteID = l.remoteID ∧
      a.kind = if onMissing = .deactivate then .deactivate else .reportMissing := by
  unfold missingAction at h
  split at h
  · cases h
  · rename_i hnot
    simp only [not_or, not_exists, not_and, Bool.not_eq_false] at hnot
    obtain rfl := Option.some.inj h
    exact ⟨hnot.1, hnot.2.1, hnot.2.2, rfl, rfl, rfl⟩

end

end Signari.DirectoryPlan
