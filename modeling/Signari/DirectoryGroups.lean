import Mathlib
import Signari.KeyedRows

/-!
# Group membership from a directory

`BuildGroupPlan` compares the groups a directory reports for a person with the groups that
person is in here, over the mappings an operator declared; `ApplyGroupPlan` replays the plan
on the membership table, one statement for each action. A Go map is a finite map whose
entries stand in the order of its iteration, so what is proved holds for any order.

The plan changes a membership at most once, and the table is keyed by group and user: the row under
one key after the sync is the row that its one action leaves.
-/
namespace Signari.DirectoryGroups
open KeyedMaps KeyedRows List

structure MemberRow where
  groupID : String
  userID : String
  orgID : String

/-- The primary key of `core.group_members`. -/
def MemberRow.key (r : MemberRow) : String × String := (r.groupID, r.userID)

structure GroupsSynced where
  sourceID : String
  orgID : String
  joined : ℕ
  left : ℕ

/-- What the sync reads and writes: the ids of users and groups that a membership may name,
the memberships, and the audit events of syncs. -/
structure Store where
  users : List String
  groups : List String
  members : Table MemberRow.key
  audit : List GroupsSynced

structure GroupMapping where
  remoteGroup : String
  groupID : String
  groupName : String

inductive ActionKind where
  | join
  | leave
  deriving DecidableEq

structure GroupAction where
  kind : ActionKind
  userID : String
  groupID : String
  groupName : String
  remoteGroup : String

structure GroupPlan where
  actions : List GroupAction
  membershipsBefore : ℕ
  refused : String

def GroupPlan.safe (p : GroupPlan) : Bool := p.refused == ""

def GroupPlan.count (p : GroupPlan) (kind : ActionKind) : ℕ := p.actions.countP (·.kind == kind)

section

variable (mappings : List GroupMapping)

def Governed (gid : String) : Prop := ∃ m ∈ mappings, m.groupID = gid

/-- `governed[gid]`: of several mappings of a group, the last one. -/
def governed (gid : String) : Option GroupMapping :=
  (mappings.filter fun m => m.groupID == gid).getLast?

def want (names : List String) : Map String GroupMapping :=
  names.foldl (fun out name =>
    (mappings.filter fun m => m.remoteGroup == name).foldl
      (fun out m => out.insert m.groupID m) out) ∅

/-- The set of groups a person is in today. -/
def held (current : Map String (List String)) (userID : String) : List String :=
  ((current.lookup userID).getD []).dedup

def userActions (current : Map String (List String)) (userID : String) (names : List String) :
    List GroupAction :=
  let want := want mappings names
  let held := held current userID
  let joins := want.entries.filterMap fun e =>
    if e.1 ∈ held then none
    else some ⟨.join, userID, e.1, e.2.groupName, e.2.remoteGroup⟩
  let leaves := held.filterMap fun gid =>
    if gid ∈ want then none
    else (governed mappings gid).map fun m => ⟨.leave, userID, gid, m.groupName, m.remoteGroup⟩
  joins ++ leaves

def GroupAction.le (a b : GroupAction) : Bool :=
  if a.userID ≠ b.userID then decide (a.userID ≤ b.userID) else decide (a.groupID ≤ b.groupID)

def checkRemovalCeiling (maxPercent : ℤ) (p : GroupPlan) : GroupPlan := let leave := p.count .leave
  let share := leave * 100 / p.membershipsBefore
  if leave = 0 ∨ p.membershipsBefore = 0 ∨ maxPercent ≤ 0 ∨ (share : ℤ) ≤ maxPercent then p
  else
    { p with
      refused := "this sync would remove " ++ toString leave ++ " of " ++
        toString p.membershipsBefore ++ " memberships (" ++ toString share ++ "%), over the " ++
        toString maxPercent ++ "% ceiling. " ++
        "Nothing has been applied. Group membership decides which applications " ++
        "people reach, so a cliff like this takes access away from everybody at " ++
        "once -- and it is almost always a bad fetch rather than a real " ++
        "reorganisation. Check the plan, and raise the ceiling deliberately if " ++
        "it is genuinely correct" }

def buildGroupPlan (remoteGroups current : Map String (List String)) (maxRemovalPercent : ℤ) :
    GroupPlan :=
  let actions := remoteGroups.entries.flatMap fun e => userActions mappings current e.1 e.2
  checkRemovalCeiling maxRemovalPercent
    { actions := actions.mergeSort GroupAction.le
      membershipsBefore := (current.entries.map fun e => e.2.length).sum
      refused := "" }

end

section

variable (mappings : List GroupMapping) (sourceID orgID : String)

def loadGroupState (store : Store) : Map String (List String) :=
  (store.members.rows.filter fun r =>
      r.orgID == orgID && mappings.any fun m => m.groupID == r.groupID).foldl
    (fun out r => out.insert r.userID ((out.lookup r.userID).getD [] ++ [r.groupID])) ∅

/-- One statement of `ApplyGroupPlan`. -/
def applyAction (a : GroupAction) (store : Store) : Except String Store := match a.kind with
  | .join =>
    if a.userID ∉ store.users ∨ a.groupID ∉ store.groups then
      .error ("adding " ++ a.userID ++ " to group " ++ a.groupID ++
        ": violates foreign key constraint")
    else .ok { store with
      members := store.members.upsert ⟨a.groupID, a.userID, orgID⟩ (fun r => r) fun _ => rfl }
  | .leave =>
    match store.members.lookup (a.groupID, a.userID) with
    | some r =>
      if r.orgID = orgID then
        .ok { store with members := store.members.erase (a.groupID, a.userID) }
      else .ok store
    | none => .ok store

/-- A statement that fails undoes the whole transaction. -/
def applyGroupPlan (store : Store) (p : GroupPlan) : Except String Store :=
  if p.safe = false then .error ("refusing to apply an unsafe plan: " ++ p.refused)
  else if p.actions = [] then .ok store
  else match foldKeys (applyAction orgID) p.actions store with
    | .error e => .error e
    | .ok store => .ok { store with
        audit := store.audit ++ [⟨sourceID, orgID, p.count .join, p.count .leave⟩] }

end

section

variable {mappings : List GroupMapping}

def Granted (mappings : List GroupMapping) (names : List String) (gid : String) : Prop :=
  ∃ m ∈ mappings, m.remoteGroup ∈ names ∧ m.groupID = gid

theorem mem_foldl_insert {gid : String} (ms : List GroupMapping) (out : Map String GroupMapping) :
    gid ∈ ms.foldl (fun out m => out.insert m.groupID m) out ↔
      gid ∈ out ∨ ∃ m ∈ ms, m.groupID = gid := by
  induction ms generalizing out with
  | nil => simp
  | cons m ms ih =>
    rw [foldl_cons, ih, AList.mem_insert]
    simp only [mem_cons, exists_eq_or_imp]
    constructor
    · rintro ((h | h) | h)
      · exact .inr (.inl h.symm)
      · exact .inl h
      · exact .inr (.inr h)
    · rintro (h | h | h)
      · exact .inl (.inr h)
      · exact .inl (.inl h.symm)
      · exact .inr h

theorem mem_want {names : List String} {gid : String} :
    gid ∈ want mappings names ↔ Granted mappings names gid := by
  have hfold : ∀ out : Map String GroupMapping,
      gid ∈ names.foldl (fun out name =>
        (mappings.filter fun m => m.remoteGroup == name).foldl
          (fun out m => out.insert m.groupID m) out) out ↔
        gid ∈ out ∨ Granted mappings names gid := by
    induction names with
    | nil => simp [Granted]
    | cons name names ih =>
      intro out
      rw [foldl_cons, ih, mem_foldl_insert, or_assoc]
      refine or_congr_right ?_
      unfold Granted
      constructor
      · rintro (⟨m, hm, hg⟩ | ⟨m, hm, hn, hg⟩)
        · rw [mem_filter, beq_iff_eq] at hm
          exact ⟨m, hm.1, hm.2 ▸ mem_cons_self, hg⟩
        · exact ⟨m, hm, mem_cons_of_mem name hn, hg⟩
      · rintro ⟨m, hm, hn, hg⟩
        rcases mem_cons.mp hn with hn | hn
        · exact .inl ⟨m, mem_filter.mpr ⟨hm, beq_iff_eq.mpr hn⟩, hg⟩
        · exact .inr ⟨m, hm, hn, hg⟩
  rw [want, hfold]
  simp

theorem Granted.governed {names : List String} {gid : String}
    (h : Granted mappings names gid) : Governed mappings gid := by
  obtain ⟨m, hm, -, hg⟩ := h
  exact ⟨m, hm, hg⟩

theorem governed_isSome {gid : String} :
    (governed mappings gid).isSome ↔ Governed mappings gid := by
  rw [DirectoryGroups.governed, getLast?_isSome, ne_eq, filter_eq_nil_iff]
  simp [Governed]

theorem mem_userActions {current : Map String (List String)} {u : String} {names : List String}
    {a : GroupAction} (h : a ∈ userActions mappings current u names) :
    a.userID = u ∧
      ((a.kind = .join ∧ Granted mappings names a.groupID ∧ a.groupID ∉ held current u) ∨
        (a.kind = .leave ∧ ¬Granted mappings names a.groupID ∧ a.groupID ∈ held current u ∧
          Governed mappings a.groupID)) := by
  rw [userActions, mem_append, mem_filterMap, mem_filterMap] at h
  rcases h with ⟨e, he, h⟩ | ⟨gid, hgid, h⟩
  · split at h
    · cases h
    · rename_i hheld
      obtain rfl := Option.some.inj h
      refine ⟨rfl, .inl ⟨rfl, mem_want.mp ?_, hheld⟩⟩
      exact AList.mem_keys.mpr (mem_map_of_mem he)
  · split at h
    · cases h
    · rename_i hwant
      rw [Option.map_eq_some_iff] at h
      obtain ⟨m, hm, rfl⟩ := h
      refine ⟨rfl, .inr ⟨rfl, fun hg => hwant (mem_want.mpr hg), hgid, ?_⟩⟩
      exact governed_isSome.mp (Option.isSome_of_eq_some hm)

theorem exists_join {current : Map String (List String)} {u gid : String} {names : List String}
    (hg : Granted mappings names gid) (hheld : gid ∉ held current u) :
    ∃ a ∈ userActions mappings current u names,
      a.kind = .join ∧ a.userID = u ∧ a.groupID = gid := by
  obtain ⟨e, he, rfl⟩ := mem_map.mp (mem_want.mpr hg)
  refine ⟨_, mem_append_left _ (mem_filterMap.mpr ⟨e, he, if_neg hheld⟩), rfl, rfl, rfl⟩

theorem exists_leave {current : Map String (List String)} {u gid : String} {names : List String}
    (hg : ¬Granted mappings names gid) (hgov : Governed mappings gid)
    (hheld : gid ∈ held current u) :
    ∃ a ∈ userActions mappings current u names,
      a.kind = .leave ∧ a.userID = u ∧ a.groupID = gid := by
  obtain ⟨m, hm⟩ := Option.isSome_iff_exists.mp (governed_isSome.mpr hgov)
  refine ⟨⟨.leave, u, gid, m.groupName, m.remoteGroup⟩, mem_append_right _
    (mem_filterMap.mpr ⟨gid, hheld, ?_⟩), rfl, rfl, rfl⟩
  rw [if_neg fun h => hg (mem_want.mp h), hm]
  rfl

theorem userActions_nodup (current : Map String (List String)) (u : String)
    (names : List String) : ((userActions mappings current u names).map (·.groupID)).Nodup := by
  rw [userActions, map_append, List.nodup_append]
  refine ⟨?_, ?_, ?_⟩
  · refine Nodup.sublist ?_ (want mappings names).keys_nodup
    refine filterMap_map_sublist _ _ Sigma.fst ?_ _
    intro e a ha
    split at ha
    · cases ha
    · obtain rfl := Option.some.inj ha
      rfl
  · have hheld : (held current u).Nodup := nodup_dedup _
    rw [← map_id (held current u)] at hheld
    refine Nodup.sublist ?_ hheld
    refine filterMap_map_sublist _ _ id ?_ _
    intro gid a ha
    split at ha
    · cases ha
    · rw [Option.map_eq_some_iff] at ha
      obtain ⟨m, -, rfl⟩ := ha
      rfl
  · intro g hg g' hg' heq
    obtain ⟨a, ha, rfl⟩ := mem_map.mp hg
    obtain ⟨b, hb, rfl⟩ := mem_map.mp hg'
    obtain ⟨e, -, ha⟩ := mem_filterMap.mp ha
    obtain ⟨gid, hgid, hb⟩ := mem_filterMap.mp hb
    split at ha
    · cases ha
    · rename_i hheld
      split at hb
      · cases hb
      · obtain rfl := Option.some.inj ha
        rw [Option.map_eq_some_iff] at hb
        obtain ⟨m, -, rfl⟩ := hb
        obtain rfl : e.1 = gid := heq
        exact hheld hgid

/-- The membership an action is about. -/
def GroupAction.key (a : GroupAction) : String × String := (a.groupID, a.userID)

variable {remote current : Map String (List String)} {maxPercent : ℤ}

theorem buildGroupPlan_actions :
    (buildGroupPlan mappings remote current maxPercent).actions =
      (remote.entries.flatMap fun e =>
        userActions mappings current e.1 e.2).mergeSort GroupAction.le := by
  unfold buildGroupPlan checkRemovalCeiling
  dsimp only
  split <;> rfl

theorem safe_of_no_ceiling (h : maxPercent ≤ 0) :
    (buildGroupPlan mappings remote current maxPercent).safe = true := by
  unfold buildGroupPlan checkRemovalCeiling
  dsimp only
  rw [if_pos (.inr (.inr (.inl h)))]
  rfl

theorem mem_actions {a : GroupAction} :
    a ∈ (buildGroupPlan mappings remote current maxPercent).actions ↔
      ∃ u names, remote.lookup u = some names ∧ a ∈ userActions mappings current u names := by
  rw [buildGroupPlan_actions, mem_mergeSort, mem_flatMap]
  constructor
  · rintro ⟨e, he, ha⟩
    exact ⟨e.1, e.2, AList.mem_lookup_iff.mpr he, ha⟩
  · rintro ⟨u, names, hu, ha⟩
    exact ⟨⟨u, names⟩, AList.mem_lookup_iff.mp hu, ha⟩

/-- No membership is changed twice. -/
theorem actions_nodup :
    ((buildGroupPlan mappings remote current maxPercent).actions.map GroupAction.key).Nodup := by
  rw [buildGroupPlan_actions, ((mergeSort_perm _ _).map _).nodup_iff, map_flatMap, nodup_flatMap]
  constructor
  · intro e _
    have hkeys : (userActions mappings current e.1 e.2).map GroupAction.key =
        ((userActions mappings current e.1 e.2).map (·.groupID)).map fun g => (g, e.1) := by
      rw [map_map]
      refine map_congr_left ?_
      intro a ha
      rw [GroupAction.key, (mem_userActions ha).1]
      rfl
    rw [hkeys]
    exact (userActions_nodup current e.1 e.2).map fun g g' h => (Prod.mk.inj h).1
  · refine (pairwise_map.mp remote.nodupKeys).imp ?_
    intro e e' hne k hk hk'
    obtain ⟨a, ha, rfl⟩ := mem_map.mp hk
    obtain ⟨b, hb, hkey⟩ := mem_map.mp hk'
    have huser : b.userID = a.userID := (Prod.mk.inj hkey).2
    rw [(mem_userActions ha).1, (mem_userActions hb).1] at huser
    exact hne huser.symm

end

section

variable {mappings : List GroupMapping} {orgID : String} {store : Store}

theorem lookup_foldl_append (rows : List MemberRow) (out : Map String (List String)) (u : String) :
    ((rows.foldl (fun out r =>
      out.insert r.userID ((out.lookup r.userID).getD [] ++ [r.groupID])) out).lookup u).getD [] =
      (out.lookup u).getD [] ++ (rows.filter fun r => r.userID == u).map (·.groupID) := by
  induction rows generalizing out with
  | nil => simp
  | cons r rows ih =>
    rw [foldl_cons, ih]
    by_cases hu : r.userID = u
    · subst hu
      simp [AList.lookup_insert]
    · rw [AList.lookup_insert_ne (Ne.symm hu), filter_cons_of_neg (by simpa using hu)]

theorem mem_held_load {u gid : String} :
    gid ∈ held (loadGroupState mappings orgID store) u ↔
      Governed mappings gid ∧ store.members.lookup (gid, u) = some ⟨gid, u, orgID⟩ := by
  rw [held, mem_dedup, loadGroupState, lookup_foldl_append]
  simp only [AList.lookup_empty, Option.getD_none, nil_append, mem_map, mem_filter,
    Bool.and_eq_true, beq_iff_eq, any_eq_true]
  constructor
  · rintro ⟨⟨g, u', o⟩, ⟨⟨hr, rfl, hgov⟩, rfl⟩, rfl⟩
    exact ⟨hgov, Table.mem_rows.mp hr⟩
  · rintro ⟨hgov, hlookup⟩
    exact ⟨⟨gid, u, orgID⟩, ⟨⟨Table.mem_rows.mpr hlookup, rfl, hgov⟩, rfl⟩, rfl⟩

/-- What a statement makes of the row under a key. -/
def written (orgID : String) (a : GroupAction) (k : String × String) (v : Option MemberRow) :
    Option MemberRow :=
  if k = a.key then
    match a.kind with
    | .join => some (v.getD ⟨a.groupID, a.userID, orgID⟩)
    | .leave => v.filter fun r => r.orgID != orgID
  else v

theorem applyAction_lookup (a : GroupAction) (s s' : Store)
    (h : applyAction orgID a s = .ok s') (k : String × String) :
    s'.members.lookup k = written orgID a k (s.members.lookup k) := by
  unfold applyAction at h
  unfold written
  cases hkind : a.kind with
  | join =>
    simp only [hkind] at h ⊢
    split at h
    · cases h
    · obtain rfl := Except.ok.inj h
      rw [Table.lookup_upsert]
      change (if k = a.key then _ else _) = _
      split
      · cases s.members.lookup k <;> rfl
      · rfl
  | leave =>
    simp only [hkind] at h ⊢
    cases hrow : s.members.lookup (a.groupID, a.userID) with
    | none =>
      simp only [hrow] at h
      obtain rfl := Except.ok.inj h
      split
      · rename_i hk
        rw [hk, GroupAction.key, hrow]
        rfl
      · rfl
    | some r =>
      simp only [hrow] at h
      split at h
      · rename_i horg
        obtain rfl := Except.ok.inj h
        rw [Table.lookup_erase]
        change (if k = a.key then _ else _) = _
        split
        · rename_i hk
          rw [hk, GroupAction.key, hrow]
          simp [Option.filter, horg]
        · rfl
      · rename_i horg
        obtain rfl := Except.ok.inj h
        split
        · rename_i hk
          rw [hk, GroupAction.key, hrow]
          simp [Option.filter, horg]
        · rfl

theorem applyAction_frame {a : GroupAction} {s s' : Store} (h : applyAction orgID a s = .ok s') :
    s'.users = s.users ∧ s'.groups = s.groups := by
  unfold applyAction at h
  split at h
  · split at h
    · cases h
    · obtain rfl := Except.ok.inj h
      exact ⟨rfl, rfl⟩
  · split at h
    · split at h <;>
      · obtain rfl := Except.ok.inj h
        exact ⟨rfl, rfl⟩
    · obtain rfl := Except.ok.inj h
      exact ⟨rfl, rfl⟩

theorem applyAction_exists {a : GroupAction} {s : Store}
    (h : a.kind = .join → a.userID ∈ s.users ∧ a.groupID ∈ s.groups) :
    ∃ s', applyAction orgID a s = .ok s' := by
  unfold applyAction
  cases hkind : a.kind with
  | join =>
    obtain ⟨hu, hg⟩ := h hkind
    simp [hu, hg]
  | leave =>
    cases s.members.lookup (a.groupID, a.userID) with
    | none => exact ⟨s, rfl⟩
    | some r =>
      by_cases horg : r.orgID = orgID
      · exact ⟨_, if_pos horg⟩
      · exact ⟨_, if_neg horg⟩

theorem applyActions_exists (orgID : String) {actions : List GroupAction} {s : Store}
    (h : ∀ a ∈ actions, a.kind = .join → a.userID ∈ s.users ∧ a.groupID ∈ s.groups) :
    ∃ t, foldKeys (applyAction orgID) actions s = .ok t := by
  induction actions generalizing s with
  | nil => exact ⟨s, rfl⟩
  | cons a actions ih =>
    obtain ⟨s', hs'⟩ := applyAction_exists (h a mem_cons_self)
    obtain ⟨hu, hg⟩ := applyAction_frame hs'
    obtain ⟨t, ht⟩ := ih (s := s') (by
      intro b hb hkind
      rw [hu, hg]
      exact h b (mem_cons_of_mem a hb) hkind)
    exact ⟨t, foldKeys_cons_ok.mpr ⟨s', hs', ht⟩⟩

theorem applyGroupPlan_exists (sourceID orgID : String) {p : GroupPlan} (hsafe : p.safe = true)
    (h : ∀ a ∈ p.actions, a.kind = .join → a.userID ∈ store.users ∧ a.groupID ∈ store.groups) :
    ∃ store', applyGroupPlan sourceID orgID store p = .ok store' ∧
      ∀ k, store'.members.lookup k =
        p.actions.foldl (fun v a => written orgID a k v) (store.members.lookup k) := by
  unfold applyGroupPlan
  rw [if_neg (by simp [hsafe])]
  by_cases hnil : p.actions = []
  · refine ⟨store, if_pos hnil, ?_⟩
    simp [hnil]
  · obtain ⟨t, ht⟩ := applyActions_exists orgID h
    rw [if_neg hnil, ht]
    refine ⟨_, rfl, ?_⟩
    exact foldKeys_pointwise (fun k s => s.members.lookup k) (fun a k v => written orgID a k v) ht
      (fun a s s' hs k => applyAction_lookup a s s' hs k)

theorem foldl_written {actions : List GroupAction} (hnodup : (actions.map GroupAction.key).Nodup)
    {a : GroupAction} (ha : a ∈ actions) (v : Option MemberRow) :
    actions.foldl (fun v b => written orgID b a.key v) v = written orgID a a.key v := by
  refine foldl_single hnodup ha ?_
  intro b _ hne v
  rw [written, if_neg (Ne.symm hne)]

theorem foldl_unwritten {actions : List GroupAction} {k : String × String}
    (h : ∀ a ∈ actions, a.key ≠ k) (v : Option MemberRow) :
    actions.foldl (fun v b => written orgID b k v) v = v := by
  refine foldl_untouched ?_
  intro a ha v
  rw [written, if_neg (Ne.symm (h a ha))]

theorem membership_after {remote : Map String (List String)} {maxPercent : ℤ} {u g : String}
    {names : List String}
    (hrows : ∀ r ∈ store.members.rows, Governed mappings r.groupID → r.orgID = orgID)
    (hu : remote.lookup u = some names) (hgov : Governed mappings g) :
    ((buildGroupPlan mappings remote (loadGroupState mappings orgID store)
      maxPercent).actions.foldl (fun v a => written orgID a (g, u) v)
        (store.members.lookup (g, u))).isSome ↔ Granted mappings names g := by
  have honly : ∀ a ∈ (buildGroupPlan mappings remote (loadGroupState mappings orgID store)
      maxPercent).actions, a.key = (g, u) →
      a ∈ userActions mappings (loadGroupState mappings orgID store) u names := by
    intro a ha hkey
    obtain ⟨u', names', hu', ha⟩ := mem_actions.mp ha
    obtain rfl : u' = u := (mem_userActions ha).1.symm.trans (Prod.mk.inj hkey).2
    obtain rfl := Option.some.inj (hu'.symm.trans hu)
    exact ha
  have hplan : ∀ a ∈ userActions mappings (loadGroupState mappings orgID store) u names,
      a ∈ (buildGroupPlan mappings remote (loadGroupState mappings orgID store)
        maxPercent).actions :=
    fun a ha => mem_actions.mpr ⟨u, names, hu, ha⟩
  have hheld : g ∈ held (loadGroupState mappings orgID store) u ↔
      (store.members.lookup (g, u)).isSome := by
    rw [mem_held_load]
    constructor
    · exact fun h => Option.isSome_of_eq_some h.2
    · intro h
      obtain ⟨⟨g', u', o⟩, hr⟩ := Option.isSome_iff_exists.mp h
      have hkey : MemberRow.key ⟨g', u', o⟩ = (g, u) := Table.key_of_lookup hr
      obtain ⟨rfl, rfl⟩ := Prod.mk.inj hkey
      obtain rfl := hrows _ (Table.mem_rows.mpr hr) hgov
      exact ⟨hgov, hr⟩
  by_cases hgranted : Granted mappings names g
  · simp only [hgranted, iff_true]
    by_cases hmember : g ∈ held (loadGroupState mappings orgID store) u
    · rw [foldl_unwritten, ← hheld]
      · exact hmember
      · intro a ha hkey
        obtain ⟨-, ⟨-, -, hnot⟩ | ⟨-, hnot, -⟩⟩ := mem_userActions (honly a ha hkey)
        · exact hnot ((Prod.mk.inj hkey).1 ▸ hmember)
        · exact hnot ((Prod.mk.inj hkey).1 ▸ hgranted)
    · obtain ⟨a, ha, hkind, rfl, rfl⟩ := exists_join hgranted hmember
      rw [show (a.groupID, a.userID) = a.key from rfl, foldl_written actions_nodup (hplan a ha)]
      simp [written, hkind]
  · simp only [hgranted, iff_false]
    by_cases hmember : g ∈ held (loadGroupState mappings orgID store) u
    · obtain ⟨a, ha, hkind, rfl, rfl⟩ := exists_leave hgranted hgov hmember
      rw [show (a.groupID, a.userID) = a.key from rfl, foldl_written actions_nodup (hplan a ha),
        GroupAction.key, (mem_held_load.mp hmember).2]
      simp [written, hkind, GroupAction.key, Option.filter]
    · rw [foldl_unwritten, ← hheld]
      · exact hmember
      · intro a ha hkey
        obtain ⟨-, ⟨-, hyes, -⟩ | ⟨-, -, hyes, -⟩⟩ := mem_userActions (honly a ha hkey)
        · exact hgranted ((Prod.mk.inj hkey).1 ▸ hyes)
        · exact hmember ((Prod.mk.inj hkey).1 ▸ hyes)

/-- After a sync that is not refused, everyone the directory reported is in precisely the
governed groups its report grants; every other membership is as before. Foreign keys promise
that the ids exist, and a row of a governed group carries the organisation of that group. -/
theorem groupSync_reaches (mappings : List GroupMapping) (sourceID orgID : String)
    (store : Store) (remote : Map String (List String)) (maxPercent : ℤ)
    (hgroups : ∀ m ∈ mappings, m.groupID ∈ store.groups)
    (husers : ∀ u ∈ remote, u ∈ store.users)
    (hrows : ∀ r ∈ store.members.rows, Governed mappings r.groupID → r.orgID = orgID)
    (hsafe : (buildGroupPlan mappings remote (loadGroupState mappings orgID store)
      maxPercent).safe = true) :
    ∃ store', applyGroupPlan sourceID orgID store
        (buildGroupPlan mappings remote (loadGroupState mappings orgID store) maxPercent) =
          .ok store' ∧
      (∀ u names, remote.lookup u = some names → ∀ g, Governed mappings g →
        ((store'.members.lookup (g, u)).isSome ↔ Granted mappings names g)) ∧
      ∀ u g, u ∉ remote ∨ ¬Governed mappings g →
        store'.members.lookup (g, u) = store.members.lookup (g, u) := by
  have hspec : ∀ a ∈ (buildGroupPlan mappings remote (loadGroupState mappings orgID store)
      maxPercent).actions, a.userID ∈ remote ∧ Governed mappings a.groupID := by
    intro a ha
    obtain ⟨u, names, hu, ha⟩ := mem_actions.mp ha
    obtain ⟨rfl, hkind⟩ := mem_userActions ha
    refine ⟨AList.lookup_isSome.mp (Option.isSome_of_eq_some hu), ?_⟩
    rcases hkind with ⟨-, hgranted, -⟩ | ⟨-, -, -, hgov⟩
    · exact hgranted.governed
    · exact hgov
  obtain ⟨store', hok, hlookup⟩ := applyGroupPlan_exists sourceID orgID hsafe (by
      intro a ha _
      obtain ⟨hu, m, hm, hg⟩ := hspec a ha
      exact ⟨husers _ hu, hg ▸ hgroups m hm⟩)
  refine ⟨store', hok, ?_, ?_⟩
  · intro u names hu g hgov
    rw [hlookup]
    exact membership_after hrows hu hgov
  · intro u g hout
    rw [hlookup]
    refine foldl_unwritten ?_ _
    intro a ha hkey
    obtain ⟨hu, hg⟩ := hspec a ha
    obtain ⟨rfl, rfl⟩ := Prod.mk.inj hkey
    exact hout.elim (fun h => h hu) fun h => h hg

/-- One user leaves a group and joins another. -/
theorem groupSync_reaches_exchange :
    let mappings : List GroupMapping := [⟨"eng", "g1", "eng"⟩, ⟨"ops", "g2", "ops"⟩]
    let store : Store := ⟨["u1"], ["g1", "g2"], ⟨[⟨"g1", "u1", "o"⟩], by decide⟩, []⟩
    let remote : Map String (List String) := AList.singleton "u1" ["ops"]
    ∃ store', applyGroupPlan "src" "o" store
        (buildGroupPlan mappings remote (loadGroupState mappings "o" store) 0) = .ok store' ∧
      (store'.members.lookup ("g2", "u1")).isSome ∧
      ¬(store'.members.lookup ("g1", "u1")).isSome := by
  intro mappings store remote
  obtain ⟨store', hok, hin, -⟩ := groupSync_reaches mappings "src" "o" store remote 0
    (by decide) (by decide) (by simp [store]) (safe_of_no_ceiling le_rfl)
  have hu : remote.lookup "u1" = some ["ops"] := rfl
  refine ⟨store', hok, (hin "u1" ["ops"] hu "g2" ?_).mpr ?_, fun h => ?_⟩
  · exact ⟨⟨"ops", "g2", "ops"⟩, by simp [mappings], rfl⟩
  · exact ⟨⟨"ops", "g2", "ops"⟩, by simp [mappings], by simp, rfl⟩
  · obtain ⟨m, hm, hname, hg⟩ := (hin "u1" ["ops"] hu "g1"
      ⟨⟨"eng", "g1", "eng"⟩, by simp [mappings], rfl⟩).mp h
    simp only [mappings, mem_cons, not_mem_nil, or_false] at hm hname
    rcases hm with rfl | rfl
    · simp at hname
    · simp at hg

end

end Signari.DirectoryGroups
