import Signari.ScimGroupPatch

/-!
# The order a group PATCH is applied in

Reading an operation after others records the same changes as reading it alone
(`groupOperation_append`), so a PATCH is the list of its operations' own patches.

The store applies the collected patch instead, replacements first: a PATCH that sends both means the
list and then the adjustments. It says nothing about a user who is added in a later operation than
one that removed them; the store leaves such a user out.
-/
namespace Signari.ScimGroupSequence
open GoStrings IndexedChecks JsonValues ScimPath ScimGroupPatch List

@[simp] theorem append_empty (out : GroupPatch) : out.append {} = out := by
  simp [GroupPatch.append]

@[simp] theorem empty_append (g : GroupPatch) : ({} : GroupPatch).append g = g := by
  simp [GroupPatch.append]

theorem append_assoc (a b c : GroupPatch) : (a.append b).append c = a.append (b.append c) := by
  simp only [GroupPatch.append, List.append_assoc, GroupPatch.mk.injEq, and_true, true_and]
  cases c.displayName <;> cases c.replaceMembers <;> simp

variable {isFloat : String → Bool}

theorem assignPath_append (out : GroupPatch) (verb path : String) (raw : Option Json) :
    assignPath isFloat out verb path raw =
      (assignPath isFloat {} verb path raw).map out.append := by
  unfold assignPath
  split_ifs
  · split <;> simp [Except.map, GroupPatch.append]
  · cases memberIDs raw <;> simp [bind, Except.bind, Except.map, GroupPatch.append]
  · cases memberIDs raw <;> simp [bind, Except.bind, Except.map, GroupPatch.append]
  · cases memberIDFromPath isFloat path with
    | error e => simp [bind, Except.bind, Except.map]
    | ok id =>
      by_cases hid : id = "" <;> simp [bind, Except.bind, Except.map, GroupPatch.append, hid]

mutual

theorem groupAssign_append (out : GroupPatch) (verb path : String) (raw : Json) :
    groupAssign isFloat out verb path raw =
      (groupAssign isFloat {} verb path raw).map out.append := by
  by_cases hp : path = ""
  · match raw with
    | .obj members =>
      simp only [groupAssign, hp, ne_eq, not_true_eq_false, if_false]
      exact groupAssignAll_append out verb members
    | .null => simp [groupAssign, hp, Except.map]
    | .bool _ | .num _ | .str _ | .arr _ => simp [groupAssign, hp, Except.map]
  · match raw with
    | .obj _ | .null | .bool _ | .num _ | .str _ | .arr _ =>
      simp only [groupAssign, hp, ne_eq, not_false_eq_true, if_true]
      exact assignPath_append out verb path _

theorem groupAssignAll_append (out : GroupPatch) (verb : String) :
    ∀ ms : List (String × Json), groupAssignAll isFloat out verb ms =
      (groupAssignAll isFloat {} verb ms).map out.append
  | [] => by simp [groupAssignAll, Except.map]
  | (key, v) :: ms => by
      rw [groupAssignAll, groupAssignAll, groupAssign_append out verb key v]
      by_cases hagain : ms.any fun m => m.1 == key
      · rw [if_pos hagain, if_pos hagain]
        exact groupAssignAll_append out verb ms
      rw [if_neg hagain, if_neg hagain]
      cases groupAssign isFloat {} verb key v with
      | error e => rfl
      | ok g =>
        simp only [Except.map]
        rw [groupAssignAll_append (out.append g) verb ms, groupAssignAll_append g verb ms]
        cases groupAssignAll isFloat {} verb ms with
        | error e => rfl
        | ok h => simp only [Except.map, append_assoc]

end

theorem groupRemove_append (out : GroupPatch) (path : String) (raw : Option Json) :
    groupRemove isFloat out path raw = (groupRemove isFloat {} path raw).map out.append := by
  unfold groupRemove
  by_cases hp : path = ""
  · simp [hp, refuseIf, bind, Except.bind, Except.map]
  · cases memberIDFromPath isFloat path with
    | error e => simp [hp, refuseIf, bind, Except.bind, Except.map]
    | ok id =>
      simp only [refuseIf, hp, if_false, bind, Except.bind]
      split_ifs with h₁ h₂ h₃
      · simp [Except.map, GroupPatch.append]
      · match raw with
        | none | some .null => simp [Except.map, GroupPatch.append]
        | some (.bool _) | some (.num _) | some (.str _) | some (.arr _) | some (.obj _) =>
          dsimp only
          cases memberIDs _ <;> simp [Except.map, GroupPatch.append]
      · simp [Except.map]
      · simp [Except.map, GroupPatch.append]

theorem groupOperation_append (out : GroupPatch) (op : PatchOp) :
    groupOperation isFloat out op = (groupOperation isFloat {} op).map out.append := by
  unfold groupOperation
  dsimp only
  by_cases hset : toLower (trimSpace op.op) = "add" ∨ toLower (trimSpace op.op) = "replace"
  · simp only [hset, if_true]
    cases op.value with
    | none =>
      by_cases hp : trimSpace op.path = ""
      · simp [hp, Except.map]
      · simp only [hp, if_false]
        exact assignPath_append _ _ _ _
    | some j => exact groupAssign_append _ _ _ j
  · simp only [hset, if_false]
    by_cases hrm : toLower (trimSpace op.op) = "remove"
    · simp only [hrm, if_true]
      exact groupRemove_append _ _ _
    · simp [hrm, Except.map]

theorem applyOperations_own {ops : List PatchOp} {i : ℕ} {out p : GroupPatch}
    (h : applyOperations isFloat i ops out = .ok p) :
    ∃ gs, List.Forall₂ (fun op g => groupOperation isFloat {} op = .ok g) ops gs ∧
      p = gs.foldl GroupPatch.append out := by
  induction ops generalizing i out with
  | nil =>
    simp only [applyOperations, Except.ok.injEq] at h
    exact ⟨[], .nil, h.symm⟩
  | cons op ops ih =>
    rw [applyOperations, groupOperation_append] at h
    cases hop : groupOperation isFloat {} op with
    | error e =>
      simp only [hop, Except.map] at h
      cases h
    | ok g =>
      simp only [hop, Except.map] at h
      obtain ⟨gs, hgs, rfl⟩ := ih h
      exact ⟨g :: gs, .cons hop hgs, rfl⟩

theorem applyGroupPatch_own {ops : List PatchOp} {p : GroupPatch}
    (h : applyGroupPatch isFloat ops = .ok p) :
    ∃ gs, List.Forall₂ (fun op g => groupOperation isFloat {} op = .ok g) ops gs ∧
      p = gs.foldl GroupPatch.append {} := by
  simp only [applyGroupPatch, bind_ok] at h
  obtain ⟨_, _, _, _, hops⟩ := h
  exact applyOperations_own hops

section

variable (env : GroupEnv)

def usersNamed (ids : List String) : Finset String := (ids.filterMap env.resolve).toFinset

/-- One patch as a change of a member set: a list given replaces the members, then additions
insert and removals delete. -/
def applyPatch (members : Finset String) (g : GroupPatch) : Finset String :=
  ((match g.replaceMembers with
    | none => members
    | some ids => usersNamed env ids) ∪ usersNamed env g.addMembers) \
      usersNamed env g.removeMembers

/-- The patches applied one after another. -/
def applySequentially (gs : List GroupPatch) (members : Finset String) : Finset String :=
  gs.foldl (applyPatch env) members

def resetPart (g : GroupPatch) : GroupPatch := { replaceMembers := g.replaceMembers }

def deltaPart (g : GroupPatch) : GroupPatch :=
  { addMembers := g.addMembers, removeMembers := g.removeMembers }

/-- Every id the patch acts on belongs to a user this source provisioned. -/
def Resolves (g : GroupPatch) : Prop :=
  ∀ id ∈ g.replaceMembers.getD [] ++ g.addMembers ++ g.removeMembers, (env.resolve id).isSome

instance (g : GroupPatch) : Decidable (Resolves env g) :=
  inferInstanceAs (Decidable (∀ id ∈ _, _))

def NeverReadded (gs : List GroupPatch) (u : String) : Prop :=
  gs.Pairwise fun g g' => u ∈ usersNamed env g.removeMembers → u ∉ usersNamed env g'.addMembers

variable {env}

@[simp] theorem usersNamed_nil : usersNamed env [] = ∅ := rfl

theorem usersNamed_append (ids ids' : List String) :
    usersNamed env (ids ++ ids') = usersNamed env ids ∪ usersNamed env ids' := by
  ext u
  simp only [usersNamed, filterMap_append, mem_toFinset, mem_append, Finset.mem_union]

theorem mem_insertAll {u : String} {us : List String} {members : Finset String} :
    u ∈ insertAll members us ↔ u ∈ members ∨ u ∈ us := by
  induction us generalizing members with
  | nil => simp [insertAll]
  | cons v us ih =>
    have hstep : insertAll members (v :: us) = insertAll (insert v members) us := rfl
    rw [hstep, ih, Finset.mem_insert, mem_cons]
    grind

theorem mem_eraseAll {u : String} {us : List String} {members : Finset String} :
    u ∈ eraseAll members us ↔ u ∈ members ∧ u ∉ us := by
  induction us generalizing members with
  | nil => simp [eraseAll]
  | cons v us ih =>
    have hstep : eraseAll members (v :: us) = eraseAll (members.erase v) us := rfl
    rw [hstep, ih, Finset.mem_erase, mem_cons]
    grind

theorem usersForResourceIDs_ok {ids : List String} (h : ∀ id ∈ ids, (env.resolve id).isSome) :
    usersForResourceIDs env ids = .ok (ids.filterMap env.resolve) := by
  induction ids with
  | nil => rfl
  | cons id ids ih =>
    obtain ⟨u, hu⟩ := Option.isSome_iff_exists.mp (h id (.head _))
    simp [usersForResourceIDs, hu, ih fun id' hid' => h id' (.tail _ hid')]

theorem patchMembers_eq {p : GroupPatch} (h : Resolves env p) (members : Finset String) :
    patchMembers env p members = .ok (applyPatch env members p) := by
  have hadd := usersForResourceIDs_ok (fun id (hid : id ∈ p.addMembers) => h id (by simp [hid]))
  have hrm := usersForResourceIDs_ok (fun id (hid : id ∈ p.removeMembers) => h id (by simp [hid]))
  unfold patchMembers applyPatch
  cases hrep : p.replaceMembers with
  | none =>
    simp only [hadd, hrm, bind, Except.bind, Except.ok.injEq]
    ext u
    simp [mem_eraseAll, mem_insertAll, usersNamed]
  | some ids =>
    have hids := usersForResourceIDs_ok (fun id (hid : id ∈ ids) => h id (by simp [hrep, hid]))
    simp only [replaceMembersTx, hids, hadd, hrm, bind, Except.bind, Except.ok.injEq]
    ext u
    simp [mem_eraseAll, mem_insertAll, usersNamed]

theorem applyPatch_resetPart_append (members : Finset String) (a b : GroupPatch) :
    applyPatch env members (resetPart (a.append b)) =
      applyPatch env (applyPatch env members (resetPart a)) (resetPart b) := by
  cases hb : b.replaceMembers <;> simp [applyPatch, resetPart, GroupPatch.append, hb]

theorem applySequentially_resets (gs : List GroupPatch) (out : GroupPatch)
    (members : Finset String) :
    applySequentially env (gs.map resetPart) (applyPatch env members (resetPart out)) =
      applyPatch env members (resetPart (gs.foldl GroupPatch.append out)) := by
  induction gs generalizing out with
  | nil => rfl
  | cons g gs ih =>
    simp only [map_cons, foldl_cons, applySequentially]
    rw [← applyPatch_resetPart_append]
    exact ih (out.append g)

theorem mem_applyPatch_deltaPart {u : String} {members : Finset String} {g : GroupPatch} :
    u ∈ applyPatch env members (deltaPart g) ↔
      (u ∈ members ∨ u ∈ usersNamed env g.addMembers) ∧ u ∉ usersNamed env g.removeMembers := by
  simp [applyPatch, deltaPart]

theorem mem_applyPatch {u : String} {members : Finset String} {g : GroupPatch} :
    u ∈ applyPatch env members g ↔
      (u ∈ applyPatch env members (resetPart g) ∨ u ∈ usersNamed env g.addMembers) ∧
        u ∉ usersNamed env g.removeMembers := by
  cases hg : g.replaceMembers <;> simp [applyPatch, resetPart, hg]

theorem usersNamed_foldl {part : GroupPatch → List String}
    (happend : ∀ a b : GroupPatch, part (a.append b) = part a ++ part b) (gs : List GroupPatch)
    (out : GroupPatch) {u : String} : u ∈ usersNamed env (part (gs.foldl GroupPatch.append out)) ↔
      u ∈ usersNamed env (part out) ∨ ∃ g ∈ gs, u ∈ usersNamed env (part g) := by
  induction gs generalizing out with
  | nil => simp
  | cons g gs ih =>
    simp only [foldl_cons, ih, happend, usersNamed_append, Finset.mem_union, exists_mem_cons_iff,
      or_assoc]

theorem mem_applySequentially_deltas {gs : List GroupPatch} {u : String}
    (hu : NeverReadded env gs u) (members : Finset String) :
    u ∈ applySequentially env (gs.map deltaPart) members ↔
      (u ∈ members ∨ ∃ g ∈ gs, u ∈ usersNamed env g.addMembers) ∧
        ¬ ∃ g ∈ gs, u ∈ usersNamed env g.removeMembers := by
  induction gs generalizing members with
  | nil => simp [applySequentially]
  | cons g gs ih =>
    obtain ⟨hg, hgs⟩ := pairwise_cons.mp hu
    have hstep : applySequentially env ((g :: gs).map deltaPart) members =
        applySequentially env (gs.map deltaPart) (applyPatch env members (deltaPart g)) := rfl
    rw [hstep, ih hgs, mem_applyPatch_deltaPart]
    simp only [exists_mem_cons_iff]
    by_cases hrm : u ∈ usersNamed env g.removeMembers
    · have hnone : ¬ ∃ g' ∈ gs, u ∈ usersNamed env g'.addMembers := by
        rintro ⟨g', hg', hadd⟩
        exact hg g' hg' hrm hadd
      simp [hrm, hnone]
    · simp only [hrm, not_false_eq_true, and_true, false_or]
      grind

end

variable {env : GroupEnv}

def directory : GroupEnv where
  resolve := some
  nameTaken _ := false

def memberValue (id : String) : Json := .arr [.obj [("value", .str id)]]

def addThenReplace : List PatchOp :=
  [{ op := "add", path := "members", value := some (memberValue "ann") },
    { op := "replace", path := "members", value := some (memberValue "bob") }]

def staff : Group where
  name := "staff"
  displayName := "Staff"
  members := ∅

end Signari.ScimGroupSequence
