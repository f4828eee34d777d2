import Signari.ElementReads
import Signari.ScimGroupSequence

/-!
# What a group PATCH leaves unsaid

A PATCH speaks about the member list in several shapes: a value assigned to `members`, a
filtered path that names one member, a removal of the whole list. `mentions` collects these
places from the request, and `Recorded` says what the reader makes of each: an array of member
objects loses the elements without a `value`, an object that repeats a key loses the elements
of the earlier value, and a removal below a schema-qualified `members` is kept as an
unsupported path.

`Accounted` is the patch in which every element of every value stands for one member and every
removal is there; `accounted_iff` tells from the request whether a PATCH that was accepted
has it.
-/
namespace Signari.ScimGroupAccount
open GoStrings IndexedChecks ElementReads JsonValues ScimPath ScimGroupPatch ScimGroupSequence List

inductive Verb where
  | add | replace | remove
  deriving DecidableEq

/-- A change of the member list that a patch carries. -/
structure Change where
  verb : Verb
  ids : List String

/-- A place of a request that speaks about members. -/
inductive Mention where
  | value (verb : Verb) (raw : Option Json)
  | filtered (verb : Verb) (path : String)
  | clear
  | unread (path : String)
  | dropped (element : Json)

/-- The elements of a value for `members`; an object stands for itself. -/
def elements : Option Json → List Json
  | some (.arr items) => items
  | some .null => []
  | some j => [j]
  | none => []

/-- The id one element names: its `value`, or the text itself. -/
def elementID : Json → Option String
  | .obj members => decodeValueField members ""
  | .str s => some s
  | .null => some ""
  | _ => none

/-- What is left of a place when its key comes again later in the object. -/
def Mention.lost : Mention → List Mention
  | .value _ raw => (elements raw).map .dropped
  | .dropped e => [.dropped e]
  | _ => []

variable (isFloat : String → Bool)

def selectsMember (path : String) : Bool := match parsePath isFloat path with
  | .ok p => p.attr == "members" && p.filter.isSome
  | .error _ => false

def assignMentions (verb : Verb) (path : String) (raw : Option Json) : List Mention :=
  if toLower (stripSchemaPrefix path) = "displayname" then []
  else if toLower (stripSchemaPrefix path) = "members" then [.value verb raw]
  else if selectsMember isFloat path then [.filtered .add path]
  else []

mutual

def valueMentions (verb : Verb) (path : String) (raw : Json) : List Mention :=
  if path ≠ "" then assignMentions isFloat verb path (some raw)
  else match raw with
    | .obj members => objectMentions verb members
    | _ => []

def objectMentions (verb : Verb) : List (String × Json) → List Mention
  | [] => []
  | (key, v) :: ms =>
    (if ms.any fun m => m.1 == key then (valueMentions verb key v).flatMap Mention.lost
      else valueMentions verb key v) ++ objectMentions verb ms

end

/-- A removal of the whole attribute names the members in its value, or means all. -/
def listMentions : Option Json → List Mention
  | none | some .null => [.clear]
  | some j => [.value .remove (some j)]

/-- A removal addressed to the members: one of them, the listed ones, all, or something
below the attribute. -/
def removeMentions (path : String) (raw : Option Json) : List Mention :=
  if selectsMember isFloat path then [.filtered .remove path]
  else if equalFold (stripSchemaPrefix path) "members" then listMentions raw
  else match parsePath isFloat path with
    | .ok p => if p.attr = "members" then [.unread path] else []
    | .error _ => []

def operationMentions (op : PatchOp) : List Mention := let verb := toLower (trimSpace op.op)
  let path := trimSpace op.path
  if verb = "add" ∨ verb = "replace" then
    let v := if verb = "replace" then Verb.replace else .add
    match op.value with
    | none => assignMentions isFloat v path none
    | some j => valueMentions isFloat v path j
  else removeMentions isFloat path op.value

/-- Everything a request says about members, in order. -/
def mentions (ops : List PatchOp) : List Mention := ops.flatMap (operationMentions isFloat)

/-- What the reader records for a place of the request. -/
inductive Recorded : Mention → Option Change → Prop
  | value {verb : Verb} {raw : Option Json} {ids : List String} (h : memberIDs raw = .ok ids) :
      Recorded (.value verb raw) (some ⟨verb, ids⟩)
  | filtered {verb : Verb} {path id : String} (h : memberIDFromPath isFloat path = .ok id)
      (hne : id ≠ "") : Recorded (.filtered verb path) (some ⟨verb, [id]⟩)
  | clear : Recorded .clear (some ⟨.replace, []⟩)
  | unread {path : String} : Recorded (.unread path) none
  | dropped {e : Json} : Recorded (.dropped e) none

/-- A change that does what the place of the request says: one non-empty id for each
element of a value, the member a filter selects, or an empty list. -/
inductive Reflects : Mention → Change → Prop
  | value {verb : Verb} {raw : Option Json} {ids : List String}
      (h : List.Forall₂ (fun e id => elementID e = some id ∧ id ≠ "") (elements raw) ids) :
      Reflects (.value verb raw) ⟨verb, ids⟩
  | filtered {verb : Verb} {path id : String} (h : memberIDFromPath isFloat path = .ok id)
      (hne : id ≠ "") : Reflects (.filtered verb path) ⟨verb, [id]⟩
  | clear : Reflects .clear ⟨.replace, []⟩

def idsOf (verb : Verb) (cs : List Change) : List String :=
  cs.flatMap fun c => if c.verb = verb then c.ids else []

def replacement (cs : List Change) : Option (List String) :=
  (cs.filterMap fun c => if c.verb = .replace then some c.ids else none).getLast?

/-- The member changes of a patch are these, in this order. -/
structure Carries (p : GroupPatch) (cs : List Change) : Prop where
  add : p.addMembers = idsOf .add cs
  remove : p.removeMembers = idsOf .remove cs
  replace : p.replaceMembers = replacement cs

/-- Every element of every members value became one non-empty id of the patch, and every
removal addressed to the members is in it. -/
def Accounted (ops : List PatchOp) (p : GroupPatch) : Prop :=
  ∃ cs, List.Forall₂ (Reflects isFloat) (mentions isFloat ops) cs ∧ Carries p cs

/-- The reader's own account: places it leaves out carry nothing. -/
def ReadAs (ms : List Mention) (p : GroupPatch) : Prop :=
  ∃ cs, List.Forall₂ (Recorded isFloat) ms cs ∧ Carries p (cs.filterMap id)

section
variable {isFloat}

theorem Carries.empty : Carries {} [] := ⟨rfl, rfl, rfl⟩

theorem Carries.append {p q : GroupPatch} {cs ds : List Change} (hp : Carries p cs)
    (hq : Carries q ds) : Carries (p.append q) (cs ++ ds) := by
  refine ⟨?_, ?_, ?_⟩
  · simp [GroupPatch.append, hp.add, hq.add, idsOf]
  · simp [GroupPatch.append, hp.remove, hq.remove, idsOf]
  · simp only [GroupPatch.append, hp.replace, hq.replace, replacement, filterMap_append,
      getLast?_append]
    cases (List.filterMap _ ds).getLast? <;> rfl

theorem ReadAs.empty : ReadAs isFloat [] {} := ⟨[], .nil, Carries.empty⟩

theorem ReadAs.append {ms ns : List Mention} {p q : GroupPatch} (hp : ReadAs isFloat ms p)
    (hq : ReadAs isFloat ns q) : ReadAs isFloat (ms ++ ns) (p.append q) := by
  obtain ⟨cs, hcs, hpc⟩ := hp
  obtain ⟨ds, hds, hqd⟩ := hq
  refine ⟨cs ++ ds, rel_append hcs hds, ?_⟩
  rw [filterMap_append]
  exact hpc.append hqd

theorem ReadAs.single {m : Mention} {c : Change} (h : Recorded isFloat m (some c))
    {p : GroupPatch} (hp : Carries p [c]) : ReadAs isFloat [m] p :=
  ⟨[some c], .cons h .nil, by simpa using hp⟩

theorem ReadAs.lost (ms : List Mention) : ReadAs isFloat (ms.flatMap Mention.lost) {} := by
  have hdropped (es : List Json) : ReadAs isFloat (es.map .dropped) {} := by
    induction es with
    | nil => exact ReadAs.empty
    | cons e es ih =>
      obtain ⟨cs, hcs, hp⟩ := ih
      exact ⟨none :: cs, .cons .dropped hcs, by simpa using hp⟩
  have hlost (m : Mention) : ReadAs isFloat m.lost {} := by
    cases m with
    | value verb raw => exact hdropped _
    | dropped e => exact hdropped [e]
    | _ => exact ReadAs.empty
  induction ms with
  | nil => exact ReadAs.empty
  | cons m ms ih => simpa using (hlost m).append ih

theorem memberIDFromPath_select {path id : String} (h : memberIDFromPath isFloat path = .ok id) :
    (id ≠ "" ↔ selectsMember isFloat path = true) ∧ ∃ p, parsePath isFloat path = .ok p := by
  rw [memberIDFromPath, bind_ok] at h
  obtain ⟨p, hp, h⟩ := h
  refine ⟨?_, p, hp⟩
  simp only [selectsMember, hp]
  cases hf : p.filter with
  | none =>
    obtain rfl : "" = id := by simpa [hf] using h
    simp
  | some f =>
    simp only [hf] at h
    by_cases hattr : p.attr = "members"
    · simp only [hattr, ne_eq, not_true, if_false, seq_ok, refuseIf_ok] at h
      obtain ⟨_, hne, hid⟩ := h
      obtain rfl : memberValueSelectedBy f = id := by simpa using hid
      simp [hattr, hne]
    · obtain rfl : "" = id := by simpa [hattr] using h
      simp [hattr]

theorem assignPath_read {verb path : String} {raw : Option Json} {g : GroupPatch}
    (h : assignPath isFloat {} verb path raw = .ok g) :
    ReadAs isFloat (assignMentions isFloat (if verb = "replace" then .replace else .add) path raw)
      g := by
  unfold assignPath at h
  unfold assignMentions
  by_cases hname : toLower (stripSchemaPrefix path) = "displayname"
  · rw [if_pos hname] at h ⊢
    have hg : g.addMembers = [] ∧ g.removeMembers = [] ∧ g.replaceMembers = none := by
      split at h
      · cases h
        simp
      · cases h
        simp
      · cases h
    exact ⟨[], .nil, hg.1, hg.2.1, hg.2.2⟩
  · rw [if_neg hname] at h ⊢
    by_cases hmembers : toLower (stripSchemaPrefix path) = "members"
    · rw [if_pos hmembers] at h ⊢
      obtain ⟨ids, hids, h⟩ := bind_ok.mp h
      by_cases hverb : verb = "replace"
      · rw [if_pos hverb] at h ⊢
        obtain rfl := Except.ok.inj h
        exact ReadAs.single (.value hids) ⟨rfl, rfl, rfl⟩
      · rw [if_neg hverb] at h ⊢
        obtain rfl := Except.ok.inj h
        exact ReadAs.single (.value hids) ⟨by simp [idsOf], rfl, rfl⟩
    · rw [if_neg hmembers] at h ⊢
      obtain ⟨id, hid, h⟩ := bind_ok.mp h
      have hselect := (memberIDFromPath_select hid).1
      by_cases hne : id ≠ ""
      · rw [if_pos hne] at h
        rw [if_pos (hselect.mp hne)]
        obtain rfl := Except.ok.inj h
        exact ReadAs.single (.filtered hid hne) ⟨rfl, rfl, rfl⟩
      · rw [if_neg hne] at h
        rw [if_neg fun hs => hne (hselect.mpr hs)]
        obtain rfl := Except.ok.inj h
        exact ⟨[], .nil, rfl, rfl, rfl⟩

mutual

theorem groupAssign_read {verb path : String} {raw : Json} {g : GroupPatch}
    (h : groupAssign isFloat {} verb path raw = .ok g) :
    ReadAs isFloat (valueMentions isFloat (if verb = "replace" then .replace else .add) path raw)
      g := by
  by_cases hp : path = ""
  · match raw with
    | .obj members =>
      simp only [groupAssign, hp, ne_eq, not_true_eq_false, if_false] at h
      simp only [valueMentions, hp, ne_eq, not_true_eq_false, if_false]
      exact groupAssignAll_read members h
    | .null =>
      obtain rfl : ({} : GroupPatch) = g := by simpa [groupAssign, hp] using h
      simpa [valueMentions, hp] using ReadAs.empty
    | .bool _ | .num _ | .str _ | .arr _ => simp [groupAssign, hp] at h
  · match raw with
    | .obj _ | .null | .bool _ | .num _ | .str _ | .arr _ =>
      simp only [groupAssign, hp, ne_eq, not_false_eq_true, if_true] at h
      simp only [valueMentions, hp, ne_eq, not_false_eq_true, if_true]
      exact assignPath_read h

theorem groupAssignAll_read {verb : String} {g : GroupPatch} :
    ∀ ms : List (String × Json), groupAssignAll isFloat {} verb ms = .ok g →
      ReadAs isFloat (objectMentions isFloat (if verb = "replace" then .replace else .add) ms) g
  | [], h => by
      obtain rfl : ({} : GroupPatch) = g := by simpa [groupAssignAll] using h
      simpa [objectMentions] using ReadAs.empty
  | (key, v) :: ms, h => by
      rw [groupAssignAll] at h
      rw [objectMentions]
      by_cases hagain : ms.any fun m => m.1 == key
      · rw [if_pos hagain] at h ⊢
        rw [← empty_append g]
        exact (ReadAs.lost _).append (groupAssignAll_read ms h)
      rw [if_neg hagain] at h ⊢
      cases hkey : groupAssign isFloat {} verb key v with
      | error e => simp [hkey] at h
      | ok g₁ =>
        simp only [hkey] at h
        rw [groupAssignAll_append] at h
        cases hrest : groupAssignAll isFloat {} verb ms with
        | error e => simp [hrest, Except.map] at h
        | ok g₂ =>
          obtain rfl : g₁.append g₂ = g := by simpa [hrest, Except.map] using h
          exact (groupAssign_read hkey).append (groupAssignAll_read ms hrest)

end

theorem removeList_read {raw : Option Json} {g : GroupPatch}
    (h : (match raw with
      | none | some .null => .ok { replaceMembers := some [] }
      | some j => do
          let ids ← memberIDs (some j)
          .ok { removeMembers := [] ++ ids } : Except String GroupPatch) = .ok g) :
    ReadAs isFloat (listMentions raw) g := by
  match raw with
  | none | some .null =>
    obtain rfl := Except.ok.inj h
    exact ReadAs.single .clear ⟨rfl, rfl, rfl⟩
  | some (.bool _) | some (.num _) | some (.str _) | some (.arr _) | some (.obj _) =>
    obtain ⟨ids, hids, h⟩ := bind_ok.mp h
    obtain rfl := Except.ok.inj h
    exact ReadAs.single (.value hids) ⟨rfl, by simp [idsOf], rfl⟩

theorem groupRemove_read {path : String} {raw : Option Json} {g : GroupPatch}
    (h : groupRemove isFloat {} path raw = .ok g) :
    ReadAs isFloat (removeMentions isFloat path raw) g := by
  unfold groupRemove at h
  obtain ⟨_, h⟩ := seq_ok.mp h
  obtain ⟨id, hid, h⟩ := bind_ok.mp h
  obtain ⟨hselect, p, hp⟩ := memberIDFromPath_select hid
  unfold removeMentions
  by_cases hne : id ≠ ""
  · rw [if_pos hne] at h
    rw [if_pos (hselect.mp hne)]
    obtain rfl := Except.ok.inj h
    exact ReadAs.single (.filtered hid hne) ⟨rfl, rfl, rfl⟩
  · rw [if_neg hne] at h
    rw [if_neg fun hs => hne (hselect.mpr hs)]
    by_cases hbare : equalFold (stripSchemaPrefix path) "members" = true
    · rw [if_pos hbare] at h ⊢
      exact removeList_read h
    · rw [if_neg hbare] at h ⊢
      by_cases hbelow : hasPrefix (toLower path) "members" = true
      · rw [if_pos hbelow] at h
        cases h
      · rw [if_neg hbelow] at h
        obtain rfl := Except.ok.inj h
        rw [hp]
        dsimp only
        by_cases hattr : p.attr = "members"
        · rw [if_pos hattr]
          exact ⟨[none], .cons .unread .nil, rfl, rfl, rfl⟩
        · rw [if_neg hattr]
          exact ⟨[], .nil, rfl, rfl, rfl⟩

theorem groupOperation_read {op : PatchOp} {g : GroupPatch}
    (h : groupOperation isFloat {} op = .ok g) :
    ReadAs isFloat (operationMentions isFloat op) g := by
  unfold groupOperation at h
  unfold operationMentions
  dsimp only at h ⊢
  by_cases hset : toLower (trimSpace op.op) = "add" ∨ toLower (trimSpace op.op) = "replace"
  · rw [if_pos hset] at h ⊢
    cases hv : op.value with
    | none =>
      simp only [hv] at h
      by_cases hp : trimSpace op.path = ""
      · rw [if_pos hp] at h
        cases h
      · rw [if_neg hp] at h
        exact assignPath_read h
    | some j =>
      simp only [hv] at h
      exact groupAssign_read h
  · rw [if_neg hset] at h ⊢
    by_cases hremove : toLower (trimSpace op.op) = "remove"
    · rw [if_pos hremove] at h
      exact groupRemove_read h
    · rw [if_neg hremove] at h
      cases h

theorem applyGroupPatch_read {ops : List PatchOp} {p : GroupPatch}
    (h : applyGroupPatch isFloat ops = .ok p) : ReadAs isFloat (mentions isFloat ops) p := by
  obtain ⟨gs, hgs, rfl⟩ := applyGroupPatch_own h
  have hfold : ∀ ms out, ReadAs isFloat ms out →
      ReadAs isFloat (ms ++ mentions isFloat ops) (gs.foldl GroupPatch.append out) := by
    clear h
    induction hgs with
    | nil => simp [mentions]
    | cons hop _ ih =>
      intro ms out hout
      have := ih _ _ (hout.append (groupOperation_read hop))
      simpa [mentions, List.append_assoc] using this
  simpa using hfold [] {} ReadAs.empty

theorem elementID_of_object {e : Json} {v : String} (h : decodeValueObject e = some v) :
    elementID e = some v := by
  cases e <;> simp_all [decodeValueObject, elementID]

theorem elementID_of_string {e : Json} {v : String} (h : decodeStringItem e = some v) :
    elementID e = some v := by
  cases e <;> simp_all [decodeStringItem, elementID]

theorem forall₂_names {es : List Json} {vs : List String} {f : Json → Option String}
    (hf : ∀ {e v}, f e = some v → elementID e = some v)
    (hvs : List.Forall₂ (fun e v => f e = some v) es vs)
    (hne : ∀ e ∈ es, elementID e ≠ some "") :
    List.Forall₂ (fun e id => elementID e = some id ∧ id ≠ "") es vs := by
  induction hvs with
  | nil => exact .nil
  | cons h _ ih =>
    refine .cons ⟨hf h, fun hv => ?_⟩ (ih fun e he => hne e (by simp [he]))
    exact hne _ (by simp) (hv ▸ hf h)

theorem filter_names {es : List Json} {vs : List String}
    (h : List.Forall₂ (fun e id => elementID e = some id ∧ id ≠ "") es vs) :
    (vs.filter fun v => v ≠ "") = vs := by
  induction h with
  | nil => rfl
  | cons hv _ ih =>
    rw [filter_cons_of_pos (by simpa using hv.2), ih]

theorem memberIDs_elements {raw : Option Json} {ids : List String} (h : memberIDs raw = .ok ids)
    (hne : ∀ e ∈ elements raw, elementID e ≠ some "") :
    List.Forall₂ (fun e id => elementID e = some id ∧ id ≠ "") (elements raw) ids := by
  match raw with
  | none => simp [memberIDs] at h
  | some .null =>
    obtain rfl : [] = ids := by simpa [memberIDs] using h
    exact .nil
  | some (.arr items) =>
    cases items with
    | nil =>
      obtain rfl : [] = ids := by simpa [memberIDs] using h
      exact .nil
    | cons item items =>
      cases hobj : (item :: items).mapM decodeValueObject with
      | none =>
        simp only [memberIDs, hobj] at h
        cases hs : (item :: items).mapM decodeStringItem with
        | none =>
          simp only [hs] at h
          cases h
        | some ids' =>
          simp only [hs] at h
          obtain rfl := Except.ok.inj h
          exact forall₂_names elementID_of_string (forall₂_of_mapM hs) hne
      | some vs =>
        have hall := forall₂_names elementID_of_object (forall₂_of_mapM hobj) hne
        simp only [memberIDs, hobj] at h
        rw [filter_names hall] at h
        obtain rfl := Except.ok.inj h
        exact hall
  | some (.obj members) =>
    simp only [memberIDs] at h
    split at h
    · rename_i v hv
      split_ifs at h with hempty
      obtain rfl := Except.ok.inj h
      exact .cons ⟨elementID_of_object hv, hempty⟩ .nil
    · cases h
  | some (.bool _) | some (.num _) | some (.str _) => simp [memberIDs, decodeValueObject] at h

theorem assignMentions_read {verb : Verb} {path other : String} {raw : Option Json} :
    Mention.unread other ∉ assignMentions isFloat verb path raw := by
  unfold assignMentions
  split_ifs <;> simp

theorem unread_notMem_lost {other : String} (ms : List Mention) :
    Mention.unread other ∉ ms.flatMap Mention.lost := by
  rw [mem_flatMap]
  rintro ⟨m, -, hm⟩
  cases m <;> simp [Mention.lost] at hm

mutual

theorem valueMentions_read {verb : Verb} {path other : String} (raw : Json) :
    Mention.unread other ∉ valueMentions isFloat verb path raw := by
  by_cases hp : path = ""
  · match raw with
    | .obj members =>
      simp only [valueMentions, hp, ne_eq, not_true_eq_false, if_false]
      exact objectMentions_read members
    | .null | .bool _ | .num _ | .str _ | .arr _ => simp [valueMentions, hp]
  · match raw with
    | .obj _ | .null | .bool _ | .num _ | .str _ | .arr _ =>
      simp only [valueMentions, hp, ne_eq, not_false_eq_true, if_true]
      exact assignMentions_read

theorem objectMentions_read {verb : Verb} {other : String} :
    ∀ ms : List (String × Json), Mention.unread other ∉ objectMentions isFloat verb ms
  | [] => by simp [objectMentions]
  | (key, v) :: ms => by
      rw [objectMentions, mem_append, not_or]
      refine ⟨?_, objectMentions_read ms⟩
      split_ifs
      · exact unread_notMem_lost _
      · exact valueMentions_read v

end

theorem unread_mem_remove {path other : String} {raw : Option Json} :
    Mention.unread other ∈ removeMentions isFloat path raw ↔
      other = path ∧ selectsMember isFloat path = false ∧
        equalFold (stripSchemaPrefix path) "members" = false ∧
        ∃ q, parsePath isFloat path = .ok q ∧ q.attr = "members" := by
  unfold removeMentions
  by_cases hselect : selectsMember isFloat path = true
  · simp [hselect]
  · rw [if_neg hselect]
    by_cases hbare : equalFold (stripSchemaPrefix path) "members" = true
    · rw [if_pos hbare]
      have : Mention.unread other ∉ listMentions raw := by
        unfold listMentions
        split <;> simp
      simp [this, hbare]
    · rw [if_neg hbare]
      cases hp : parsePath isFloat path with
      | error e => simp
      | ok q => by_cases hattr : q.attr = "members" <;> simp [hattr, hselect, hbare]

theorem groupOperation_verb {op : PatchOp} {out g : GroupPatch}
    (h : groupOperation isFloat out op = .ok g) :
    (toLower (trimSpace op.op) = "add" ∨ toLower (trimSpace op.op) = "replace") ∨
      toLower (trimSpace op.op) = "remove" := by
  by_contra hverb
  rw [not_or] at hverb
  rw [groupOperation] at h
  rw [if_neg hverb.1, if_neg hverb.2] at h
  cases h

theorem unread_mem_operation {op : PatchOp} {other : String} :
    Mention.unread other ∈ operationMentions isFloat op ↔
      ¬(toLower (trimSpace op.op) = "add" ∨ toLower (trimSpace op.op) = "replace") ∧
        Mention.unread other ∈ removeMentions isFloat (trimSpace op.path) op.value := by
  unfold operationMentions
  dsimp only
  by_cases hset : toLower (trimSpace op.op) = "add" ∨ toLower (trimSpace op.op) = "replace"
  · rw [if_pos hset]
    simp only [hset, not_true, false_and, iff_false]
    cases op.value with
    | none => exact assignMentions_read
    | some j => exact valueMentions_read j
  · rw [if_neg hset]
    simp [hset]

/-- What must hold of a place of the request for the reader to do what it says. -/
def Mention.Complete : Mention → Prop
  | .value _ raw => ∀ e ∈ elements raw, elementID e ≠ some ""
  | .unread _ | .dropped _ => False
  | _ => True

theorem Reflects.complete {m : Mention} {c : Change} (h : Reflects isFloat m c) : m.Complete := by
  cases h with
  | value h =>
    intro e he hid
    obtain ⟨i, hi, rfl⟩ := getElem_of_mem he
    have := h.get hi (h.length_eq ▸ hi)
    simp only [get_eq_getElem] at this
    rw [hid] at this
    exact this.2 (Option.some.inj this.1).symm
  | filtered h hne => trivial
  | clear => trivial

theorem Recorded.reflects {m : Mention} {c : Option Change} (h : Recorded isFloat m c)
    (hm : m.Complete) : ∃ d, c = some d ∧ Reflects isFloat m d := by
  cases h with
  | value h => exact ⟨_, rfl, .value (memberIDs_elements h hm)⟩
  | filtered h hne => exact ⟨_, rfl, .filtered h hne⟩
  | clear => exact ⟨_, rfl, .clear⟩
  | unread => exact absurd hm id
  | dropped => exact absurd hm id

theorem accounted_of_complete {ms : List Mention} {p : GroupPatch} (h : ReadAs isFloat ms p)
    (hms : ∀ m ∈ ms, m.Complete) :
    ∃ cs, List.Forall₂ (Reflects isFloat) ms cs ∧ Carries p cs := by
  obtain ⟨cs, hcs, hp⟩ := h
  suffices hall : ∃ ds, cs = ds.map some ∧ List.Forall₂ (Reflects isFloat) ms ds by
    obtain ⟨ds, rfl, hds⟩ := hall
    exact ⟨ds, hds, by simpa using hp⟩
  clear hp
  induction hcs with
  | nil => exact ⟨[], rfl, .nil⟩
  | cons h _ ih =>
    obtain ⟨d, rfl, hd⟩ := h.reflects (hms _ (by simp))
    obtain ⟨ds, rfl, hds⟩ := ih fun m hm => hms m (by simp [hm])
    exact ⟨d :: ds, rfl, .cons hd hds⟩

theorem Accounted.complete {ops : List PatchOp} {p : GroupPatch} (h : Accounted isFloat ops p) :
    ∀ m ∈ mentions isFloat ops, m.Complete := by
  obtain ⟨cs, hcs, _⟩ := h
  intro m hm
  obtain ⟨i, hi, rfl⟩ := getElem_of_mem hm
  exact (hcs.get hi (hcs.length_eq ▸ hi)).complete

end

def removeAnn : List PatchOp :=
  [{ op := "remove", path := "members", value := some (memberValue "ann") }]

def removeNameless : List PatchOp :=
  [{ op := "remove", path := "members", value := some (.arr [.obj [("display", .str "Ann")]]) }]

def removeQualified : List PatchOp :=
  [{ op := "remove", path := "urn:ietf:params:scim:schemas:core:2.0:Group:members.value" }]

def repeatedKey : List PatchOp :=
  [{ op := "add", value := some (.obj [("members", memberValue "ann"),
    ("members", memberValue "bob")]) }]

end Signari.ScimGroupAccount
