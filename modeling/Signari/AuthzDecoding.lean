import Signari.JsonValues

/-!
# Decoding authorization requests

`Decode` of `internal/authzen/authzen.go`: `NoDuplicateKeys` over the body, then
`encoding/json` into one of the request structures. The check compares names as they are
written, while the decoder takes a name for a field when the two are equal up to case and no
field is named exactly so.

Of what the decoder does the model keeps the writes to struct fields: the place of the object in the
document, the position of the member in it, and the field.
-/
namespace Signari.AuthzDecoding
open GoStrings JsonValues List

/-- The Go type a value is decoded into. A map keeps every member under its own name. -/
inductive Shape where
  | text
  | int
  | map
  | list (item : Shape)
  | struct (fields : List (String × Shape))

abbrev Field := String × Shape

def subject : Shape := .struct [("type", .text), ("id", .text), ("properties", .map)]

def resource : Shape := .struct [("type", .text), ("id", .text), ("properties", .map)]

def action : Shape := .struct [("name", .text), ("properties", .map)]

def request : Shape :=
  .struct [("subject", subject), ("resource", resource), ("action", action), ("context", .map)]

def options : Shape := .struct [("evaluations_semantic", .text)]

def evaluations : Shape :=
  .struct [("subject", subject), ("resource", resource), ("action", action), ("context", .map),
    ("options", options), ("evaluations", .list request)]

def pageRequest : Shape := .struct [("token", .text), ("limit", .int), ("properties", .map)]

def searchRequest : Shape :=
  .struct [("subject", subject), ("resource", resource), ("action", action), ("context", .map),
    ("page", pageRequest)]

/-- What the handlers decode a body into. -/
inductive Target where
  | evaluation | evaluations | search

def Target.shape : Target → Shape
  | .evaluation => request
  | .evaluations => AuthzDecoding.evaluations
  | .search => searchRequest

/-- The field a member goes to: the one of its name, else the first of its name up to case. -/
def fieldFor (fields : List Field) (key : String) : Option Field :=
  (fields.find? fun f => f.1 == key) <|> fields.find? fun f => equalFold f.1 key

/-- A member decoded into a struct field. -/
structure Write where
  object : List ℕ
  member : ℕ
  field : String
  deriving DecidableEq

mutual

/-- The writes of decoding a value; none when its kind does not fit. -/
def decode (place : List ℕ) (sh : Shape) : Json → Option (List Write)
  | .null => some []
  | .bool _ => none
  | .str _ =>
    match sh with
    | .text => some []
    | _ => none
  | .num n =>
    match sh with
    | .int => if (atoi n.text).isSome then some [] else none
    | _ => none
  | .arr items =>
    match sh with
    | .list item => decodeItems place item 0 items
    | _ => none
  | .obj members =>
    match sh with
    | .map => some []
    | .struct fields => decodeMembers place fields 0 members
    | _ => none

def decodeItems (place : List ℕ) (item : Shape) (i : ℕ) : List Json → Option (List Write)
  | [] => some []
  | j :: js => do
      let w ← decode (place ++ [i]) item j
      let ws ← decodeItems place item (i + 1) js
      some (w ++ ws)

def decodeMembers (place : List ℕ) (fields : List Field) (i : ℕ) :
    List (String × Json) → Option (List Write)
  | [] => some []
  | (k, j) :: ms =>
    match fieldFor fields k with
    | none => decodeMembers place fields (i + 1) ms
    | some f => do
        let w ← decode (place ++ [i]) f.2 j
        let ws ← decodeMembers place fields (i + 1) ms
        some (⟨place, i, f.1⟩ :: w ++ ws)

end

/-- `Decode`; `read` is the reader of `encoding/json`, which takes the first value of the
body. -/
def decodeBody (read : List UInt8 → Option Json) (target : Target) (body : List UInt8) :
    Except String (List Write) :=
  match read body with
  | none => .error "the request body did not parse"
  | some j =>
    match noDuplicateKeys [] j with
    | some dup => .error (duplicateMessage dup)
    | none =>
      match decode [] target.shape j with
      | none => .error "the request body did not parse"
      | some ws => .ok ws

def OneMeaning (ws : List Write) : Prop :=
  ∀ w ∈ ws, ∀ w' ∈ ws, w.object = w'.object → w.field = w'.field → w.member = w'.member

/-- Decoding a value comes, at a place in it, to an object that fills a struct. -/
inductive Visits : Shape → Json → List ℕ → List Field → List (String × Json) → Prop
  | here (fields : List Field) (members : List (String × Json)) :
      Visits (.struct fields) (.obj members) [] fields members
  | member {fields fields' : List Field} {members members' : List (String × Json)} {i : ℕ}
      {k : String} {j : Json} {f : Field} {place : List ℕ} (hmember : members[i]? = some (k, j))
      (hfield : fieldFor fields k = some f) (rest : Visits f.2 j place fields' members') :
      Visits (.struct fields) (.obj members) (i :: place) fields' members'
  | item {item : Shape} {items : List Json} {fields' : List Field}
      {members' : List (String × Json)} {i : ℕ} {j : Json} {place : List ℕ}
      (hitem : items[i]? = some j) (rest : Visits item j place fields' members') :
      Visits (.list item) (.arr items) (i :: place) fields' members'

/-- In no object that fills a struct are two different names equal up to case, unless the
struct has no such field. -/
def CasesDistinct (sh : Shape) (j : Json) : Prop :=
  ∀ place fields members, Visits sh j place fields members → ∀ a ∈ members, ∀ b ∈ members,
    a.1 ≠ b.1 → equalFold a.1 b.1 = true → fieldFor fields a.1 = none

theorem Visits.unique {sh : Shape} {j : Json} {place : List ℕ} {fields fields' : List Field}
    {members members' : List (String × Json)} (h : Visits sh j place fields members)
    (h' : Visits sh j place fields' members') : fields = fields' ∧ members = members' := by
  induction h with
  | here =>
    cases h'
    exact ⟨rfl, rfl⟩
  | member hmember hfield _ ih =>
    cases h' with
    | member hmember' hfield' rest' =>
      rw [hmember] at hmember'
      cases hmember'
      rw [hfield] at hfield'
      cases hfield'
      exact ih rest'
  | item hitem _ ih =>
    cases h' with
    | item hitem' rest' =>
      rw [hitem] at hitem'
      cases hitem'
      exact ih rest'

/-- A write found in the document, `place` being where the document stands. -/
def Written (place : List ℕ) (sh : Shape) (j : Json) (w : Write) : Prop :=
  ∃ rel fields members k v f, Visits sh j rel fields members ∧ w.object = place ++ rel ∧
    members[w.member]? = some (k, v) ∧ fieldFor fields k = some f ∧ w.field = f.1

theorem written_arr {place : List ℕ} {item : Shape} {items : List Json} {w : Write} :
    Written place (.list item) (.arr items) w ↔
      ∃ n j, items[n]? = some j ∧ Written (place ++ [n]) item j w := by
  constructor
  · intro h
    obtain ⟨rel, fields, members, k, v, f, hvisit, hobject, hmem, hfield, hname⟩ := h
    cases hvisit with
    | @item _ _ _ _ n j rel hitem rest =>
      exact ⟨n, j, hitem, rel, fields, members, k, v, f, rest, by simpa using hobject, hmem,
        hfield, hname⟩
  · intro h
    obtain ⟨n, j, hitem, rel, fields, members, k, v, f, hvisit, hobject, hmem⟩ := h
    exact ⟨n :: rel, fields, members, k, v, f, .item hitem hvisit, by simpa using hobject, hmem⟩

theorem written_obj {place : List ℕ} {fields : List Field} {members : List (String × Json)}
    {w : Write} : Written place (.struct fields) (.obj members) w ↔
      ∃ n k j f, members[n]? = some (k, j) ∧ fieldFor fields k = some f ∧
        (w = ⟨place, n, f.1⟩ ∨ Written (place ++ [n]) f.2 j w) := by
  constructor
  · intro h
    obtain ⟨rel, fields', members', k, v, f, hvisit, hobject, hmem, hfield, hname⟩ := h
    cases hvisit with
    | here =>
      refine ⟨w.member, k, v, f, hmem, hfield, .inl ?_⟩
      rw [append_nil] at hobject
      rw [← hobject, ← hname]
    | @member _ _ _ _ n k' j f' rel hmember hfield' rest =>
      exact ⟨n, k', j, f', hmember, hfield', .inr ⟨rel, fields', members', k, v, f, rest,
        by simpa using hobject, hmem, hfield, hname⟩⟩
  · intro h
    obtain ⟨n, k, j, f, hmember, hfield, rfl | hwritten⟩ := h
    · exact ⟨[], fields, members, k, j, f, .here fields members, by simp, hmember, hfield, rfl⟩
    · obtain ⟨rel, fields', members', k', v, f', hvisit, hobject, hmem⟩ := hwritten
      exact ⟨n :: rel, fields', members', k', v, f', .member hmember hfield hvisit,
        by simpa using hobject, hmem⟩

theorem not_written {place : List ℕ} {sh : Shape} {j : Json} {w : Write}
    (hj : ∀ ms, j ≠ .obj ms) (hi : ∀ js, j ≠ .arr js) : ¬Written place sh j w := by
  intro h
  obtain ⟨rel, fields, members, k, v, f, hvisit, -⟩ := h
  cases hvisit with
  | here => exact hj _ rfl
  | member => exact hj _ rfl
  | item => exact hi _ rfl

mutual

theorem mem_decode {place : List ℕ} {sh : Shape} {ws : List Write} {w : Write} :
    (j : Json) → decode place sh j = some ws → (w ∈ ws ↔ Written place sh j w)
  | .null, h => by
      cases h
      exact iff_of_false not_mem_nil (not_written (by simp) (by simp))
  | .bool b, h => by cases h
  | .str s, h => by
      have hnone : ¬Written place sh (.str s) w := not_written (by simp) (by simp)
      cases sh with
      | text =>
        cases h
        exact iff_of_false not_mem_nil hnone
      | _ => cases h
  | .num n, h => by
      have hnone : ¬Written place sh (.num n) w := not_written (by simp) (by simp)
      cases sh with
      | int =>
        rw [decode] at h
        split_ifs at h
        cases h
        exact iff_of_false not_mem_nil hnone
      | _ => cases h
  | .arr items, h => by
      cases sh with
      | list item =>
        rw [decode] at h
        rw [written_arr, mem_decodeItems items h]
        simp only [Nat.zero_add]
      | _ => cases h
  | .obj members, h => by
      cases sh with
      | map =>
        cases h
        refine iff_of_false not_mem_nil fun hw => ?_
        obtain ⟨rel, fields, members', k, v, f, hvisit, -⟩ := hw
        cases hvisit
      | struct fields =>
        rw [decode] at h
        rw [written_obj, mem_decodeMembers members h]
        simp only [Nat.zero_add]
      | _ => cases h

theorem mem_decodeItems {place : List ℕ} {item : Shape} {i : ℕ} {ws : List Write} {w : Write} :
    (items : List Json) → decodeItems place item i items = some ws →
      (w ∈ ws ↔ ∃ n j, items[n]? = some j ∧ Written (place ++ [i + n]) item j w)
  | [], h => by
      cases h
      simp
  | j :: js, h => by
      rw [decodeItems] at h
      simp only [Option.bind_eq_bind, Option.bind_eq_some_iff] at h
      obtain ⟨first, hfirst, rest, hrest, hws⟩ := h
      cases hws
      rw [mem_append, mem_decode j hfirst, mem_decodeItems js hrest]
      constructor
      · intro h
        rcases h with h | ⟨n, j', hj', h⟩
        · exact ⟨0, j, rfl, h⟩
        · exact ⟨n + 1, j', hj', by rwa [Nat.add_right_comm] at h⟩
      · intro h
        obtain ⟨n, j', hj', h⟩ := h
        cases n with
        | zero =>
          cases hj'
          exact .inl h
        | succ n => exact .inr ⟨n, j', hj', by rwa [Nat.add_right_comm]⟩

theorem mem_decodeMembers {place : List ℕ} {fields : List Field} {i : ℕ} {ws : List Write}
    {w : Write} : (members : List (String × Json)) →
      decodeMembers place fields i members = some ws →
      (w ∈ ws ↔ ∃ n k j f, members[n]? = some (k, j) ∧ fieldFor fields k = some f ∧
        (w = ⟨place, i + n, f.1⟩ ∨ Written (place ++ [i + n]) f.2 j w))
  | [], h => by
      cases h
      simp
  | (k, j) :: ms, h => by
      rw [decodeMembers] at h
      cases hf : fieldFor fields k with
      | none =>
        rw [hf] at h
        rw [mem_decodeMembers ms h]
        constructor
        · intro h
          obtain ⟨n, k', j', f, hmem, hfield, h⟩ := h
          exact ⟨n + 1, k', j', f, hmem, hfield, by rwa [Nat.add_right_comm] at h⟩
        · intro h
          obtain ⟨n, k', j', f, hmem, hfield, h⟩ := h
          cases n with
          | zero =>
            cases hmem
            rw [hf] at hfield
            cases hfield
          | succ n => exact ⟨n, k', j', f, hmem, hfield, by rwa [Nat.add_right_comm]⟩
      | some f =>
        rw [hf] at h
        simp only [Option.bind_eq_bind, Option.bind_eq_some_iff] at h
        obtain ⟨first, hfirst, rest, hrest, hws⟩ := h
        cases hws
        rw [mem_append, mem_cons, mem_decode j hfirst, mem_decodeMembers ms hrest]
        constructor
        · intro h
          rcases h with h | ⟨n, k', j', f', hmem, hfield, h⟩
          · exact ⟨0, k, j, f, rfl, hf, h⟩
          · exact ⟨n + 1, k', j', f', hmem, hfield, by rwa [Nat.add_right_comm] at h⟩
        · intro h
          obtain ⟨n, k', j', f', hmem, hfield, h⟩ := h
          cases n with
          | zero =>
            cases hmem
            rw [hf] at hfield
            cases hfield
            exact .inl h
          | succ n => exact .inr ⟨n, k', j', f', hmem, hfield, by rwa [Nat.add_right_comm]⟩

end

/-! ## Names -/

theorem noDuplicateItems_none {path : List String} {items : List Json}
    (h : noDuplicateItems path items = none) : ∀ j ∈ items, noDuplicateKeys path j = none := by
  induction items with
  | nil => exact fun j hj => absurd hj not_mem_nil
  | cons j js ih =>
    rw [noDuplicateItems, Option.orElse_eq_orElse, Option.orElse_eq_or, Option.or_eq_none_iff] at h
    exact forall_mem_cons.mpr ⟨h.1, ih h.2⟩

theorem noDuplicateMembers_none {path seen : List String} {members : List (String × Json)}
    (h : noDuplicateMembers path seen members = none) :
    (members.map Prod.fst).Nodup ∧ (∀ m ∈ members, m.1 ∉ seen) ∧
      ∀ m ∈ members, ∃ path', noDuplicateKeys path' m.2 = none := by
  induction members generalizing seen with
  | nil => simp
  | cons m ms ih =>
    obtain ⟨k, j⟩ := m
    rw [noDuplicateMembers] at h
    split_ifs at h with hseen
    rw [Option.orElse_eq_orElse, Option.orElse_eq_or, Option.or_eq_none_iff] at h
    obtain ⟨hnodup, hfresh, hvalues⟩ := ih h.2
    refine ⟨?_, ?_, forall_mem_cons.mpr ⟨⟨_, h.1⟩, hvalues⟩⟩
    · rw [map_cons, nodup_cons]
      refine ⟨fun hmem => ?_, hnodup⟩
      obtain ⟨m, hm, rfl⟩ := mem_map.mp hmem
      exact hfresh m hm mem_cons_self
    · exact forall_mem_cons.mpr ⟨hseen, fun m hm hmem => hfresh m hm (mem_cons_of_mem _ hmem)⟩

theorem Visits.names_nodup {sh : Shape} {j : Json} {place : List ℕ} {fields : List Field}
    {members : List (String × Json)} (h : Visits sh j place fields members) {path : List String}
    (hj : noDuplicateKeys path j = none) : (members.map Prod.fst).Nodup := by
  induction h generalizing path with
  | here =>
    rw [noDuplicateKeys] at hj
    exact (noDuplicateMembers_none hj).1
  | member hmember _ _ ih =>
    rw [noDuplicateKeys] at hj
    obtain ⟨path', hpath⟩ := (noDuplicateMembers_none hj).2.2 _ (mem_of_getElem? hmember)
    exact ih hpath
  | item hitem _ ih =>
    rw [noDuplicateKeys] at hj
    exact ih (noDuplicateItems_none hj _ (mem_of_getElem? hitem))

theorem equalFold_iff {s t : String} :
    equalFold s t = true ↔ s.toList.map foldChar = t.toList.map foldChar := by
  rw [equalFold, beq_iff_eq]

theorem fieldFor_fold {fields : List Field} {key : String} {f : Field}
    (h : fieldFor fields key = some f) : f ∈ fields ∧ equalFold f.1 key = true := by
  rw [fieldFor, Option.orElse_eq_orElse, Option.orElse_eq_or, Option.or_eq_some_iff] at h
  rcases h with h | ⟨-, h⟩
  · have hname : f.1 = key := by simpa using find?_some h
    exact ⟨mem_of_find?_eq_some h, equalFold_iff.mpr (by rw [hname])⟩
  · exact ⟨mem_of_find?_eq_some h, by simpa using find?_some h⟩

/-- No two fields of the struct are equal up to case. -/
def FieldsDistinct (fields : List Field) : Prop :=
  fields.Pairwise fun f g => equalFold f.1 g.1 = false

theorem FieldsDistinct.eq {fields : List Field} (h : FieldsDistinct fields) {f g : Field}
    (hf : f ∈ fields) (hg : g ∈ fields) (hfold : equalFold f.1 g.1 = true) : f = g := by
  induction fields with
  | nil => exact absurd hf not_mem_nil
  | cons e es ih =>
    obtain ⟨hfirst, hrest⟩ := pairwise_cons.mp h
    rcases mem_cons.mp hf with rfl | hf
    · rcases mem_cons.mp hg with rfl | hg
      · rfl
      · exact absurd hfold (by simp [hfirst g hg])
    · rcases mem_cons.mp hg with rfl | hg
      · have hback := equalFold_iff.mpr (equalFold_iff.mp hfold).symm
        rw [hfirst f (by assumption)] at hback
        cases hback
      · exact ih hrest hf hg

theorem fieldFor_of_fold {fields : List Field} (hfields : FieldsDistinct fields) {key : String}
    {f : Field} (hf : f ∈ fields) (h : equalFold f.1 key = true) :
    fieldFor fields key = some f := by
  cases hkey : fieldFor fields key with
  | none =>
    rw [fieldFor, Option.orElse_eq_orElse, Option.orElse_eq_or, Option.or_eq_none_iff] at hkey
    exact absurd h (by simpa using find?_eq_none.mp hkey.2 f hf)
  | some g =>
    obtain ⟨hg, hfold⟩ := fieldFor_fold hkey
    rw [hfields.eq hg hf (equalFold_iff.mpr
      ((equalFold_iff.mp hfold).trans (equalFold_iff.mp h).symm))]

/-- The shapes that the requests are made of. -/
inductive Requested : Shape → Prop
  | subject : Requested subject
  | resource : Requested resource
  | action : Requested action
  | options : Requested options
  | request : Requested request
  | requests : Requested (.list request)
  | evaluations : Requested evaluations
  | pageRequest : Requested pageRequest
  | searchRequest : Requested searchRequest
  | text : Requested .text
  | int : Requested .int
  | map : Requested .map

theorem Requested.target (t : Target) : Requested t.shape := by
  cases t with
  | evaluation => exact .request
  | evaluations => exact .evaluations
  | search => exact .searchRequest

theorem Requested.item {item : Shape} (h : Requested (.list item)) : Requested item := by
  cases h
  exact .request

theorem Requested.fields {fields : List Field} (h : Requested (.struct fields)) :
    FieldsDistinct fields ∧ ∀ f ∈ fields, Requested f.2 := by
  have hnames : ∀ {fields : List Field},
      ((fields.map Prod.fst).Pairwise fun a b => equalFold a b = false) →
        FieldsDistinct fields := fun h => pairwise_map.mp h
  cases h with
  | subject | resource | action =>
    exact ⟨hnames (by decide), by simp [Requested.text, Requested.map]⟩
  | options => exact ⟨hnames (by decide), by simp [Requested.text]⟩
  | request =>
    exact ⟨hnames (by decide), by
      simp [Requested.subject, Requested.resource, Requested.action, Requested.map]⟩
  | evaluations =>
    exact ⟨hnames (by decide), by
      simp [Requested.subject, Requested.resource, Requested.action, Requested.map,
        Requested.options, Requested.requests]⟩
  | pageRequest =>
    exact ⟨hnames (by decide), by simp [Requested.text, Requested.int, Requested.map]⟩
  | searchRequest =>
    exact ⟨hnames (by decide), by
      simp [Requested.subject, Requested.resource, Requested.action, Requested.map,
        Requested.pageRequest]⟩

theorem Visits.fieldsDistinct {sh : Shape} {j : Json} {place : List ℕ} {fields : List Field}
    {members : List (String × Json)} (h : Visits sh j place fields members)
    (hsh : Requested sh) : FieldsDistinct fields := by
  induction h with
  | here => exact hsh.fields.1
  | member _ hfield _ ih => exact ih (hsh.fields.2 _ (fieldFor_fold hfield).1)
  | item _ _ ih => exact ih hsh.item

theorem written_root {sh : Shape} {j : Json} {w : Write} : Written [] sh j w ↔
    ∃ fields members k v f, Visits sh j w.object fields members ∧
      members[w.member]? = some (k, v) ∧ fieldFor fields k = some f ∧ w.field = f.1 := by
  constructor
  · intro h
    obtain ⟨rel, fields, members, k, v, f, hvisit, hobject, h⟩ := h
    rw [nil_append] at hobject
    exact ⟨fields, members, k, v, f, hobject ▸ hvisit, h⟩
  · intro h
    obtain ⟨fields, members, k, v, f, hvisit, h⟩ := h
    exact ⟨w.object, fields, members, k, v, f, hvisit, rfl, h⟩

theorem CasesDistinct.of_oneMeaning {sh : Shape} {j : Json} {ws : List Write}
    (hsh : Requested sh) (hws : decode [] sh j = some ws) (h : OneMeaning ws) :
    CasesDistinct sh j := by
  intro place fields members hvisit a ha b hb hne hfold
  cases hfield : fieldFor fields a.1 with
  | none => rfl
  | some f =>
    obtain ⟨hf, hfa⟩ := fieldFor_fold hfield
    have hfb : fieldFor fields b.1 = some f := fieldFor_of_fold (hvisit.fieldsDistinct hsh) hf
      (equalFold_iff.mpr ((equalFold_iff.mp hfa).trans (equalFold_iff.mp hfold)))
    obtain ⟨i, hi⟩ := mem_iff_getElem?.mp ha
    obtain ⟨n, hn⟩ := mem_iff_getElem?.mp hb
    have hwa : (⟨place, i, f.1⟩ : Write) ∈ ws := (mem_decode j hws).mpr (written_root.mpr
      ⟨fields, members, a.1, a.2, f, hvisit, hi, hfield, rfl⟩)
    have hwb : (⟨place, n, f.1⟩ : Write) ∈ ws := (mem_decode j hws).mpr (written_root.mpr
      ⟨fields, members, b.1, b.2, f, hvisit, hn, hfb, rfl⟩)
    have hindex : i = n := h _ hwa _ hwb rfl rfl
    rw [hindex, hn] at hi
    exact absurd (congrArg Prod.fst (Option.some.inj hi)).symm hne

theorem CasesDistinct.oneMeaning {sh : Shape} {j : Json} {ws : List Write}
    (hdup : noDuplicateKeys [] j = none) (hws : decode [] sh j = some ws)
    (h : CasesDistinct sh j) : OneMeaning ws := by
  intro w hw w' hw' hobject hfield
  obtain ⟨fields, members, k, v, f, hvisit, hmem, hf, hname⟩ :=
    written_root.mp ((mem_decode j hws).mp hw)
  obtain ⟨fields', members', k', v', f', hvisit', hmem', hf', hname'⟩ :=
    written_root.mp ((mem_decode j hws).mp hw')
  rw [← hobject] at hvisit'
  obtain ⟨rfl, rfl⟩ := hvisit.unique hvisit'
  have hsame : f.1 = f'.1 := hname ▸ hname' ▸ hfield
  have hfold : equalFold k k' = true := by
    have hk := equalFold_iff.mp (fieldFor_fold hf).2
    have hk' := equalFold_iff.mp (fieldFor_fold hf').2
    rw [← hsame] at hk'
    exact equalFold_iff.mpr (hk.symm.trans hk')
  by_cases hkeys : k = k'
  · have hnodup := hvisit.names_nodup hdup
    have hat : (members.map Prod.fst)[w.member]? = some k := by simp [hmem]
    have hat' : (members.map Prod.fst)[w'.member]? = some k := by simp [hmem', hkeys]
    obtain ⟨hlt, hget⟩ := List.getElem?_eq_some_iff.mp hat
    obtain ⟨hlt', hget'⟩ := List.getElem?_eq_some_iff.mp hat'
    exact (hnodup.getElem_inj_iff).mp (hget.trans hget'.symm)
  · have hnone := h _ fields members hvisit _ (mem_of_getElem? hmem) _
      (mem_of_getElem? hmem') hkeys hfold
    rw [hf] at hnone
    cases hnone

/-- Of an accepted body no two members of an object were decoded into one field exactly when
no two different names of an object that fills a struct are equal up to case, unless the
struct has no such field. -/
theorem decodeBody_oneMeaning_iff (read : List UInt8 → Option Json) (target : Target)
    (body : List UInt8) {ws : List Write} (h : decodeBody read target body = .ok ws) :
    OneMeaning ws ↔ ∀ j, read body = some j → CasesDistinct target.shape j := by
  rw [decodeBody] at h
  cases hread : read body with
  | none => simp [hread] at h
  | some j =>
    rw [hread] at h
    cases hdup : noDuplicateKeys [] j with
    | some dup => simp [hdup] at h
    | none =>
      cases hws : decode [] target.shape j with
      | none => simp [hdup, hws] at h
      | some ws' =>
        simp only [hdup, hws, Except.ok.injEq] at h
        subst h
        simp only [Option.some.injEq, forall_eq']
        exact ⟨.of_oneMeaning (.target target) hws, CasesDistinct.oneMeaning hdup hws⟩

/-- A question about `bob`, behind one about `alice`. -/
def twoSubjects : String × Json :=
  ("\x7b\"subject\":\x7b\"type\":\"user\",\"id\":\"alice\"\x7d," ++
    "\"Subject\":\x7b\"id\":\"bob\"\x7d\x7d",
    .obj [("subject", .obj [("type", .str "user"), ("id", .str "alice")]),
      ("Subject", .obj [("id", .str "bob")])])

def readOne (doc : String × Json) (body : List UInt8) : Option Json :=
  if body = doc.1.toUTF8.data.toList then some doc.2 else none

/-- The second subject is merged into the first. -/
theorem twoSubjects_merged : ∃ ws, decodeBody (readOne twoSubjects) .evaluation
    twoSubjects.1.toUTF8.data.toList = .ok ws ∧ ¬OneMeaning ws := by
  refine ⟨[⟨[], 0, "subject"⟩, ⟨[0], 0, "type"⟩, ⟨[0], 1, "id"⟩, ⟨[], 1, "subject"⟩,
    ⟨[1], 0, "id"⟩], ?_, ?_⟩
  · rw [decodeBody, readOne, if_pos rfl]
    decide
  · intro h
    exact absurd (h ⟨[], 0, "subject"⟩ (by decide) ⟨[], 1, "subject"⟩ (by decide) rfl rfl)
      (by decide)

theorem decodeBody_oneMeaning_iff_twoSubjects :
    OneMeaning [⟨[], 0, "subject"⟩, ⟨[0], 0, "type"⟩, ⟨[0], 1, "id"⟩, ⟨[], 1, "subject"⟩,
      ⟨[1], 0, "id"⟩] ↔ ∀ j, readOne twoSubjects twoSubjects.1.toUTF8.data.toList = some j →
        CasesDistinct Target.evaluation.shape j :=
  decodeBody_oneMeaning_iff (readOne twoSubjects) .evaluation twoSubjects.1.toUTF8.data.toList
    (by
      rw [decodeBody, readOne, if_pos rfl]
      decide)

end Signari.AuthzDecoding
