import Signari.BlockShuffles
import Signari.ElementReads
import Signari.ScimUserPatch

/-!
# One meaning of a user PATCH

Every assignment of `internal/scim/patch.go` reads one value for one field, or notes a path that is
not stored. The changes of an accepted PATCH are therefore a list of blocks, one for each operation,
and the walk over the members of a pathless operation's value shuffles its block.

A PATCH has one meaning when the writers that decide a field write the same value and an
operation notes no two paths. A value that is null is read as if it had been there.
-/
namespace Signari.UserPatchMeaning
open GoStrings IndexedChecks ScimPath JsonValues FilterMatching ScimGroupPatch ScimUserPatch List
  Function
open BlockShuffles ElementReads

variable {F : Type}

inductive Field where
  | active | userName | displayName | formatted | email

/-- What one assignment does. -/
inductive Change where
  | active (b : Bool)
  | userName (s : String)
  | displayName (s : String)
  | formatted (s : String)
  | email (s : String)
  | unsupported (path : String)

def apply (out : UserPatch) : Change → UserPatch
  | .active b => { out with active := some b }
  | .userName s => { out with userName := some s }
  | .displayName s => { out with displayName := some s }
  | .formatted s => if out.displayName = none then { out with displayName := some s } else out
  | .email s => { out with email := some s }
  | .unsupported path => { out with unsupported := out.unsupported ++ [path] }

/-- The field a path that is no plain name is read for. -/
def filteredTarget (fl : Floats F) (path : String) : Except String (Option Field) :=
  match parsePath (fun t => (fl.parse t).isSome) path with
  | .error e => .error ("path " ++ quote path ++ ": " ++ e)
  | .ok p =>
    match p.filter with
    | none => .ok none
    | some f =>
      if p.attr ≠ "emails" then .ok none
      else if p.sub ≠ "" ∧ p.sub ≠ "value" then .ok none
      else if selectsStoredEmail fl f = false then
        .error ("path " ++ quote path ++ " selects an email address this server does not " ++
          "store separately: only the primary address is kept, so a change to another one " ++
          "cannot be represented")
      else .ok (some .email)

def target (fl : Floats F) (path : String) : Except String (Option Field) :=
  if path = "active" then .ok (some .active)
  else if path = "username" then .ok (some .userName)
  else if path = "displayname" then .ok (some .displayName)
  else if path = "name.formatted" then .ok (some .formatted)
  else if path = "emails" ∨ path = "emails.value" then .ok (some .email)
  else filteredTarget fl path

def readField : Field → Option Json → Except String Change
  | .active, raw => do
      let b ← parseSCIMBool raw
      .ok (.active b)
  | .userName, raw => do
      let s ← parseSCIMString raw
      .ok (.userName s)
  | .displayName, raw => do
      let s ← parseSCIMString raw
      .ok (.displayName s)
  | .formatted, raw => do
      let s ← parseSCIMString raw
      .ok (.formatted s)
  | .email, raw => do
      let s ← parseEmailValue raw
      .ok (.email s)

/-- What a member of a value, or an operation with a path, changes. -/
def readChange (fl : Floats F) (path : String) (raw : Option Json) : Except String Change :=
  match target fl path with
  | .error e => .error e
  | .ok none => .ok (.unsupported path)
  | .ok (some f) => readField f raw

section

variable (fl : Floats F)

theorem assignFiltered_eq (out : UserPatch) (path : String) (raw : Option Json) :
    assignFiltered fl out path raw = (match filteredTarget fl path with
      | .error e => .error e
      | .ok none => .ok (.unsupported path)
      | .ok (some f) => readField f raw) >>= fun c => .ok (apply out c) := by
  unfold assignFiltered filteredTarget
  cases parsePath (fun t => (fl.parse t).isSome) path with
  | error e => rfl
  | ok p =>
    cases hf : p.filter with
    | none => simp only [hf]; rfl
    | some f =>
      simp only [hf]
      split_ifs
      · rfl
      · rfl
      · rfl
      · simp only [readField]
        cases parseEmailValue raw <;> rfl

theorem assignOne_eq (out : UserPatch) (path : String) (raw : Option Json) :
    assignOne fl out path raw = readChange fl path raw >>= fun c => .ok (apply out c) := by
  unfold assignOne readChange target
  split_ifs with h₁ h₂ h₃ h₄ hname
  · simp only [readField]
    cases parseSCIMBool raw <;> rfl
  · simp only [readField]
    cases parseSCIMString raw <;> rfl
  · simp only [readField]
    cases parseSCIMString raw <;> rfl
  · simp only [readField, apply, if_pos hname]
    cases parseSCIMString raw <;> rfl
  · simp only [readField, apply, if_neg hname]
    cases parseSCIMString raw <;> rfl
  · simp only [readField]
    cases parseEmailValue raw <;> rfl
  · exact assignFiltered_eq fl out path raw

def readAll (ms : List (String × Json)) : Except String (List Change) :=
  ms.mapM fun m => readChange fl (normalisePath m.1) (some m.2)

def write (out : UserPatch) (cs : List Change) : UserPatch := cs.foldl apply out

theorem assignAll_eq (out : UserPatch) (ms : List (String × Json)) :
    assignAll fl out ms = readAll fl ms >>= fun cs => .ok (write out cs) := by
  induction ms generalizing out with
  | nil => rfl
  | cons m ms ih =>
    obtain ⟨k, v⟩ := m
    rw [assignAll, assignOne_eq, readAll, mapM_cons]
    cases readChange fl (normalisePath k) (some v) with
    | error e => rfl
    | ok c =>
      show assignAll fl (apply out c) ms = _
      rw [ih, readAll]
      cases List.mapM (fun m => readChange fl (normalisePath m.1) (some m.2)) ms <;> rfl

def opChanges (order : List (String × Json) → List (String × Json)) (op : PatchOp) :
    Except String (List Change) :=
  let verb := toLower (trimSpace op.op)
  let path := normalisePath op.path
  if verb = "replace" ∨ verb = "add" then
    if path = "" then
      match op.value with
      | some (.obj members) => readAll fl (order (decodeMap members))
      | some .null => .ok []
      | _ => .error "a pathless operation needs an object value"
    else do
      let c ← readChange fl path op.value
      .ok [c]
  else if verb = "remove" then if path = "" then .error "remove without a path is not valid"
    else if path = "active" then .ok [.active true]
    else .ok [.unsupported path]
  else .error ("unknown op " ++ quote op.op)

theorem userOperation_eq (order : List (String × Json) → List (String × Json)) (out : UserPatch)
    (op : PatchOp) :
    userOperation fl order out op = opChanges fl order op >>= fun cs => .ok (write out cs) := by
  unfold userOperation opChanges applyAssign applyRemove
  dsimp only
  split_ifs with hverb hpath hremove hnone hactive
  · cases op.value with
    | none => rfl
    | some j =>
      cases j with
      | obj members => exact assignAll_eq fl out _
      | _ => rfl
  · rw [assignOne_eq]
    cases readChange fl (normalisePath op.path) op.value <;> rfl
  · rfl
  · rfl
  · rfl
  · rfl

/-- The blocks of changes of a list of operations, the first of them the `i`-th. -/
inductive Blocks (order : Order) : ℕ → List PatchOp → List (List Change) → Prop
  | nil {i : ℕ} : Blocks order i [] []
  | cons {i : ℕ} {op : PatchOp} {ops : List PatchOp} {b : List Change}
      {bs : List (List Change)} : opChanges fl (order i) op = .ok b →
      Blocks order (i + 1) ops bs → Blocks order i (op :: ops) (b :: bs)

theorem applyUserOperations_ok {order : Order} {i : ℕ} {ops : List PatchOp}
    {out patch : UserPatch} :
    applyUserOperations fl order i ops out = .ok patch ↔
      ∃ bs, Blocks fl order i ops bs ∧ write out bs.flatten = patch := by
  induction ops generalizing i out with
  | nil =>
    constructor
    · rintro h
      cases h
      exact ⟨[], .nil, rfl⟩
    · rintro ⟨bs, hbs, rfl⟩
      cases hbs
      rfl
  | cons op ops ih =>
    rw [applyUserOperations, userOperation_eq]
    constructor
    · intro h
      cases hb : opChanges fl (order i) op with
      | error e => rw [hb] at h; exact nomatch h
      | ok b =>
        rw [hb] at h
        obtain ⟨bs, hbs, heq⟩ := ih.mp h
        refine ⟨b :: bs, .cons hb hbs, ?_⟩
        rw [flatten_cons, write, foldl_append]
        exact heq
    · rintro ⟨_, hbs, heq⟩
      cases hbs with
      | @cons _ _ _ b bs hb hbs =>
        rw [hb]
        refine ih.mpr ⟨bs, hbs, ?_⟩
        rw [flatten_cons, write, foldl_append] at heq
        exact heq

end

section

variable {fl : Floats F}

/-- Every walk visits each member once. -/
def Valid (order : Order) : Prop := ∀ i ms, (order i ms).Perm ms

/-- An operation either walks the members of its value or makes one change at most. -/
theorem opChanges_cases (fl : Floats F) (op : PatchOp) :
    (∃ ms, ∀ order, opChanges fl order op = readAll fl (order ms)) ∨
      ∃ r, (∀ order, opChanges fl order op = r) ∧ ∀ b, r = .ok b → b.length ≤ 1 := by
  unfold opChanges
  dsimp only
  split_ifs with hverb hpath
  · cases op.value with
    | none => exact .inr ⟨_, fun _ => rfl, fun b h => nomatch h⟩
    | some j =>
      cases j with
      | obj members => exact .inl ⟨decodeMap members, fun _ => rfl⟩
      | null =>
        refine .inr ⟨_, fun _ => rfl, fun b h => ?_⟩
        cases h
        exact Nat.zero_le 1
      | _ => exact .inr ⟨_, fun _ => rfl, fun b h => nomatch h⟩
  · refine .inr ⟨_, fun _ => rfl, fun b h => ?_⟩
    obtain ⟨c, _, heq⟩ := bind_ok.mp h
    cases heq
    exact Nat.le_refl 1
  · exact .inr ⟨_, fun _ => rfl, fun b h => nomatch h⟩
  · refine .inr ⟨_, fun _ => rfl, fun b h => ?_⟩
    cases h
    exact Nat.le_refl 1
  · refine .inr ⟨_, fun _ => rfl, fun b h => ?_⟩
    cases h
    exact Nat.le_refl 1
  · exact .inr ⟨_, fun _ => rfl, fun b h => nomatch h⟩

theorem opChanges_perm {order order' : List (String × Json) → List (String × Json)}
    {op : PatchOp} {b : List Change} (h : opChanges fl order op = .ok b)
    (hp : ∀ ms, (order ms).Perm (order' ms)) :
    ∃ b', opChanges fl order' op = .ok b' ∧ b.Perm b' := by
  rcases opChanges_cases fl op with ⟨ms, hread⟩ | ⟨r, hr, _⟩
  · rw [hread] at h
    obtain ⟨b', hb', hperm⟩ := mapM_perm h (hp ms)
    exact ⟨b', (hread order').trans hb', hperm⟩
  · exact ⟨b, (hr order').trans ((hr order).symm.trans h), .refl b⟩

open Classical in
theorem opChanges_reach {order : List (String × Json) → List (String × Json)}
    (hvalid : ∀ ms, (order ms).Perm ms) {op : PatchOp} {b b' : List Change}
    (h : opChanges fl order op = .ok b) (hp : b.Perm b') :
    ∃ order', (∀ ms, (order' ms).Perm ms) ∧ opChanges fl order' op = .ok b' := by
  rcases opChanges_cases fl op with ⟨ms, hread⟩ | ⟨r, hr, hone⟩
  · rw [hread] at h
    obtain ⟨ms', hms', hperm⟩ := mapM_reach h hp
    refine ⟨fun l => if l = ms then ms' else l, fun l => ?_, ?_⟩
    · show (if l = ms then ms' else l).Perm l
      split_ifs with hl
      · exact hl ▸ hperm.trans (hvalid ms)
      · exact .refl l
    · rw [hread]
      exact (congrArg (readAll fl) (if_pos rfl)).trans hms'
  · have hconst : Constant b := fun x hx y hy => by
      have hle := hone b ((hr order).symm.trans h)
      cases b with
      | nil => exact nomatch hx
      | cons c cs =>
        obtain rfl := length_eq_zero_iff.mp (Nat.le_zero.mp (Nat.le_of_succ_le_succ hle))
        rw [mem_singleton.mp hx, mem_singleton.mp hy]
    exact ⟨order, hvalid, hconst.perm_eq hp ▸ h⟩

theorem Blocks.shuffle {order : Order} (order' : Order)
    (hp : ∀ i ms, (order i ms).Perm (order' i ms))
    {i : ℕ} {ops : List PatchOp} {bs : List (List Change)} (h : Blocks fl order i ops bs) :
    ∃ bs', Blocks fl order' i ops bs' ∧ Shuffle bs bs' := by
  induction h with
  | nil => exact ⟨[], .nil, .nil⟩
  | @cons i op ops b bs hb _ ih =>
    obtain ⟨bs', hbs', hshuffle⟩ := ih
    obtain ⟨b', hb', hperm⟩ := opChanges_perm hb (hp i)
    exact ⟨b' :: bs', .cons hb' hbs', .cons hperm hshuffle⟩

theorem Blocks.later {order order' : Order} {i : ℕ} {ops : List PatchOp}
    {bs : List (List Change)} (h : Blocks fl order i ops bs)
    (heq : ∀ j, i ≤ j → order j = order' j) : Blocks fl order' i ops bs := by
  induction h with
  | nil => exact .nil
  | @cons i op ops b bs hb _ ih =>
    exact .cons (heq i (Nat.le_refl i) ▸ hb) (ih fun j hj => heq j (Nat.le_of_succ_le hj))

theorem Blocks.reach {order : Order} (hvalid : Valid order) {i : ℕ} {ops : List PatchOp}
    {bs bs' : List (List Change)} (h : Blocks fl order i ops bs) (hs : Shuffle bs bs') :
    ∃ order', Valid order' ∧ Blocks fl order' i ops bs' := by
  induction h generalizing bs' with
  | nil =>
    cases hs
    exact ⟨order, hvalid, .nil⟩
  | @cons i op ops b bs hb _ ih =>
    cases hs with
    | @cons _ b' _ bs' hperm hs =>
      obtain ⟨later, hlater, hbs'⟩ := ih hs
      obtain ⟨walk, hwalk, hb'⟩ := opChanges_reach (hvalid i) hb hperm
      refine ⟨update later i walk, fun j ms => ?_, .cons ?_ (hbs'.later fun j hj => ?_)⟩
      · by_cases hj : j = i
        · rw [hj, update_self]
          exact hwalk ms
        · rw [update_of_ne hj]
          exact hlater j ms
      · rwa [update_self]
      · rw [update_of_ne (by omega)]

end

def activeOf : Change → Option Bool
  | .active b => some b
  | _ => none

def userNameOf : Change → Option String
  | .userName s => some s
  | _ => none

def displayNameOf : Change → Option String
  | .displayName s => some s
  | _ => none

def formattedOf : Change → Option String
  | .formatted s => some s
  | _ => none

def emailOf : Change → Option String
  | .email s => some s
  | _ => none

def unsupportedOf : Change → Option String
  | .unsupported path => some path
  | _ => none

def fields (cs : List Change) : UserPatch where
  active := lastWrite activeOf cs
  userName := lastWrite userNameOf cs
  displayName := (lastWrite displayNameOf cs).or (firstWrite formattedOf cs)
  email := lastWrite emailOf cs
  unsupported := cs.filterMap unsupportedOf

theorem apply_formatted (out : UserPatch) (s : String) :
    apply out (.formatted s) = { out with displayName := out.displayName.or (some s) } := by
  obtain ⟨active, userName, displayName, email, unsupported⟩ := out
  cases displayName <;> rfl

theorem write_eq (cs : List Change) : write {} cs = fields cs := by
  induction cs using List.reverseRecOn with
  | nil => rfl
  | append_singleton cs c ih =>
    rw [write, foldl_concat, ← write, ih]
    have happend : fields (cs ++ [c]) =
        { active := (lastWrite activeOf [c]).or (lastWrite activeOf cs)
          userName := (lastWrite userNameOf [c]).or (lastWrite userNameOf cs)
          displayName := ((lastWrite displayNameOf [c]).or (lastWrite displayNameOf cs)).or
            ((firstWrite formattedOf cs).or (firstWrite formattedOf [c]))
          email := (lastWrite emailOf [c]).or (lastWrite emailOf cs)
          unsupported := cs.filterMap unsupportedOf ++ [c].filterMap unsupportedOf } := by
      simp only [fields, lastWrite_append, firstWrite_append, filterMap_append]
    rw [happend]
    cases c with
    | formatted s =>
      rw [apply_formatted]
      simp [fields, lastWrite, firstWrite, activeOf, userNameOf, displayNameOf, formattedOf,
        emailOf, unsupportedOf]
    | _ =>
      simp [apply, fields, lastWrite, firstWrite, activeOf, userNameOf, displayNameOf,
        formattedOf, emailOf, unsupportedOf]

/-- The writers that decide a field agree, and no operation notes two paths. -/
structure Agreeing (bs : List (List Change)) : Prop where
  active : Constant (lastWriters activeOf bs)
  userName : Constant (lastWriters userNameOf bs)
  displayName : Constant (if lastWriters displayNameOf bs = [] then firstWriters formattedOf bs
    else lastWriters displayNameOf bs)
  email : Constant (lastWriters emailOf bs)
  unsupported : ∀ b ∈ bs, Constant (b.filterMap unsupportedOf)

theorem fields_fixed_iff (bs : List (List Change)) :
    (∀ bs', Shuffle bs bs' → fields bs'.flatten = fields bs.flatten) ↔ Agreeing bs := by
  have hactive := (lastWrite_ranges activeOf).fixed_iff bs
  have huser := (lastWrite_ranges userNameOf).fixed_iff bs
  have hname := ((lastWrite_ranges displayNameOf).or (firstWrite_ranges formattedOf)).fixed_iff bs
  have hemail := (lastWrite_ranges emailOf).fixed_iff bs
  have hlog := log_fixed_iff unsupportedOf bs
  constructor
  · intro h
    exact ⟨hactive.mp fun bs' hs => congrArg UserPatch.active (h bs' hs),
      huser.mp fun bs' hs => congrArg UserPatch.userName (h bs' hs),
      hname.mp fun bs' hs => congrArg UserPatch.displayName (h bs' hs),
      hemail.mp fun bs' hs => congrArg UserPatch.email (h bs' hs),
      hlog.mp fun bs' hs => congrArg UserPatch.unsupported (h bs' hs)⟩
  · intro h bs' hs
    have h₁ := hactive.mpr h.active bs' hs
    have h₂ := huser.mpr h.userName bs' hs
    have h₃ := hname.mpr h.displayName bs' hs
    have h₄ := hemail.mpr h.email bs' hs
    have h₅ := hlog.mpr h.unsupported bs' hs
    rw [fields, h₁, h₂, h₃, h₄, h₅]
    rfl

section

variable {fl : Floats F}

theorem applyUserPatch_ok {order : Order} {ops : List PatchOp} {out : UserPatch} :
    applyUserPatch fl order ops = .ok out ↔ (ops ≠ [] ∧ ¬ maxPatchOperations < ops.length) ∧
      ∃ bs, Blocks fl order 0 ops bs ∧ fields bs.flatten = out := by
  rw [applyUserPatch, seq_ok, seq_ok, refuseIf_ok, refuseIf_ok, applyUserOperations_ok, ← and_assoc]
  simp only [write_eq]

/-- The changes of each operation, its members walked as they were sent. -/
def changes (fl : Floats F) (ops : List PatchOp) : List (List Change) :=
  ops.map fun op => match opChanges fl id op with
    | .ok b => b
    | .error _ => []

theorem Blocks.eq_changes {i : ℕ} {ops : List PatchOp} {bs : List (List Change)}
    (h : Blocks fl (fun _ => id) i ops bs) : bs = changes fl ops := by
  induction h with
  | nil => rfl
  | @cons i op ops b bs hb _ ih => rw [ih, changes, changes, map_cons, hb]

/-- An accepted PATCH leaves the same fields whatever the walks, exactly when the writers
that decide agree. -/
theorem order_free_iff {order : Order} (hvalid : Valid order) {ops : List PatchOp}
    {out : UserPatch} (h : applyUserPatch fl order ops = .ok out) :
    (∀ order', Valid order' → applyUserPatch fl order' ops = .ok out) ↔
      Agreeing (changes fl ops) := by
  obtain ⟨henvelope, bs, hbs, rfl⟩ := applyUserPatch_ok.mp h
  obtain ⟨bs₀, hbs₀, hs⟩ := hbs.shuffle (fun _ => id) hvalid
  rw [← hbs₀.eq_changes, ← fields_fixed_iff]
  constructor
  · intro hall bs' hs'
    obtain ⟨order', hvalid', hbs'⟩ := hbs₀.reach (fun _ ms => .refl ms) hs'
    have hfields : ∀ {order : Order} {bs' : List (List Change)}, Valid order →
        Blocks fl order 0 ops bs' → fields bs'.flatten = fields bs.flatten := fun hv hb =>
      Except.ok.inj ((applyUserPatch_ok.mpr ⟨henvelope, _, hb, rfl⟩).symm.trans (hall _ hv))
    exact (hfields hvalid' hbs').trans (hfields (fun _ ms => .refl ms) hbs₀).symm
  · intro hfixed order' hvalid'
    obtain ⟨bs', hbs', hs'⟩ := hbs₀.shuffle order' fun i ms => (hvalid' i ms).symm
    refine applyUserPatch_ok.mpr ⟨henvelope, bs', hbs', ?_⟩
    rw [hfixed bs' hs', hfixed bs hs.symm]

end

section

variable {fl : Floats F}

def field (fl : Floats F) (path : String) : Option Field := match target fl path with
  | .ok f => f
  | .error _ => none

def opReads (fl : Floats F) (op : PatchOp) : List (Field × Option Json) :=
  let verb := toLower (trimSpace op.op)
  let path := normalisePath op.path
  if verb = "replace" ∨ verb = "add" then
    if path = "" then
      match op.value with
      | some (.obj members) => (decodeMap members).filterMap fun m =>
        (field fl (normalisePath m.1)).map fun f => (f, some m.2)
      | _ => []
    else ((field fl path).map fun f => (f, op.value)).toList
  else []

def HasText (members : List (String × Json)) : Prop :=
  ∃ k s, (k, Json.str s) ∈ members ∧ equalFold k "value" = true

def HasValue (members : List (String × Json)) : Prop :=
  ∃ k v, (k, v) ∈ members ∧ equalFold k "value" = true ∧ v ≠ .null

/-- The element of a list that the address is taken from. -/
def chosenItem (items : List Json) : Option Json :=
  (items.find? fun j => ((decodeEmail j).map Email.primary).getD false).or items.head?

def Typed : Field → Option Json → Prop
  | .active, raw => (∃ b, raw = some (.bool b)) ∨ ∃ s, raw = some (.str s)
  | .email, raw => (∃ s, raw = some (.str s)) ∨
      (∃ members, raw = some (.obj members) ∧ HasText members) ∨
      ∃ items members, raw = some (.arr items) ∧ chosenItem items = some (.obj members) ∧
        HasText members
  | _, raw => ∃ s, raw = some (.str s)

/-- The value is not null, nor is the element of a list that counts, nor its address. -/
def Stated (f : Field) (raw : Option Json) : Prop :=
  raw ≠ some .null ∧ (f = .email → ∀ items, raw = some (.arr items) →
    ∃ members, chosenItem items = some (.obj members) ∧ HasValue members)

theorem decodeEmailField_value {e e' : Email} {m : String × Json}
    (h : decodeEmailField e m = some e') :
    (equalFold m.1 "value" = true → m.2 = .null ∨ ∃ s, m.2 = .str s) ∧
      (e'.value = e.value ∨ HasText [m]) := by
  obtain ⟨k, v⟩ := m
  unfold decodeEmailField at h
  split_ifs at h with hvalue hprimary htype
  · cases v with
    | str s => exact ⟨fun _ => .inr ⟨s, rfl⟩, .inr ⟨k, s, mem_cons_self, hvalue⟩⟩
    | null => exact ⟨fun _ => .inl rfl, .inl (Option.some.inj h ▸ rfl)⟩
    | _ => exact nomatch h
  · refine ⟨fun hk => absurd hk hvalue, .inl ?_⟩
    cases v with
    | bool b => cases h; rfl
    | null => cases h; rfl
    | _ => exact nomatch h
  · refine ⟨fun hk => absurd hk hvalue, .inl ?_⟩
    cases v with
    | str s => cases h; rfl
    | null => cases h; rfl
    | _ => exact nomatch h
  · exact ⟨fun hk => absurd hk hvalue, .inl (Option.some.inj h ▸ rfl)⟩

theorem decodeEmail_value {members : List (String × Json)} {e e' : Email}
    (h : members.foldlM decodeEmailField e = some e') :
    (∀ m ∈ members, equalFold m.1 "value" = true → m.2 = .null ∨ ∃ s, m.2 = .str s) ∧
      (e'.value = e.value ∨ HasText members) := by
  induction members generalizing e with
  | nil =>
    cases h
    exact ⟨forall_mem_nil _, .inl rfl⟩
  | cons m ms ih =>
    rw [foldlM_cons] at h
    obtain ⟨e₁, hm, hms⟩ := Option.bind_eq_some_iff.mp h
    obtain ⟨hkind, hfirst⟩ := decodeEmailField_value hm
    obtain ⟨hkinds, hrest⟩ := ih hms
    refine ⟨forall_mem_cons.mpr ⟨hkind, hkinds⟩, ?_⟩
    rcases hrest with heq | ⟨k, s, hmem, hk⟩
    · rcases hfirst with heq' | ⟨k, s, hmem, hk⟩
      · exact .inl (heq.trans heq')
      · exact .inr ⟨k, s, mem_cons.mpr (.inl (mem_singleton.mp hmem)), hk⟩
    · exact .inr ⟨k, s, mem_cons_of_mem m hmem, hk⟩

theorem hasText_iff_hasValue {members : List (String × Json)} {e : Email}
    (h : decodeEmail (.obj members) = some e) : HasText members ↔ HasValue members := by
  constructor
  · rintro ⟨k, s, hmem, hk⟩
    exact ⟨k, .str s, hmem, hk, nofun⟩
  · rintro ⟨k, v, hmem, hk, hv⟩
    obtain rfl | ⟨s, rfl⟩ := (decodeEmail_value h).1 (k, v) hmem hk
    · exact absurd rfl hv
    · exact ⟨k, s, hmem, hk⟩

theorem chosenItem_mem {items : List Json} {j : Json} (h : chosenItem items = some j) :
    j ∈ items := by
  rw [chosenItem, Option.or_eq_some_iff] at h
  rcases h with h | ⟨_, h⟩
  · exact mem_of_find?_eq_some h
  · exact mem_of_head? h

theorem parseSCIMString_typed {raw : Option Json} {s : String}
    (h : parseSCIMString raw = .ok s) : (∃ t, raw = some (.str t)) ↔ raw ≠ some .null := by
  rcases raw with _ | j
  · exact nomatch h
  · cases j with
    | str t => exact iff_of_true ⟨t, rfl⟩ nofun
    | null => exact iff_of_false (fun ⟨_, h⟩ => nomatch h) fun h => h rfl
    | _ => exact nomatch h

theorem parseSCIMBool_typed {raw : Option Json} {b : Bool} (h : parseSCIMBool raw = .ok b) :
    ((∃ b, raw = some (.bool b)) ∨ ∃ t, raw = some (.str t)) ↔ raw ≠ some .null := by
  rcases raw with _ | j
  · exact nomatch h
  · cases j with
    | str t => exact iff_of_true (.inr ⟨t, rfl⟩) nofun
    | bool b => exact iff_of_true (.inl ⟨b, rfl⟩) nofun
    | null =>
      refine iff_of_false (fun h => ?_) fun h => h rfl
      rcases h with ⟨_, h⟩ | ⟨_, h⟩ <;> cases h
    | _ => exact nomatch h

theorem parseEmailValue_typed {raw : Option Json} {s : String}
    (h : parseEmailValue raw = .ok s) : Typed .email raw ↔ Stated .email raw := by
  rcases raw with _ | j
  · exact nomatch h
  cases j with
  | str t => exact iff_of_true (.inl ⟨t, rfl⟩) ⟨nofun, fun _ _ heq => nomatch heq⟩
  | null =>
    refine iff_of_false ?_ fun hstated => hstated.1 rfl
    rintro (⟨_, heq⟩ | ⟨_, heq, _⟩ | ⟨_, _, heq, _⟩) <;> cases heq
  | obj members =>
    refine iff_of_true (.inr (.inl ⟨members, rfl, ?_⟩)) ⟨nofun, fun _ _ heq => nomatch heq⟩
    rw [parseEmailValue] at h
    cases he : decodeEmail (.obj members) with
    | none => rw [he] at h; exact nomatch h
    | some e =>
      simp only [he] at h
      split_ifs at h with hvalue
      exact (decodeEmail_value he).2.resolve_left hvalue
  | arr items =>
    rw [parseEmailValue] at h
    cases hes : items.mapM decodeEmail with
    | none => rw [hes] at h; exact nomatch h
    | some es =>
      have hall := forall₂_of_mapM hes
      have hdecodes : ∀ members, chosenItem items = some (.obj members) →
          (HasText members ↔ HasValue members) := fun members hitem => by
        obtain ⟨e, _, he⟩ := forall₂_mem hall (chosenItem_mem hitem)
        exact hasText_iff_hasValue he
      constructor
      · rintro (⟨_, heq⟩ | ⟨_, heq, _⟩ | ⟨_, members, heq, hitem, htext⟩)
        · cases heq
        · cases heq
        · cases heq
          refine ⟨nofun, fun _ _ heq => ?_⟩
          cases heq
          exact ⟨members, hitem, (hdecodes members hitem).mp htext⟩
      · rintro ⟨_, hstated⟩
        obtain ⟨members, hitem, hvalue⟩ := hstated rfl items rfl
        exact .inr (.inr ⟨items, members, rfl, hitem, (hdecodes members hitem).mpr hvalue⟩)
  | _ => exact nomatch h

theorem typed_iff_stated {f : Field} {raw : Option Json} {c : Change}
    (h : readField f raw = .ok c) : Typed f raw ↔ Stated f raw := by
  cases f with
  | email =>
    obtain ⟨s, hs, _⟩ := bind_ok.mp h
    exact parseEmailValue_typed hs
  | active =>
    obtain ⟨b, hb, _⟩ := bind_ok.mp h
    exact (parseSCIMBool_typed hb).trans (and_iff_left nofun).symm
  | userName | displayName | formatted =>
    obtain ⟨s, hs, _⟩ := bind_ok.mp h
    exact (parseSCIMString_typed hs).trans (and_iff_left nofun).symm

theorem readField_of_change {path : String} {f : Field} {raw : Option Json} {c : Change}
    (h : readChange fl path raw = .ok c) (hf : field fl path = some f) :
    readField f raw = .ok c := by
  unfold field at hf
  unfold readChange at h
  cases htarget : target fl path with
  | error e => rw [htarget] at h; exact nomatch h
  | ok g =>
    simp only [htarget] at hf h
    cases hf
    exact h

theorem opReads_ok {order : List (String × Json) → List (String × Json)}
    (hvalid : ∀ ms, (order ms).Perm ms) {op : PatchOp} {b : List Change}
    (h : opChanges fl order op = .ok b) :
    ∀ r ∈ opReads fl op, ∃ c, readField r.1 r.2 = .ok c := by
  unfold opChanges at h
  unfold opReads
  dsimp only at h ⊢
  split_ifs at h ⊢ with hverb hpath
  · cases hv : op.value with
    | none => exact forall_mem_nil _
    | some j =>
      cases j with
      | obj members =>
        simp only [hv] at h ⊢
        intro r hr
        obtain ⟨m, hm, hr⟩ := mem_filterMap.mp hr
        obtain ⟨f, hf, rfl⟩ := Option.map_eq_some_iff.mp hr
        obtain ⟨c, _, hc⟩ := mapM_mem h ((hvalid _).mem_iff.mpr hm)
        exact ⟨c, readField_of_change hc hf⟩
      | _ => exact forall_mem_nil _
  · obtain ⟨c, hc, _⟩ := bind_ok.mp h
    intro r hr
    obtain ⟨f, hf, rfl⟩ := Option.map_eq_some_iff.mp (Option.mem_toList.mp hr)
    exact ⟨c, readField_of_change hc hf⟩
  all_goals exact forall_mem_nil _

theorem Blocks.reads {order : Order} (hvalid : Valid order) {i : ℕ} {ops : List PatchOp}
    {bs : List (List Change)} (h : Blocks fl order i ops bs) :
    ∀ op ∈ ops, ∀ r ∈ opReads fl op, ∃ c, readField r.1 r.2 = .ok c := by
  induction h with
  | nil => exact forall_mem_nil _
  | @cons i op ops b bs hb _ ih => exact forall_mem_cons.mpr ⟨opReads_ok (hvalid i) hb, ih⟩

theorem reads_typed_iff {order : Order} (hvalid : Valid order) {ops : List PatchOp}
    {out : UserPatch} (h : applyUserPatch fl order ops = .ok out) :
    (∀ op ∈ ops, ∀ r ∈ opReads fl op, Typed r.1 r.2) ↔
      ∀ op ∈ ops, ∀ r ∈ opReads fl op, Stated r.1 r.2 := by
  obtain ⟨_, bs, hbs, _⟩ := applyUserPatch_ok.mp h
  have hreads := hbs.reads hvalid
  refine forall₂_congr fun op hop => forall₂_congr fun r hr => ?_
  obtain ⟨c, hc⟩ := hreads op hop r hr
  exact typed_iff_stated hc

end

/-- An accepted user PATCH has one meaning, read from values of the right types, exactly when
the writers that decide a field agree, no operation notes two paths, and no value is null. -/
theorem user_patch_meaning_iff (fl : Floats F) (order : Order) (hvalid : Valid order)
    (ops : List PatchOp) (out : UserPatch) (h : applyUserPatch fl order ops = .ok out) :
    ((∀ order', Valid order' → applyUserPatch fl order' ops = .ok out) ∧
      ∀ op ∈ ops, ∀ r ∈ opReads fl op, Typed r.1 r.2) ↔
    Agreeing (changes fl ops) ∧ ∀ op ∈ ops, ∀ r ∈ opReads fl op, Stated r.1 r.2 :=
  and_congr (order_free_iff hvalid h) (reads_typed_iff hvalid h)

def asSent : Order := fun _ => id

def reversed : Order := fun _ => List.reverse

def twiceActive : List PatchOp :=
  [{ op := "Replace", value := some (.obj [("active", .bool true), ("Active", .bool false)]) }]

def nullActive : List PatchOp := [{ op := "replace", path := "active", value := some .null }]

theorem valid_asSent : Valid asSent := fun _ ms => .refl ms

theorem valid_reversed : Valid reversed := fun _ ms => reverse_perm ms

/-- The walk decides whether the account stays active, and null deactivates it. -/
theorem order_decides_active : (Valid asSent ∧ Valid reversed) ∧
    applyUserPatch noFloats asSent twiceActive = .ok { active := some false } ∧
    applyUserPatch noFloats reversed twiceActive = .ok { active := some true } ∧
    applyUserPatch noFloats asSent nullActive = .ok { active := some false } ∧
    opReads noFloats { op := "replace", path := "active", value := some .null } =
      [(.active, some .null)] ∧ ¬ Typed .active (some .null) := by
  refine ⟨⟨valid_asSent, valid_reversed⟩, rfl, rfl, rfl, rfl, ?_⟩
  rintro (⟨_, heq⟩ | ⟨_, heq⟩) <;> cases heq

def valueOps : List PatchOp :=
  [{ op := "replace", value := some (.obj [("userName", .str "bo"), ("active", .bool false)]) }]

theorem user_patch_meaning_iff_value :
    ((∀ order', Valid order' →
        applyUserPatch noFloats order' valueOps =
          .ok { userName := some "bo", active := some false }) ∧
      ∀ op ∈ valueOps, ∀ r ∈ opReads noFloats op, Typed r.1 r.2) ↔
    Agreeing (changes noFloats valueOps) ∧
      ∀ op ∈ valueOps, ∀ r ∈ opReads noFloats op, Stated r.1 r.2 :=
  user_patch_meaning_iff noFloats asSent valid_asSent valueOps
    { userName := some "bo", active := some false } rfl

end Signari.UserPatchMeaning
