import Signari.DirectoryPlan
import Signari.GoStrings
import Signari.KeyedRows

/-!
# Applying a directory sync

`LoadLocal` and `Apply` of a directory sync over the accounts of one organisation and the
links of one source, with the constraints of the schema: an address is unique up to `lower`,
a link is keyed by the remote id, and an account has at most one link. A statement that would
break one of them fails, and with it the whole transaction.

The statement of a create does match by address: where an account holds the address of a new person,
that account is activated and linked.
-/
namespace Signari.DirectoryApply
open KeyedMaps KeyedRows DirectoryPlan List

inductive Status where
  | active | deactivated | locked
  deriving DecidableEq

structure Account where
  id : String
  email : Option String
  status : Status
  deriving DecidableEq

structure Link where
  remoteID : String
  userID : String
  remoteEmail : String
  remoteName : String

structure Session where
  id : String
  userID : String
  revocationReason : Option String

/-- The accounts of the organisation, the links of the source, and the sessions. -/
structure Directory where
  accounts : Table Account.id
  links : Table Link.remoteID
  sessions : List Session

/-- `gen_random_uuid`: an id that no account has. -/
structure Uuids where
  pick : List String → String
  fresh : ∀ ids, pick ids ∉ ids

section

variable (casing : Casing) (uuids : Uuids)

/-- `lower(email) = lower($1)`. -/
def Account.holds (u : Account) (email : String) : Bool :=
  u.email.any fun e => casing.lower e == casing.lower email

/-- What the schema promises of the two tables. -/
structure Directory.Valid (d : Directory) : Prop where
  emails : ∀ u ∈ d.accounts.rows, ∀ v ∈ d.accounts.rows, ∀ e ∈ u.email, v.holds casing e = true →
    u.id = v.id
  users : ∀ l ∈ d.links.rows, ∀ k ∈ d.links.rows, l.userID = k.userID → l = k
  linked : ∀ l ∈ d.links.rows, (d.accounts.lookup l.userID).isSome
  named : ∀ l ∈ d.links.rows, l.remoteID ≠ ""

/-- The account under an address in the unique index. -/
def Directory.holder (d : Directory) (email : String) : Option Account :=
  d.accounts.rows.find? fun u => u.holds casing email

def Directory.setStatus (d : Directory) (id : String) (status : Status) : Directory :=
  { d with
    accounts := d.accounts.modify id (fun u => { u with status := status }) (fun _ => rfl) }

def Directory.addAccount (d : Directory) (u : Account) : Directory :=
  { d with accounts := d.accounts.upsert u (fun v => v) (fun _ => rfl) }

/-- The id and the state that `INSERT INTO core.users … ON CONFLICT` leaves. -/
def Directory.upsertAccount (d : Directory) (email : String) : String × Directory :=
  match d.holder casing email with
  | some u => (u.id, d.setStatus u.id .active)
  | none =>
    let id := uuids.pick (d.accounts.rows.map Account.id)
    (id, d.addAccount ⟨id, some email, .active⟩)

/-- `INSERT INTO core.directory_links … ON CONFLICT (source_id, remote_id)`; a second link of
an account breaks `UNIQUE (source_id, user_id)`. -/
def Directory.putLink (d : Directory) (l : Link) : Except String Directory :=
  if d.links.rows.any fun k => k.userID == l.userID && k.remoteID != l.remoteID then
    .error ("linking " ++ l.remoteEmail ++ ": duplicate key value violates unique constraint")
  else .ok { d with
    links := d.links.upsert l (fun k => { l with remoteID := k.remoteID }) (fun _ => rfl) }

def revoke (userID : String) (s : Session) : Session :=
  if s.userID = userID ∧ s.revocationReason = none then
    { s with revocationReason := some "user_deactivated" } else s

def applyAction (a : Action) (d : Directory) : Except String Directory := match a.kind with
  | .create =>
    let created := d.upsertAccount casing uuids a.email
    created.2.putLink ⟨a.remoteID, created.1, a.email, a.name⟩
  | .update =>
    if (d.accounts.lookup a.userID).isSome ∧
        ∃ v ∈ d.accounts.rows, v.id ≠ a.userID ∧ v.holds casing a.email = true then
      .error ("updating " ++ a.email ++ ": duplicate key value violates unique constraint")
    else .ok { d with
      accounts := d.accounts.modify a.userID (fun u => { u with email := some a.email })
        (fun _ => rfl)
      links := d.links.modify a.remoteID
        (fun l => { l with remoteEmail := a.email, remoteName := a.name }) (fun _ => rfl) }
  | .deactivate =>
    .ok { d.setStatus a.userID .deactivated with
      sessions := d.sessions.map (revoke a.userID) }
  | .reactivate => .ok (d.setStatus a.userID .active)
  | .reportMissing => .ok d

/-- A statement that fails undoes the whole transaction. -/
def apply (d : Directory) (p : Plan) : Except String Directory :=
  if p.safe = false then .error ("refusing to apply: " ++ p.refused)
  else foldKeys (applyAction casing uuids) p.actions d

/-- The link of an account, as the outer join finds it. -/
def Directory.linkOf (d : Directory) (userID : String) : Option Link :=
  d.links.rows.find? fun l => l.userID == userID

def localUser (d : Directory) (u : Account) : LocalUser :=
  ⟨u.id, ((d.linkOf u.id).map Link.remoteID).getD "", u.email.getD "",
    ((d.linkOf u.id).map Link.remoteName).getD "", u.status == .active⟩

def loadLocal (d : Directory) : List LocalUser := d.accounts.rows.map (localUser d)

end

section

variable {casing : Casing} {uuids : Uuids} {d d' : Directory} {a : Action}

/-- The account a create leaves under an address. -/
def Directory.target (casing : Casing) (uuids : Uuids) (d : Directory) (email : String) : Account :=
  match d.holder casing email with
  | some u => { u with status := .active }
  | none => ⟨uuids.pick (d.accounts.rows.map Account.id), some email, .active⟩

theorem holder_mem {email : String} {u : Account} (h : d.holder casing email = some u) :
    d.accounts.lookup u.id = some u ∧ u.holds casing email = true :=
  ⟨Table.mem_rows.mp (mem_of_find?_eq_some h),
    find?_some (p := fun u : Account => u.holds casing email) h⟩

theorem setStatus_lookup (d : Directory) (id j : String) (status : Status) :
    (d.setStatus id status).accounts.lookup j =
      if j = id then (d.accounts.lookup j).map fun u => { u with status := status }
      else d.accounts.lookup j := by
  rw [Directory.setStatus, Table.lookup_modify]

theorem addAccount_lookup (d : Directory) (u : Account) (j : String) :
    (d.addAccount u).accounts.lookup j =
      if j = u.id then some ((d.accounts.lookup j).getD u) else d.accounts.lookup j := by
  rw [Directory.addAccount, Table.lookup_upsert]
  cases d.accounts.lookup j <;> rfl

theorem lookup_pick (d : Directory) :
    d.accounts.lookup (uuids.pick (d.accounts.rows.map Account.id)) = none := by
  rw [Table.lookup, find?_eq_none]
  intro u hu heq
  refine uuids.fresh (d.accounts.rows.map Account.id) ?_
  exact mem_map.mpr ⟨u, hu, by simpa using heq⟩

theorem upsertAccount_spec (casing : Casing) (uuids : Uuids) (d : Directory) (email : String) :
    (d.upsertAccount casing uuids email).1 = (d.target casing uuids email).id ∧
      (d.upsertAccount casing uuids email).2.links = d.links ∧
      (d.upsertAccount casing uuids email).2.sessions = d.sessions ∧
      ∀ id, (d.upsertAccount casing uuids email).2.accounts.lookup id =
        if id = (d.target casing uuids email).id then some (d.target casing uuids email)
        else d.accounts.lookup id := by
  unfold Directory.upsertAccount Directory.target
  cases hholder : d.holder casing email with
  | some u =>
    refine ⟨rfl, rfl, rfl, ?_⟩
    intro id
    simp only [setStatus_lookup]
    split
    · rename_i hid
      rw [hid, (holder_mem hholder).1]
      rfl
    · rfl
  | none =>
    refine ⟨rfl, rfl, rfl, ?_⟩
    intro id
    simp only [addAccount_lookup]
    split
    · rename_i hid
      rw [hid, lookup_pick]
      rfl
    · rfl

/-- A create fails exactly when the account under the address has another link. -/
def LinkClash (casing : Casing) (uuids : Uuids) (a : Action) (d : Directory) : Prop :=
  ∃ k ∈ d.links.rows, k.userID = (d.target casing uuids a.email).id ∧ k.remoteID ≠ a.remoteID

theorem create_clash (hk : a.kind = .create) (h : LinkClash casing uuids a d) :
    ∃ e, applyAction casing uuids a d = .error e := by
  obtain ⟨hid, hlinks, -⟩ := upsertAccount_spec casing uuids d a.email
  obtain ⟨k, hkmem, huser, hremote⟩ := h
  unfold applyAction Directory.putLink
  simp only [hk]
  rw [if_pos]
  · exact ⟨_, rfl⟩
  · rw [any_eq_true]
    refine ⟨k, hlinks ▸ hkmem, ?_⟩
    simp [huser, hid, hremote]

theorem create_ok (hk : a.kind = .create) (h : ¬LinkClash casing uuids a d) :
    ∃ d', applyAction casing uuids a d = .ok d' ∧
      (∀ id, d'.accounts.lookup id =
        if id = (d.target casing uuids a.email).id then some (d.target casing uuids a.email)
        else d.accounts.lookup id) ∧
      (∀ rid, d'.links.lookup rid =
        if rid = a.remoteID then
          some ⟨a.remoteID, (d.target casing uuids a.email).id, a.email, a.name⟩
        else d.links.lookup rid) ∧
      d'.sessions = d.sessions := by
  obtain ⟨hid, hlinks, hsessions, haccounts⟩ := upsertAccount_spec casing uuids d a.email
  unfold applyAction Directory.putLink
  simp only [hk]
  rw [if_neg]
  · refine ⟨_, rfl, haccounts, ?_, hsessions⟩
    intro rid
    simp only [Table.lookup_upsert, hlinks, hid]
    by_cases hrid : rid = a.remoteID
    · subst hrid
      simp only [if_true]
      cases hold : d.links.lookup a.remoteID with
      | none => rfl
      | some l =>
        have hl : Link.remoteID l = a.remoteID := Table.key_of_lookup hold
        simp [hl]
    · simp only [hrid, if_false]
  · rw [any_eq_true]
    rintro ⟨k, hkmem, hcond⟩
    rw [hlinks] at hkmem
    simp only [hid, Bool.and_eq_true, beq_iff_eq, bne_iff_ne] at hcond
    exact h ⟨k, hkmem, hcond⟩

def AddressTaken (casing : Casing) (a : Action) (d : Directory) : Prop :=
  (d.accounts.lookup a.userID).isSome ∧
    ∃ v ∈ d.accounts.rows, v.id ≠ a.userID ∧ v.holds casing a.email = true

theorem update_taken (uuids : Uuids) (hk : a.kind = .update) (h : AddressTaken casing a d) :
    ∃ e, applyAction casing uuids a d = .error e := by
  unfold applyAction
  simp only [hk]
  exact ⟨_, if_pos h⟩

theorem update_ok (uuids : Uuids) (hk : a.kind = .update) (h : ¬AddressTaken casing a d) :
    ∃ d', applyAction casing uuids a d = .ok d' ∧
      (∀ id, d'.accounts.lookup id =
        if id = a.userID then (d.accounts.lookup id).map fun u => { u with email := some a.email }
        else d.accounts.lookup id) ∧
      (∀ rid, d'.links.lookup rid =
        if rid = a.remoteID then (d.links.lookup rid).map fun l =>
          { l with remoteEmail := a.email, remoteName := a.name }
        else d.links.lookup rid) ∧
      d'.sessions = d.sessions := by
  unfold applyAction
  simp only [hk]
  refine ⟨_, if_neg h, ?_, ?_, rfl⟩
  · intro id
    rw [Table.lookup_modify]
  · intro rid
    rw [Table.lookup_modify]

def newStatus : ActionKind → Option Status
  | .deactivate => some .deactivated
  | .reactivate => some .active
  | _ => none

/-- Deactivations, reactivations and reports always succeed, and leave the links alone. -/
theorem status_ok (casing : Casing) (uuids : Uuids) (d : Directory)
    (hk : a.kind ≠ .create ∧ a.kind ≠ .update) :
    ∃ d', applyAction casing uuids a d = .ok d' ∧
      (∀ id, d'.accounts.lookup id =
        if id = a.userID then (d.accounts.lookup id).map fun u =>
          { u with status := (newStatus a.kind).getD u.status }
        else d.accounts.lookup id) ∧
      d'.links = d.links ∧
      d'.sessions = if a.kind = .deactivate then d.sessions.map (revoke a.userID)
        else d.sessions := by
  unfold applyAction
  cases hkind : a.kind with
  | create => exact absurd hkind hk.1
  | update => exact absurd hkind hk.2
  | deactivate | reactivate => exact ⟨_, rfl, fun id => setStatus_lookup d a.userID id _, rfl, rfl⟩
  | reportMissing =>
    refine ⟨_, rfl, ?_, rfl, rfl⟩
    intro id
    split
    · cases d.accounts.lookup id <;> rfl
    · rfl

end

section

variable {casing : Casing} {d : Directory}

/-- The account linked under a remote id, as `LoadLocal` reads it. -/
def Directory.known (d : Directory) (rid : String) : Option LocalUser :=
  (d.links.lookup rid).bind fun l => (d.accounts.lookup l.userID).map fun u =>
    ⟨u.id, rid, u.email.getD "", l.remoteName, u.status == .active⟩

theorem linkOf_eq_some (hv : d.Valid casing) {id : String} {l : Link} :
    d.linkOf id = some l ↔ l ∈ d.links.rows ∧ l.userID = id := by
  constructor
  · intro h
    exact ⟨mem_of_find?_eq_some h, by simpa using find?_some h⟩
  · rintro ⟨hmem, hid⟩
    cases hfind : d.linkOf id with
    | none =>
      rw [Directory.linkOf, find?_eq_none] at hfind
      exact absurd (by simpa using hid) (hfind l hmem)
    | some k =>
      have huser : k.userID = id := by simpa using find?_some hfind
      rw [hv.users k (mem_of_find?_eq_some hfind) l hmem (huser.trans hid.symm)]

theorem localUser_linked (hv : d.Valid casing) {u : Account} {l : Link}
    (hl : l ∈ d.links.rows) (hid : l.userID = u.id) :
    localUser d u = ⟨u.id, l.remoteID, u.email.getD "", l.remoteName, u.status == .active⟩ := by
  simp [localUser, (linkOf_eq_some hv).mpr ⟨hl, hid⟩]

theorem localUser_remoteID (hv : d.Valid casing) {u : Account} (h : (localUser d u).remoteID ≠ "") :
    ∃ l ∈ d.links.rows, l.userID = u.id ∧ l.remoteID = (localUser d u).remoteID := by
  cases hlink : d.linkOf u.id with
  | none => simp [localUser, hlink] at h
  | some l =>
    obtain ⟨hmem, hid⟩ := (linkOf_eq_some hv).mp hlink
    exact ⟨l, hmem, hid, by simp [localUser, hlink]⟩

theorem getLast?_of_all_eq {α : Type} {l : List α} {x : α} (hx : x ∈ l) (h : ∀ y ∈ l, y = x) :
    l.getLast? = some x := by
  cases hlast : l.getLast? with
  | none =>
    rw [getLast?_eq_none_iff] at hlast
    simp [hlast] at hx
  | some y => rw [h y (mem_of_getLast? hlast)]

theorem byRemoteID_load (hv : d.Valid casing) {rid : String} (hrid : rid ≠ "") :
    byRemoteID (loadLocal d) rid = d.known rid := by
  unfold byRemoteID Directory.known
  cases hl : d.links.lookup rid with
  | none =>
    rw [Option.bind_none, getLast?_eq_none_iff, filter_eq_nil_iff]
    intro x hx hmatch
    obtain ⟨u, -, rfl⟩ := mem_map.mp hx
    rw [beq_iff_eq] at hmatch
    obtain ⟨l, hmem, -, hremote⟩ := localUser_remoteID hv (hmatch ▸ hrid)
    have := Table.mem_rows.mp hmem
    rw [hremote, hmatch, hl] at this
    cases this
  | some l =>
    have hmem := Table.mem_rows.mpr (Table.key_of_lookup hl ▸ hl)
    obtain ⟨u, hu⟩ := Option.isSome_iff_exists.mp (hv.linked l hmem)
    have huid : Account.id u = l.userID := Table.key_of_lookup hu
    have hrid' : Link.remoteID l = rid := Table.key_of_lookup hl
    have hlocal := localUser_linked hv hmem huid.symm
    rw [hrid'] at hlocal
    simp only [Option.bind_some, hu, Option.map_some]
    rw [← hlocal]
    refine getLast?_of_all_eq ?_ ?_
    · rw [mem_filter]
      refine ⟨mem_map_of_mem (Table.mem_rows.mpr (huid ▸ hu)), ?_⟩
      simp [hlocal]
    · intro x hx
      rw [mem_filter, beq_iff_eq] at hx
      obtain ⟨v, hvmem, rfl⟩ := mem_map.mp hx.1
      obtain ⟨k, hkmem, hkuser, hkremote⟩ := localUser_remoteID hv (hx.2 ▸ hrid)
      have hk := Table.mem_rows.mp hkmem
      rw [hkremote, hx.2, hl] at hk
      obtain rfl := Option.some.inj hk
      have hv' := Table.mem_rows.mp hvmem
      rw [← hkuser, hu] at hv'
      rw [Option.some.inj hv']

theorem known_isNone (hv : d.Valid casing) {rid : String} (h : d.known rid = none) :
    d.links.lookup rid = none := by
  cases hl : d.links.lookup rid with
  | none => rfl
  | some l =>
    obtain ⟨u, hu⟩ := Option.isSome_iff_exists.mp
      (hv.linked l (Table.mem_rows.mpr (Table.key_of_lookup hl ▸ hl)))
    simp [Directory.known, hl, hu] at h

end

section

variable {casing : Casing} {uuids : Uuids} {d d' s s' t : Directory} {a : Action}

def Linked (d : Directory) (id rid : String) : Prop :=
  ∃ l, d.links.lookup rid = some l ∧ l.userID = id

def Directory.sessionsOf (d : Directory) (id : String) : List Session :=
  d.sessions.filter fun s => s.userID == id

/-- Nothing about an account has changed: its row, its links, its sessions. -/
structure Same (d d' : Directory) (id : String) : Prop where
  account : d'.accounts.lookup id = d.accounts.lookup id
  linked : ∀ rid, Linked d' id rid ↔ Linked d id rid
  sessions : d'.sessionsOf id = d.sessionsOf id

theorem Same.refl (d : Directory) (id : String) : Same d d id := ⟨rfl, fun _ => Iff.rfl, rfl⟩

theorem Same.trans {id : String} (h : Same d s id) (h' : Same s t id) : Same d t id :=
  ⟨h'.account.trans h.account, fun rid => (h'.linked rid).trans (h.linked rid),
    h'.sessions.trans h.sessions⟩

theorem sessionsOf_revoke {id userID : String} (hne : id ≠ userID) (sessions : List Session) :
    ((sessions.map (revoke userID)).filter fun s => s.userID == id) =
      sessions.filter fun s => s.userID == id := by
  induction sessions with
  | nil => rfl
  | cons s sessions ih =>
    have hkeeps : (revoke userID s).userID = s.userID := by
      unfold revoke
      split <;> rfl
    rw [map_cons]
    by_cases hs : s.userID = id
    · have hsame : revoke userID s = s := by
        rw [revoke, if_neg]
        rintro ⟨huser, -⟩
        exact hne (hs.symm.trans huser)
      rw [filter_cons_of_pos (by simpa [hkeeps] using hs),
        filter_cons_of_pos (by simpa using hs), ih, hsame]
    · rw [filter_cons_of_neg (by simpa [hkeeps] using hs),
        filter_cons_of_neg (by simpa using hs), ih]

theorem other_same (hk : a.kind ≠ .create) (h : applyAction casing uuids a s = .ok s') {id : String}
    (hid : id ≠ a.userID ∨ a.kind = .reportMissing) : Same s s' id := by
  by_cases hupdate : a.kind = .update
  · have hne : id ≠ a.userID := hid.resolve_right (by simp [hupdate])
    by_cases htaken : AddressTaken casing a s
    · obtain ⟨e, he⟩ := update_taken uuids hupdate htaken
      rw [he] at h
      cases h
    · obtain ⟨t, ht, haccounts, hlinks, hsessions⟩ := update_ok uuids hupdate htaken
      obtain rfl : t = s' := Except.ok.inj (ht.symm.trans h)
      refine ⟨by rw [haccounts, if_neg hne], ?_, by rw [Directory.sessionsOf, hsessions]; rfl⟩
      intro rid
      unfold Linked
      rw [hlinks]
      split
      · cases s.links.lookup rid <;> simp
      · rfl
  · obtain ⟨t, ht, haccounts, hlinks, hsessions⟩ := status_ok casing uuids s ⟨hk, hupdate⟩
    obtain rfl : t = s' := Except.ok.inj (ht.symm.trans h)
    refine ⟨?_, ?_, ?_⟩
    · rw [haccounts]
      split
      · rename_i heq
        have hreport := hid.resolve_left (not_not.mpr heq)
        rw [hreport]
        cases s.accounts.lookup id <;> rfl
      · rfl
    · intro rid
      rw [Linked, Linked, hlinks]
    · rw [Directory.sessionsOf, hsessions]
      split
      · rename_i hdeactivate
        exact sessionsOf_revoke (hid.resolve_right (by simp [hdeactivate])) s.sessions
      · rfl

/-- The actions about an existing account. -/
def Changes (kind : ActionKind) : Prop := kind = .update ∨ kind = .deactivate ∨ kind = .reactivate

theorem others_same {actions : List Action} (hk : ∀ a ∈ actions, a.kind ≠ .create)
    (h : foldKeys (applyAction casing uuids) actions s = .ok t) {id : String}
    (hid : ∀ a ∈ actions, Changes a.kind → a.userID ≠ id) : Same s t id := by
  refine foldKeys_visited (P := fun _ u => Same s u id) ?_ (Same.refl s id) h
  intro pre a u u' hpre hsame hstep
  have ha : a ∈ actions := hpre.subset (by simp)
  refine hsame.trans (other_same (hk a ha) hstep ?_)
  by_cases hchanges : Changes a.kind
  · exact .inl (Ne.symm (hid a ha hchanges))
  · right
    have hcreate := hk a ha
    revert hchanges hcreate
    unfold Changes
    cases a.kind <;> simp

def Unheld (casing : Casing) (d : Directory) (email : String) : Prop :=
  ∀ u ∈ d.accounts.rows, u.holds casing email = false

/-- After creates that meet no account of `d`: those accounts are as they were, and whatever
is new belongs to the people created. -/
structure Fenced (d : Directory) (created : List Action) (s : Directory) : Prop where
  same : ∀ id, (d.accounts.lookup id).isSome → Same d s id
  fresh : ∀ v ∈ s.accounts.rows, (d.accounts.lookup v.id).isSome ∨
    ∃ c ∈ created, v.email = some c.email
  links : ∀ id rid, Linked s id rid → (d.links.lookup rid).isSome ∨ d.accounts.lookup id = none

theorem fenced_start (d : Directory) : Fenced d [] d := by
  refine ⟨fun id _ => Same.refl d id, ?_, ?_⟩
  · intro v hv
    exact .inl (Option.isSome_of_eq_some (Table.mem_rows.mp hv))
  · rintro id rid ⟨l, hl, -⟩
    exact .inl (Option.isSome_of_eq_some hl)

theorem Fenced.holder_old {created : List Action} (h : Fenced d created s) {w : Account}
    {email : String} (hunheld : Unheld casing d email) (hw : s.holder casing email = some w) :
    d.accounts.lookup w.id = none := by
  obtain ⟨hmem, hholds⟩ := holder_mem hw
  cases hold : d.accounts.lookup w.id with
  | none => rfl
  | some u =>
    have hsame := (h.same w.id (Option.isSome_of_eq_some hold)).account
    rw [hmem, hold] at hsame
    obtain rfl := Option.some.inj hsame
    have hno := hunheld w (Table.mem_rows.mpr hold)
    rw [hno] at hholds
    cases hholds

theorem Fenced.target_new {created : List Action} (h : Fenced d created s) {email : String}
    (hunheld : Unheld casing d email) :
    d.accounts.lookup (s.target casing uuids email).id = none := by
  unfold Directory.target
  cases hw : s.holder casing email with
  | some w =>
    have hnone := h.holder_old hunheld hw
    exact hnone
  | none =>
    cases hold : d.accounts.lookup (uuids.pick (s.accounts.rows.map Account.id)) with
    | none => rfl
    | some u =>
      have hsame := (h.same _ (Option.isSome_of_eq_some hold)).account
      rw [lookup_pick, hold] at hsame
      cases hsame

theorem create_step (hk : a.kind = .create) (h : applyAction casing uuids a s = .ok s') :
    (∀ id, s'.accounts.lookup id =
        if id = (s.target casing uuids a.email).id then some (s.target casing uuids a.email)
        else s.accounts.lookup id) ∧
      (∀ rid, s'.links.lookup rid =
        if rid = a.remoteID then
          some ⟨a.remoteID, (s.target casing uuids a.email).id, a.email, a.name⟩
        else s.links.lookup rid) ∧
      s'.sessions = s.sessions := by
  by_cases hclash : LinkClash casing uuids a s
  · obtain ⟨e, he⟩ := create_clash hk hclash
    rw [he] at h
    cases h
  · obtain ⟨t, ht, hviews⟩ := create_ok hk hclash
    obtain rfl : t = s' := Except.ok.inj (ht.symm.trans h)
    exact hviews

theorem Fenced.create_same {created : List Action} (h : Fenced d created s)
    (hk : a.kind = .create) (hremote : d.links.lookup a.remoteID = none)
    (hunheld : Unheld casing d a.email) (hstep : applyAction casing uuids a s = .ok s')
    {id : String} (hid : (d.accounts.lookup id).isSome) : Same s s' id := by
  obtain ⟨haccounts, hlinks, hsessions⟩ := create_step hk hstep
  have hnew : id ≠ (s.target casing uuids a.email).id := by
    rintro rfl
    rw [h.target_new hunheld] at hid
    cases hid
  refine ⟨by rw [haccounts, if_neg hnew], ?_, by rw [Directory.sessionsOf, hsessions]; rfl⟩
  intro rid
  unfold Linked
  rw [hlinks]
  split
  · rename_i hrid
    constructor
    · rintro ⟨l, hl, huser⟩
      obtain rfl := Option.some.inj hl
      exact absurd huser.symm hnew
    · intro hlinked
      rcases h.links id rid hlinked with hold | hnone
      · rw [hrid, hremote] at hold
        cases hold
      · rw [hnone] at hid
        cases hid
  · rfl

theorem Fenced.create {created : List Action} (h : Fenced d created s)
    (hk : a.kind = .create) (hremote : d.links.lookup a.remoteID = none)
    (hunheld : Unheld casing d a.email) (hstep : applyAction casing uuids a s = .ok s') :
    Fenced d (created ++ [a]) s' := by
  obtain ⟨haccounts, hlinks, -⟩ := create_step hk hstep
  refine ⟨?_, ?_, ?_⟩
  · intro id hid
    exact (h.same id hid).trans (h.create_same hk hremote hunheld hstep hid)
  · intro v hv
    have hlookup := Table.mem_rows.mp hv
    rw [haccounts] at hlookup
    split at hlookup
    · obtain rfl := Option.some.inj hlookup
      right
      unfold Directory.target
      cases hw : s.holder casing a.email with
      | none => exact ⟨a, by simp, rfl⟩
      | some w =>
        have hmem := Table.mem_rows.mpr (holder_mem hw).1
        rcases h.fresh w hmem with hold | ⟨c, hc, hemail⟩
        · rw [h.holder_old hunheld hw] at hold
          cases hold
        · exact ⟨c, mem_append_left _ hc, hemail⟩
    · rcases h.fresh v (Table.mem_rows.mpr hlookup) with hold | ⟨c, hc, hemail⟩
      · exact .inl hold
      · exact .inr ⟨c, mem_append_left _ hc, hemail⟩
  · rintro id rid ⟨l, hl, huser⟩
    rw [hlinks] at hl
    split at hl
    · obtain rfl := Option.some.inj hl
      exact .inr (huser ▸ h.target_new hunheld)
    · exact h.links id rid ⟨l, hl, huser⟩

theorem fenced_run {created : List Action}
    (hcreate : ∀ a ∈ created, a.kind = .create ∧ d.links.lookup a.remoteID = none ∧
      Unheld casing d a.email)
    (h : foldKeys (applyAction casing uuids) created d = .ok s) : Fenced d created s := by
  refine foldKeys_visited (P := fun created s => Fenced d created s) ?_ (fenced_start d) h
  intro pre a u u' hpre hfenced hstep
  obtain ⟨hk, hremote, hunheld⟩ := hcreate a (hpre.subset (by simp))
  exact hfenced.create hk hremote hunheld hstep

variable {remote : List RemoteUser} {onMissing : OnMissing} {maxPercent : ℤ}

theorem plan_create (hv : d.Valid casing)
    (ha : a ∈ (buildPlan casing remote (loadLocal d) onMissing maxPercent).actions)
    (hk : a.kind = .create) : d.links.lookup a.remoteID = none := by
  rcases mem_plan.mp ha with ⟨r, -, hr⟩ | ⟨l, -, hl⟩
  · obtain ⟨hid, ⟨hnone, -, -, hremote, -⟩ | ⟨l, -, hknown⟩⟩ := remoteAction_cases hr
    · rw [byRemoteID_load hv hid] at hnone
      rw [hremote]
      exact known_isNone hv hnone
    · obtain ⟨-, -, hkind⟩ := knownAction_cases hknown
      simp [hk] at hkind
  · have hkind := (missingAction_cases hl).2.2.2.2.2
    rw [hk] at hkind
    split at hkind <;> cases hkind

theorem known_linked {rid : String} {l : LocalUser} (h : d.known rid = some l) :
    Linked d l.userID rid := by
  unfold Directory.known at h
  rw [Option.bind_eq_some_iff] at h
  obtain ⟨k, hk, h⟩ := h
  rw [Option.map_eq_some_iff] at h
  obtain ⟨u, hu, rfl⟩ := h
  have huid : Account.id u = k.userID := Table.key_of_lookup hu
  exact ⟨k, hk, huid.symm⟩

theorem plan_linked (hv : d.Valid casing)
    (ha : a ∈ (buildPlan casing remote (loadLocal d) onMissing maxPercent).actions)
    (hk : a.kind ≠ .create) : Linked d a.userID a.remoteID := by
  rcases mem_plan.mp ha with ⟨r, -, hr⟩ | ⟨x, hx, hmissing⟩
  · obtain ⟨hid, ⟨-, -, hcreate, -⟩ | ⟨l, hl, hknown⟩⟩ := remoteAction_cases hr
    · exact absurd hcreate hk
    · rw [byRemoteID_load hv hid] at hl
      rw [(knownAction_cases hknown).1, (knownAction_cases hknown).2.1]
      exact known_linked hl
  · obtain ⟨hnamed, -, -, huser, hremote, -⟩ := missingAction_cases hmissing
    obtain ⟨u, -, rfl⟩ := mem_map.mp hx
    obtain ⟨l, hl, hluser, hlremote⟩ := localUser_remoteID hv hnamed
    rw [huser, hremote, ← hlremote]
    exact ⟨l, Table.mem_rows.mp hl, hluser⟩

/-- A sync changes an account only if it was linked to the source before and an action names
it, and no create touches an account that was there before the sync. -/
structure TouchesLinked (casing : Casing) (uuids : Uuids) (d d' : Directory)
    (actions : List Action) : Prop where
  changed : ∀ id, (d.accounts.lookup id).isSome → ¬Same d d' id →
    (∃ rid, Linked d id rid) ∧ ∃ a ∈ actions, Changes a.kind ∧ a.userID = id
  creates : ∀ pre a rest s s', actions = pre ++ a :: rest → a.kind = .create →
    foldKeys (applyAction casing uuids) pre d = .ok s → applyAction casing uuids a s = .ok s' →
      ∀ id, (d.accounts.lookup id).isSome → Same s s' id

theorem apply_actions {p : Plan} (h : apply casing uuids d p = .ok d') :
    foldKeys (applyAction casing uuids) p.actions d = .ok d' := by
  unfold apply at h
  split at h
  · cases h
  · exact h

theorem held_create_links {created : List Action} (h : Fenced d created s)
    (hcreated : ∀ c ∈ created, Unheld casing d c.email) (hk : a.kind = .create)
    (hremote : d.links.lookup a.remoteID = none) {u : Account} (hu : u ∈ d.accounts.rows)
    (hheld : u.holds casing a.email = true) (hstep : applyAction casing uuids a s = .ok s') :
    ∃ id, (d.accounts.lookup id).isSome ∧ ¬Same s s' id := by
  have hin : u ∈ s.accounts.rows := by
    have hlookup := Table.mem_rows.mp hu
    have hsame := (h.same u.id (Option.isSome_of_eq_some hlookup)).account
    exact Table.mem_rows.mpr (hsame.trans hlookup)
  obtain ⟨w, hw⟩ : ∃ w, s.holder casing a.email = some w := by
    rw [← Option.isSome_iff_exists, Directory.holder, find?_isSome]
    exact ⟨u, hin, hheld⟩
  obtain ⟨hwlookup, hwholds⟩ := holder_mem hw
  have hold : (d.accounts.lookup w.id).isSome := by
    rcases h.fresh w (Table.mem_rows.mpr hwlookup) with hold | ⟨c, hc, hemail⟩
    · exact hold
    · have hno := hcreated c hc u hu
      simp only [Account.holds, hemail, Option.any_some, beq_iff_eq] at hwholds
      rw [Account.holds, hwholds, ← Account.holds, hheld] at hno
      cases hno
  refine ⟨w.id, hold, fun hsame => ?_⟩
  obtain ⟨-, hlinks, -⟩ := create_step hk hstep
  have hlinked : Linked s' w.id a.remoteID := by
    refine ⟨_, (hlinks a.remoteID).trans (if_pos rfl), ?_⟩
    rw [Directory.target, hw]
  rcases h.links w.id a.remoteID ((hsame.linked a.remoteID).mp hlinked) with hsome | hnone
  · rw [hremote] at hsome
    cases hsome
  · rw [hnone] at hold
    cases hold

/-- A sync that is applied touches only what it is linked to exactly when no person it creates
has an address that an account already holds. -/
theorem touchesLinked_iff (hv : d.Valid casing)
    (hok : apply casing uuids d
      (buildPlan casing remote (loadLocal d) onMissing maxPercent) = .ok d') :
    TouchesLinked casing uuids d d'
        (buildPlan casing remote (loadLocal d) onMissing maxPercent).actions ↔
      ∀ a ∈ (buildPlan casing remote (loadLocal d) onMissing maxPercent).actions,
        a.kind = .create → Unheld casing d a.email := by
  have hrun := apply_actions hok
  constructor
  · intro htouch
    have hprefix : ∀ pre, pre <+: (buildPlan casing remote (loadLocal d) onMissing
        maxPercent).actions → ∀ c ∈ pre, c.kind = .create → Unheld casing d c.email := by
      intro pre
      induction pre using List.reverseRecOn with
      | nil => simp
      | append_singleton pre a ih =>
        rintro ⟨rest, heq⟩ c hc hk
        rw [List.append_assoc, singleton_append] at heq
        have ih := ih ⟨a :: rest, heq⟩
        rcases mem_append.mp hc with hc | hc
        · exact ih c hc hk
        · obtain rfl := mem_singleton.mp hc
          have hfirst := creates_first heq.symm hk
          have hmem : ∀ b ∈ pre ++ [c], b ∈ (buildPlan casing remote (loadLocal d) onMissing
              maxPercent).actions := by
            intro b hb
            rw [← heq, append_cons]
            exact mem_append_left _ hb
          obtain ⟨m, hpre, hrest⟩ := foldKeys_append_ok.mp (heq ▸ hrun)
          obtain ⟨m', hstep, -⟩ := foldKeys_cons_ok.mp hrest
          have hfenced : Fenced d pre m := fenced_run (fun b hb =>
            ⟨hfirst b hb, plan_create hv (hmem b (mem_append_left _ hb)) (hfirst b hb),
              ih b hb (hfirst b hb)⟩) hpre
          intro u hu
          by_contra hheld
          rw [Bool.not_eq_false] at hheld
          obtain ⟨id, hid, hchanged⟩ := held_create_links hfenced
            (fun b hb => ih b hb (hfirst b hb)) hk (plan_create hv (hmem c (by simp)) hk) hu
            hheld hstep
          exact hchanged (htouch.creates pre c rest m m' heq.symm hk hpre hstep id hid)
    exact hprefix _ (prefix_refl _)
  · intro hunheld
    have hcreate : ∀ a ∈ (buildPlan casing remote (loadLocal d) onMissing maxPercent).actions,
        a.kind = .create → a.kind = .create ∧ d.links.lookup a.remoteID = none ∧
          Unheld casing d a.email :=
      fun a ha hk => ⟨hk, plan_create hv ha hk, hunheld a ha hk⟩
    constructor
    · intro id hid hchanged
      obtain ⟨created, others, heq, hcreated, hothers⟩ : ∃ created others,
          (buildPlan casing remote (loadLocal d) onMissing maxPercent).actions =
            created ++ others ∧ _ ∧ _ := actions_split
      rw [heq] at hrun hcreate
      obtain ⟨m, hfirst, hrest⟩ := foldKeys_append_ok.mp hrun
      have hfenced : Fenced d created m := fenced_run (fun a ha =>
        hcreate a (mem_append_left _ ha) (hcreated a ha)) hfirst
      obtain ⟨a, ha, hk, huser⟩ : ∃ a ∈ others, Changes a.kind ∧ a.userID = id := by
        by_contra hnone
        simp only [not_exists, not_and] at hnone
        exact hchanged ((hfenced.same id hid).trans (others_same hothers hrest hnone))
      have hmem := heq ▸ mem_append_right created ha
      exact ⟨⟨a.remoteID, huser ▸ plan_linked hv hmem (hothers a ha)⟩, a, hmem, hk, huser⟩
    · intro pre a rest s s' heq hk hpre hstep id hid
      have hfirst := creates_first heq hk
      rw [heq] at hcreate
      have hfenced : Fenced d pre s := fenced_run (fun b hb =>
        hcreate b (mem_append_left _ hb) (hfirst b hb)) hpre
      obtain ⟨-, hremote, hno⟩ := hcreate a (by simp) hk
      exact hfenced.create_same hk hremote hno hstep hid

def goCasing : Casing :=
  ⟨GoStrings.toLower, GoStrings.equalFold, fun s => by simp [GoStrings.equalFold]⟩

def longerUuids : Uuids where
  pick ids := String.ofList ('u' :: (ids.map String.toList).flatten)
  fresh ids hmem := by
    have hsub := sublist_flatten_of_mem (mem_map_of_mem (f := String.toList) hmem)
    rw [String.toList_ofList] at hsub
    have hle := hsub.length_le
    rw [length_cons] at hle
    omega

def closedAccount : Directory :=
  ⟨⟨[⟨"u1", some "A@x", .deactivated⟩], by decide⟩, ⟨[], by decide⟩, []⟩

/-- Someone new, with another address. -/
theorem touchesLinked_new_address :
    ∃ d', TouchesLinked goCasing longerUuids closedAccount d'
      (buildPlan goCasing [⟨"r1", "b@x", "B", false⟩] (loadLocal closedAccount) .report 20).actions
      := by
  have hplan : buildPlan goCasing [⟨"r1", "b@x", "B", false⟩] (loadLocal closedAccount) .report 20 =
      ⟨[⟨.create, "r1", "b@x", "", "b@x", "", "B"⟩], 0, ""⟩ :=
    buildPlan_single rfl (by decide)
  refine ⟨_, (touchesLinked_iff (d := closedAccount) ?_ (by rw [hplan]; rfl)).mpr ?_⟩
  · refine ⟨?_, by simp [closedAccount], by simp [closedAccount], by simp [closedAccount]⟩
    simp [closedAccount]
  · rw [hplan]
    intro a ha _
    rw [mem_singleton.mp ha]
    simp only [Unheld, closedAccount, mem_singleton, forall_eq]
    decide

/-- Someone new, with the address of the closed account: it is opened and linked. -/
theorem create_reopens_account :
    ∃ d', apply goCasing longerUuids closedAccount
        (buildPlan goCasing [⟨"r1", "a@x", "A", false⟩] (loadLocal closedAccount) .report 20) =
          .ok d' ∧
      d'.accounts.lookup "u1" = some ⟨"u1", some "A@x", .active⟩ ∧ Linked d' "u1" "r1" ∧
      ¬TouchesLinked goCasing longerUuids closedAccount d'
        (buildPlan goCasing [⟨"r1", "a@x", "A", false⟩] (loadLocal closedAccount) .report
          20).actions := by
  have hplan : buildPlan goCasing [⟨"r1", "a@x", "A", false⟩] (loadLocal closedAccount) .report 20 =
      ⟨[⟨.create, "r1", "a@x", "", "a@x", "", "A"⟩], 0, ""⟩ :=
    buildPlan_single rfl (by decide)
  rw [hplan]
  refine ⟨_, rfl, rfl, ⟨⟨"r1", "u1", "a@x", "A"⟩, rfl, rfl⟩, fun htouch => ?_⟩
  obtain ⟨⟨rid, l, hl, -⟩, -⟩ := htouch.changed "u1" rfl fun hsame => by
    have := hsame.account
    revert this
    decide
  cases hl

end

end Signari.DirectoryApply
