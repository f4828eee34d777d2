import Signari.IndexedChecks
import Signari.KeyedMaps
import Signari.LdapSchema

/-!
# Accounts under directory writes

The table of users as `LDAPWriter` changes it: `Create`, `Update` and `Rename` in one
organisation. The two unique indexes and the check that an account has an identifier are
the invariant of a `Directory`, so a statement that would break one of them fails.

A login name is matched against `lower(username)` and `lower(email)` alike, and the indexes
guard each column by itself. `nameTaken` looks at both columns and `emailTaken` at one, so
a new mail address that is another account's username, and nothing else, gives a name two
owners.

The database's `lower`, the password policy and the hasher are arguments.
-/
namespace Signari.LdapAccounts
open GoStrings IndexedChecks KeyedMaps LdapSchema List

inductive Status where
  | active | deactivated | locked
  deriving DecidableEq

structure User where
  id : ℕ
  org : String
  username : Option String
  email : Option String
  displayName : Option String
  surname : Option String
  givenName : Option String
  status : Status
  deriving DecidableEq

/-- What a writer is built with: `policyCheck` is asked about a password and an identity. -/
structure Writer where
  lower : String → String
  orgID : String
  policyCheck : String → String → Except String Unit
  hash : String → Except String String

inductive Detail where
  | text (s : String)
  | flag (b : Bool)
  | names (attrs : List String)

structure Event where
  type : String
  subject : ℕ
  detail : List (String × Detail)

def nullIfEmpty (s : String) : Option String := if s = "" then none else some s

section
variable (w : Writer)

/-- The identifiers an account answers to, in lower case. -/
def idents (u : User) : List String := (u.username.toList ++ u.email.toList).map w.lower

/-- `lower(username) = lower($1) OR lower(email) = lower($1)`. -/
def answersTo (x : String) (u : User) : Bool :=
  u.username.any (fun n => w.lower n = w.lower x) || u.email.any (fun m => w.lower m = w.lower x)

/-- A unique index over a nullable column, within an organisation. -/
def UniqueIn (column : User → Option String) (users : List User) : Prop :=
  users.Pairwise fun u v => u.org = v.org → ∀ x ∈ column u, ∀ y ∈ column v, w.lower x ≠ w.lower y

instance (column : User → Option String) (users : List User) :
    Decidable (UniqueIn w column users) :=
  inferInstanceAs (Decidable (List.Pairwise _ _))

structure Directory where
  users : List User
  ids : (users.map User.id).Nodup
  usernames : UniqueIn w User.username users
  emails : UniqueIn w User.email users
  identified : ∀ u ∈ users, u.username.isSome ∨ u.email.isSome
  /-- `core.password_credentials`: the hash of each account that has one. -/
  passwords : ℕ → Option String
  events : List Event

inductive WriteError where
  | entryExists
  | noSuchEntry
  | constraint (text : String)
  | other (text : String)

variable {w}

/-- A statement that leaves these users: it fails where a constraint would not hold. -/
def Directory.put (d : Directory w) (users : List User) (onUnique onCheck : WriteError) :
    Except WriteError (Directory w) :=
  if hids : (users.map User.id).Nodup then
    if husernames : UniqueIn w User.username users then
      if hemails : UniqueIn w User.email users then
        if hident : ∀ u ∈ users, u.username.isSome ∨ u.email.isSome then
          .ok { d with users := users, ids := hids, usernames := husernames, emails := hemails,
                       identified := hident }
        else .error onCheck
      else .error onUnique
    else .error onUnique
  else .error onUnique

theorem Directory.put_ok {d d' : Directory w} {users : List User} {onUnique onCheck : WriteError}
    (h : d.put users onUnique onCheck = .ok d') : d'.users = users := by
  unfold Directory.put at h
  split_ifs at h
  obtain rfl := Except.ok.inj h
  rfl

/-- `audit.Write`; every event says it came over LDAP and who asked. -/
def Directory.record (d : Directory w) (type : String) (subject : ℕ) (actor : String)
    (detail : List (String × Detail)) : Directory w :=
  { d with events := d.events ++
      [⟨type, subject, ("via", .text "ldap") :: ("actor", .text actor) :: detail⟩] }

def Directory.setPassword (d : Directory w) (id : ℕ) (hash : Option String) : Directory w :=
  { d with passwords := fun j => if j = id then hash else d.passwords j }

@[simp] theorem Directory.record_users (d : Directory w) (type : String) (subject : ℕ)
    (actor : String) (detail : List (String × Detail)) :
    (d.record type subject actor detail).users = d.users := rfl

/-! ## The operations -/

def nameTaken (d : Directory w) (name : String) (exceptID : Option ℕ) : Bool :=
  d.users.any fun u => u.org = w.orgID && answersTo w name u && exceptID ≠ some u.id

def emailTaken (d : Directory w) (email : String) (exceptID : Option ℕ) : Bool :=
  d.users.any fun u => u.org = w.orgID && u.email.any (fun m => w.lower m = w.lower email) &&
    exceptID ≠ some u.id

def mailTakenError (email : String) : WriteError :=
  .constraint ("constraint violation: another entry already has the mail address " ++ email)

def newUser (w : Writer) (id : ℕ) (e : NewEntry) : User where
  id := id
  org := w.orgID
  username := some e.username
  email := nullIfEmpty e.email
  displayName := nullIfEmpty e.commonName
  surname := nullIfEmpty e.surname
  givenName := nullIfEmpty e.givenName
  status := .active

/-- The policy is asked about the mail address where there is one. -/
def hashPassword (w : Writer) (password username email : String) : Except WriteError String :=
  match w.policyCheck password (if email = "" then username else email) with
  | .error text => .error (.constraint ("constraint violation: " ++ text))
  | .ok () =>
    match w.hash password with
    | .error text => .error (.other ("hashing the password: " ++ text))
    | .ok hash => .ok hash

def newHash (w : Writer) (e : NewEntry) : Except WriteError (Option String) :=
  if e.password = "" then .ok none
  else (hashPassword w e.password e.username e.email).map some

def recordCreated (d : Directory w) (id : ℕ) (actor : String) (e : NewEntry)
    (passwordSet : Bool) : Directory w :=
  d.record "ldap.entry_created" id actor
    [("uid", .text e.username), ("password_set", .flag passwordSet)]

/-- `Create`; `id` is the id the database gives the row. -/
def create (d : Directory w) (id : ℕ) (actor : String) (e : NewEntry) :
    Except WriteError (Directory w) :=
  if nameTaken d e.username none then .error .entryExists
  else if e.email ≠ "" ∧ emailTaken d e.email none = true then .error (mailTakenError e.email)
  else do
    let hash ← newHash w e
    let d ← d.put (d.users ++ [newUser w id e]) .entryExists (.other "creating the entry: ")
    match hash with
    | none => return recordCreated d id actor e false
    | some hash =>
      return (recordCreated (d.setPassword id (some hash)) id actor e true).record
        "ldap.password_set" id actor
        [("uid", .text e.username), ("at_creation", .flag true), ("removed", .flag false)]

/-- The columns an update writes; `displayName` counts only where `cn` is not written. -/
def updateUser (u : Update) (r : User) : User :=
  { r with
    email := match u.email with
      | none => r.email
      | some m => nullIfEmpty m
    displayName := match u.commonName, u.displayName with
      | some c, _ => nullIfEmpty c
      | none, some n => nullIfEmpty n
      | none, none => r.displayName
    surname := match u.surname with
      | none => r.surname
      | some s => nullIfEmpty s
    givenName := match u.givenName with
      | none => r.givenName
      | some g => nullIfEmpty g }

def rewriteUser (id : ℕ) (f : User → User) (users : List User) : List User :=
  users.map fun u => if u.id = id then f u else u

/-- The account a modification is made to. -/
def updateTarget (d : Directory w) (username : String) : Option User :=
  d.users.find? fun u => u.org = w.orgID && u.status = .active && answersTo w username u

def mailChecked (r : User) (u : Update) : Option String :=
  u.email.filter fun m => m ≠ "" && equalFold m (r.email.getD "") = false

/-- The credential a new password leaves: an empty one removes it. -/
def changedHash (w : Writer) (r : User) (username p : String) (u : Update) :
    Except WriteError (Option String) :=
  if p = "" then .ok none
  else (hashPassword w p username (u.email.getD (r.email.getD ""))).map some

def applyPassword (d : Directory w) (r : User) (username actor : String) (u : Update) :
    Except WriteError (Directory w) :=
  match u.password with
  | none => .ok d
  | some p => do
      let hash ← changedHash w r username p u
      return (d.setPassword r.id hash).record "ldap.password_set" r.id actor
        [("uid", .text username), ("removed", .flag (p = ""))]

def changedAttrs (u : Update) : List String :=
  ([("mail", u.email.isSome), ("cn", u.commonName.isSome), ("sn", u.surname.isSome),
    ("givenName", u.givenName.isSome), ("displayName", u.displayName.isSome),
    ("userPassword", u.password.isSome)].filter Prod.snd).map Prod.fst

def update (d : Directory w) (actor username : String) (u : Update) :
    Except WriteError (Directory w) :=
  match updateTarget d username with
  | none => .error .noSuchEntry
  | some r =>
    if (mailChecked r u).any (fun m => emailTaken d m (some r.id)) then
      .error (mailTakenError (u.email.getD ""))
    else do
      let d ← d.put (rewriteUser r.id (updateUser u) d.users)
        (.other "modifying the entry: ") (.other "modifying the entry: ")
      let d ← applyPassword d r username actor u
      return d.record "ldap.entry_modified" r.id actor
        [("uid", .text username), ("attributes", .names (changedAttrs u))]

def renameTarget (d : Directory w) (name : String) : Option User :=
  d.users.find? fun u => u.org = w.orgID && u.username.any fun n => w.lower n = w.lower name

def renameUser (name : String) (r : User) : User := { r with username := some name }

def rename (d : Directory w) (actor oldName newName : String) : Except WriteError (Directory w) :=
  match renameTarget d oldName with
  | none => .error .noSuchEntry
  | some r =>
    if nameTaken d newName (some r.id) then .error .entryExists
    else do
      let d ← d.put (rewriteUser r.id (renameUser newName) d.users)
        .entryExists (.other "renaming the entry: ")
      return d.record "ldap.entry_renamed" r.id actor
        [("from", .text oldName), ("to", .text newName)]

/-! ## Names with one owner -/

/-- Every login name resolves to at most one account of the organisation. -/
def Unambiguous (d : Directory w) : Prop :=
  ∀ x, ∀ u ∈ d.users, ∀ v ∈ d.users, u.org = w.orgID → v.org = w.orgID →
    answersTo w x u = true → answersTo w x v = true → u = v

theorem mem_idents {y : String} {u : User} : y ∈ idents w u ↔
    (∃ n ∈ u.username, w.lower n = y) ∨ ∃ m ∈ u.email, w.lower m = y := by
  simp only [idents, map_append, mem_append, mem_map, Option.mem_toList, Option.mem_def]

theorem answersTo_iff {x : String} {u : User} :
    answersTo w x u = true ↔ w.lower x ∈ idents w u := by
  rw [mem_idents, answersTo, Bool.or_eq_true, Option.any_eq_true, Option.any_eq_true]
  simp only [decide_eq_true_eq, Option.mem_def]

theorem unambiguous_iff_disjoint {d : Directory w} : Unambiguous d ↔
    ∀ u ∈ d.users, ∀ v ∈ d.users, u.org = w.orgID → v.org = w.orgID → u ≠ v →
      List.Disjoint (idents w u) (idents w v) := by
  constructor
  · intro h u hu v hv huo hvo hne y hyu hyv
    have hpre : ∃ x, w.lower x = y := by
      rcases mem_idents.mp hyu with ⟨n, -, hn⟩ | ⟨m, -, hm⟩
      · exact ⟨n, hn⟩
      · exact ⟨m, hm⟩
    obtain ⟨x, rfl⟩ := hpre
    exact hne (h x u hu v hv huo hvo (answersTo_iff.mpr hyu) (answersTo_iff.mpr hyv))
  · intro h x u hu v hv huo hvo hxu hxv
    by_contra hne
    exact h u hu v hv huo hvo hne (answersTo_iff.mp hxu) (answersTo_iff.mp hxv)

theorem unambiguous_replace {d d' : Directory w} {n : User} (hold : Unambiguous d)
    (horg : n.org = w.orgID)
    (hmem : ∀ u, u ∈ d'.users ↔ u = n ∨ (u ∈ d.users ∧ u.id ≠ n.id)) :
    Unambiguous d' ↔ ∀ v ∈ d.users, v.org = w.orgID → v.id ≠ n.id →
      List.Disjoint (idents w n) (idents w v) := by
  rw [unambiguous_iff_disjoint] at hold ⊢
  constructor
  · intro h v hv hvo hid
    refine h n ((hmem n).mpr (.inl rfl)) v ((hmem v).mpr (.inr ⟨hv, hid⟩)) horg hvo ?_
    rintro rfl
    exact hid rfl
  · intro h u hu v hv huo hvo hne
    rcases (hmem u).mp hu with rfl | ⟨hu, huid⟩
    · rcases (hmem v).mp hv with rfl | ⟨hv, hvid⟩
      · exact (hne rfl).elim
      · exact h v hv hvo hvid
    · rcases (hmem v).mp hv with rfl | ⟨hv, hvid⟩
      · exact fun y hy hy' => h u hu huo huid hy' hy
      · exact hold u hu v hv huo hvo hne

theorem disjoint_iff {u v : User} : List.Disjoint (idents w u) (idents w v) ↔
    (∀ n ∈ u.username, w.lower n ∉ idents w v) ∧ ∀ m ∈ u.email, w.lower m ∉ idents w v := by
  constructor
  · intro h
    exact ⟨fun n hn => h (mem_idents.mpr (.inl ⟨n, hn, rfl⟩)),
      fun m hm => h (mem_idents.mpr (.inr ⟨m, hm, rfl⟩))⟩
  · rintro ⟨hname, hmail⟩ y hyu hyv
    rcases mem_idents.mp hyu with ⟨n, hn, rfl⟩ | ⟨m, hm, rfl⟩
    · exact hname n hn hyv
    · exact hmail m hm hyv

theorem unique_of_mem {column : User → Option String} {users : List User} {u v : User}
    (h : UniqueIn w column users) (hu : u ∈ users) (hv : v ∈ users) (hne : u ≠ v)
    (horg : u.org = v.org) {x y : String} (hx : x ∈ column u) (hy : y ∈ column v) :
    w.lower x ≠ w.lower y := by
  have : Std.Symm fun u v : User => u.org = v.org → ∀ x ∈ column u, ∀ y ∈ column v,
      w.lower x ≠ w.lower y :=
    ⟨fun a b hab hba x hx y hy he => hab hba.symm y hy x hx he.symm⟩
  exact Pairwise.forall h hu hv hne horg x hx y hy

theorem not_nameTaken {d : Directory w} {name : String} {exceptID : Option ℕ}
    (h : nameTaken d name exceptID = false) {v : User} (hv : v ∈ d.users)
    (horg : v.org = w.orgID) (hid : exceptID ≠ some v.id) : w.lower name ∉ idents w v := by
  intro hmem
  have hall := any_eq_false.mp h v hv
  simp [horg, answersTo_iff.mpr hmem, hid] at hall

theorem mem_rewriteUser {f : User → User} (hf : ∀ u, (f u).id = u.id) {users : List User}
    (hids : (users.map User.id).Nodup) {r : User} (hr : r ∈ users) (u : User) :
    u ∈ rewriteUser r.id f users ↔ u = f r ∨ (u ∈ users ∧ u.id ≠ (f r).id) := by
  simp only [rewriteUser, mem_map, hf]
  constructor
  · rintro ⟨q, hq, rfl⟩
    by_cases hid : q.id = r.id
    · have hqr : q = r := inj_on_of_nodup_map hids hq hr hid
      simp [hqr]
    · simp [hid, hq]
  · rintro (rfl | ⟨hu, hid⟩)
    · exact ⟨r, hr, by simp⟩
    · exact ⟨u, hu, by simp [hid]⟩

/-! ## What an operation leaves -/

theorem create_ok {d d' : Directory w} {id : ℕ} {actor : String} {e : NewEntry}
    (h : create d id actor e = .ok d') : nameTaken d e.username none = false ∧
      d'.users = d.users ++ [newUser w id e] := by
  unfold create at h
  split_ifs at h with hname hmail
  obtain ⟨hash, -, h⟩ := bind_ok.mp h
  obtain ⟨d₁, hput, h⟩ := bind_ok.mp h
  refine ⟨by simpa using hname, ?_⟩
  rw [← Directory.put_ok hput]
  cases hash with
  | none =>
    obtain rfl := Except.ok.inj h
    rfl
  | some hash =>
    obtain rfl := Except.ok.inj h
    rfl

theorem applyPassword_users {d d' : Directory w} {r : User} {username actor : String}
    {u : Update} (h : applyPassword d r username actor u = .ok d') : d'.users = d.users := by
  unfold applyPassword at h
  cases hp : u.password with
  | none =>
    rw [hp] at h
    obtain rfl := Except.ok.inj h
    rfl
  | some p =>
    rw [hp] at h
    obtain ⟨hash, -, h⟩ := bind_ok.mp h
    obtain rfl := Except.ok.inj h
    rfl

theorem update_ok {d d' : Directory w} {actor username : String} {u : Update}
    (h : update d actor username u = .ok d') : ∃ r, updateTarget d username = some r ∧
      d'.users = rewriteUser r.id (updateUser u) d.users := by
  unfold update at h
  cases hr : updateTarget d username with
  | none => simp [hr] at h
  | some r =>
    simp only [hr] at h
    split_ifs at h
    obtain ⟨d₁, hput, h⟩ := bind_ok.mp h
    obtain ⟨d₂, hpass, h⟩ := bind_ok.mp h
    obtain rfl := Except.ok.inj h
    rw [Directory.record_users, applyPassword_users hpass]
    exact ⟨r, rfl, Directory.put_ok hput⟩

theorem rename_ok {d d' : Directory w} {actor oldName newName : String}
    (h : rename d actor oldName newName = .ok d') : ∃ r, renameTarget d oldName = some r ∧
      nameTaken d newName (some r.id) = false ∧
      d'.users = rewriteUser r.id (renameUser newName) d.users := by
  unfold rename at h
  cases hr : renameTarget d oldName with
  | none => simp [hr] at h
  | some r =>
    simp only [hr] at h
    split_ifs at h with htaken
    obtain ⟨d₁, hput, h⟩ := bind_ok.mp h
    obtain rfl := Except.ok.inj h
    rw [Directory.record_users]
    exact ⟨r, rfl, by simpa using htaken, Directory.put_ok hput⟩

theorem updateTarget_mem {d : Directory w} {username : String} {r : User}
    (h : updateTarget d username = some r) : r ∈ d.users ∧ r.org = w.orgID := by
  refine ⟨mem_of_find?_eq_some h, ?_⟩
  have hp := find?_some h
  simp only [Bool.and_eq_true, decide_eq_true_eq] at hp
  exact hp.1.1

theorem renameTarget_mem {d : Directory w} {name : String} {r : User}
    (h : renameTarget d name = some r) : r ∈ d.users ∧ r.org = w.orgID := by
  refine ⟨mem_of_find?_eq_some h, ?_⟩
  have hp := find?_some h
  simp only [Bool.and_eq_true, decide_eq_true_eq] at hp
  exact hp.1

/-! ## A new mail address -/

/-- No account but the one named has this address for its username. -/
def MailClear (d : Directory w) (exceptID : Option ℕ) (m : String) : Prop :=
  ∀ v ∈ d.users, v.org = w.orgID → exceptID ≠ some v.id → ∀ n ∈ v.username, w.lower n ≠ w.lower m

theorem mail_notMem_iff {d : Directory w} {n v : User} (hn : n ∈ d.users) (hv : v ∈ d.users)
    (hne : n ≠ v) (horg : n.org = v.org) {m : String} (hm : m ∈ n.email) :
    w.lower m ∉ idents w v ↔ ∀ x ∈ v.username, w.lower x ≠ w.lower m := by
  rw [mem_idents, not_or]
  constructor
  · rintro ⟨hname, -⟩ x hx hxm
    exact hname ⟨x, hx, hxm⟩
  · intro h
    refine ⟨fun ⟨x, hx, hxm⟩ => h x hx hxm, ?_⟩
    rintro ⟨y, hy, hym⟩
    exact unique_of_mem d.emails hn hv hne horg hm hy hym.symm

theorem unambiguous_replace_iff {d d' : Directory w} {n : User} (hold : Unambiguous d)
    (horg : n.org = w.orgID)
    (hmem : ∀ u, u ∈ d'.users ↔ u = n ∨ (u ∈ d.users ∧ u.id ≠ n.id))
    (hname : ∀ v ∈ d.users, v.org = w.orgID → v.id ≠ n.id →
      ∀ x ∈ n.username, w.lower x ∉ idents w v) :
    Unambiguous d' ↔ ∀ m ∈ n.email, MailClear d (some n.id) m := by
  rw [unambiguous_replace hold horg hmem]
  have hmail : ∀ v ∈ d.users, v.org = w.orgID → v.id ≠ n.id → ∀ m ∈ n.email,
      (w.lower m ∉ idents w v ↔ ∀ x ∈ v.username, w.lower x ≠ w.lower m) := by
    intro v hv hvo hid m hm
    refine mail_notMem_iff ((hmem n).mpr (.inl rfl)) ((hmem v).mpr (.inr ⟨hv, hid⟩)) ?_
      (horg.trans hvo.symm) hm
    rintro rfl
    exact hid rfl
  constructor
  · intro h m hm v hv hvo hid
    have hid' : v.id ≠ n.id := fun he => hid (by rw [he])
    exact (hmail v hv hvo hid' m hm).mp ((disjoint_iff.mp (h v hv hvo hid')).2 m hm)
  · intro h v hv hvo hid
    refine disjoint_iff.mpr ⟨hname v hv hvo hid, fun m hm => ?_⟩
    refine (hmail v hv hvo hid m hm).mpr (h m hm v hv hvo ?_)
    intro he
    exact hid (Option.some.inj he).symm

theorem unambiguous_rewrite {d d' : Directory w} {f : User → User} {r : User}
    (hf : ∀ u, (f u).id = u.id ∧ (f u).org = u.org) (hold : Unambiguous d)
    (hr : r ∈ d.users ∧ r.org = w.orgID) (h : d'.users = rewriteUser r.id f d.users)
    (hname : ∀ v ∈ d.users, v.org = w.orgID → v.id ≠ r.id →
      ∀ x ∈ (f r).username, w.lower x ∉ idents w v) :
    Unambiguous d' ↔ ∀ m ∈ (f r).email, MailClear d (some r.id) m := by
  rw [← (hf r).1] at hname ⊢
  refine unambiguous_replace_iff hold ((hf r).2.trans hr.2) (fun u => ?_) hname
  rw [h]
  exact mem_rewriteUser (fun u => (hf u).1) d.ids hr.1 u

/-- What an account already answers to is nobody else's. -/
theorem Unambiguous.notMem {d : Directory w} (h : Unambiguous d) {r v : User}
    (hr : r ∈ d.users ∧ r.org = w.orgID) (hv : v ∈ d.users) (hvo : v.org = w.orgID)
    (hid : v.id ≠ r.id) {y : String} (hy : y ∈ idents w r) : y ∉ idents w v := by
  refine unambiguous_iff_disjoint.mp h r hr.1 v hv hr.2 hvo ?_ hy
  rintro rfl
  exact hid rfl

theorem Unambiguous.mailClear {d : Directory w} (h : Unambiguous d) {r : User}
    (hr : r ∈ d.users ∧ r.org = w.orgID) {m : String} (hm : m ∈ r.email) :
    MailClear d (some r.id) m := by
  intro v hv hvo hid n hn hnm
  have hid' : v.id ≠ r.id := fun he => hid (by rw [he])
  refine h.notMem hr hv hvo hid' (mem_idents.mpr (.inr ⟨m, hm, rfl⟩)) ?_
  exact mem_idents.mpr (.inl ⟨n, hn, hnm⟩)

theorem mem_nullIfEmpty {s m : String} : m ∈ nullIfEmpty s ↔ s ≠ "" ∧ s = m := by
  unfold nullIfEmpty
  split_ifs with h <;> simp [h]

/-! ## Runs of directory writes -/

inductive Op where
  | create (id : ℕ) (actor : String) (e : NewEntry)
  | update (actor username : String) (u : Update)
  | rename (actor oldName newName : String)

def step : Op → Directory w → Except WriteError (Directory w)
  | .create id actor e, d => create d id actor e
  | .update actor username u, d => update d actor username u
  | .rename actor oldName newName, d => rename d actor oldName newName

/-- The mail address an operation writes is no other account's username. -/
def Clear (d : Directory w) : Op → Prop
  | .create _ _ e => e.email ≠ "" → MailClear d none e.email
  | .update _ username u => ∀ r, updateTarget d username = some r →
      ∀ m, u.email = some m → m ≠ "" → MailClear d (some r.id) m
  | .rename _ _ _ => True

theorem create_unambiguous_iff {d d' : Directory w} {id : ℕ} {actor : String} {e : NewEntry}
    (hold : Unambiguous d) (h : create d id actor e = .ok d') :
    Unambiguous d' ↔ (e.email ≠ "" → MailClear d none e.email) := by
  obtain ⟨hname, husers⟩ := create_ok h
  have hfresh : ∀ v ∈ d.users, v.id ≠ id := by
    intro v hv
    have hids := d'.ids
    rw [husers, map_append, nodup_append'] at hids
    rintro rfl
    exact hids.2.2 (mem_map_of_mem hv) (by simp [newUser])
  have hclear : ∀ m, MailClear d (some id) m ↔ MailClear d none m := by
    intro m
    constructor
    · intro hm v hv hvo _
      exact hm v hv hvo fun he => hfresh v hv (Option.some.inj he).symm
    · intro hm v hv hvo _
      exact hm v hv hvo (by simp)
  rw [unambiguous_replace_iff (n := newUser w id e) hold rfl]
  · simp only [newUser, mem_nullIfEmpty, hclear]
    constructor
    · intro hm hne
      exact hm _ ⟨hne, rfl⟩
    · rintro hm m ⟨hne, rfl⟩
      exact hm hne
  · intro u
    rw [husers, mem_append, mem_singleton]
    constructor
    · rintro (hu | rfl)
      · exact .inr ⟨hu, hfresh u hu⟩
      · exact .inl rfl
    · rintro (rfl | ⟨hu, -⟩)
      · exact .inr rfl
      · exact .inl hu
  · intro v hv hvo _ x hx
    obtain rfl : e.username = x := Option.some.inj hx
    exact not_nameTaken hname hv hvo (by simp)

theorem update_unambiguous_iff {d d' : Directory w} {actor username : String} {u : Update}
    (hold : Unambiguous d) (h : update d actor username u = .ok d') :
    Unambiguous d' ↔ ∀ r, updateTarget d username = some r →
      ∀ m, u.email = some m → m ≠ "" → MailClear d (some r.id) m := by
  obtain ⟨r, htarget, husers⟩ := update_ok h
  have hr := updateTarget_mem htarget
  rw [unambiguous_rewrite (f := updateUser u) (fun u => ⟨rfl, rfl⟩) hold hr husers]
  · simp only [htarget, Option.some.injEq, forall_eq']
    cases hmail : u.email with
    | none =>
      simp only [updateUser, hmail]
      exact iff_of_true (fun m hm => hold.mailClear hr hm) (by simp)
    | some a =>
      simp only [updateUser, hmail, mem_nullIfEmpty, Option.some.injEq]
      constructor
      · rintro hm m rfl hne
        exact hm _ ⟨hne, rfl⟩
      · rintro hm m ⟨hne, rfl⟩
        exact hm _ rfl hne
  · intro v hv hvo hid x hx
    exact hold.notMem hr hv hvo hid (mem_idents.mpr (.inl ⟨x, hx, rfl⟩))

theorem rename_unambiguous {d d' : Directory w} {actor oldName newName : String}
    (hold : Unambiguous d) (h : rename d actor oldName newName = .ok d') : Unambiguous d' := by
  obtain ⟨r, htarget, hname, husers⟩ := rename_ok h
  have hr := renameTarget_mem htarget
  rw [unambiguous_rewrite (f := renameUser newName) (fun u => ⟨rfl, rfl⟩) hold hr husers]
  · intro m hm
    exact hold.mailClear hr hm
  · intro v hv hvo hid x hx
    obtain rfl : newName = x := Option.some.inj hx
    exact not_nameTaken hname hv hvo fun he => hid (Option.some.inj he).symm

theorem step_unambiguous_iff {d d' : Directory w} {op : Op} (hold : Unambiguous d)
    (h : step op d = .ok d') : Unambiguous d' ↔ Clear d op := by
  cases op with
  | create id actor e => exact create_unambiguous_iff hold h
  | update actor username u => exact update_unambiguous_iff hold h
  | rename actor oldName newName => exact iff_of_true (rename_unambiguous hold h) trivial

/-- A run of successful writes keeps every name to one account throughout exactly where no
write gives an account a mail address that is another's username. -/
theorem unambiguous_run_iff {d d' : Directory w} {ops : List Op} (hold : Unambiguous d)
    (h : foldKeys step ops d = .ok d') :
    (∀ pre rest d₁, ops = pre ++ rest → foldKeys step pre d = .ok d₁ → Unambiguous d₁) ↔
      ∀ pre op rest d₁, ops = pre ++ op :: rest → foldKeys step pre d = .ok d₁ → Clear d₁ op :=
  foldKeys_throughout_iff step_unambiguous_iff hold h

end

def exampleWriter : Writer where
  lower := toLower
  orgID := "acme"
  policyCheck := fun _ _ => .ok ()
  hash := fun p => .ok ("argon2id:" ++ p)

def exampleDirectory : Directory exampleWriter where
  users := [⟨1, "acme", some "alice@example.com", none, none, none, none, .active⟩]
  ids := by decide
  usernames := by decide
  emails := by decide
  identified := by decide
  passwords := fun _ => none
  events := []

theorem exampleDirectory_unambiguous : Unambiguous exampleDirectory := by
  intro x u hu v hv _ _ _ _
  rw [mem_singleton.mp hu, mem_singleton.mp hv]

def exampleEntry (username email : String) : NewEntry where
  username := username
  email := email
  commonName := username
  surname := username

theorem unambiguous_run_bob :
    ∃ d, foldKeys step [.create 2 "root" (exampleEntry "bob" "bob@example.com")]
      exampleDirectory = .ok d ∧ Unambiguous d := by
  have hok : (foldKeys step [.create 2 "root" (exampleEntry "bob" "bob@example.com")]
      exampleDirectory).toOption.isSome := by decide
  cases h : foldKeys step [.create 2 "root" (exampleEntry "bob" "bob@example.com")]
      exampleDirectory with
  | error e => simp [h, Except.toOption] at hok
  | ok d =>
    refine ⟨d, rfl, (unambiguous_run_iff exampleDirectory_unambiguous h).mpr ?_ _ [] d
      (append_nil _).symm h⟩
    intro pre op rest d₁ heq hpre
    obtain ⟨rfl, hop⟩ | ⟨pre', -, hpre'⟩ := cons_eq_append_iff.mp heq
    · obtain rfl := Except.ok.inj hpre
      obtain rfl : op = _ := (List.cons.inj hop).1
      intro _ v hv _ _ n hn
      obtain rfl := mem_singleton.mp hv
      obtain rfl := Option.some.inj hn
      decide
    · simp at hpre'

/-- An account created with another's username for its mail address: both answer to it. -/
theorem mail_shadows_username :
    ∃ ops : List Op, ∃ d, Unambiguous exampleDirectory ∧
      foldKeys step ops exampleDirectory = .ok d ∧ ¬Unambiguous d := by
  have hok : (foldKeys step [.create 2 "root" (exampleEntry "mallory" "Alice@example.com")]
      exampleDirectory).toOption.isSome := by decide
  cases h : foldKeys step [.create 2 "root" (exampleEntry "mallory" "Alice@example.com")]
      exampleDirectory with
  | error e => simp [h, Except.toOption] at hok
  | ok d =>
    refine ⟨_, d, exampleDirectory_unambiguous, h, fun hd => ?_⟩
    obtain ⟨d₁, hcreate, hd₁⟩ := foldKeys_cons_ok.mp h
    obtain rfl := Except.ok.inj hd₁
    have husers := (create_ok hcreate).2
    have heq := hd "alice@example.com"
      _ (husers ▸ mem_append_left _ (mem_singleton_self _))
      _ (husers ▸ mem_append_right _ (mem_singleton_self _)) rfl rfl
      (by decide) (by decide)
    exact absurd (congrArg User.id heq) (by decide)

end Signari.LdapAccounts
