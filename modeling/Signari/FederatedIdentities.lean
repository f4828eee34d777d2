import Signari.FederatedSignIn
import Signari.StatementPrograms

/-!
# Whose an external identity is

`completeFederation` of `internal/httpapi/federation.go` with `Decide` of
`internal/federation/decide.go` and the statements of `internal/store/federation.go`, as
transactions that run at once. A lookup reads what is committed. An upsert waits for the insertion
of the same identity by another transaction, and on a conflict it leaves the owner as it is; it
fails when the user has another account of the provider.

An account is only ever reached through a link that a browser signed in to it has asked for, or
because it was created for the identity. But two transactions may both find no owner, and then the
second reports one that the table does not name: `accounts_linked_and_owned`.
-/
namespace Signari.FederatedIdentities
open FederatedSignIn LabelledRuns StatementPrograms List
open Prog

inductive DecisionOutcome where
  | signIn | createUser | linkToCurrentUser | requireLocalSignIn | refuse

structure Policy where
  allowSignup : Bool
  allowLinking : Bool
  requireVerifiedEmail : Bool
  trustsEmailVerification : Bool

structure Context where
  existingLinkUserID : String
  localUserWithSameEmail : String
  currentUserID : String
  linkRequested : Bool

structure Decision where
  outcome : DecisionOutcome
  userID : String := ""
  reason : String := ""

def usableEmail (ext : ExternalIdentity) (p : Policy) : Bool :=
  if ext.email = "" then false
  else if !p.trustsEmailVerification then false
  else ext.emailVerified

def decide_ (ext : ExternalIdentity) (p : Policy) (c : Context) : Option Decision :=
  if ext.subject = "" then none
  else if c.existingLinkUserID ≠ "" then some { outcome := .signIn, userID := c.existingLinkUserID }
  else if c.linkRequested ∧ c.currentUserID ≠ "" then
    if !p.allowLinking then
      some { outcome := .refuse
             reason := "This provider is not configured to be linked to existing accounts." }
    else some { outcome := .linkToCurrentUser, userID := c.currentUserID }
  else if c.localUserWithSameEmail ≠ "" then
    if !p.allowLinking then
      some { outcome := .refuse
             reason := "An account already exists with this email address, and this " ++
               "provider cannot be linked to existing accounts." }
    else
      some { outcome := .requireLocalSignIn
             reason := "An account already exists with this email address. Sign in to it " ++
               "first, then add this provider from your account settings. We do not " ++
               "link accounts on a matching email alone, because anyone able to " ++
               "create an account elsewhere with your address could otherwise take " ++
               "over yours." }
  else if !p.allowSignup then
    some { outcome := .refuse
           reason := "This provider cannot be used to create new accounts. Ask an " ++
             "administrator for an account first, then add this provider from your " ++
             "account settings." }
  else if p.requireVerifiedEmail && !usableEmail ext p then
    some { outcome := .refuse
           reason := "This provider did not confirm that your email address is verified. " ++
             "Verify it with the provider and try again." }
  else some { outcome := .createUser }

/-- The address to store, and whether it counts as verified. -/
def emailToRecord (ext : ExternalIdentity) (p : Policy) : String × Bool :=
  (ext.email, usableEmail ext p)

structure Config where
  id : String
  orgID : String
  slug : String := ""
  policy : Policy

/-- What completes a sign-in: an external identity and the login it answers. Whom the login links
is recorded when it is started, from the session of the browser. A SAML response links nobody. -/
structure Completion where
  provider : Config
  pending : PendingLogin
  ext : ExternalIdentity
  start : Option StartInput
  recorded : match start with
    | none => pending.linkUserID = ""
    | some i => linkUser (D := Unit) i ⟨provider.id, provider.orgID⟩ = .ok pending.linkUserID

/-- A row of `federated_identities`. -/
structure IdentityRow where
  providerID : String
  userID : String
  orgID : String
  subject : String
  email : String
  emailVerified : Bool
  deriving DecidableEq

structure LocalUser where
  id : String
  orgID : String
  email : String
  active : Bool := true

/-- How the stages of a sign-in end. -/
inductive Stage where
  | handled | deny | done | session

inductive Op
  | begin
  | findIdentity (tx : ℕ) (providerID subject : String)
  | findByEmail (tx : ℕ) (orgID email : String)
  | link (tx : ℕ) (row : IdentityRow)
  | createUser (tx : ℕ) (orgID email : String)
  | audit (tx : ℕ) (type subjectID : String)
  | mapAttributes (tx : ℕ) (userID : String)
  | advance (tx : ℕ) (userID : String)
  | commit (tx : ℕ)
  | rollback (tx : ℕ)

/-- The response to a statement; none, or false, is an error. -/
@[reducible] def Res : Op → Type
  | .begin => Option ℕ
  | .findIdentity .. => Option (Option String)
  | .findByEmail .. => Option (Option String)
  | .link .. => Bool
  | .createUser .. => Option String
  | .audit .. => Bool
  | .mapAttributes .. => Unit
  | .advance .. => Stage
  | .commit _ => Bool
  | .rollback _ => Unit

inductive Answer where
  | refused (reason : String)
  | linked (userID : String)
  | handled
  | denied
  | done
  | signedIn (userID : String)

abbrev Handler (α : Type) := Prog Op Res α

abbrev query (o : Op) : Handler (Res o) := call o

def somethingWrong : String := "Something went wrong. Please try again."

/-- A refusal that gives the transaction up. -/
def refuse (tx : ℕ) (reason : String) : Handler Answer := do
  let _ ← query (.rollback tx)
  pure (.refused reason)

/-- The end of a sign-in: a stage may take over, and only a committed transaction opens a
session. -/
def completeSignIn (tx : ℕ) (userID : String) : Handler Answer := do
  match ← query (.advance tx userID) with
  | .handled =>
    let _ ← query (.rollback tx)
    pure .handled
  | .deny =>
    let _ ← query (.rollback tx)
    pure .denied
  | .done =>
    let _ ← query (.commit tx)
    pure .done
  | .session =>
    match ← query (.commit tx) with
    | false => refuse tx "internal error"
    | true => pure (.signedIn userID)

/-- What follows the decision when there is a user. -/
def finishSignIn (tx : ℕ) (userID : String) : Handler Answer := do
  let _ ← query (.mapAttributes tx userID)
  completeSignIn tx userID

def finishLink (tx : ℕ) (userID : String) : Handler Answer := do
  let _ ← query (.mapAttributes tx userID)
  match ← query (.commit tx) with
  | false => refuse tx somethingWrong
  | true => pure (.linked userID)

def Completion.row (q : Completion) (userID : String) : IdentityRow where
  providerID := q.provider.id
  userID := userID
  orgID := q.provider.orgID
  subject := q.ext.subject
  email := q.ext.email
  emailVerified := (emailToRecord q.ext q.provider.policy).2

/-- A new account is linked before anybody is signed in to it. -/
def linkCreated (q : Completion) (tx : ℕ) (userID : String) : Handler Answer := do
  match ← query (.link tx (q.row userID)) with
  | false => refuse tx somethingWrong
  | true =>
    let _ ← query (.audit tx "federation.user_created" userID)
    finishSignIn tx userID

def createAndSignIn (q : Completion) (tx : ℕ) : Handler Answer := do
  match ← query (.createUser tx q.provider.orgID (emailToRecord q.ext q.provider.policy).1) with
  | none => refuse tx somethingWrong
  | some userID => linkCreated q tx userID

def applyDecision (q : Completion) (tx : ℕ) (d : Decision) : Handler Answer :=
  match d.outcome with
  | .signIn => do
    let _ ← query (.link tx (q.row d.userID))
    finishSignIn tx d.userID
  | .linkToCurrentUser => do
    match ← query (.link tx (q.row d.userID)) with
    | false => refuse tx "That account is already linked to someone else."
    | true =>
      let _ ← query (.audit tx "federation.account_linked" d.userID)
      finishLink tx d.userID
  | .createUser => createAndSignIn q tx
  | .requireLocalSignIn | .refuse => do
    match ← query (.audit tx "federation.refused" "") with
    | true =>
      let _ ← query (.commit tx)
      pure (.refused d.reason)
    | false => refuse tx d.reason

/-- Whether there is a local account with the address; it is looked for only to refuse. -/
def sameEmail (q : Completion) (tx : ℕ) (existing : String) : Handler (Option String) :=
  if existing = "" ∧ q.ext.email ≠ "" then do
    match ← query (.findByEmail tx q.provider.orgID q.ext.email) with
    | none => pure none
    | some found => pure (some (found.getD ""))
  else pure (some "")

def completeFederation (q : Completion) : Handler Answer := do
  match ← query .begin with
  | none => pure (.refused somethingWrong)
  | some tx =>
    match ← query (.findIdentity tx q.provider.id q.ext.subject) with
    | none => refuse tx somethingWrong
    | some existing =>
      match ← sameEmail q tx (existing.getD "") with
      | none => refuse tx somethingWrong
      | some found =>
        match decide_ q.ext q.provider.policy
            { existingLinkUserID := existing.getD ""
              localUserWithSameEmail := found
              currentUserID := q.pending.linkUserID
              linkRequested := decide (q.pending.linkUserID ≠ "") } with
        | none => refuse tx "The provider did not return enough information to sign you in."
        | some d => applyDecision q tx d

section

/-- A transaction that is open: what it has inserted or refreshed, and whether a statement of it
has failed, after which it cannot be committed. -/
structure Txn where
  inserted : Option IdentityRow := none
  refreshed : Option IdentityRow := none
  created : Option LocalUser := none
  aborted : Bool := false

/-- What is committed, and the transactions under way. `ids` are the identifiers of users that
have been given out. -/
structure Store where
  identities : List IdentityRow := []
  users : List LocalUser := []
  txs : ℕ → Option Txn := fun _ => none
  nextTx : ℕ := 0
  ids : List String := []

/-- The columns of the first unique index. -/
def IdentityRow.sameKey (r q : IdentityRow) : Bool :=
  decide (r.providerID = q.providerID ∧ r.subject = q.subject)

/-- The columns of the second one. -/
def IdentityRow.sameUser (r q : IdentityRow) : Bool :=
  decide (r.providerID = q.providerID ∧ r.userID = q.userID)

def Store.close (s : Store) (tx : ℕ) : Store := { s with txs := Function.update s.txs tx none }

def Store.put (s : Store) (tx : ℕ) (t : Txn) : Store :=
  { s with txs := Function.update s.txs tx (some t) }

def Store.begin (s : Store) : Store := { s.put s.nextTx {} with nextTx := s.nextTx + 1 }

/-- `SET email = EXCLUDED.email, email_verified = EXCLUDED.email_verified`: the owner stays. -/
def IdentityRow.refresh (r q : IdentityRow) : IdentityRow :=
  if r.sameKey q then { r with email := q.email, emailVerified := q.emailVerified } else r

def Txn.apply (t : Txn) (rows : List IdentityRow) : List IdentityRow :=
  (match t.refreshed with
    | none => rows
    | some q => rows.map fun r => r.refresh q) ++ t.inserted.toList

def Store.commit (s : Store) (tx : ℕ) : Store :=
  match s.txs tx with
  | none => s
  | some t => { s.close tx with
      identities := t.apply s.identities, users := s.users ++ t.created.toList }

/-- A row that an open transaction will insert, unless it fails. -/
def Store.Pending (s : Store) (tx : ℕ) (r : IdentityRow) : Prop :=
  ∃ t, s.txs tx = some t ∧ t.aborted = false ∧ t.inserted = some r

/-- Where an upsert goes on: no other transaction has inserted a row that is in its way. -/
def Store.Unblocked (s : Store) (tx : ℕ) (row : IdentityRow) : Prop :=
  ∀ tx' r, tx' ≠ tx → s.Pending tx' r → r.sameKey row = false ∧ r.sameUser row = false

/-- What an upsert does in its transaction, if it does not fail. -/
inductive Upserts (s : Store) (t : Txn) (row : IdentityRow) : Txn → Prop
  | refreshed (old : IdentityRow) : old ∈ s.identities → old.sameKey row = true →
      Upserts s t row { t with refreshed := some row }
  | inserted : (∀ old ∈ s.identities, old.sameKey row = false) →
      (∀ old ∈ s.identities, old.sameUser row = false) → t.inserted = none →
      Upserts s t row { t with inserted := some row }

variable (lower : String → String)

/-- An account with this address in the organisation. -/
def LocalUser.sameAddress (u : LocalUser) (orgID email : String) : Prop :=
  u.email ≠ "" ∧ u.orgID = orgID ∧ lower u.email = lower email

/-- Where an account can be inserted: it has an address, which no account has, and which no other
transaction gives to one. -/
structure Store.Vacant (s : Store) (tx : ℕ) (orgID email : String) : Prop where
  users_has_an_identifier : email ≠ ""
  users_org_email_key : ∀ u ∈ s.users, ¬ u.sameAddress lower orgID email
  unblocked : ∀ tx' t u, tx' ≠ tx → s.txs tx' = some t → t.aborted = false → t.created = some u →
    ¬ u.sameAddress lower orgID email

/-- A statement of a transaction that may fail, and then leaves it to be rolled back. -/
def Fails (s : Store) (tx : ℕ) (s' : Store) : Prop :=
  s' = s ∨ ∃ t, s.txs tx = some t ∧ s' = s.put tx { t with aborted := true }

/-- A commit that reports an error may have come to pass. -/
def Exec (s : Store) : (o : Op) → Res o → Store → Prop
  | .begin, r, s' => (r = none ∧ s' = s) ∨ (r = some s.nextTx ∧ s' = s.begin)
  | .findIdentity tx p subject, r, s' => (r = none ∧ Fails s tx s') ∨
      (s' = s ∧ r = some ((s.identities.find? fun row =>
        decide (row.providerID = p ∧ row.subject = subject)).map IdentityRow.userID))
  | .findByEmail tx orgID email, r, s' => (r = none ∧ Fails s tx s') ∨
      (s' = s ∧ r = some ((s.users.find? fun u => decide (u.orgID = orgID ∧
        lower u.email = lower email ∧ u.active = true)).map LocalUser.id))
  | .link tx row, r, s' => (r = false ∧ ((s.txs tx = none ∧ s' = s) ∨
        ∃ t, s.txs tx = some t ∧ s' = s.put tx { t with aborted := true })) ∨
      (r = true ∧ s.Unblocked tx row ∧ ∃ t t', s.txs tx = some t ∧ t.aborted = false ∧
        Upserts s t row t' ∧ s' = s.put tx t')
  | .createUser tx orgID email, r, s' => (r = none ∧ Fails s tx s') ∨
      ∃ id t, id ∉ s.ids ∧ s.txs tx = some t ∧ s.Vacant lower tx orgID email ∧ r = some id ∧
        s' = { s.put tx { t with created := some ⟨id, orgID, email, true⟩ } with ids := id :: s.ids }
  | .audit tx _ _, r, s' => (r = false ∧ Fails s tx s') ∨ (r = true ∧ s' = s)
  | .mapAttributes tx _, _, s' => Fails s tx s'
  | .advance tx _, _, s' => Fails s tx s'
  | .commit tx, r, s' => (r = true ∧ (∃ t, s.txs tx = some t ∧ t.aborted = false) ∧
        s' = s.commit tx) ∨
      (r = false ∧ (s' = s.close tx ∨
        ((∃ t, s.txs tx = some t ∧ t.aborted = false) ∧ s' = s.commit tx)))
  | .rollback tx, _, s' => s' = s.close tx

/-- What happens from elsewhere: accounts are created and edited, a transaction loses its
connection. -/
inductive Change
  | users (us : List LocalUser) (ids : List String)
  | lost (tx : ℕ)

def Change.Allowed (s : Store) : Change → Prop
  | .users _ ids => s.ids ⊆ ids
  | .lost _ => True

def Change.apply (s : Store) : Change → Store
  | .users us ids => { s with users := us, ids := ids }
  | .lost tx => s.close tx

def Changes (s : Store) (e : Change) (s' : Store) : Prop := e.Allowed s ∧ s' = e.apply s

abbrev Ev := Event Op Res Completion Answer Change

abbrev World := Pool Op Res Answer Store

/-- A run of completions, from tables without external identities. -/
abbrev CompletionRun (users : List LocalUser) (ids : List String) (es : List Ev) (w : World) :
    Prop :=
  Run (Step completeFederation (Exec lower) Changes) (Pool.start { users := users, ids := ids }) es w

end

section

variable (lower : String → String) (users : List LocalUser) (ids : List String) (es : List Ev)

/-- The answer says whose the external identity is. -/
def Answer.names (a : Answer) (u : String) : Prop := a = .signedIn u ∨ a = .linked u

def Owns (s : Store) (providerID subject u : String) : Prop :=
  (∃ row ∈ s.identities, row.providerID = providerID ∧ row.subject = subject) ∧
    ∀ row ∈ s.identities, row.providerID = providerID → row.subject = subject → row.userID = u

/-- Whoever is signed in or linked is the owner that the table names. -/
def OwnedAsReported (s : Store) : Prop := ∀ k q a u, .began k q ∈ es → .answered k a ∈ es →
  a.names u → Owns s q.provider.id q.ext.subject u

/-- The account was created for the external identity, or a browser that was signed in to it has
asked for the link. -/
def Origin (providerID subject u : String) : Prop :=
  ∃ (k : ℕ) (q : Completion), .began k q ∈ es ∧ q.provider.id = providerID ∧
    q.ext.subject = subject ∧
    ((∃ tx org email, .ran k (.createUser tx org email) (some u) ∈ es) ∨
      ∃ i org, q.start = some i ∧ i.linking = true ∧ i.session = some (u, org))

def AccountsLinked : Prop := ∀ k q u, .began k q ∈ es → .answered k (.signedIn u) ∈ es →
  Origin es q.provider.id q.ext.subject u

/-- When the upsert of a completion executes, the table has no other owner for its external
identity. -/
def UpsertsAlone (w : World) : Prop := ∀ k a u, .answered k a ∈ es → a.names u →
  ∀ hs ts tx row r v v', es = hs ++ .ran k (.link tx row) r :: ts →
    CompletionRun lower users ids hs v →
    Step completeFederation (Exec lower) Changes v (.ran k (.link tx row) r) v' →
    Run (Step completeFederation (Exec lower) Changes) v' ts w →
    ∀ old ∈ v.state.identities, old.sameKey row = true → old.userID = row.userID

end

section

variable {q : Completion} {expect : (o : Op) → Res o → Prop} {xs : Trace Op Res}

abbrev Entry := (o : Op) × Res o

/-- How a completion comes by the user of its upsert. -/
def Source (q : Completion) (xs : Trace Op Res) (u : String) : Prop :=
  (∃ tx, (⟨.findIdentity tx q.provider.id q.ext.subject, some (some u)⟩ : Entry) ∈ xs) ∨
    ∃ tx org email, (⟨.createUser tx org email, some u⟩ : Entry) ∈ xs

/-- An upsert belongs to the transaction of the handler and comes before its commit. -/
def Before (q : Completion) (xs : Trace Op Res) : Op → Prop
  | .link tx row => (⟨.begin, some tx⟩ : Entry) ∈ xs ∧ (∀ tx' r, (⟨.commit tx', r⟩ : Entry) ∉ xs) ∧
      ∃ u, row = q.row u ∧ (Source q xs u ∨ (u = q.pending.linkUserID ∧ u ≠ ""))
  | _ => True

/-- The only upsert so far is for this user, in this transaction. -/
def Linked (q : Completion) (tx : ℕ) (u : String) (xs : Trace Op Res) : Prop :=
  (∃ r, (⟨.link tx (q.row u), r⟩ : Entry) ∈ xs) ∧
    ∀ tx' row r, (⟨.link tx' row, r⟩ : Entry) ∈ xs → tx' = tx ∧ row = q.row u

/-- What stands behind an answer that names a user. -/
def After (q : Completion) (xs : Trace Op Res) (a : Answer) : Prop :=
  ∀ u, a.names u → (∃ tx, Linked q tx u xs ∧ (⟨.commit tx, true⟩ : Entry) ∈ xs) ∧
    (a = .signedIn u → Source q xs u)

/-- No statement of this part of a trace is an upsert. -/
def Unlinked (xs : Trace Op Res) : Prop := ∀ tx row r, (⟨.link tx row, r⟩ : Entry) ∉ xs

theorem Linked.append {tx : ℕ} {u : String} {ys : Trace Op Res} (h : Linked q tx u xs)
    (hys : Unlinked ys) : Linked q tx u (xs ++ ys) := by
  obtain ⟨⟨r, hr⟩, honly⟩ := h
  refine ⟨⟨r, mem_append_left _ hr⟩, fun tx' row r' hmem => ?_⟩
  rcases mem_append.1 hmem with hmem | hmem
  · exact honly tx' row r' hmem
  · exact absurd hmem (hys tx' row r')

theorem Unlinked.linked {tx : ℕ} {u : String} {r : Bool} (h : Unlinked xs) :
    Linked q tx u (xs ++ [⟨.link tx (q.row u), r⟩]) := by
  refine ⟨⟨r, by simp⟩, fun tx' row r' hmem => ?_⟩
  rcases mem_append.1 hmem with hmem | hmem
  · exact absurd hmem (h tx' row r')
  · cases mem_singleton.1 hmem
    exact ⟨rfl, rfl⟩

theorem Source.append {u : String} (h : Source q xs u) (ys : Trace Op Res) :
    Source q (xs ++ ys) u := by
  rcases h with ⟨tx, h⟩ | ⟨tx, org, email, h⟩
  · exact .inl ⟨tx, mem_append_left _ h⟩
  · exact .inr ⟨tx, org, email, mem_append_left _ h⟩

/-- Whose a decision is. -/
theorem decide_user {ext : ExternalIdentity} {p : Policy} {c : Context} {d : Decision}
    (h : decide_ ext p c = some d) :
    (d.outcome = .signIn → d.userID = c.existingLinkUserID ∧ d.userID ≠ "") ∧
      (d.outcome = .linkToCurrentUser → d.userID = c.currentUserID ∧ d.userID ≠ "") := by
  unfold decide_ at h
  split at h
  · cases h
  split at h
  · rename_i hexisting
    cases h
    exact ⟨fun _ => ⟨rfl, hexisting⟩, fun hd => by cases hd⟩
  split at h
  · rename_i hlink
    split at h
    · cases h
      exact ⟨fun hd => (by cases hd), fun hd => by cases hd⟩
    · cases h
      exact ⟨fun hd => (by cases hd), fun _ => ⟨rfl, hlink.2⟩⟩
  all_goals
    repeat' split at h
    all_goals
      cases h
      exact ⟨fun hd => (by cases hd), fun hd => by cases hd⟩

theorem after_nobody {a : Answer} (h : ∀ u, ¬ a.names u) : After q xs a :=
  fun u hu => absurd hu (h u)

theorem refuse_holds {tx : ℕ} {reason : String} :
    Holds expect (Before q) (After q) xs (refuse tx reason) :=
  holds_call.2 ⟨trivial, fun _ _ => after_nobody (by simp [Answer.names])⟩

theorem finishSignIn_holds {tx : ℕ} {u : String} (h : Linked q tx u xs) (hsource : Source q xs u) :
    Holds expect (Before q) (After q) xs (finishSignIn tx u) := by
  unfold finishSignIn
  refine holds_call.2 ⟨trivial, fun _ _ => ?_⟩
  unfold completeSignIn
  refine holds_call.2 ⟨trivial, fun r _ => ?_⟩
  cases r with
  | handled | deny | done =>
    exact holds_call.2 ⟨trivial, fun _ _ => after_nobody (by simp [Answer.names])⟩
  | session =>
    refine holds_call.2 ⟨trivial, fun r _ => ?_⟩
    cases r with
    | false => exact refuse_holds
    | true =>
      rw [List.append_assoc, List.append_assoc]
      intro v hv
      obtain rfl : u = v := by simpa [Answer.names] using hv
      exact ⟨⟨tx, h.append (by simp [Unlinked]), by simp⟩, fun _ => hsource.append _⟩

theorem finishLink_holds {tx : ℕ} {u : String} (h : Linked q tx u xs) :
    Holds expect (Before q) (After q) xs (finishLink tx u) := by
  unfold finishLink
  refine holds_call.2 ⟨trivial, fun _ _ => ?_⟩
  refine holds_call.2 ⟨trivial, fun r _ => ?_⟩
  cases r with
  | false => exact refuse_holds
  | true =>
    rw [List.append_assoc]
    intro v hv
    obtain rfl : u = v := by simpa [Answer.names] using hv
    exact ⟨⟨tx, h.append (by simp [Unlinked]), by simp⟩, fun h => nomatch h⟩

theorem createAndSignIn_holds {tx : ℕ} (htx : (⟨.begin, some tx⟩ : Entry) ∈ xs)
    (hlink : Unlinked xs) (hcommit : ∀ tx' r, (⟨.commit tx', r⟩ : Entry) ∉ xs) :
    Holds expect (Before q) (After q) xs (createAndSignIn q tx) := by
  unfold createAndSignIn
  refine holds_call.2 ⟨trivial, fun r _ => ?_⟩
  rcases r with _ | u
  · exact refuse_holds
  have hsource : Source q (xs ++ [⟨.createUser tx q.provider.orgID
      (emailToRecord q.ext q.provider.policy).1, some u⟩]) u :=
    .inr ⟨tx, _, _, mem_append_right _ (mem_singleton_self _)⟩
  dsimp only
  unfold linkCreated
  refine holds_call.2 ⟨⟨by simp [htx], by simpa using hcommit, u, rfl, .inl hsource⟩, fun r _ => ?_⟩
  cases r with
  | false => exact refuse_holds
  | true =>
    refine holds_call.2 ⟨trivial, fun _ _ => ?_⟩
    refine finishSignIn_holds (Linked.append (Unlinked.linked ?_) (by simp [Unlinked]))
      ((hsource.append _).append _)
    simpa [Unlinked] using hlink

theorem applyDecision_holds {tx : ℕ} {d : Decision} (htx : (⟨.begin, some tx⟩ : Entry) ∈ xs)
    (hlink : Unlinked xs) (hcommit : ∀ tx' r, (⟨.commit tx', r⟩ : Entry) ∉ xs)
    (hsignIn : d.outcome = .signIn → Source q xs d.userID)
    (hcurrent : d.outcome = .linkToCurrentUser →
      d.userID = q.pending.linkUserID ∧ d.userID ≠ "") :
    Holds expect (Before q) (After q) xs (applyDecision q tx d) := by
  have hrefuse : Holds expect (Before q) (After q) xs (do
      match ← query (.audit tx "federation.refused" "") with
      | true =>
        let _ ← query (.commit tx)
        pure (.refused d.reason)
      | false => refuse tx d.reason) := by
    refine holds_call.2 ⟨trivial, fun r _ => ?_⟩
    cases r with
    | false => exact refuse_holds
    | true => exact holds_call.2 ⟨trivial, fun _ _ => after_nobody (by simp [Answer.names])⟩
  unfold applyDecision
  cases hd : d.outcome with
  | signIn =>
    have hsource := hsignIn hd
    refine holds_call.2 ⟨⟨htx, hcommit, d.userID, rfl, .inl hsource⟩, fun _ _ => ?_⟩
    exact finishSignIn_holds hlink.linked (hsource.append _)
  | linkToCurrentUser =>
    refine holds_call.2 ⟨⟨htx, hcommit, d.userID, rfl, .inr (hcurrent hd)⟩, fun r _ => ?_⟩
    cases r with
    | false => exact refuse_holds
    | true =>
      refine holds_call.2 ⟨trivial, fun _ _ => ?_⟩
      exact finishLink_holds (hlink.linked.append (by simp [Unlinked]))
  | createUser => exact createAndSignIn_holds htx hlink hcommit
  | requireLocalSignIn | refuse => exact hrefuse

theorem completeFederation_holds :
    Holds expect (Before q) (After q) [] (completeFederation q) := by
  unfold completeFederation
  refine holds_call.2 ⟨trivial, fun r _ => ?_⟩
  rcases r with _ | tx
  · exact after_nobody (by simp [Answer.names])
  refine holds_call.2 ⟨trivial, fun r _ => ?_⟩
  rcases r with _ | existing
  · exact refuse_holds
  dsimp only
  have hdecide : ∀ (ys : Trace Op Res) (found : String), Unlinked ys →
      (∀ tx' r, (⟨.commit tx', r⟩ : Entry) ∉ ys) → Holds expect (Before q) (After q)
        ([⟨.begin, some tx⟩, ⟨.findIdentity tx q.provider.id q.ext.subject, some existing⟩] ++ ys)
        (match decide_ q.ext q.provider.policy
            { existingLinkUserID := existing.getD ""
              localUserWithSameEmail := found
              currentUserID := q.pending.linkUserID
              linkRequested := decide (q.pending.linkUserID ≠ "") } with
          | none => refuse tx "The provider did not return enough information to sign you in."
          | some d => applyDecision q tx d) := by
    intro ys found hys hcommit
    cases hd : decide_ q.ext q.provider.policy _ with
    | none => exact refuse_holds
    | some d =>
      refine applyDecision_holds (by simp) (by simpa [Unlinked] using hys)
        (by simpa using hcommit) (fun hout => ?_) (decide_user hd).2
      obtain ⟨heq, hne⟩ := (decide_user hd).1 hout
      cases existing with
      | none => exact absurd heq hne
      | some u =>
        obtain rfl : d.userID = u := heq
        exact .inl ⟨tx, by simp⟩
  unfold sameEmail
  split
  · refine holds_call.2 ⟨trivial, fun r _ => ?_⟩
    rcases r with _ | found
    · exact refuse_holds
    · exact hdecide [_] (found.getD "") (by simp [Unlinked]) (by simp)
  · exact hdecide [] "" (by simp [Unlinked]) (by simp)

end

section

variable {lower : String → String} {s s' : Store} {tx : ℕ} {row : IdentityRow}
  {new : IdentityRow → Prop}

theorem sameKey_iff {r r' : IdentityRow} :
    r.sameKey r' = true ↔ r.providerID = r'.providerID ∧ r.subject = r'.subject :=
  decide_eq_true_iff

theorem sameKey_false_comm {r r' : IdentityRow} (h : r.sameKey r' = false) :
    r'.sameKey r = false := by
  unfold IdentityRow.sameKey at h ⊢
  rw [decide_eq_false_iff_not] at h ⊢
  exact fun hkey => h ⟨hkey.1.symm, hkey.2.symm⟩

@[simp] theorem refresh_providerID (r q : IdentityRow) :
    (r.refresh q).providerID = r.providerID := by
  unfold IdentityRow.refresh
  split <;> rfl

@[simp] theorem refresh_subject (r q : IdentityRow) : (r.refresh q).subject = r.subject := by
  unfold IdentityRow.refresh
  split <;> rfl

@[simp] theorem refresh_userID (r q : IdentityRow) : (r.refresh q).userID = r.userID := by
  unfold IdentityRow.refresh
  split <;> rfl

/-- The row is in the table as far as its key and its owner go. -/
def Store.Has (s : Store) (row : IdentityRow) : Prop :=
  ∃ r ∈ s.identities, r.providerID = row.providerID ∧ r.subject = row.subject ∧
    r.userID = row.userID

theorem has_apply {t : Txn} {rows : List IdentityRow} {r : IdentityRow} (hr : r ∈ rows) :
    ∃ r' ∈ t.apply rows, r'.providerID = r.providerID ∧ r'.subject = r.subject ∧
      r'.userID = r.userID := by
  unfold Txn.apply
  cases t.refreshed with
  | none => exact ⟨r, mem_append_left _ hr, rfl, rfl, rfl⟩
  | some q =>
    exact ⟨r.refresh q, mem_append_left _ (mem_map_of_mem hr), by simp, by simp, by simp⟩

theorem mem_apply {t : Txn} {rows : List IdentityRow} {r : IdentityRow} (hr : r ∈ t.apply rows) :
    (∃ r₀ ∈ rows, r.providerID = r₀.providerID ∧ r.subject = r₀.subject ∧ r.userID = r₀.userID) ∨
      t.inserted = some r := by
  unfold Txn.apply at hr
  rcases mem_append.1 hr with hr | hr
  · cases hq : t.refreshed with
    | none => exact .inl ⟨r, by simpa [hq] using hr, rfl, rfl, rfl⟩
    | some q =>
      rw [hq] at hr
      obtain ⟨r₀, hr₀, rfl⟩ := mem_map.1 hr
      exact .inl ⟨r₀, hr₀, by simp, by simp, by simp⟩
  · exact .inr (by simpa using hr)

/-- What a statement or a change does to the rows; `new` are those that it may insert. -/
inductive Moves (new : IdentityRow → Prop) (s : Store) : Store → Prop
  | quiet {s' : Store} : s'.identities = s.identities → s.nextTx ≤ s'.nextTx →
      (∀ tx r, s'.Pending tx r → s.Pending tx r) → Moves new s s'
  | inserted {s' : Store} (tx : ℕ) (row : IdentityRow) : s'.identities = s.identities →
      s.nextTx ≤ s'.nextTx → new row →
      (∀ old ∈ s.identities, old.sameKey row = false) → s.Unblocked tx row →
      (∀ tx' r, s'.Pending tx' r → s.Pending tx' r ∨ (tx' = tx ∧ r = row)) → Moves new s s'
  | committed (tx : ℕ) (t : Txn) : s.txs tx = some t → t.aborted = false →
      Moves new s (s.commit tx)

theorem pending_put {t : Txn} {tx' : ℕ} {r : IdentityRow} (h : (s.put tx t).Pending tx' r) :
    (tx' = tx ∧ t.aborted = false ∧ t.inserted = some r) ∨ (tx' ≠ tx ∧ s.Pending tx' r) := by
  obtain ⟨t', ht', haborted, hinserted⟩ := h
  by_cases htx : tx' = tx
  · subst htx
    obtain rfl : t = t' := by simpa [Store.put] using ht'
    exact .inl ⟨rfl, haborted, hinserted⟩
  · refine .inr ⟨htx, t', ?_, haborted, hinserted⟩
    simpa [Store.put, htx] using ht'

theorem pending_close {tx' : ℕ} {r : IdentityRow} (h : (s.close tx).Pending tx' r) :
    tx' ≠ tx ∧ s.Pending tx' r := by
  obtain ⟨t', ht', haborted, hinserted⟩ := h
  by_cases htx : tx' = tx
  · subst htx
    simp [Store.close] at ht'
  · exact ⟨htx, t', by simpa [Store.close, htx] using ht', haborted, hinserted⟩

theorem moves_refl : Moves new s s := .quiet rfl le_rfl fun _ _ h => h

theorem moves_close : Moves new s (s.close tx) :=
  .quiet rfl le_rfl fun _ _ h => (pending_close h).2

theorem moves_aborted {t : Txn} : Moves new s (s.put tx { t with aborted := true }) := by
  refine .quiet rfl le_rfl fun tx' r h => ?_
  rcases pending_put h with ⟨-, haborted, -⟩ | ⟨-, h⟩
  · cases haborted
  · exact h

theorem Fails.moves (h : Fails s tx s') : Moves new s s' := by
  rcases h with rfl | ⟨t, -, rfl⟩
  · exact moves_refl
  · exact moves_aborted

theorem Upserts.moves {t t' : Txn} (ht : s.txs tx = some t) (haborted : t.aborted = false)
    (hfree : s.Unblocked tx row) (hnew : new row) (h : Upserts s t row t') :
    Moves new s (s.put tx t') := by
  cases h with
  | refreshed old hold hkey =>
    refine .quiet rfl le_rfl fun tx' r h => ?_
    rcases pending_put h with ⟨rfl, -, hinserted⟩ | ⟨-, h⟩
    · exact ⟨t, ht, haborted, hinserted⟩
    · exact h
  | inserted hkey huser hnone =>
    refine .inserted tx row rfl le_rfl hnew hkey hfree fun tx' r h => ?_
    rcases pending_put h with ⟨rfl, -, hinserted⟩ | ⟨-, h⟩
    · exact .inr ⟨rfl, (Option.some.inj hinserted).symm⟩
    · exact .inl h

theorem moves_created {t : Txn} {u : LocalUser} {ids : List String} (ht : s.txs tx = some t) :
    Moves new s { s.put tx { t with created := some u } with ids := ids } := by
  refine .quiet rfl le_rfl fun tx' r h => ?_
  have hput : (s.put tx { t with created := some u }).Pending tx' r := h
  rcases pending_put hput with ⟨rfl, haborted, hinserted⟩ | ⟨-, h⟩
  · exact ⟨t, ht, haborted, hinserted⟩
  · exact h

theorem pending_begin {r : IdentityRow} (h : s.begin.Pending tx r) : s.Pending tx r := by
  have hput : (s.put s.nextTx {}).Pending tx r := h
  rcases pending_put hput with ⟨-, -, hinserted⟩ | ⟨-, h⟩
  · cases hinserted
  · exact h

theorem moves_begin : Moves new s s.begin :=
  .quiet rfl (Nat.le_succ _) fun _ _ h => pending_begin h

theorem Exec.moves {o : Op} {r : Res o} (h : Exec lower s o r s') :
    Moves (fun row => ∃ tx, o = .link tx row) s s' := by
  cases o with
  | begin =>
    rcases h with ⟨-, rfl⟩ | ⟨-, rfl⟩
    · exact moves_refl
    · exact moves_begin
  | findIdentity | findByEmail =>
    rcases h with ⟨-, h⟩ | ⟨rfl, -⟩
    · exact h.moves
    · exact moves_refl
  | link tx row =>
    rcases h with ⟨-, ⟨-, rfl⟩ | ⟨t, -, rfl⟩⟩ | ⟨-, hfree, t, t', ht, haborted, h, rfl⟩
    · exact moves_refl
    · exact moves_aborted
    · exact h.moves ht haborted hfree ⟨tx, rfl⟩
  | createUser =>
    rcases h with ⟨-, h⟩ | ⟨id, t, -, ht, -, -, rfl⟩
    · exact h.moves
    · exact moves_created ht
  | audit =>
    rcases h with ⟨-, h⟩ | ⟨-, rfl⟩
    · exact h.moves
    · exact moves_refl
  | mapAttributes | advance => exact Fails.moves h
  | commit tx =>
    rcases h with ⟨-, ⟨t, ht, haborted⟩, rfl⟩ | ⟨-, rfl | ⟨⟨t, ht, haborted⟩, rfl⟩⟩
    · exact .committed tx t ht haborted
    · exact moves_close
    · exact .committed tx t ht haborted
  | rollback tx =>
    obtain rfl : s' = s.close tx := h
    exact moves_close

theorem Changes.moves {e : Change} (h : Changes s e s') : Moves (fun _ => False) s s' := by
  obtain ⟨-, rfl⟩ := h
  cases e with
  | users us ids => exact .quiet rfl le_rfl fun _ _ h => h
  | lost tx => exact moves_close

theorem commit_eq {t : Txn} (ht : s.txs tx = some t) : s.commit tx = { s.close tx with
    identities := t.apply s.identities, users := s.users ++ t.created.toList } := by
  simp [Store.commit, ht]

theorem Moves.has (h : Moves new s s') (hrow : s.Has row) : s'.Has row := by
  cases h with
  | quiet heq | inserted _ _ heq =>
    unfold Store.Has
    rwa [heq]
  | committed tx t ht _ =>
    obtain ⟨r, hr, hprovider, hsubject, huser⟩ := hrow
    obtain ⟨r', hr', heq⟩ := has_apply (t := t) hr
    rw [commit_eq ht]
    exact ⟨r', hr', heq.1.trans hprovider, heq.2.1.trans hsubject, heq.2.2.trans huser⟩

/-- One owner for each external identity, and no transaction in the way of another. -/
structure Sound (s : Store) : Prop where
  owner : ∀ r ∈ s.identities, ∀ r' ∈ s.identities, r.providerID = r'.providerID →
    r.subject = r'.subject → r.userID = r'.userID
  fresh : ∀ tx r, s.Pending tx r → ∀ old ∈ s.identities, old.sameKey r = false
  apart : ∀ tx tx' r r', s.Pending tx r → s.Pending tx' r' → tx ≠ tx' → r.sameKey r' = false

theorem sameKey_congr {r r₀ q : IdentityRow} (hprovider : r.providerID = r₀.providerID)
    (hsubject : r.subject = r₀.subject) : r.sameKey q = r₀.sameKey q := by
  unfold IdentityRow.sameKey
  rw [hprovider, hsubject]

theorem Sound.committed (h : Sound s) {t : Txn} (ht : s.txs tx = some t)
    (haborted : t.aborted = false) : Sound (s.commit tx) := by
  have hpending : ∀ tx' r, (s.commit tx).Pending tx' r → tx' ≠ tx ∧ s.Pending tx' r := by
    intro tx' r hr
    rw [commit_eq ht] at hr
    exact pending_close hr
  have hrows : (s.commit tx).identities = t.apply s.identities := by rw [commit_eq ht]
  refine ⟨fun r hr r' hr' hprovider hsubject => ?_, fun tx' r hr old hold => ?_,
    fun tx₁ tx₂ r r' hr hr' hne => h.apart tx₁ tx₂ r r' (hpending _ _ hr).2 (hpending _ _ hr').2 hne⟩
  · rw [hrows] at hr hr'
    -- A row that was in the table before is not the one that is added.
    have hnew : ∀ {a b : IdentityRow}, a ∈ t.apply s.identities → t.inserted = some b →
        a.providerID = b.providerID → a.subject = b.subject → a.userID = b.userID := by
      intro a b ha hb hprovider hsubject
      rcases mem_apply ha with ⟨a₀, ha₀, hp, hs, hu⟩ | ha
      · have hfresh := h.fresh tx b ⟨t, ht, haborted, hb⟩ a₀ ha₀
        exact absurd (sameKey_iff.2 ⟨hp ▸ hprovider, hs ▸ hsubject⟩) (by simp [hfresh])
      · rw [ha] at hb
        cases hb
        rfl
    rcases mem_apply hr' with ⟨r₁, hr₁, hp₁, hs₁, hu₁⟩ | hinserted
    · rcases mem_apply hr with ⟨r₀, hr₀, hp₀, hs₀, hu₀⟩ | hinserted
      · rw [hu₀, hu₁]
        exact h.owner r₀ hr₀ r₁ hr₁ (hp₀ ▸ hp₁ ▸ hprovider) (hs₀ ▸ hs₁ ▸ hsubject)
      · exact (hnew hr' hinserted hprovider.symm hsubject.symm).symm
    · exact hnew hr hinserted hprovider hsubject
  · rw [hrows] at hold
    obtain ⟨hne, hr⟩ := hpending tx' r hr
    rcases mem_apply hold with ⟨old₀, hold₀, hp, hs, -⟩ | hinserted
    · rw [sameKey_congr hp hs]
      exact h.fresh tx' r hr old₀ hold₀
    · exact h.apart tx tx' old r ⟨t, ht, haborted, hinserted⟩ hr (Ne.symm hne)

theorem Sound.moves (h : Sound s) (hmoves : Moves new s s') : Sound s' := by
  cases hmoves with
  | quiet heq _ hpending =>
    refine ⟨by rw [heq]; exact h.owner, fun tx r hr => ?_, fun tx tx' r r' hr hr' => ?_⟩
    · rw [heq]
      exact h.fresh tx r (hpending tx r hr)
    · exact h.apart tx tx' r r' (hpending tx r hr) (hpending tx' r' hr')
  | inserted tx row heq _ _ hkey hfree hpending =>
    refine ⟨by rw [heq]; exact h.owner, fun tx' r hr => ?_, fun tx₁ tx₂ r₁ r₂ hr₁ hr₂ hne => ?_⟩
    · rw [heq]
      rcases hpending tx' r hr with hr | ⟨-, rfl⟩
      · exact h.fresh tx' r hr
      · exact hkey
    · rcases hpending tx₁ r₁ hr₁ with hold₁ | ⟨rfl, rfl⟩ <;>
        rcases hpending tx₂ r₂ hr₂ with hold₂ | ⟨rfl, rfl⟩
      · exact h.apart tx₁ tx₂ r₁ r₂ hold₁ hold₂ hne
      · exact (hfree tx₁ r₁ hne hold₁).1
      · exact sameKey_false_comm (hfree tx₂ r₂ (Ne.symm hne) hold₂).1
      · exact absurd rfl hne
  | committed tx t ht haborted => exact h.committed ht haborted

theorem Moves.nextTx (h : Moves new s s') : s.nextTx ≤ s'.nextTx := by
  cases h with
  | quiet _ hle | inserted _ _ _ hle => exact hle
  | committed tx t ht => rw [commit_eq ht]; exact le_rfl

theorem Moves.rows (h : Moves new s s') {r : IdentityRow} (hr : r ∈ s'.identities) :
    s.Has r ∨ ∃ tx, s.Pending tx r := by
  cases h with
  | quiet heq | inserted _ _ heq => exact .inl ⟨r, heq ▸ hr, rfl, rfl, rfl⟩
  | committed tx t ht haborted =>
    rw [commit_eq ht] at hr
    rcases mem_apply hr with ⟨r₀, hr₀, hp, hs, hu⟩ | hinserted
    · exact .inl ⟨r₀, hr₀, hp.symm, hs.symm, hu.symm⟩
    · exact .inr ⟨tx, t, ht, haborted, hinserted⟩

theorem Moves.pending (h : Moves new s s') {r : IdentityRow} (hr : s'.Pending tx r) :
    s.Pending tx r ∨ new r := by
  cases h with
  | quiet _ _ hpending => exact .inl (hpending tx r hr)
  | inserted _ _ _ _ hnew _ _ hpending =>
    rcases hpending tx r hr with hr | ⟨-, rfl⟩
    · exact .inl hr
    · exact .inr hnew
  | committed _ t ht =>
    rw [commit_eq ht] at hr
    exact .inl (pending_close hr).2

/-- What an upsert leaves to the commit of its transaction. -/
structure Store.Awaits (s : Store) (tx : ℕ) (row : IdentityRow) : Prop where
  numbered : tx < s.nextTx
  inserted : ∀ t, s.txs tx = some t → t.aborted = false → t.inserted = some row

theorem awaits_close (tx' : ℕ) (h : s.Awaits tx row) : (s.close tx').Awaits tx row := by
  refine ⟨h.numbered, fun t ht => ?_⟩
  by_cases htx : tx = tx'
  · subst htx
    simp [Store.close] at ht
  · exact h.inserted t (by simpa [Store.close, htx] using ht)

theorem awaits_put {tx' : ℕ} {t' : Txn} (h : s.Awaits tx row)
    (ht' : tx = tx' → t'.aborted = false → t'.inserted = some row) :
    (s.put tx' t').Awaits tx row := by
  refine ⟨h.numbered, fun t ht haborted => ?_⟩
  by_cases htx : tx = tx'
  · subst htx
    obtain rfl : t' = t := by simpa [Store.put] using ht
    exact ht' rfl haborted
  · exact h.inserted t (by simpa [Store.put, htx] using ht) haborted

theorem awaits_commit (tx' : ℕ) (h : s.Awaits tx row) : (s.commit tx').Awaits tx row := by
  unfold Store.commit
  split
  · exact h
  · exact ⟨h.numbered, (awaits_close tx' h).inserted⟩

theorem Fails.awaits {tx' : ℕ} (h : Fails s tx' s') (hrow : s.Awaits tx row) :
    s'.Awaits tx row := by
  rcases h with rfl | ⟨t, ht, rfl⟩
  · exact hrow
  · exact awaits_put hrow fun _ haborted => nomatch haborted

theorem Exec.awaits {o : Op} {r : Res o} (h : Exec lower s o r s') (hrow : s.Awaits tx row) :
    s'.Awaits tx row := by
  cases o with
  | begin =>
    rcases h with ⟨-, rfl⟩ | ⟨-, rfl⟩
    · exact hrow
    · have hput : (s.put s.nextTx {}).Awaits tx row :=
        awaits_put hrow fun heq => absurd hrow.numbered (by omega)
      exact ⟨Nat.lt_succ_of_lt hrow.numbered, hput.inserted⟩
  | findIdentity | findByEmail =>
    rcases h with ⟨-, h⟩ | ⟨rfl, -⟩
    · exact h.awaits hrow
    · exact hrow
  | link tx' row' =>
    rcases h with ⟨-, ⟨-, rfl⟩ | ⟨t, -, rfl⟩⟩ | ⟨-, -, t, t', ht, haborted, h, rfl⟩
    · exact hrow
    · exact awaits_put hrow fun _ haborted => nomatch haborted
    · refine awaits_put hrow fun htx _ => ?_
      have hinserted := hrow.inserted t (htx ▸ ht) haborted
      cases h with
      | refreshed => exact hinserted
      | inserted _ _ hnone => exact absurd (hnone.symm.trans hinserted) (by simp)
  | createUser tx' org email =>
    rcases h with ⟨-, h⟩ | ⟨id, t, -, ht, -, -, rfl⟩
    · exact h.awaits hrow
    · have hput : (s.put tx' { t with created := some ⟨id, org, email, true⟩ }).Awaits tx row :=
        awaits_put hrow fun htx haborted => hrow.inserted t (htx ▸ ht) haborted
      exact ⟨hput.numbered, hput.inserted⟩
  | audit =>
    rcases h with ⟨-, h⟩ | ⟨-, rfl⟩
    · exact h.awaits hrow
    · exact hrow
  | mapAttributes | advance => exact Fails.awaits h hrow
  | commit tx' =>
    rcases h with ⟨-, -, rfl⟩ | ⟨-, rfl | ⟨-, rfl⟩⟩
    · exact awaits_commit tx' hrow
    · exact awaits_close tx' hrow
    · exact awaits_commit tx' hrow
  | rollback tx' =>
    obtain rfl : s' = s.close tx' := h
    exact awaits_close tx' hrow

theorem Changes.awaits {e : Change} (h : Changes s e s') (hrow : s.Awaits tx row) :
    s'.Awaits tx row := by
  obtain ⟨-, rfl⟩ := h
  cases e with
  | users us ids => exact ⟨hrow.numbered, hrow.inserted⟩
  | lost tx' => exact awaits_close tx' hrow

theorem Exec.committed (h : Exec lower s (.commit tx) true s') (hrow : s.Awaits tx row) :
    s'.Has row := by
  rcases h with ⟨-, ⟨t, ht, haborted⟩, rfl⟩ | ⟨h, -⟩
  · rw [commit_eq ht]
    refine ⟨row, ?_, rfl, rfl, rfl⟩
    unfold Txn.apply
    rw [hrow.inserted t ht haborted]
    exact mem_append_right _ (by simp)
  · cases h

theorem Exec.linked {r : Bool} (h : Exec lower s (.link tx row) r s') (htx : tx < s.nextTx) :
    (∃ old ∈ s.identities, old.sameKey row = true) ∨ s'.Awaits tx row := by
  rcases h with ⟨-, ⟨hnone, rfl⟩ | ⟨t, -, rfl⟩⟩ | ⟨-, -, t, t', ht, haborted, h, rfl⟩
  · exact .inr ⟨htx, fun t ht => absurd (hnone.symm.trans ht) (by simp)⟩
  · refine .inr ⟨htx, fun t' ht' haborted => ?_⟩
    obtain rfl : { t with aborted := true } = t' := by simpa [Store.put] using ht'
    cases haborted
  · cases h with
    | refreshed old hold hkey => exact .inl ⟨old, hold, hkey⟩
    | inserted _ _ _ =>
      refine .inr ⟨htx, fun t' ht' _ => ?_⟩
      obtain rfl : { t with inserted := some row } = t' := by simpa [Store.put] using ht'
      rfl

end

section

variable {lower : String → String} {users : List LocalUser} {ids : List String}
  {h h' es : List Ev} {s s' : Store} {w : World}

theorem Origin.mono {p subject u : String} (horigin : Origin h p subject u) (hsub : h ⊆ h') :
    Origin h' p subject u := by
  obtain ⟨k, q, hbegan, hp, hs, ⟨tx, org, email, hran⟩ | hlink⟩ := horigin
  · exact ⟨k, q, hsub hbegan, hp, hs, .inl ⟨tx, org, email, hsub hran⟩⟩
  · exact ⟨k, q, hsub hbegan, hp, hs, .inr hlink⟩

/-- Every row has an origin, before it is committed and after, and so has what a lookup finds. -/
structure Inv (h : List Ev) (s : Store) : Prop where
  sound : Sound s
  numbered : ∀ k tx, .ran k .begin (some tx) ∈ h → tx < s.nextTx
  rows : ∀ r ∈ s.identities, Origin h r.providerID r.subject r.userID
  pending : ∀ tx r, s.Pending tx r → Origin h r.providerID r.subject r.userID
  learned : ∀ k tx p subject u, .ran k (.findIdentity tx p subject) (some (some u)) ∈ h →
    Origin h p subject u

theorem inv_start : Inv [] { users := users, ids := ids } where
  sound := ⟨fun _ h => (not_mem_nil h).elim, fun _ _ _ _ h => (not_mem_nil h).elim,
    fun _ _ _ _ ⟨_, ht, _⟩ => nomatch ht⟩
  numbered _ _ h := (not_mem_nil h).elim
  rows _ h := (not_mem_nil h).elim
  pending _ _ := fun ⟨_, ht, _⟩ => nomatch ht
  learned _ _ _ _ _ h := (not_mem_nil h).elim

theorem Inv.moves (hinv : Inv h s) {new : IdentityRow → Prop} (hmoves : Moves new s s') {e : Ev}
    (hnew : ∀ row, new row → Origin h row.providerID row.subject row.userID)
    (hbegin : ∀ k tx, e = .ran k .begin (some tx) → tx < s'.nextTx)
    (hlearned : ∀ k tx p subject u, e = .ran k (.findIdentity tx p subject) (some (some u)) →
      Origin h p subject u) : Inv (h ++ [e]) s' := by
  have hsub : h ⊆ h ++ [e] := subset_append_left _ _
  refine ⟨hinv.sound.moves hmoves, fun k tx hmem => ?_, fun r hr => ?_, fun tx r hr => ?_,
    fun k tx p subject u hmem => ?_⟩
  · rcases mem_append.1 hmem with hmem | hmem
    · exact Nat.lt_of_lt_of_le (hinv.numbered k tx hmem) hmoves.nextTx
    · exact hbegin k tx (mem_singleton.1 hmem).symm
  · rcases hmoves.rows hr with ⟨r₀, hr₀, hp, hs, hu⟩ | ⟨tx, hpending⟩
    · exact (hp ▸ hs ▸ hu ▸ hinv.rows r₀ hr₀).mono hsub
    · exact (hinv.pending tx r hpending).mono hsub
  · rcases hmoves.pending hr with hpending | hr
    · exact (hinv.pending tx r hpending).mono hsub
    · exact (hnew r hr).mono hsub
  · rcases mem_append.1 hmem with hmem | hmem
    · exact (hinv.learned k tx p subject u hmem).mono hsub
    · exact (hlearned k tx p subject u (mem_singleton.1 hmem).symm).mono hsub

theorem Completion.linking (q : Completion) (hne : q.pending.linkUserID ≠ "") :
    ∃ i org, q.start = some i ∧ i.linking = true ∧
      i.session = some (q.pending.linkUserID, org) := by
  have hrecorded := q.recorded
  cases hstart : q.start with
  | none =>
    rw [hstart] at hrecorded
    exact absurd hrecorded hne
  | some i =>
    simp only [hstart, linkUser] at hrecorded
    split at hrecorded
    · rename_i hlinking
      split at hrecorded
      · cases hrecorded
      · rename_i userID org hsession
        split at hrecorded
        · cases hrecorded
        · obtain rfl : userID = q.pending.linkUserID := Except.ok.inj hrecorded
          exact ⟨i, org, rfl, hlinking, hsession⟩
    · exact absurd (Except.ok.inj hrecorded).symm hne

theorem Source.origin {k : ℕ} {q : Completion} {u : String} (hinv : Inv h s)
    (hbegan : .began k q ∈ h) (hsource : Source q (own k h) u) :
    Origin h q.provider.id q.ext.subject u := by
  rcases hsource with ⟨tx, hmem⟩ | ⟨tx, org, email, hmem⟩
  · exact hinv.learned k tx _ _ u (mem_own.1 hmem)
  · exact ⟨k, q, hbegan, rfl, rfl, .inl ⟨tx, org, email, mem_own.1 hmem⟩⟩

theorem Inv.ran {k : ℕ} {o : Op} {r : Res o} {next : Res o → Handler Answer} (hinv : Inv h s)
    (hbegun : Begun completeFederation h k (.stmt o next)) (hexec : Exec lower s o r s') :
    Inv (h ++ [Event.ran k o r]) s' := by
  obtain ⟨q, hbegan, hreach⟩ := hbegun
  have hholds : Holds (fun _ _ => True) (Before q) (After q) (own k h) (.stmt o next) :=
    completeFederation_holds.reaches hreach fun _ _ => trivial
  refine hinv.moves hexec.moves ?_ ?_ ?_
  · rintro row ⟨tx, rfl⟩
    obtain ⟨-, -, u, rfl, hsource | ⟨rfl, hne⟩⟩ := hholds.1
    · exact hsource.origin hinv hbegan
    · exact ⟨k, q, hbegan, rfl, rfl, .inr (q.linking hne)⟩
  · intro k' tx heq
    cases heq
    rcases hexec with ⟨heq, -⟩ | ⟨heq, rfl⟩
    · cases heq
    · cases heq
      exact Nat.lt_succ_self _
  · intro k' tx p subject u heq
    cases heq
    rcases hexec with ⟨heq, -⟩ | ⟨-, heq⟩
    · cases heq
    · obtain ⟨row, hfind, rfl⟩ := Option.map_eq_some_iff.1 (Option.some.inj heq).symm
      have hkey := find?_some hfind
      obtain ⟨rfl, rfl⟩ := of_decide_eq_true hkey
      exact hinv.rows row (mem_of_find?_eq_some hfind)

theorem completionRun_inv (hrun : CompletionRun lower users ids es w) : Inv es w.state := by
  have hother : ∀ {hs : List Ev} {s s' : Store} {e : Ev}, Inv hs s →
      Moves (fun _ => False) s s' → (∀ k o r, e ≠ .ran k o r) → Inv (hs ++ [e]) s' :=
    fun hinv hmoves he => hinv.moves hmoves (fun _ h => h.elim) (fun k tx heq => absurd heq (he _ _ _))
      fun k tx p subject u heq => absurd heq (he _ _ _)
  refine Run.tables hrun inv_start (fun hinv => ?_) (fun hinv hbegun hexec => hinv.ran hbegun hexec)
    (fun hinv => ?_) (fun hinv hchange => ?_)
  · exact hother hinv moves_refl fun _ _ _ h => nomatch h
  · exact hother hinv moves_refl fun _ _ _ h => nomatch h
  · exact hother hinv hchange.moves fun _ _ _ h => nomatch h

theorem Completion.answered {k : ℕ} {a : Answer} {u : String}
    (hrun : CompletionRun lower users ids es w) (ha : .answered k a ∈ es) (hu : a.names u) :
    ∃ q, .began k q ∈ es ∧ (∃ tx, Linked q tx u (own k es) ∧
      (⟨.commit tx, true⟩ : Entry) ∈ own k es) ∧ (a = .signedIn u → Source q (own k es) u) := by
  obtain ⟨q, hbegan, hreach⟩ := Run.answered hrun ha
  have hafter : Holds (fun _ _ => True) (Before q) (After q) (own k es) (.ret a) :=
    completeFederation_holds.reaches hreach fun _ _ => trivial
  exact ⟨q, hbegan, hafter u hu⟩

theorem accountsLinked (hrun : CompletionRun lower users ids es w) : AccountsLinked es := by
  intro k q u hbegan ha
  obtain ⟨q', hbegan', -, hsource⟩ := Completion.answered hrun ha (.inl rfl)
  obtain rfl := (Run.booked hrun).once k q' q hbegan' hbegan
  exact (hsource rfl).origin (completionRun_inv hrun) hbegan

theorem has_later {v : World} {row : IdentityRow}
    (hrun : Run (Step completeFederation (Exec lower) Changes) v es w) (h : v.state.Has row) :
    w.state.Has row :=
  Run.keeps hrun h (fun hexec h => hexec.moves.has h) fun hchange h => hchange.moves.has h

theorem has_committed {v v' : World} {k tx : ℕ} {row : IdentityRow} {r : Bool} {ts : List Ev}
    (hrun : CompletionRun lower users ids h v)
    (hstep : Step completeFederation (Exec lower) Changes v (.ran k (.link tx row) r) v')
    (hpost : Run (Step completeFederation (Exec lower) Changes) v' ts w)
    (hcommit : .ran k (.commit tx) true ∈ h ++ Event.ran k (Op.link tx row) r :: ts)
    (halone : ∀ old ∈ v.state.identities, old.sameKey row = true → old.userID = row.userID) :
    w.state.Has row := by
  cases hstep with
  | ran hk hexec =>
    obtain ⟨q, hbegan, hreach⟩ := (Run.booked hrun).begun k _ hk
    have hholds : Holds (fun _ _ => True) (Before q) (After q) (own k h) (.stmt _ _) :=
      completeFederation_holds.reaches hreach fun _ _ => trivial
    obtain ⟨hbegin, hno, -⟩ := hholds.1
    have hnumbered := (completionRun_inv hrun).numbered k tx (mem_own.1 hbegin)
    rcases hexec.linked hnumbered with ⟨old, hold, hkey⟩ | hawaits
    · obtain ⟨hprovider, hsubject⟩ := sameKey_iff.1 hkey
      refine has_later hpost (hexec.moves.has ?_)
      exact ⟨old, hold, hprovider, hsubject, halone old hold hkey⟩
    · have hmem : .ran k (.commit tx) true ∈ ts := by
        rcases mem_append.1 hcommit with hmem | hmem
        · exact absurd (mem_own.2 hmem) (hno tx true)
        · rcases mem_cons.1 hmem with heq | hmem
          · cases heq
          · exact hmem
      obtain ⟨xs, ys, rfl⟩ := append_of_mem hmem
      obtain ⟨b, c, hmid, hcommitted, hlast⟩ := hpost.split
      have hb : b.state.Awaits tx row := Run.keeps (P := fun s => s.Awaits tx row) hmid hawaits
        (fun hexec h => hexec.awaits h) fun hchange h => hchange.awaits h
      cases hcommitted with
      | ran _ hexec => exact has_later hlast (hexec.committed hb)

/-- Whoever is signed in is an account created for the external identity or one whose browser has
asked for the link. The table names whom the answers name exactly if no upsert meets the row of
another owner. -/
theorem accounts_linked_and_owned (hrun : CompletionRun lower users ids es w) :
    AccountsLinked es ∧ (OwnedAsReported es w.state ↔ UpsertsAlone lower users ids es w) := by
  refine ⟨accountsLinked hrun, fun howned k a u ha hu hs ts tx row r v v' heq hpre hstep hpost old
    hold hkey => ?_, fun halone k q a u hbegan ha hu => ?_⟩
  · obtain ⟨q, hbegan, ⟨tx', ⟨-, honly⟩, -⟩, -⟩ := Completion.answered hrun ha hu
    have hmem : .ran k (.link tx row) r ∈ es := heq ▸ mem_append_right _ mem_cons_self
    obtain ⟨-, rfl⟩ := honly tx row r (mem_own.2 hmem)
    obtain ⟨hprovider, hsubject⟩ := sameKey_iff.1 hkey
    have hv' : v'.state.Has old := by
      cases hstep with
      | ran _ hexec => exact hexec.moves.has ⟨old, hold, rfl, rfl, rfl⟩
    obtain ⟨r', hr', hp, hs, huser⟩ := has_later hpost hv'
    rw [← huser]
    exact (howned k q a u hbegan ha hu).2 r' hr' (hp.trans hprovider) (hs.trans hsubject)
  · obtain ⟨q', hbegan', ⟨tx, ⟨⟨r, hlink⟩, -⟩, hcommit⟩, -⟩ := Completion.answered hrun ha hu
    obtain rfl := (Run.booked hrun).once k q' q hbegan' hbegan
    obtain ⟨hs, ts, heq⟩ := append_of_mem (mem_own.1 hlink)
    have hsplit := hrun
    rw [heq] at hsplit
    obtain ⟨v, v', hpre, hstep, hpost⟩ := hsplit.split
    obtain ⟨row, hrow, hp, hs', huser⟩ := has_committed hpre hstep hpost
      (heq ▸ mem_own.1 hcommit) (halone k a u ha hu hs ts tx _ r v v' heq hpre hstep hpost)
    refine ⟨⟨row, hrow, hp, hs'⟩, fun row' hrow' hp' hs'' => ?_⟩
    rw [(completionRun_inv hrun).sound.owner row' hrow' row hrow (hp'.trans hp.symm)
      (hs''.trans hs'.symm), huser]
    rfl

end

/-- A browser that is signed in to `u` links what the provider knows as `S`. -/
def linking (u : String) : Completion where
  provider := ⟨"P", "org", "p", ⟨true, true, false, false⟩⟩
  pending := { providerID := "P", orgID := "org", nonce := "n", codeVerifier := "v", linkUserID := u }
  ext := { subject := "S" }
  start := some
    { provider := some ⟨"P", "org"⟩, linking := true, session := some (u, "org"), nonce := "n"
      verifier := "v", state := "s", binding := "b", now := 0 }
  recorded := rfl

def lookupTrace (tx : ℕ) : Trace Op Res :=
  [⟨.begin, some tx⟩, ⟨.findIdentity tx "P" "S", some none⟩]

def linkedTrace (tx : ℕ) (u : String) : Trace Op Res :=
  [⟨.link tx ((linking u).row u), true⟩, ⟨.audit tx "federation.account_linked" u, true⟩,
    ⟨.mapAttributes tx u, ()⟩, ⟨.commit tx, true⟩]

def raceRun : List Ev :=
  [Event.began 0 (linking "u1")] ++ [Event.began 1 (linking "u2")] ++
    (lookupTrace 0).map (fun x => Event.ran 0 x.1 x.2) ++
    (lookupTrace 1).map (fun x => Event.ran 1 x.1 x.2) ++
    (linkedTrace 0 "u1").map (fun x => Event.ran 0 x.1 x.2) ++
    [Event.answered 0 (Answer.linked "u1")] ++
    (linkedTrace 1 "u2").map (fun x => Event.ran 1 x.1 x.2) ++
    [Event.answered 1 (Answer.linked "u2")]

def raceUsers : List LocalUser := [⟨"u1", "org", "ana@x", true⟩, ⟨"u2", "org", "ben@x", true⟩]

def openStore : Store := { users := raceUsers, ids := ["u1", "u2"] }

def raceStore : Store :=
  Store.commit (openStore.begin.begin.put 0 { inserted := some ((linking "u1").row "u1") }) 0

def linkDecision (u : String) : Decision := { outcome := .linkToCurrentUser, userID := u }

theorem openStore_quiet {tx : ℕ} {r : IdentityRow} : ¬ openStore.begin.begin.Pending tx r := by
  intro hpending
  obtain ⟨t, ht, -⟩ := pending_begin (pending_begin hpending)
  cases ht

theorem raceRun_run : ∃ w, CompletionRun id raceUsers ["u1", "u2"] raceRun w ∧
    ∃ r ∈ w.state.identities, r.providerID = "P" ∧ r.subject = "S" ∧ r.userID = "u1" := by
  have h₀ : CompletionRun id raceUsers ["u1", "u2"] [] (Pool.start openStore) := .nil
  have h₂ := (h₀.snoc (.began (linking "u1"))).snoc (.began (linking "u2"))
  have first : Advances (Exec id) openStore (completeFederation (linking "u1")) (lookupTrace 0)
      openStore.begin (applyDecision (linking "u1") 0 (linkDecision "u1")) :=
    .stmt (.inr ⟨rfl, rfl⟩) (.stmt (.inr ⟨rfl, rfl⟩) .nil)
  have h₃ := h₂.append (first.run (k := 0) rfl)
  have second : Advances (Exec id) openStore.begin (completeFederation (linking "u2"))
      (lookupTrace 1) openStore.begin.begin
      (applyDecision (linking "u2") 1 (linkDecision "u2")) :=
    .stmt (.inr ⟨rfl, rfl⟩) (.stmt (.inr ⟨rfl, rfl⟩) .nil)
  have h₄ := h₃.append (second.run (k := 1) rfl)
  have hfree : openStore.begin.begin.Unblocked 0 ((linking "u1").row "u1") :=
    fun tx r _ hpending => absurd hpending openStore_quiet
  have third : Advances (Exec id) openStore.begin.begin
      (applyDecision (linking "u1") 0 (linkDecision "u1")) (linkedTrace 0 "u1") raceStore
      (.ret (.linked "u1")) :=
    .stmt (.inr ⟨rfl, hfree, {}, _, rfl, rfl, .inserted (by simp [Store.begin, Store.put, openStore])
      (by simp [Store.begin, Store.put, openStore]) rfl, rfl⟩)
      (.stmt (.inr ⟨rfl, rfl⟩) (.stmt (.inl rfl) (.stmt (.inl ⟨rfl, ⟨_, rfl, rfl⟩, rfl⟩) .nil)))
  have h₅ := (h₄.append (third.run (k := 0) rfl)).snoc (.answered (k := 0) rfl)
  have hfree' : raceStore.Unblocked 1 ((linking "u2").row "u2") := by
    intro tx r _ hpending
    unfold raceStore at hpending
    rw [commit_eq rfl] at hpending
    obtain ⟨hne, hput⟩ := pending_close hpending
    rcases pending_put hput with ⟨heq, -⟩ | ⟨-, hopen⟩
    · exact absurd heq hne
    · exact absurd hopen openStore_quiet
  have fourth : Advances (Exec id) raceStore (applyDecision (linking "u2") 1 (linkDecision "u2"))
      (linkedTrace 1 "u2") _ (.ret (.linked "u2")) :=
    .stmt (.inr ⟨rfl, hfree', {}, _, rfl, rfl, .refreshed ((linking "u1").row "u1") (by decide) rfl,
      rfl⟩)
      (.stmt (.inr ⟨rfl, rfl⟩) (.stmt (.inl rfl) (.stmt (.inl ⟨rfl, ⟨_, rfl, rfl⟩, rfl⟩) .nil)))
  have h₆ := (h₅.append (fourth.run (k := 1) rfl)).snoc (.answered (k := 1) rfl)
  exact ⟨_, h₆, (linking "u1").row "u1", by decide, rfl, rfl, rfl⟩

/-- The second is told that the identity is its own, when the table names the first. -/
theorem second_not_owner : ∃ w, CompletionRun id raceUsers ["u1", "u2"] raceRun w ∧
    ¬ (AccountsLinked raceRun ∧ OwnedAsReported raceRun w.state) := by
  obtain ⟨w, hrun, r, hr, hp, hs, hu⟩ := raceRun_run
  refine ⟨w, hrun, fun ⟨_, howned⟩ => ?_⟩
  have howner := (howned 1 (linking "u2") (.linked "u2") "u2" (by simp [raceRun])
    (by simp [raceRun]) (.inr rfl)).2 r hr hp hs
  rw [hu] at howner
  exact absurd howner (by decide)

theorem race_linked_and_owned : ∃ w, CompletionRun id raceUsers ["u1", "u2"] raceRun w ∧
    AccountsLinked raceRun ∧ (OwnedAsReported raceRun w.state ↔
      UpsertsAlone id raceUsers ["u1", "u2"] raceRun w) := by
  obtain ⟨w, hrun, -⟩ := raceRun_run
  exact ⟨w, hrun, accounts_linked_and_owned hrun⟩

end Signari.FederatedIdentities
