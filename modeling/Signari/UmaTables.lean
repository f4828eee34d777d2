import Signari.AuthzModel
import Signari.SubjectFacts

/-!
# The tables behind UMA grants

`internal/store/uma.go` and `internal/store/umaclaims.go`: permission tickets, claims interactions
and the requests that wait for a resource owner, as the statements of the two files find and leave
them. `decide`, `HoldsAny`, `ResolveSubject` and `GrantRelation` of the authorization model stand
beside them, since a ticket is redeemed for what the model decides and an approved request becomes
relations.

A ticket and a handle are looked up by their digests, which are all that the tables keep. They are
drawn from 32 random bytes, so that what is drawn was never drawn before. An empty string stands
for NULL where the code reads the two alike.
-/
namespace Signari.UmaTables
open AuthzConditions AuthzModel SubjectFacts List

/-- One resource with the scopes asked for on it. -/
structure Permission where
  resourceType : String
  resourceID : String
  resourceScopes : List String
  deriving DecidableEq

/-- Every resource and scope of a ticket, in the order of the loops over them. -/
def asks (permissions : List Permission) : List (Permission × String) :=
  permissions.flatMap fun p => p.resourceScopes.map fun scope => (p, scope)

/-- Instants are in nanoseconds. -/
def second : ℤ := 1000000000

def ticketLifetime : ℤ := 120 * second

def interactionLifetime : ℤ := 600 * second

def pendingRequestLifetime : ℤ := 604800 * second

/-- What a successor stands for. -/
structure TicketOrigin where
  orgID : String
  resourceServer : String
  permissions : List Permission
  requestingParty : String := ""
  boundClient : String := ""
  pendingRequest : Option ℕ := none

/-- A ticket has a requesting party exactly when it is bound to a client. -/
structure TicketRow (D : Type) extends TicketOrigin where
  ticketHash : D
  redeemed : Bool := false
  expiresAt : ℤ
  identityHasAClient : requestingParty = "" ↔ boundClient = ""

/-- One visit to the claims interaction endpoint. -/
structure Interaction (D : Type) where
  orgID : String
  clientID : String
  ticketHash : D
  claimsRedirectURI : String
  state : Option String
  requestingParty : String

structure InteractionRow (D : Type) extends Interaction D where
  handleHash : D
  consumed : Bool := false
  expiresAt : ℤ

inductive PendingState where
  | pending | approved | denied
  deriving DecidableEq

/-- Who asks, on whose behalf, for what. -/
structure PendingRequest where
  orgID : String
  resourceServer : String
  clientID : String
  requestingParty : String
  permissions : List Permission
  deriving DecidableEq

structure PendingRow extends PendingRequest where
  id : ℕ
  state : PendingState := .pending
  grantedRelation : String := ""
  expiresAt : ℤ
  deriving DecidableEq

structure UMASettings where
  ownerIntervention : Bool := false
  pollInterval : ℕ := 0

/-- What a relation row is found by. -/
structure RelationKey where
  orgID : String
  subjectType : String
  subjectID : String
  relation : String
  objectType : String
  objectID : String
  deriving DecidableEq

/-- The two constraints on the table of relations. -/
def RelationKey.wellFormed (r : RelationKey) : Bool :=
  plainName r.subjectType && plainName r.relation && plainName r.objectType &&
    decide (1 ≤ r.subjectID.length ∧ r.subjectID.length ≤ 256) &&
    decide (1 ≤ r.objectID.length ∧ r.objectID.length ≤ 256)

structure RelationRow extends RelationKey where
  expiresAt : Option ℤ
  checked : toRelationKey.wellFormed = true

structure Client where
  clientID : String
  orgID : String
  displayName : String := ""
  confidential : Bool
  enabled : Bool := true
  claimsRedirectURIs : List String := []
  deriving DecidableEq

structure Tables (D : Type) where
  tickets : List (TicketRow D) := []
  interactions : List (InteractionRow D) := []
  pending : List PendingRow := []
  relations : List RelationRow := []
  models : String → Option Model := fun _ => none
  settings : String → Option UMASettings := fun _ => none
  directory : Directory := ⟨[], [], []⟩
  clients : List Client := []
  /-- Whether a policy service of the operator is registered. -/
  provider : String → Bool := fun _ => false
  now : Moment
  /-- What the random source has given out, and the last identifier of a pending request. -/
  drawn : List D := []
  lastRequest : ℕ := 0

/-- What the code has from elsewhere: the evaluator's library, `lower` of the database, the
verification of an ID token against the own keys and issuer, and `appendQuery`. -/
structure Platform (D : Type) where
  library : Library
  lower : String → String
  issuer : String
  /-- The audience, the subject and the expiry of a token that verifies. -/
  idToken : String → Option (String × String × ℤ)
  appendQuery : String → D → Option String → Option String

section

variable {D : Type} [DecidableEq D]

def TicketRow.live (t : TicketRow D) (now : ℤ) : Bool := !t.redeemed && decide (now < t.expiresAt)

/-- `WHERE ticket_hash = $1 AND redeemed_at IS NULL AND expires_at > now()`. -/
def inspectPermissionTicket (s : Tables D) (ticketHash : D) : Option (TicketRow D) :=
  s.tickets.find? fun t => decide (t.ticketHash = ticketHash) && t.live s.now.instant

def TicketRow.redeem (t : TicketRow D) (ticketHash : D) (now : ℤ) : TicketRow D :=
  if t.ticketHash = ticketHash ∧ t.live now then { t with redeemed := true } else t

/-- The update is the read. -/
def redeemPermissionTicket (s : Tables D) (ticketHash : D) : Option (TicketRow D) × Tables D :=
  (inspectPermissionTicket s ticketHash,
    { s with tickets := s.tickets.map fun t => t.redeem ticketHash s.now.instant })

theorem inspectPermissionTicket_eq_some {s : Tables D} {d : D} {t : TicketRow D}
    (h : inspectPermissionTicket s d = some t) :
    t ∈ s.tickets ∧ t.ticketHash = d ∧ t.live s.now.instant = true := by
  refine ⟨mem_of_find?_eq_some h, ?_⟩
  simpa using find?_some h

@[simp] theorem redeem_toTicketOrigin (t : TicketRow D) (d : D) (now : ℤ) :
    (t.redeem d now).toTicketOrigin = t.toTicketOrigin := by
  unfold TicketRow.redeem
  split <;> rfl

@[simp] theorem redeem_ticketHash (t : TicketRow D) (d : D) (now : ℤ) :
    (t.redeem d now).ticketHash = t.ticketHash := by
  unfold TicketRow.redeem
  split <;> rfl

theorem redeem_open {t : TicketRow D} {d : D} {now : ℤ} (h : (t.redeem d now).redeemed = false) :
    t.redeemed = false ∧ ¬ (t.ticketHash = d ∧ t.live now = true) := by
  unfold TicketRow.redeem at h
  split at h
  · cases h
  · rename_i hlive
    exact ⟨h, hlive⟩

theorem redeemPermissionTicket_none {s : Tables D} {d : D}
    (h : inspectPermissionTicket s d = none) : (redeemPermissionTicket s d).2 = s := by
  have hmap : (s.tickets.map fun t => t.redeem d s.now.instant) = s.tickets := by
    refine (map_congr_left fun t ht => ?_).trans (map_id s.tickets)
    have hno := find?_eq_none.1 h t ht
    unfold TicketRow.redeem
    rw [if_neg (by simpa using hno), id_eq]
  unfold redeemPermissionTicket
  dsimp only
  rw [hmap]

/-- The insertion of a ticket with a digest that is drawn for it. The constraint on the identity
may refuse it. -/
def mintSuccessorTicket (s : Tables D) (ticketHash : D) (o : TicketOrigin) : Option (Tables D) :=
  if h : o.requestingParty = "" ↔ o.boundClient = "" then
    some { s with
      drawn := ticketHash :: s.drawn
      tickets := s.tickets ++ [{ o with
        ticketHash, expiresAt := s.now.instant + ticketLifetime, identityHasAClient := h }] }
  else none

/-- A first ticket carries no identity. -/
def createPermissionTicket (s : Tables D) (orgID resourceServer : String) (ticketHash : D)
    (permissions : List Permission) : Option (Tables D) :=
  mintSuccessorTicket s ticketHash { orgID, resourceServer, permissions }

def beginInteraction (s : Tables D) (i : Interaction D) (handleHash : D) : Tables D :=
  { s with
    drawn := handleHash :: s.drawn
    interactions := s.interactions ++
      [{ i with handleHash, expiresAt := s.now.instant + interactionLifetime }] }

/-- Whether the confirmation with this handle is still to be made, by this person. -/
def InteractionRow.open_ (i : InteractionRow D) (handleHash : D) (requestingParty : String)
    (now : ℤ) : Bool :=
  decide (i.handleHash = handleHash) && !i.consumed && decide (now < i.expiresAt) &&
    decide (i.requestingParty = requestingParty)

def consumeInteraction (s : Tables D) (handleHash : D) (requestingParty : String) :
    Option (InteractionRow D) × Tables D :=
  (s.interactions.find? fun i => i.open_ handleHash requestingParty s.now.instant,
    { s with interactions := s.interactions.map fun i =>
        if i.open_ handleHash requestingParty s.now.instant then { i with consumed := true }
        else i })

theorem consumeInteraction_eq_some {s : Tables D} {d : D} {party : String} {i : InteractionRow D}
    (h : (consumeInteraction s d party).1 = some i) :
    i ∈ s.interactions ∧ i.handleHash = d ∧ i.requestingParty = party := by
  refine ⟨mem_of_find?_eq_some h, ?_⟩
  have hopen := find?_some h
  simp only [InteractionRow.open_, Bool.and_eq_true, decide_eq_true_eq] at hopen
  exact ⟨hopen.1.1.1, hopen.2⟩

theorem consumeInteraction_mem {s : Tables D} {d : D} {party : String} {i : InteractionRow D}
    (h : i ∈ (consumeInteraction s d party).2.interactions) :
    ∃ j ∈ s.interactions, j.toInteraction = i.toInteraction ∧ j.handleHash = i.handleHash := by
  obtain ⟨j, hj, rfl⟩ := mem_map.1 h
  refine ⟨j, hj, ?_⟩
  split <;> exact ⟨rfl, rfl⟩

end

section

variable {D : Type}

def PendingRow.undecidedFor (p : PendingRow) (orgID clientID party rs : String) (now : ℤ) : Bool :=
  decide (p.orgID = orgID ∧ p.clientID = clientID ∧ p.requestingParty = party ∧
    p.resourceServer = rs ∧ p.state = .pending ∧ now < p.expiresAt)

def pendingFor (s : Tables D) (orgID clientID party rs : String) : Option PendingRow :=
  s.pending.find? fun p => p.undecidedFor orgID clientID party rs s.now.instant

/-- The columns of the partial unique index `WHERE state = 'pending'`, which ignores the expiry. -/
def PendingRow.sameAsker (p : PendingRow) (q : PendingRequest) : Bool :=
  decide (p.state = .pending ∧ p.orgID = q.orgID ∧ p.clientID = q.clientID ∧
    p.requestingParty = q.requestingParty ∧ p.resourceServer = q.resourceServer)

def insertPendingRequest (s : Tables D) (q : PendingRequest) : Option (ℕ × Tables D) :=
  if s.pending.any fun p => p.sameAsker q then none
  else
    let row : PendingRow := { q with
      id := s.lastRequest + 1, expiresAt := s.now.instant + pendingRequestLifetime }
    some (row.id, { s with pending := s.pending ++ [row], lastRequest := s.lastRequest + 1 })

/-- The guard is in the `WHERE` clause: the request is still undecided. Its expiry is not read. -/
def decidePendingRequest (s : Tables D) (id : ℕ) (state : PendingState) (relation : String) :
    Option (Tables D) :=
  if s.pending.any fun p => decide (p.id = id ∧ p.state = .pending) then
    some { s with pending := s.pending.map fun p =>
      if p.id = id ∧ p.state = .pending then
        { p with state := state, grantedRelation := relation } else p }
  else none

/-- How the authorization model refers to a person: by email when there is one. -/
def requestingPartyRef (s : Tables D) (userID : String) : Option String :=
  (s.directory.users.find? fun u => decide (u.id = userID)).map fun u =>
    if u.email = "" then userID else u.email

def pendingRequestByID (s : Tables D) (id : ℕ) : Option (PendingRow × String) :=
  (s.pending.find? fun p => decide (p.id = id)).map fun p =>
    (p, ((s.directory.users.find? fun u => decide (u.id = p.requestingParty)).map
      UserRow.email).getD "")

def loadUMASettings (s : Tables D) (orgID : String) : UMASettings := (s.settings orgID).getD {}

end

section

variable {D : Type} (E : Platform D)

/-- The subject, the object and the action of a decision. -/
structure Request where
  subjectType : String
  subjectID : String
  resourceType : String
  resourceID : String
  action : String

def resolveSubject (s : Tables D) (orgID subjectID : String) : String :=
  ((s.directory.users.find? fun u => decide (u.orgID = orgID ∧
    (u.id = subjectID ∨ u.email ≠ "" ∧ E.lower u.email = E.lower subjectID))).map
      UserRow.id).getD ""

def RelationRow.grants (r : RelationRow) (orgID : String) (subjects : List (String × String))
    (relations : List String) (objectType objectID : String) (now : ℤ) : Bool :=
  decide (r.orgID = orgID) && subjects.contains (r.subjectType, r.subjectID) &&
    relations.contains r.relation && decide (r.objectType = objectType) &&
    decide (r.objectID = objectID) && r.expiresAt.all fun t => decide (now < t)

/-- The relation that is found first, or nothing. -/
def holdsAny (s : Tables D) (orgID subjectType subjectID : String) (relations : List String)
    (objectType objectID : String) (viaGroups : List String) : String :=
  ((s.relations.find? fun r => r.grants orgID
    ((subjectType, subjectID) :: viaGroups.map fun g => ("group", g)) relations objectType
    objectID s.now.instant).map fun r => r.relation).getD ""

/-- What `decide` comes to before it asks the operator's policy service, which can only refuse
what is granted here. -/
def decideLocally (s : Tables D) (orgID : String) (req : Request) : Bool :=
  match s.models orgID with
  | none => false
  | some model =>
    match model.relationsFor req.resourceType req.action with
    | none => false
    | some relations =>
      let userID := resolveSubject E s orgID req.subjectID
      let facts := if userID = "" then { now := some s.now }
        else subjectFacts s.directory s.now orgID userID ""
      let asGiven := holdsAny s orgID req.subjectType req.subjectID relations req.resourceType
        req.resourceID facts.groups
      let held := if asGiven = "" ∧ userID ≠ "" ∧ userID ≠ req.subjectID then
          holdsAny s orgID req.subjectType userID relations req.resourceType req.resourceID
            facts.groups
        else asGiven
      decide (held ≠ "") &&
        (model.conditionFor req.resourceType req.action).all fun rule =>
          rule.satisfiedBy E.library facts

/-- An upsert that leaves no expiry behind. -/
def grantRelation (s : Tables D) (key : RelationKey) : Option (Tables D) :=
  if h : key.wellFormed = true then
    some { s with relations := (s.relations.filter fun r => decide (r.toRelationKey ≠ key)) ++
      [{ key with expiresAt := none, checked := h }] }
  else none

def approveTransaction (s : Tables D) (p : PendingRow) (who relation : String) :
    Option (Tables D) := do
  let s ← p.permissions.foldlM (fun s perm => grantRelation s
    ⟨p.orgID, "user", who, relation, perm.resourceType, perm.resourceID⟩) s
  decidePendingRequest s p.id .approved relation

/-- The relations common to what has been collected and one more scope. -/
def meetRelations (common : Option (List String)) (relations : List String) : List String :=
  match common with
  | none => relations.dedup
  | some common => common.filter fun r => relations.contains r

/-- The relations that would satisfy every scope of a request. -/
def candidateRelations (model : Model) (permissions : List Permission) : List String :=
  match (asks permissions).foldlM (fun common a =>
      (model.relationsFor a.1.resourceType a.2).map fun relations =>
        some (meetRelations common relations)) (none : Option (List String)) with
  | none => []
  | some common => (common.getD []).insertionSort fun a b => decide (a ≤ b)

theorem mintSuccessorTicket_directory {s s' : Tables D} {d : D} {o : TicketOrigin}
    (h : mintSuccessorTicket s d o = some s') : s'.directory = s.directory := by
  unfold mintSuccessorTicket at h
  split at h <;> cases h
  rfl

/-- Tables that agree in the tickets, the interactions, what was drawn and who has an account. -/
structure SameTickets (s s' : Tables D) : Prop where
  tickets : s'.tickets = s.tickets
  interactions : s'.interactions = s.interactions
  drawn : s'.drawn = s.drawn
  directory : s'.directory = s.directory

theorem SameTickets.refl (s : Tables D) : SameTickets s s := ⟨rfl, rfl, rfl, rfl⟩

theorem SameTickets.trans {s t u : Tables D} (h : SameTickets s t) (h' : SameTickets t u) :
    SameTickets s u :=
  ⟨h'.tickets.trans h.tickets, h'.interactions.trans h.interactions, h'.drawn.trans h.drawn,
    h'.directory.trans h.directory⟩

theorem insertPendingRequest_sameTickets {s s' : Tables D} {q : PendingRequest} {id : ℕ}
    (h : insertPendingRequest s q = some (id, s')) : SameTickets s s' := by
  unfold insertPendingRequest at h
  split at h
  · cases h
  · cases h
    exact ⟨rfl, rfl, rfl, rfl⟩

theorem decidePendingRequest_sameTickets {s s' : Tables D} {id : ℕ} {state : PendingState}
    {relation : String} (h : decidePendingRequest s id state relation = some s') :
    SameTickets s s' := by
  unfold decidePendingRequest at h
  split at h
  · cases h
    exact ⟨rfl, rfl, rfl, rfl⟩
  · cases h

theorem grantRelation_sameTickets {s s' : Tables D} {key : RelationKey}
    (h : grantRelation s key = some s') : SameTickets s s' := by
  unfold grantRelation at h
  split at h
  · cases h
    exact ⟨rfl, rfl, rfl, rfl⟩
  · cases h

theorem approveTransaction_sameTickets {s s' : Tables D} {p : PendingRow} {who relation : String}
    (h : approveTransaction s p who relation = some s') : SameTickets s s' := by
  obtain ⟨t, hgrants, hdecide⟩ := Option.bind_eq_some_iff.1 h
  refine SameTickets.trans ?_ (decidePendingRequest_sameTickets hdecide)
  clear h hdecide
  generalize p.permissions = l at hgrants
  induction l generalizing s with
  | nil =>
    cases hgrants
    exact .refl _
  | cons perm l ih =>
    rw [foldlM_cons] at hgrants
    obtain ⟨u, hone, hrest⟩ := Option.bind_eq_some_iff.1 hgrants
    exact (grantRelation_sameTickets hone).trans (ih hrest)

end

end Signari.UmaTables
