import Signari.ByteCodecs
import Signari.StatementPrograms
import Signari.UmaTables

/-!
# The UMA endpoints

`internal/httpapi/uma.go` and `internal/httpapi/umaclaims.go` as handlers that share the tables of
`UmaTables`: the permission endpoint, the grant, and the two halves of the claims interaction. With
them go the two commands by which an operator decides a request, `umaApprove` and `umaDeny` of
`cmd/signari/uma.go`. Every statement may fail, and a decision may be refused by the operator's
policy service.

`Exec` says what a statement does to the tables, and `Change.Allowed` what happens to them from
elsewhere. Logs and audit events are left out, except for the subject of the event that a grant
leaves.
-/
namespace Signari.UmaHandlers
open GoStrings UmaTables StatementPrograms
open AuthzConditions AuthzModel SubjectFacts
open Prog

section

variable {D : Type}

structure RequiredClaim where
  claimTokenFormat : List String
  claimType : String
  friendlyName : String
  issuer : List String
  name : String

structure UmaError (D : Type) where
  code : String
  description : String
  status : ℕ
  ticket : Option D := none
  redirectUser : String := ""
  requiredClaims : List RequiredClaim := []
  interval : ℕ := 0

structure AccessTokenClaims where
  issuer : String
  subject : String
  audience : List String
  expiry : ℤ
  issuedAt : ℤ
  jti : String
  clientID : String
  scope : String

/-- What a caller is told. The subject of the audit event goes with a token. -/
inductive Answer (D : Type)
  | created (ticket : D)
  | error (status : ℕ) (code description : String)
  | uma (e : UmaError D)
  | granted (rpt : AccessTokenClaims) (expiresIn : ℕ) (audited : String)
  | claimsError (title detail : String)
  | parkLogin (target : String)
  | confirmation (client resourceServer : String) (asked : List (String × String)) (handle : D)
      (csrf : String)
  | redirect (target : String)
  | failed (message : String)
  | done (message : String)

def denied (desc : String) : UmaError D := ⟨"request_denied", desc, 403, none, "", [], 0⟩

def invalidGrant (desc : String) : UmaError D := ⟨"invalid_grant", desc, 400, none, "", [], 0⟩

def invalidRequest (desc : String) : UmaError D := ⟨"invalid_request", desc, 400, none, "", [], 0⟩

def needInfo (ticket : D) (redirectUser : String) (required : List RequiredClaim)
    (desc : String) : UmaError D := ⟨"need_info", desc, 403, some ticket, redirectUser, required, 0⟩

def submitted (ticket : D) (interval : ℕ) (desc : String) : UmaError D :=
  ⟨"request_submitted", desc, 403, some ticket, "", [], interval⟩

def unavailable : Answer D := .error 500 "server_error" "unavailable"

def somethingWrong : Answer D := .claimsError "Something went wrong." "Please try again."

end

section

variable {D : Type}

inductive Op (D : Type)
  | lookupClient (clientID : String)
  | createTicket (orgID resourceServer : String) (permissions : List Permission)
  | redeem (ticketHash : D)
  | inspect (ticketHash : D)
  | mint (o : TicketOrigin)
  | beginInteraction (i : Interaction D)
  | consume (handleHash : D) (requestingParty : String)
  | partyRef (userID : String)
  | decide (orgID : String) (req : Request)
  | loadSettings (orgID : String)
  | pendingFor (orgID clientID party rs : String)
  | insertPending (q : PendingRequest)
  | pendingByID (id : ℕ)
  | loadModel (orgID : String)
  | approve (p : PendingRow) (who relation : String)
  | deny (id : ℕ)
  | timeNow
  | newSID
  | activeKey
  | signJSON (claims : AccessTokenClaims)
  | csrfToken

/-- The response to a statement. Without one there is an error, of which nothing is read. -/
@[reducible] def Res : Op D → Type
  | .lookupClient _ => Option (Option Client)
  | .createTicket .. => Option D
  | .redeem _ => Option (Option (TicketRow D))
  | .inspect _ => Option (Option (TicketRow D))
  | .mint _ => Option D
  | .beginInteraction _ => Option D
  | .consume .. => Option (Option (InteractionRow D))
  | .partyRef _ => Option (Option String)
  | .decide .. => Option Bool
  | .loadSettings _ => Option UMASettings
  | .pendingFor .. => Option (Option PendingRow)
  | .insertPending _ => Option ℕ
  | .pendingByID _ => Option (Option (PendingRow × String))
  | .loadModel _ => Option (Option Model)
  | .approve .. => Option Unit
  | .deny _ => Option Bool
  | .timeNow => ℤ
  | .newSID => Option String
  | .activeKey => Option Unit
  | .signJSON _ => Option Unit
  | .csrfToken => Option String

abbrev Handler (D α : Type) := Prog (Op D) Res α

abbrev query (o : Op D) : Handler D (Res o) := call o

end

section

variable {D : Type}

inductive PermissionBody where
  | unreadable
  | empty
  | malformed
  | decoded (many : List Permission)

def maxPermissions : ℕ := 32

def checkPermission (p : Permission) : Option String :=
  if p.resourceID = "" then some "a permission must name a resource_id"
  else if p.resourceType = "" then
    some ("a permission must name a resource_type: this server's authorization model is typed, " ++
      "and \"document 42\" and \"invoice 42\" are different things")
  else if p.resourceScopes = [] then
    some ("a permission must name at least one resource_scope; asking for no scopes on a " ++
      "resource is not a question")
  else if p.resourceScopes.any fun scope => trimSpace scope = "" then
    some "a resource_scope may not be empty"
  else none

def trimPermission (p : Permission) : Permission :=
  { p with resourceType := trimSpace p.resourceType, resourceID := trimSpace p.resourceID }

def parsePermissions (body : PermissionBody) : Except (UmaError D) (List Permission) :=
  match body with
  | .unreadable => .error (invalidRequest "the request body could not be read")
  | .empty => .error (invalidRequest "the permission request has no body")
  | .malformed => .error (invalidRequest
      "the permission request is neither a permission object nor an array of them")
  | .decoded many =>
    if many = [] then .error (invalidRequest "the permission request names no resources")
    else if maxPermissions < many.length then
      .error (invalidRequest ("a permission request may name at most " ++
        toString maxPermissions ++ " resources; this one names " ++ toString many.length))
    else match (many.map trimPermission).findSome? checkPermission with
      | some refusal => .error (invalidRequest refusal)
      | none => .ok (many.map trimPermission)

def scopes (permissions : List Permission) : List String :=
  ((asks permissions).map fun a =>
    a.1.resourceType ++ ":" ++ a.1.resourceID ++ "#" ++ a.2).eraseDups

/-- A request of a resource server, with what its credentials parse to and whether they are the
client's. -/
structure PermissionRequest where
  credentials : Except String String
  authentic : Bool
  body : PermissionBody

def handleUMAPermission (r : PermissionRequest) : Handler D (Answer D) := match r.credentials with
  | .error description => pure (.error 401 "invalid_client" description)
  | .ok clientID => do
    match ← query (.lookupClient clientID) with
    | none | some none => pure (.error 401 "invalid_client" "unknown client")
    | some (some c) =>
      if !c.confidential then
        pure (.error 401 "invalid_client" ("the permission endpoint requires a confidential " ++
          "client: it mints a credential a stranger will present back here"))
      else if !r.authentic then pure (.error 401 "invalid_client" "client authentication failed")
      else match parsePermissions r.body with
        | .error e => pure (.uma e)
        | .ok permissions =>
          match ← query (.createTicket c.orgID c.clientID permissions) with
          | none => pure unavailable
          | some ticket => pure (.created ticket)

end

section

variable {D : Type} (E : Platform D)

def claimsInteractionPath : String := "/uma2/claims"

def claimTokenFormatIDToken : String :=
  "http://openid.net/specs/openid-connect-core-1_0.html#IDToken"

def subjectClaim : RequiredClaim where
  claimTokenFormat := [claimTokenFormatIDToken]
  claimType := "urn:oid:0.9.2342.19200300.100.1.3"
  friendlyName := "email"
  issuer := [E.issuer]
  name := "email"

/-- Where a requesting party is sent: the issuer without the slashes at its end. -/
def claimsEndpoint : String :=
  String.ofList (E.issuer.toList.rdropWhile fun c => c == '/') ++ claimsInteractionPath

/-- The parameters of a grant request. No ticket is a missing or empty one. -/
structure GrantForm (D : Type) where
  pct : String := ""
  rpt : String := ""
  ticket : Option D
  claimToken : String := ""
  claimTokenFormat : String := ""

/-- Who a grant is asked on behalf of; the zero value is the client itself. -/
structure RequestingParty where
  userID : String := ""
  ref : String := ""

/-- The JWT of a `claim_token`. One that is not text is read by nobody. -/
def decodeClaimToken (v : String) : Except String (Option String) := let v := trimSpace v
  if v = "" then .error "claim_token is empty"
  else if contains v "." then .ok (some v)
  else match ByteCodecs.decode (String.ofList (v.toList.rdropWhile fun c => c == '=')) with
    | none => .error ("claim_token contains no '.' so it is not a compact JWT, and it does not " ++
        "decode as base64url either")
    | some bytes =>
      if bytes.contains 46 then .ok ((ByteCodecs.bytesText bytes).map trimSpace)
      else .error "claim_token decoded from base64url but the result is not a compact JWT"

/-- The permissions are copied from the predecessor verbatim. -/
def successorTicket (t : TicketRow D) (party boundClient : String) (pending : Option ℕ) :
    Handler D (Option D) :=
  query (.mint ⟨t.orgID, t.resourceServer, t.permissions, party, boundClient, pending⟩)

def claimTokenNeedInfo (t : TicketRow D) (why : String) : Handler D (UmaError D) := do
  match ← successorTicket t "" "" none with
  | none => pure (invalidGrant why)
  | some next => pure (needInfo next (claimsEndpoint E) [subjectClaim E] why)

def pushedParty (c : Client) (t : TicketRow D) (audience subject : String) (expiry : ℤ) :
    Handler D (Except (UmaError D) RequestingParty) :=
  if audience ≠ c.clientID then
    pure (.error (invalidGrant "the pushed claim_token was issued to a different client"))
  else do
    let now ← query .timeNow
    if expiry = 0 ∨ expiry * second < now then
      let e ← claimTokenNeedInfo E t "the pushed claim_token has expired; fetch a fresh ID token"
      pure (.error e)
    else match ← query (.partyRef subject) with
      | none | some none => pure (.error (invalidGrant
          "the pushed claim_token names a subject this server does not know"))
      | some (some ref) => pure (.ok ⟨subject, ref⟩)

def requestingParty (c : Client) (form : GrantForm D) (t : TicketRow D) :
    Handler D (Except (UmaError D) RequestingParty) :=
  let pushed := form.claimToken
  let format := form.claimTokenFormat
  if ¬ (pushed = "" ↔ format = "") then
    pure (.error (invalidRequest
      "claim_token and claim_token_format must appear together (section 3.3.1)"))
  else if t.requestingParty ≠ "" then
    if pushed ≠ "" then
      pure (.error (invalidRequest ("this permission ticket already identifies a requesting " ++
        "party from interactive claims gathering, and this request also pushes a " ++
        "claim_token; the two would have to be the same person and this server will not " ++
        "guess which one you meant")))
    else do
      match ← query (.partyRef t.requestingParty) with
      | none | some none => pure (.error (invalidGrant
          "the requesting party on this ticket no longer exists"))
      | some (some ref) => pure (.ok ⟨t.requestingParty, ref⟩)
  else if pushed = "" then pure (.ok {})
  else if format ≠ claimTokenFormatIDToken then do
    let e ← claimTokenNeedInfo E t ("claim_token_format " ++ format ++ " is not supported; " ++
      "this server accepts " ++ claimTokenFormatIDToken ++ ", an ID token it issued itself")
    pure (.error e)
  else match decodeClaimToken pushed with
    | .error why => do
        let e ← claimTokenNeedInfo E t why
        pure (.error e)
    | .ok raw =>
      match raw.bind E.idToken with
      | none => pure (.error (invalidGrant
          "the pushed claim_token is not an ID token issued by this server"))
      | some (audience, subject, expiry) => pushedParty E c t audience subject expiry

def evaluate (orgID subjectType subjectID : String) :
    List (Permission × String) → Handler D (Option (Option (Permission × String)))
  | [] => pure (some none)
  | (p, scope) :: rest => do
      match ← query (.decide orgID
        ⟨subjectType, subjectID, p.resourceType, p.resourceID, scope⟩) with
      | none => pure none
      | some false => pure (some (some (p, scope)))
      | some true => evaluate orgID subjectType subjectID rest

/-- The look before the insertion, and the second one when the insertion fails. -/
def submitRequest (q : PendingRequest) : Handler D (Option ℕ) := do
  match ← query (.pendingFor q.orgID q.clientID q.requestingParty q.resourceServer) with
  | none => pure none
  | some (some existing) => pure (some existing.id)
  | some none =>
    match ← query (.insertPending q) with
    | some id => pure (some id)
    | none =>
      match ← query (.pendingFor q.orgID q.clientID q.requestingParty q.resourceServer) with
      | some (some existing) => pure (some existing.id)
      | none | some none => pure none

def describe (p : Permission) (scope : String) : String :=
  scope ++ " " ++ p.resourceType ++ ":" ++ p.resourceID

/-- The refusal when nobody is identified. -/
def refuseUnidentified (c : Client) (t : TicketRow D) (what : String) : Handler D (Answer D) :=
  if c.claimsRedirectURIs = [] then pure (.uma (denied ("this client may not " ++ what)))
  else do
    match ← successorTicket t "" "" none with
    | none => pure unavailable
    | some next => pure (.uma (needInfo next (claimsEndpoint E) [subjectClaim E]
        ("this server does not know who is asking, and policy on " ++ what ++ " is written " ++
          "about people; send the requesting party to the claims interaction endpoint, or " ++
          "push an ID token")))

def refuseUMA (c : Client) (t : TicketRow D) (party : RequestingParty) (p : Permission)
    (scope : String) : Handler D (Answer D) :=
  let what := describe p scope
  if party.userID = "" then refuseUnidentified E c t what
  else do
    match ← query (.loadSettings c.orgID) with
    | none => pure unavailable
    | some settings =>
      if !settings.ownerIntervention then
        pure (.uma (denied ("the requesting party may not " ++ what)))
      else
        match ← submitRequest
            ⟨c.orgID, t.resourceServer, c.clientID, party.userID, t.permissions⟩ with
        | none => pure unavailable
        | some pending =>
          match ← successorTicket t party.userID c.clientID (some pending) with
          | none => pure unavailable
          | some next => pure (.uma (submitted next settings.pollInterval
              ("a resource owner has been asked to decide whether the requesting party may " ++
                what)))

def defaultAccessTokenTTL : ℕ := 300

def issueRPT (c : Client) (t : TicketRow D) (party : RequestingParty) : Handler D (Answer D) := do
  match ← query .activeKey with
  | none => pure unavailable
  | some () =>
    let now ← query .timeNow
    match ← query .newSID with
    | none => pure unavailable
    | some jti =>
      let claims : AccessTokenClaims := {
        issuer := E.issuer
        subject := if party.userID = "" then c.clientID else party.userID
        audience := [t.resourceServer]
        expiry := (now + defaultAccessTokenTTL * second) / second
        issuedAt := now / second
        jti
        clientID := c.clientID
        scope := join (scopes t.permissions) " " }
      match ← query (.signJSON claims) with
      | none => pure unavailable
      | some () => pure (.granted claims defaultAccessTokenTTL party.userID)

def grantRedeemed (c : Client) (form : GrantForm D) (t : TicketRow D) : Handler D (Answer D) :=
  if t.orgID ≠ c.orgID then
    pure (.uma (invalidGrant "this permission ticket was not issued in this organisation"))
  else if t.boundClient ≠ "" ∧ t.boundClient ≠ c.clientID then
    pure (.uma (invalidGrant ("this permission ticket was issued to a different client after " ++
      "claims gathering and cannot be presented by this one")))
  else do
    match ← requestingParty E c form t with
    | .error e => pure (.uma e)
    | .ok party =>
      let subject := if party.userID = "" then ("client", c.clientID) else ("user", party.ref)
      match ← evaluate c.orgID subject.1 subject.2 (asks t.permissions) with
      | none => pure unavailable
      | some (some (p, scope)) => refuseUMA E c t party p scope
      | some none => issueRPT E c t party

def unsupported (name : String) : Answer D :=
  .uma (invalidRequest (name ++ " is not supported by this server; there is no persisted " ++
    "claims token and no RPT upgrade, so nothing here would act on it"))

def handleUMAGrant (c : Client) (form : GrantForm D) : Handler D (Answer D) :=
  if form.pct ≠ "" then pure (unsupported "pct")
  else if form.rpt ≠ "" then pure (unsupported "rpt")
  else match form.ticket with
    | none => pure (.uma (invalidRequest "ticket is required for the UMA grant"))
    | some ticket => do
      match ← query (.redeem ticket) with
      | none => pure unavailable
      | some none => pure (.uma (invalidGrant ("this permission ticket is unknown, has " ++
          "expired, or has already been presented; ask the resource server for a new one")))
      | some (some t) => grantRedeemed E c form t

end

section

variable {D : Type} (E : Platform D)

/-- Who is signed in, by user and organisation. -/
abbrev Session := Option (String × String)

structure ClaimsQuery (D : Type) where
  clientID : String
  ticket : Option D
  claimsRedirectURI : String
  state : Option String
  rawQuery : String
  session : Session

def claimsRedirectFor (c : Client) (candidate : String) : Option String :=
  if candidate = "" then
    match c.claimsRedirectURIs with
    | [uri] => some uri
    | _ => none
  else if c.claimsRedirectURIs.contains candidate then some candidate
  else none

/-- What the person is shown and what is kept for the confirmation. -/
def confirmClaims (c : Client) (q : ClaimsQuery D) (t : TicketRow D) (ticket : D)
    (redirectURI userID : String) : Handler D (Answer D) := do
  match ← query (.beginInteraction ⟨c.orgID, c.clientID, ticket, redirectURI, q.state, userID⟩) with
  | none => pure somethingWrong
  | some handle =>
    match ← query .csrfToken with
    | none => pure somethingWrong
    | some csrf => pure (.confirmation c.displayName t.resourceServer (t.permissions.map fun p =>
      (p.resourceType ++ " " ++ p.resourceID, join p.resourceScopes ", ")) handle csrf)

def beginUMAClaims (q : ClaimsQuery D) : Handler D (Answer D) := match q.ticket with
  | none => pure (.claimsError "This request is incomplete."
      "It must carry both a client_id and a ticket. Nothing has been changed.")
  | some ticket =>
    if q.clientID = "" then pure (.claimsError "This request is incomplete."
      "It must carry both a client_id and a ticket. Nothing has been changed.")
    else do
      let unregistered : Answer D := .claimsError "That application is not registered here."
        ("Nothing has been changed. If you followed a link from an application, it may be " ++
          "misconfigured.")
      match ← query (.lookupClient q.clientID) with
      | none | some none => pure unregistered
      | some (some c) =>
        if !c.enabled then pure unregistered
        else match claimsRedirectFor c q.claimsRedirectURI with
          | none => pure (.claimsError "That application cannot receive you back."
              ("Its claims redirection URI is missing, or does not exactly match one it " ++
                "registered. You have not been sent anywhere."))
          | some redirectURI =>
            match ← query (.inspect ticket) with
            | none => pure somethingWrong
            | some none => pure (.claimsError "This request has expired."
                ("Permission tickets are short-lived and single-use. Return to the application " ++
                  "and try again."))
            | some (some t) =>
              if t.orgID ≠ c.orgID then pure (.claimsError "This request does not belong here."
                "The ticket was issued in a different organisation.")
              else match q.session with
                | none => pure (.parkLogin (claimsInteractionPath ++ "?" ++ q.rawQuery))
                | some (userID, orgID) =>
                  if orgID ≠ c.orgID then pure (.claimsError "You are signed in elsewhere."
                    "This request belongs to a different organisation than your session.")
                  else confirmClaims c q t ticket redirectURI userID

/-- The confirmation, with whether its CSRF token is that of the browser. No handle is a missing or
empty one. -/
structure ClaimsForm (D : Type) where
  intact : Bool
  csrf : Bool
  session : Session
  handle : Option D

/-- The rest of the confirmation: the ticket is spent and its successor bound. -/
def bindClaims (i : InteractionRow D) (userID : String) : Handler D (Answer D) := do
  match ← query (.redeem i.ticketHash) with
  | none => pure somethingWrong
  | some none => pure (.claimsError "This request has expired."
      "Return to the application and try again.")
  | some (some t) =>
    match ← successorTicket t userID i.clientID none with
    | none => pure somethingWrong
    | some next =>
      match E.appendQuery i.claimsRedirectURI next i.state with
      | none => pure somethingWrong
      | some target => pure (.redirect target)

def finishUMAClaims (form : ClaimsForm D) : Handler D (Answer D) :=
  if !form.intact then
    pure (.claimsError "That form did not arrive intact." "Please try again.")
  else if !form.csrf then pure (.claimsError "That request could not be verified."
    "Return to the application and start again.")
  else match form.session with
    | none => pure (.claimsError "Your session has ended."
        "Sign in and start again from the application.")
    | some (userID, _) =>
      match form.handle with
      | none => pure (.claimsError "That form is incomplete." "Please try again.")
      | some handle => do
        match ← query (.consume handle userID) with
        | none => pure somethingWrong
        | some none => pure (.claimsError "This confirmation is no longer valid."
            "It may have expired, or already been used. Start again from the application.")
        | some (some i) => bindClaims E i userID

end

section

variable {D : Type}

def stateName : PendingState → String
  | .pending => "pending"
  | .approved => "approved"
  | .denied => "denied"

def approveWith (model : Model) (p : PendingRow) (email relation : String) : Handler D (Answer D) :=
  let cands := candidateRelations model p.permissions
  if relation = "" then
    if cands = [] then pure (.failed ("no relation in this model grants every scope this " ++
      "request asks for; the model has to change before it can be approved"))
    else pure (.failed ("-relation is required. These would satisfy the whole request: " ++
      join cands ", "))
  else if !cands.contains relation then
    if cands = [] then pure (.failed ("no relation in this model grants every scope this " ++
      "request asks for, " ++ quote relation ++ " included"))
    else pure (.failed ("granting " ++ quote relation ++ " would not satisfy every scope this " ++
      "request asks for; these would: " ++ join cands ", "))
  else do
    let who := if email = "" then p.requestingParty else email
    match ← query (.approve p who relation) with
    | none => pure (.failed "the approval was not recorded")
    | some () => pure (.done ("approved: " ++ who ++ " is now " ++ relation))

def umaApprove (requestID : Option ℕ) (relation : String) : Handler D (Answer D) :=
  match requestID with
  | none => pure (.failed
      "-uma-request is required; run `signari uma requests` for the list")
  | some id => do
    match ← query (.pendingByID id) with
    | none => pure (.failed "the request was not read")
    | some none => pure (.failed "no such pending request")
    | some (some (p, email)) =>
      if p.state ≠ .pending then
        pure (.failed ("this request was already " ++ stateName p.state))
      else match ← query (.loadModel p.orgID) with
        | none => pure (.failed "the model was not read")
        | some none => pure (.failed ("this organisation has no authorization model, so there " ++
            "is no relation to grant; run `signari authz set-model` first"))
        | some (some model) => approveWith model p email relation

def umaDeny (requestID : Option ℕ) : Handler D (Answer D) := match requestID with
  | none => pure (.failed "-uma-request is required")
  | some id => do
    match ← query (.deny id) with
    | none => pure (.failed "the refusal was not recorded")
    | some false => pure (.failed "no such pending request, or it was already decided")
    | some true => pure (.done "denied")

end

section

variable {D : Type} [DecidableEq D] (E : Platform D)

/-- A grant comes with the client that the token endpoint has authenticated. -/
inductive Call (D : Type)
  | permission (r : PermissionRequest)
  | grant (c : Client) (form : GrantForm D)
  | claims (q : ClaimsQuery D)
  | confirm (form : ClaimsForm D)
  | approve (requestID : Option ℕ) (relation : String)
  | deny (requestID : Option ℕ)

def handle : Call D → Handler D (Answer D)
  | .permission r => handleUMAPermission r
  | .grant c form => handleUMAGrant E c form
  | .claims q => beginUMAClaims q
  | .confirm form => finishUMAClaims E form
  | .approve requestID relation => umaApprove requestID relation
  | .deny requestID => umaDeny requestID

/-- A statement fails and changes nothing, or it has its effect. -/
def Replies {β : Type} (s : Tables D) (effect : Option (β × Tables D)) (r : Option β)
    (s' : Tables D) : Prop :=
  (r = none ∧ s' = s) ∨ ∃ x, effect = some (x, s') ∧ r = some x

omit [DecidableEq D] in
theorem Replies.cases {β : Type} {s s' t : Tables D} {x : β} {r : Option β}
    (h : Replies s (some (x, t)) r s') : (r = none ∧ s' = s) ∨ (r = some x ∧ s' = t) := by
  rcases h with h | ⟨y, heffect, rfl⟩
  · exact .inl h
  · cases heffect
    exact .inr ⟨rfl, rfl⟩

omit [DecidableEq D] in
/-- A statement that only reads. -/
theorem Replies.reads {β : Type} {s s' : Tables D} {x : β} {r : Option β}
    (h : Replies s (some (x, s)) r s') : s' = s ∧ (r = none ∨ r = some x) := by
  rcases h.cases with ⟨hr, hs⟩ | ⟨hr, hs⟩
  · exact ⟨hs, .inl hr⟩
  · exact ⟨hs, .inr hr⟩

/-- What `decide` may answer: the policy service is asked about what is granted here. -/
def Decides (s : Tables D) (orgID : String) (req : Request) (b : Bool) : Prop :=
  b = decideLocally E s orgID req ∨
    (decideLocally E s orgID req = true ∧ s.provider orgID = true ∧ b = false)

def Exec (s : Tables D) : (o : Op D) → Res o → Tables D → Prop
  | .lookupClient id, r, s' =>
    Replies s (some (s.clients.find? fun c => decide (c.clientID = id ∧ id ≠ ""), s)) r s'
  | .createTicket orgID rs permissions, r, s' => ∃ d ∉ s.drawn,
      Replies s ((createPermissionTicket s orgID rs d permissions).map fun t => (d, t)) r s'
  | .redeem d, r, s' => Replies s (some (redeemPermissionTicket s d)) r s'
  | .inspect d, r, s' => Replies s (some (inspectPermissionTicket s d, s)) r s'
  | .mint o, r, s' => ∃ d ∉ s.drawn,
      Replies s ((mintSuccessorTicket s d o).map fun t => (d, t)) r s'
  | .beginInteraction i, r, s' => ∃ d ∉ s.drawn, Replies s (some (d, beginInteraction s i d)) r s'
  | .consume d party, r, s' => Replies s (some (consumeInteraction s d party)) r s'
  | .partyRef userID, r, s' => Replies s (some (requestingPartyRef s userID, s)) r s'
  | .decide orgID req, r, s' => ∃ b, Decides E s orgID req b ∧ Replies s (some (b, s)) r s'
  | .loadSettings orgID, r, s' => Replies s (some (loadUMASettings s orgID, s)) r s'
  | .pendingFor orgID clientID party rs, r, s' =>
    Replies s (some (pendingFor s orgID clientID party rs, s)) r s'
  | .insertPending q, r, s' => Replies s (insertPendingRequest s q) r s'
  | .pendingByID id, r, s' => Replies s (some (pendingRequestByID s id, s)) r s'
  | .loadModel orgID, r, s' => Replies s (some (s.models orgID, s)) r s'
  | .approve p who relation, r, s' =>
    Replies s ((approveTransaction s p who relation).map fun t => ((), t)) r s'
  | .deny id, r, s' => Replies s (some (match decidePendingRequest s id .denied "" with
      | none => (false, s)
      | some t => (true, t))) r s'
  | .timeNow, r, s' => r = s.now.instant ∧ s' = s
  | .newSID, _, s' | .activeKey, _, s' | .signJSON _, _, s' | .csrfToken, _, s' => s' = s

/-- What happens to the tables from elsewhere. -/
inductive Change (D : Type)
  | clock (now : Moment)
  | deleted (tickets : List (TicketRow D)) (interactions : List (InteractionRow D))
      (pending : List PendingRow)
  | model (orgID : String) (m : Option Model)
  | settings (orgID : String) (x : Option UMASettings)
  | relations (rows : List RelationRow)
  | directory (d : Directory)
  | clients (cs : List Client)
  | provider (p : String → Bool)

/-- Time does not go back, and rows of these tables only disappear. -/
def Change.Allowed (s : Tables D) : Change D → Prop
  | .clock now => s.now.instant ≤ now.instant
  | .deleted tickets interactions pending => tickets.Sublist s.tickets ∧
      interactions.Sublist s.interactions ∧ pending.Sublist s.pending
  | _ => True

def Change.apply (s : Tables D) : Change D → Tables D
  | .clock now => { s with now := now }
  | .deleted tickets interactions pending => { s with
      tickets := tickets, interactions := interactions, pending := pending }
  | .model orgID m => { s with models := Function.update s.models orgID m }
  | .settings orgID x => { s with settings := Function.update s.settings orgID x }
  | .relations rows => { s with relations := rows }
  | .directory d => { s with directory := d }
  | .clients cs => { s with clients := cs }
  | .provider p => { s with provider := p }

/-- A change that comes to pass. -/
def Changes (s : Tables D) (e : Change D) (s' : Tables D) : Prop := e.Allowed s ∧ s' = e.apply s

abbrev Ev (D : Type) := Event (Op D) Res (Call D) (Answer D) (Change D)

abbrev World (D : Type) := Pool (Op D) Res (Answer D) (Tables D)

abbrev UmaRun (s : Tables D) (es : List (Ev D)) (w : World D) : Prop :=
  LabelledRuns.Run (Step (handle E) (Exec E) Changes) (Pool.start s) es w

/-- Tables in which nothing of UMA has happened yet. -/
def Untouched (s : Tables D) : Prop := s.tickets = [] ∧ s.interactions = [] ∧ s.pending = []

end

end Signari.UmaHandlers
