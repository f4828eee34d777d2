import Signari.AccessTokens
import Signari.ScopeLists

/-!
# Token exchange

The RFC 8693 grant: `internal/oauth/exchange.go`, `internal/oauth/mayact.go` and
`handleTokenExchange` of `internal/httpapi/flow.go`. A request presents a subject token and
optionally an actor token; what comes out is a token for the same subject whose scopes,
audience and details are bounded by the subject token and the calling client.

`ExchangeEnv` is what one request finds: the clock, the keys, the revocation tables and the
proof that came with it. It may differ from request to request. A lookup that fails is
`none`. The audit record and the logs are left out.
-/
namespace Signari.TokenExchange
open GoStrings GoTime IndexedChecks UrlValues JsonValues RichDetails OAuthClients
open AccessTokens ScopeLists

def tokenTypeAccess : String := "urn:ietf:params:oauth:token-type:access_token"

def tokenTypeJWT : String := "urn:ietf:params:oauth:token-type:jwt"

structure ExchangeRequest where
  subjectToken : String
  subjectTokenType : String
  actorToken : String
  actorTokenType : String
  audience : List String
  resource : List String
  scope : List String
  requestedTokenType : String

def parseExchange (form : Values) : ExchangeRequest where
  subjectToken := get form "subject_token"
  subjectTokenType := get form "subject_token_type"
  actorToken := get form "actor_token"
  actorTokenType := get form "actor_token_type"
  audience := values form "audience"
  resource := values form "resource"
  scope := splitScope (get form "scope")
  requestedTokenType := get form "requested_token_type"

def supportedTokenType (t : String) : Bool := t == tokenTypeAccess || t == tokenTypeJWT

/-- Whether the client may exchange at all, and whether the request names its tokens as the
specification requires. -/
def checkExchangeShape (req : ExchangeRequest) (confidential mayExchange : Bool) :
    Except TokenError Unit := do
  refuseIf (confidential = false) (tokenErr "invalid_client"
    ("token exchange requires a confidential client; a public client cannot prove it is " ++
      "the client this permission was granted to, so anyone holding the subject token " ++
      "could exchange it"))
  refuseIf (mayExchange = false) (tokenErr "unauthorized_client"
    "this client is not permitted to exchange tokens")
  refuseIf (req.subjectToken = "") (tokenErr "invalid_request" "subject_token is required")
  refuseIf (req.subjectTokenType = "") (tokenErr "invalid_request" "subject_token_type is required")
  refuseIf (supportedTokenType req.subjectTokenType = false) (tokenErr "invalid_request"
    ("subject_token_type " ++ quote req.subjectTokenType ++ " is not supported"))
  refuseIf (req.requestedTokenType ≠ "" ∧ supportedTokenType req.requestedTokenType = false)
    (tokenErr "invalid_request"
      ("requested_token_type " ++ quote req.requestedTokenType ++ " is not supported"))
  refuseIf (req.actorToken ≠ "" ∧ req.actorTokenType = "") (tokenErr "invalid_request"
    "actor_token_type is required when actor_token is present")
  refuseIf (req.actorToken = "" ∧ req.actorTokenType ≠ "") (tokenErr "invalid_request"
    "actor_token_type must not be sent without actor_token")
  refuseIf (req.actorToken ≠ "" ∧ supportedTokenType req.actorTokenType = false)
    (tokenErr "invalid_request"
      ("actor_token_type " ++ quote req.actorTokenType ++ " is not supported"))

def grantScopes (requested subjectScopes : List String) : Except TokenError (List String) :=
  if requested = [] then .ok subjectScopes
  else do
    checkAll (fun _ want => refuseIf (subjectScopes.contains want = false)
      (tokenErr "invalid_scope" ("scope " ++ quote want ++ " was not granted to the subject " ++
        "token; an exchange may narrow scopes but never add them"))) 0 requested
    .ok requested

def exchangeAudience (req : ExchangeRequest) (callerClientID : String) : List String :=
  let aud := req.audience ++ req.resource
  if aud = [] then [callerClientID] else aud

def checkAudience (req : ExchangeRequest) (allowedAudiences : List String)
    (callerClientID : String) : Except TokenError Unit :=
  checkAll (fun _ a => refuseIf (a ≠ callerClientID ∧ allowedAudiences.contains a = false)
    (tokenErr "invalid_target" ("this client may not exchange tokens for audience " ++ quote a))) 0
    (req.audience ++ req.resource)

def validateExchange (parseURL : String → Option ParsedURL) (req : ExchangeRequest)
    (confidential mayExchange : Bool) (allowedAudiences : List String)
    (callerClientID : String) (subjectScopes : List String) :
    Except TokenError (List String × List String) := do
  checkExchangeShape req confidential mayExchange
  let granted ← grantScopes req.scope subjectScopes
  (validateResources parseURL req.resource).mapError (tokenErr "invalid_target")
  checkAudience req allowedAudiences callerClientID
  .ok (granted, exchangeAudience req callerClientID)

/-- What the server knows about the party requesting the exchange, by member name. -/
def knownActor (actorClientID actorSubject issuer : String) : List (String × String) :=
  [("client_id", actorClientID), ("iss", issuer)] ++
    if actorSubject ≠ "" then [("sub", actorSubject)] else []

/-- The first understood member that does not match. The source ranges over a map, so which
of several mismatches is reported is not fixed. -/
def mismatchedMember (known : List (String × String)) : List (String × Json) → Option String
  | [] => none
  | (member, want) :: rest =>
    match known.lookup member, want with
    | none, _ => mismatchedMember known rest
    | some got, .str s =>
      if s = got then mismatchedMember known rest
      else some ("the subject token's may_act names " ++ member ++ " " ++ quote s ++
        " and this exchange is requested by " ++ quote got)
    | some _, _ => some ("the subject token's may_act." ++ member ++ " is not a string, so " ++
        "it cannot be matched against the party requesting this exchange")

def checkMayAct (mayAct : List (String × Json)) (actorClientID actorSubject issuer : String) :
    Except String Unit :=
  let known := knownActor actorClientID actorSubject issuer
  match mismatchedMember known mayAct with
  | some e => .error e
  | none =>
    let unknown := ((mayAct.map Prod.fst).filter fun m => (known.lookup m).isNone).insertionSort
      fun a b => a ≤ b
    refuseIf (unknown ≠ []) ("the subject token's may_act constrains the actor by " ++
      join unknown ", " ++ ", which this server cannot evaluate; refusing rather than " ++
      "honouring part of a restriction (RFC 8693 section 4.4)" ++
      if "sub" ∈ unknown then " (may_act.sub names the party that may act; present an " ++
        "actor_token identifying that party)" else "")

/-- What one exchange request finds around it. -/
structure ExchangeEnv where
  payload : String → Option AccessTokenClaims
  issuer : String
  issuerAliases : List String := []
  now : ℤ
  dpopThumbprint : String := ""
  grantRevoked : String → Option Bool
  jtiRevoked : String → Option Bool
  sessionLive : String → Option Bool
  activeKey : Bool := true
  newSID : Option String
  parseURL : String → Option ParsedURL
  unmarshal : String → Except String Json

def ExchangeEnv.verify (env : ExchangeEnv) (raw : String) : Except String AccessTokenClaims :=
  verifyAccessTokenAny env.payload (env.issuer :: env.issuerAliases) env.now raw

def requireSubjectTokenBinding (presented : String) (subject : AccessTokenClaims) :
    Except String Unit :=
  match subject.cnf with
  | none => .ok ()
  | some cnf =>
    if cnf.jkt = "" then .ok ()
    else do
      refuseIf (presented = "") ("the subject token is bound to a DPoP key; present a " ++
        "proof of possession for that key alongside it")
      refuseIf (presented ≠ cnf.jkt) ("the DPoP proof on this request is for a different " ++
        "key than the subject token is bound to")

def checkStanding (env : ExchangeEnv) (role : String) (t : AccessTokenClaims) :
    Except TokenError Unit := do
  refuseIf (env.grantRevoked t.grantID ≠ some false) (tokenErr "invalid_grant"
    ("the authorization behind the " ++ role ++ " token has been revoked"))
  refuseIf (env.jtiRevoked t.jti ≠ some false) (tokenErr "invalid_grant"
    ("the " ++ role ++ " token has been revoked"))
  refuseIf (t.sessionID ≠ "" ∧ env.sessionLive t.sessionID ≠ some true)
    (tokenErr "invalid_grant" ("the session behind the " ++ role ++ " token has ended"))

def audienceIncludes (aud : List String) (clientID : String) : Bool :=
  clientID != "" && aud.contains clientID

def actorSubject (env : ExchangeEnv) (ex : ExchangeRequest) : Except TokenError String :=
  if ex.actorToken = "" then .ok ""
  else do
    let actor ← (env.verify ex.actorToken).mapError fun _ =>
      tokenErr "invalid_grant" "the actor token is not valid"
    checkStanding env "actor" actor
    .ok actor.subject

def exchangedDetails (unmarshal : String → Except String Json) (subjectDetails : List Detail)
    (raw : String) : Except TokenError (List Detail) :=
  if raw = "" then .ok subjectDetails
  else do
    let requested ← (parse unmarshal raw).mapError (tokenErr "invalid_authorization_details")
    (narrow subjectDetails requested).mapError (tokenErr "invalid_authorization_details")

def handleTokenExchange (env : ExchangeEnv) (c : Client) (form : Values) :
    Except TokenError AccessTokenClaims := do
  let ex := parseExchange form
  let subject ← (env.verify ex.subjectToken).mapError fun _ =>
    tokenErr "invalid_grant" "the subject token is not valid"
  (requireSubjectTokenBinding env.dpopThumbprint subject).mapError (tokenErr "invalid_dpop_proof")
  checkStanding env "subject" subject
  refuseIf (c.exchangeRequiresAudienceMatch = true ∧ subject.clientID ≠ c.clientID ∧
      audienceIncludes subject.audience c.clientID = false)
    (tokenErr "invalid_grant" ("this client may only exchange subject tokens it holds or is " ++
      "named in the audience of"))
  let actor ← actorSubject env ex
  (checkMayAct subject.mayAct c.clientID actor env.issuer).mapError (tokenErr "invalid_grant")
  let (granted, audience) ← validateExchange env.parseURL ex
    (c.type == .confidentialClient) c.mayExchange c.exchangeAudiences c.clientID
    (splitScopes subject.scope)
  refuseIf (env.activeKey = false) serverError
  match env.newSID with
  | none => .error serverError
  | some jti => do
      let details ← exchangedDetails env.unmarshal subject.authorizationDetails
        (get form "authorization_details")
      .ok {
        issuer := if c.issuerAlias ≠ "" then c.issuerAlias else env.issuer
        subject := subject.subject
        audience := audience
        expiry := (env.now + defaultAccessTokenTTL * nanosPerSecond) / nanosPerSecond
        issuedAt := env.now / nanosPerSecond
        jti := jti
        clientID := c.clientID
        scope := joinScopes granted
        sessionID := subject.sessionID
        act := some (.mk (if actor ≠ "" then actor else c.clientID) subject.act)
        cnf := bindingFor env.dpopThumbprint ""
        authorizationDetails := filterByAudience details audience }

end Signari.TokenExchange
