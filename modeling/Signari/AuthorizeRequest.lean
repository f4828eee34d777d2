import Signari.AuthnContext
import Signari.OAuthClients
import Signari.RichDetails

/-!
# Authorization requests

`ParseAuthz` and `ValidateAuthz` of `internal/oauth/authorize.go`. Reading and judging are
separate, and the order of the checks is theirs: until the redirect URI is known to be
registered an error is shown on the provider itself, and only after that may it be
sent to the client.

Lengths are counted in characters where the source counts bytes, which is the same on
every value that passes: only ASCII is accepted there.
-/
namespace Signari.AuthorizeRequest
open GoStrings IndexedChecks UrlValues AuthnContext OAuthClients RichDetails

structure AuthzRequest where
  clientID : String := ""
  redirectURI : String := ""
  responseType : String := ""
  scope : String := ""
  state : String := ""
  nonce : String := ""
  codeChallenge : String := ""
  codeChallengeMethod : String := ""
  responseMode : String := ""
  prompt : String := ""
  acrValues : String := ""
  maxAge : Option ℕ := none
  resources : List String := []
  rawAuthorizationDetails : String := ""
  authorizationDetails : List Detail := []
  dpopJKT : String := ""
  requestObject : String := ""
  requestURI : String := ""

/-- A malformed or negative value counts as absent. -/
def parseMaxAge (s : String) : Option ℕ := match atoi s with
  | some n => if n < 0 then none else some n.toNat
  | none => none

def parseAuthz (q : Values) : AuthzRequest where
  clientID := get q "client_id"
  redirectURI := get q "redirect_uri"
  responseType := get q "response_type"
  scope := get q "scope"
  state := get q "state"
  nonce := get q "nonce"
  codeChallenge := get q "code_challenge"
  dpopJKT := get q "dpop_jkt"
  codeChallengeMethod := get q "code_challenge_method"
  responseMode := get q "response_mode"
  prompt := get q "prompt"
  acrValues := get q "acr_values"
  maxAge := parseMaxAge (get q "max_age")
  resources := values q "resource"
  rawAuthorizationDetails := get q "authorization_details"
  requestObject := get q "request"
  requestURI := get q "request_uri"

/-- Whether an error may leave the provider. -/
inductive Disposition where
  | direct | redirect

structure AuthzError where
  code : String
  description : String
  disposition : Disposition

def direct (code desc : String) : AuthzError := ⟨code, desc, .direct⟩

def redirectErr (code desc : String) : AuthzError := ⟨code, desc, .redirect⟩

def unreserved (c : Char) : Bool := c.isAlphanum || c == '-' || c == '.' || c == '_' || c == '~'

def validChallenge (s : String) : Bool :=
  decide (43 ≤ s.toList.length ∧ s.toList.length ≤ 128) && s.toList.all unreserved

/-- 43 bytes that `base64.RawURLEncoding` decodes; the decoder skips line breaks. -/
def validThumbprint (s : String) : Bool :=
  let digits := s.toList.filter fun c => c != '\r' && c != '\n'
  decide (s.toList.length = 43) && decide (digits.length % 4 ≠ 1) &&
    digits.all fun c => c.isAlphanum || c == '-' || c == '_'

def checkResponseType (req : AuthzRequest) (c : Client) : Except AuthzError Unit :=
  if normaliseSet req.responseType = "code" then .ok ()
  else if normaliseSet req.responseType = "code id_token" then do
    refuseIf (c.allowHybrid = false) (redirectErr "unsupported_response_type"
      ("response_type \"code id_token\" is off for this client. It exists for " ++
        "applications being migrated in that cannot be changed first; enable " ++
        "it deliberately with `signari client set-hybrid`"))
    refuseIf (req.nonce = "") (redirectErr "invalid_request"
      ("nonce is required with response_type \"code id_token\": it is what " ++
        "stops the id_token being replayed into another session"))
  else .error (redirectErr "unsupported_response_type" ("response_type " ++
    quote req.responseType ++ " is not supported. \"code\" always; " ++
    "\"code id_token\" where a client is permitted it. Anything containing " ++
    "\"token\" is refused: an access token must never cross the front channel"))

def checkPKCE (req : AuthzRequest) (c : Client) : Except AuthzError Unit :=
  if c.requirePKCE = true ∨ req.codeChallenge ≠ "" then do
    refuseIf (req.codeChallenge = "") (redirectErr "invalid_request" "code_challenge is required")
    refuseIf (req.codeChallengeMethod = "") (redirectErr "invalid_request"
      "code_challenge_method is required and must be S256")
    refuseIf (req.codeChallengeMethod ≠ "S256") (redirectErr "invalid_request"
      ("code_challenge_method " ++ quote req.codeChallengeMethod ++ " is not supported; use S256"))
    refuseIf (c.allowsPKCEMethod req.codeChallengeMethod = false)
      (redirectErr "invalid_request" "client may not use this code_challenge_method")
    refuseIf (validChallenge req.codeChallenge = false) (redirectErr "invalid_request"
      "code_challenge must be 43-128 characters of base64url without padding")
  else .ok ()

def checkScopes (req : AuthzRequest) (c : Client) : Except AuthzError Unit := do
  refuseIf (fields req.scope = [])
    (redirectErr "invalid_scope" "at least the openid scope is required")
  refuseIf ((fields req.scope).contains "openid" = false)
    (redirectErr "invalid_scope" "the openid scope is required")
  refuseIf (c.unknownScopes (fields req.scope) ≠ []) (redirectErr "invalid_scope"
    ("client is not registered for scope(s): " ++ join (c.unknownScopes (fields req.scope)) ", "))

def checkResponseMode (req : AuthzRequest) : Except AuthzError Unit :=
  if req.responseMode = "" then .ok ()
  else if req.responseMode = "query" then
    refuseIf (normaliseSet req.responseType = "code id_token") (redirectErr "invalid_request"
      ("response_mode \"query\" cannot carry an id_token; use \"fragment\" " ++ "or \"form_post\""))
  else if req.responseMode = "fragment" ∨ req.responseMode = "form_post" then .ok ()
  else .error (redirectErr "invalid_request" ("response_mode " ++ quote req.responseMode ++
    " is not supported; use query, fragment or form_post"))

def checkTarget (parseURL : String → Option ParsedURL) (req : AuthzRequest)
    (c : Option Client) : Except AuthzError Client := do
  refuseIf (trimSpace req.clientID = "") (direct "invalid_request" "client_id is required")
  match c with
  | none => .error (direct "invalid_client" "unknown client")
  | some c => do
      refuseIf (c.enabled = false) (direct "unauthorized_client" "client is disabled")
      refuseIf (req.redirectURI = "") (direct "invalid_request" "redirect_uri is required")
      refuseIf (c.hasRedirectURI parseURL req.redirectURI = false)
        (direct "invalid_request" "redirect_uri is not registered for this client")
      .ok c

/-- Judges an authorization request against the client the registry has for it, and returns
that client: a request that passes has one. -/
def validateAuthz (parseURL : String → Option ParsedURL) (req : AuthzRequest)
    (c : Option Client) : Except AuthzError Client := do
  let c ← checkTarget parseURL req c
  refuseIf (req.responseType = "") (redirectErr "invalid_request" "response_type is required")
  checkResponseType req c
  refuseIf (c.allowsResponseType req.responseType = false)
    (redirectErr "unauthorized_client" "client may not use this response_type")
  refuseIf (c.allowsGrantType "authorization_code" = false)
    (redirectErr "unauthorized_client" "client may not use the authorization_code grant")
  refuseIf (req.requestObject ≠ "") (redirectErr "request_not_supported"
    "this server does not accept a request object; send the parameters directly")
  refuseIf (req.requestURI ≠ "") (redirectErr "request_uri_not_supported"
    "this server does not fetch remote request objects; send the parameters directly")
  checkPKCE req c
  refuseIf (req.dpopJKT ≠ "" ∧ validThumbprint req.dpopJKT = false)
    (redirectErr "invalid_request" ("dpop_jkt must be the base64url SHA-256 JWK " ++
      "Thumbprint of the proof-of-possession key: 43 characters, unpadded"))
  (validatePrompt req.prompt).mapError (redirectErr "invalid_request")
  checkScopes req c
  (validateResources parseURL req.resources).mapError (redirectErr "invalid_target")
  checkResponseMode req
  .ok c

theorem checkTarget_ok {parseURL : String → Option ParsedURL} {req : AuthzRequest}
    {c : Option Client} {d : Client} (h : checkTarget parseURL req c = .ok d) :
    c = some d := by
  simp only [checkTarget, seq_ok] at h
  obtain ⟨_, h⟩ := h
  cases c with
  | none => simp at h
  | some c =>
    simp only [seq_ok, Except.ok.injEq] at h
    rw [h.2.2.2]

theorem validateAuthz_ok {parseURL : String → Option ParsedURL} {req : AuthzRequest}
    {c : Option Client} {d : Client} (h : validateAuthz parseURL req c = .ok d) :
    c = some d ∧ req.requestURI = "" := by
  simp only [validateAuthz, bind_ok, refuseIf_ok, ne_eq, not_not] at h
  obtain ⟨e, htarget, _, _, _, _, _, _, _, _, _, _, _, huri, _, _, _, _, _, _, _, _, _, _, _, _,
    hd⟩ := h
  simp only [Except.ok.injEq] at hd
  subst hd
  exact ⟨checkTarget_ok htarget, huri⟩

end Signari.AuthorizeRequest
