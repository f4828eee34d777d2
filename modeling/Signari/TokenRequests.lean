import Signari.OAuthClients

/-!
# Requests to the direct endpoints

How a client names itself on a request it makes directly, and what the token endpoint reads
of the rest: `ParseClientCredentials`, `ParseTokenRequest`, `RequireClientAuth` and
`ValidateGrantType` of `internal/oauth/token.go`, with the duplicate parameter rule of
`internal/httpapi/dupeparams.go`.

The `Authorization` header enters as `parseBasic` decodes it.
-/
namespace Signari.TokenRequests
open GoStrings IndexedChecks UrlValues OAuthClients

inductive AuthMethod where
  | clientSecretBasic | clientSecretPost | privateKeyJWT | noMethod
  deriving DecidableEq

structure ClientCredentials where
  clientID : String := ""
  clientSecret : String := ""
  clientAssertion : String := ""
  clientAssertionType : String := ""
  authMethod : AuthMethod := .noMethod

/-- Credentials are taken from one place only; two places are an error. -/
def parseClientCredentials (basic : Option (String × String)) (form : Values) :
    Except TokenError ClientCredentials := do
  let assertion := get form "client_assertion"
  let assertionType := get form "client_assertion_type"
  let bodyID := get form "client_id"
  let bodySecret := get form "client_secret"
  refuseIf (assertion ≠ "" ∧ (bodySecret ≠ "" ∨ basic.isSome))
    (tokenErr "invalid_request" "present either a client assertion or a client secret, not both")
  match basic with
  | some (basicID, basicSecret) => do
      refuseIf (bodySecret ≠ "") (tokenErr "invalid_request"
        "client credentials presented both in the Authorization header and the body")
      refuseIf (bodyID ≠ "" ∧ bodyID ≠ basicID) (tokenErr "invalid_request"
        "client_id in the body does not match the Authorization header")
      .ok ⟨basicID, basicSecret, assertion, assertionType, .clientSecretBasic⟩
  | none =>
    if bodySecret ≠ "" then
      .ok ⟨bodyID, bodySecret, assertion, assertionType, .clientSecretPost⟩
    else if assertion ≠ "" then .ok ⟨bodyID, "", assertion, assertionType, .privateKeyJWT⟩
    else .ok ⟨bodyID, "", assertion, assertionType, .noMethod⟩

structure TokenRequest where
  grantType : String := ""
  code : String := ""
  redirectURI : String := ""
  codeVerifier : String := ""
  refreshToken : String := ""
  scope : String := ""
  resources : List String := []
  clientID : String := ""
  clientSecret : String := ""
  clientAssertion : String := ""
  clientAssertionType : String := ""
  authMethod : AuthMethod := .noMethod

def parseTokenRequest (basic : Option (String × String)) (form : Values) :
    Except TokenError TokenRequest := do
  let creds ← parseClientCredentials basic form
  .ok {
    grantType := get form "grant_type"
    code := get form "code"
    redirectURI := get form "redirect_uri"
    codeVerifier := get form "code_verifier"
    refreshToken := get form "refresh_token"
    scope := get form "scope"
    resources := values form "resource"
    clientID := creds.clientID
    clientSecret := creds.clientSecret
    clientAssertion := creds.clientAssertion
    clientAssertionType := creds.clientAssertionType
    authMethod := creds.authMethod }

def requireClientAuth (c : Client) (req : TokenRequest) : Except TokenError Unit :=
  match c.type with
  | .confidentialClient =>
    if req.clientAssertion ≠ "" then .ok ()
    else if c.tlsSubjectDN ≠ "" ∨ c.tlsSANDNS ≠ "" ∨ c.tlsSANURI ≠ "" ∨ c.tlsThumbprint ≠ []
    then .ok ()
    else if c.tokenEndpointAuthMethod = "attest_jwt_client_auth" then .ok ()
    else refuseIf (req.authMethod = .noMethod ∨ req.clientSecret = "")
      (tokenErr "invalid_client" "client authentication is required")
  | .publicClient => refuseIf (req.clientSecret ≠ "")
      (tokenErr "invalid_client" "public clients must not present a client secret")

def grantTypePreAuthorizedCode : String := "urn:ietf:params:oauth:grant-type:pre-authorized_code"

def grantTypeTokenExchange : String := "urn:ietf:params:oauth:grant-type:token-exchange"

def knownGrantTypes : List String :=
  ["authorization_code", "refresh_token", "client_credentials", grantTypeTokenExchange,
    "urn:ietf:params:oauth:grant-type:device_code", grantTypePreAuthorizedCode,
    "urn:openid:params:grant-type:ciba", "urn:ietf:params:oauth:grant-type:uma-ticket",
    "urn:ietf:params:oauth:grant-type:jwt-bearer"]

def validateGrantType (gt : String) : Except TokenError Unit :=
  if knownGrantTypes.contains gt then .ok ()
  else if gt = "" then .error (tokenErr "invalid_request" "grant_type is required")
  else if gt = "password" then .error (tokenErr "unsupported_grant_type"
    "the resource owner password credentials grant is not supported and will not be")
  else if gt = "implicit" then
    .error (tokenErr "unsupported_grant_type" "the implicit flow is not supported")
  else .error (tokenErr "unsupported_grant_type" ("grant_type " ++ quote gt ++ " is not supported"))

def repeatableParams : List String := ["resource", "audience"]

/-- The first parameter sent more than once that may not be; Go visits the names in no
fixed order. -/
def refuseDuplicateParams (form : Values) : Except String Unit :=
  checkAll (fun _ name => refuseIf (1 < (values form name).length ∧ name ∉ repeatableParams)
    ("the parameter " ++ quote name ++ s!" appears {(values form name).length} times; RFC 6749 " ++
      "section 3.1 permits each at most once")) 0 (form.map Prod.fst).dedup

end Signari.TokenRequests
