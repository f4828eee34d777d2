import Signari.GoStrings
import Signari.IndexedChecks
import Signari.UrlValues
import Mathlib.Data.List.Sort

/-!
# Registered clients and endpoint errors

The client record of `internal/clients`, as far as the modelled endpoints read it, the
token endpoint's error value, and the resource indicator check that the authorization and
token endpoints share. `url.Parse` is the parameter `parseURL`: it only decides which
indicators are refused.
-/
namespace Signari.OAuthClients
open GoStrings IndexedChecks UrlValues

inductive ClientType where
  | confidentialClient | publicClient
  deriving DecidableEq

structure Client where
  clientID : String
  orgID : String := ""
  type : ClientType
  enabled : Bool := true
  grantTypes : List String := ["authorization_code"]
  responseTypes : List String := ["code"]
  scopes : List String := []
  requirePKCE : Bool := true
  issuerAlias : String := ""
  mayExchange : Bool := false
  exchangeAudiences : List String := []
  exchangeRequiresAudienceMatch : Bool := false
  tlsSubjectDN : String := ""
  tlsSANDNS : String := ""
  tlsSANURI : String := ""
  tlsThumbprint : List UInt8 := []
  dpopBoundAccessTokens : Bool := false
  tokenEndpointAuthMethod : String := ""
  allowHybrid : Bool := false
  pkceMethods : List String := ["S256"]
  redirectURIs : List String := []
  refreshTTL : ℤ := 0
  firstParty : Bool := false
  deriving DecidableEq

/-- `clients.Lookup` behind the handlers' refusal of an empty id. -/
def lookupClient (registry : List Client) (clientID : String) : Option Client :=
  if clientID = "" then none else registry.find? fun c => c.clientID == clientID

theorem lookupClient_clientID {registry : List Client} {id : String} {c : Client}
    (h : lookupClient registry id = some c) : c.clientID = id := by
  unfold lookupClient at h
  split_ifs at h
  simpa using List.find?_some h

/-- A response type is a set of values; sorted they compare as one. -/
def normaliseSet (rt : String) : String := join ((fields rt).insertionSort (· ≤ ·)) " "

def isLoopbackHost (h : String) : Bool := h == "127.0.0.1" || h == "::1" || h == "localhost"

def loopbackPortMatch (parseURL : String → Option ParsedURL) (registered candidate : String) :
    Bool :=
  match parseURL registered, parseURL candidate with
  | some a, some b =>
    a.scheme == "http" && b.scheme == "http" && isLoopbackHost a.hostname &&
      isLoopbackHost b.hostname && a.hostname == b.hostname && a.path == b.path &&
      a.rawQuery == b.rawQuery && a.fragment == b.fragment
  | _, _ => false

def Client.hasRedirectURI (parseURL : String → Option ParsedURL) (c : Client)
    (candidate : String) : Bool :=
  c.redirectURIs.any fun u => u == candidate || loopbackPortMatch parseURL u candidate

def Client.allowsResponseType (c : Client) (rt : String) : Bool :=
  c.responseTypes.any fun held => normaliseSet held == normaliseSet rt

def Client.allowsGrantType (c : Client) (gt : String) : Bool := c.grantTypes.contains gt

def Client.allowsPKCEMethod (c : Client) (m : String) : Bool := c.pkceMethods.contains m

def Client.unknownScopes (c : Client) (requested : List String) : List String :=
  requested.filter fun s => !c.scopes.contains s

/-- The configured refresh lifetime, or thirty days where none is set. -/
def Client.refreshTokenTTLSeconds (c : Client) : ℤ :=
  if c.refreshTTL ≤ 0 then 30 * 24 * 3600 else c.refreshTTL

/-- An error of the token endpoint. -/
structure TokenError where
  code : String
  description : String := ""
  status : ℕ := 400

/-- `invalid_client` answers 401, everything else 400. -/
def tokenErr (code desc : String) : TokenError :=
  ⟨code, desc, if code = "invalid_client" then 401 else 400⟩

def serverError : TokenError := ⟨"server_error", "", 500⟩

def validateResource (parseURL : String → Option ParsedURL) (r : String) : Except String Unit := do
  let u := parseURL r
  refuseIf ((u.elim "" ParsedURL.scheme) = "") ("resource " ++ quote r ++
    " must be an absolute URI")
  refuseIf ((u.elim "" ParsedURL.fragment) ≠ "" ∨ containsAny r "#" = true)
    ("resource " ++ quote r ++ " must not contain a fragment")
  refuseIf ((u.elim "" ParsedURL.scheme) ≠ "https" ∧ (u.elim "" ParsedURL.scheme) ≠ "http")
    ("resource " ++ quote r ++ " must be an http or https URI")

def validateResources (parseURL : String → Option ParsedURL) (resources : List String) :
    Except String Unit := do
  refuseIf (8 < resources.length) "at most 8 resource indicators may be requested"
  checkAll (fun _ r => validateResource parseURL r) 0 resources

end Signari.OAuthClients
