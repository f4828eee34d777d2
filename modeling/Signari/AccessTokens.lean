import Signari.GoTime
import Signari.OAuthClients
import Signari.RichDetails

/-!
# Access tokens

The claims of an access token and their verification, after `internal/tokens`. A token's
signature and JSON decoding are the argument `payload`, which returns the claims of a
text this server signed; everything `VerifyAccessTokenAny` decides about the claims is
here. The `authorization_details` claim is kept decoded: only this server mints it, as
a marshalled list of details and omitted when the list is empty.

Times are nanoseconds since the epoch, as `time.Now` measures them; `exp` and `iat` are
seconds.
-/
namespace Signari.AccessTokens
open GoStrings GoTime JsonValues RichDetails

/-- The nested actor claim: who acts, and for whom that party was already acting. -/
inductive Actor where
  | mk (subject : String) (act : Option Actor)

/-- The parties of an actor chain, the current one first. -/
def actorChain : Option Actor → List String
  | none => []
  | some (.mk subject act) => subject :: actorChain act

/-- The key or certificate a token is bound to. -/
structure Confirmation where
  jkt : String := ""
  x5tS256 : String := ""

/-- The binding a token is minted with; a proof key takes precedence over a certificate. -/
def bindingFor (jkt certThumbprint : String) : Option Confirmation :=
  if jkt ≠ "" then some ⟨jkt, ""⟩
  else if certThumbprint ≠ "" then some ⟨"", certThumbprint⟩
  else none

structure AccessTokenClaims where
  issuer : String
  subject : String
  audience : List String
  expiry : ℤ
  issuedAt : ℤ
  jti : String
  clientID : String
  scope : String := ""
  sessionID : String := ""
  act : Option Actor := none
  cnf : Option Confirmation := none
  authorizationDetails : List Detail := []
  grantID : String := ""
  mayAct : List (String × Json) := []

/-- The clock skew verification absorbs, in seconds. -/
def leeway : ℤ := 60

def defaultAccessTokenTTL : ℤ := 300

/-- What is decided about the claims of a correctly signed token. -/
def verifyAccessTokenAny (payload : String → Option AccessTokenClaims) (issuers : List String)
    (now : ℤ) (raw : String) : Except String AccessTokenClaims :=
  match payload raw with
  | none => .error "malformed claims"
  | some c =>
    if (issuers.any fun i => i != "" && c.issuer == i) = false then .error "wrong issuer"
    else if c.subject = "" then .error "no subject"
    else if c.expiry = 0 ∨ (c.expiry + leeway) * nanosPerSecond < now then .error "expired"
    else if c.issuedAt = 0 ∨ now + leeway * nanosPerSecond < c.issuedAt * nanosPerSecond then
      .error "issued in the future"
    else if c.jti = "" then .error "no jti"
    else .ok c

theorem verifyAccessTokenAny_ok {payload : String → Option AccessTokenClaims}
    {issuers : List String} {now : ℤ} {raw : String} {c : AccessTokenClaims}
    (h : verifyAccessTokenAny payload issuers now raw = .ok c) :
    payload raw = some c ∧ c.subject ≠ "" := by
  unfold verifyAccessTokenAny at h
  cases hp : payload raw with
  | none => simp [hp] at h
  | some d =>
    simp only [hp] at h
    split_ifs at h with h₁ h₂
    obtain rfl : d = c := by simpa using h
    exact ⟨rfl, h₂⟩

end Signari.AccessTokens
