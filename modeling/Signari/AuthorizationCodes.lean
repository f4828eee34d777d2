import Signari.AuthorizeRequest
import Signari.TokenRequests

/-!
# Authorization codes

`internal/store/codes.go`, `ValidateCodeRedemption` of `internal/oauth/token.go` and
`VerifyPKCE`. A code is stored under its hash, in a row whose text columns are null where
the grant has the empty string, and the table checks that a challenge and its method
are both there or both absent. Consuming is one statement: it marks the row and returns it, or
finds nothing to mark.

A table is a function from its primary key.
-/
namespace Signari.AuthorizationCodes
open GoStrings IndexedChecks OAuthClients TokenRequests AuthorizeRequest RichDetails Function

structure GrantRecord where
  dpopJKT : String := ""
  clientID : String
  redirectURI : String
  codeChallenge : String := ""
  codeChallengeMethod : String := ""
  nonce : String := ""
  scopes : List String := []
  expiresAt : ℤ
  consumedAt : Option ℤ := none

structure CodeRow where
  orgID : String
  clientID : String
  sid : String
  userID : String
  redirectURI : String
  scopes : List String
  codeChallenge : Option String
  codeChallengeMethod : Option String
  nonce : Option String
  resources : List String
  expiresAt : ℤ
  dpopJKT : Option String
  authorizationDetails : List Detail
  consumedAt : Option ℤ := none

/-- A redeemed code. -/
structure ConsumedCode extends GrantRecord where
  orgID : String
  sessionID : String
  userID : String
  resources : List String
  details : List Detail

abbrev CodeTable (D : Type) := D → Option CodeRow

def nullIfEmpty (s : String) : Option String := if s = "" then none else some s

@[simp] theorem nullIfEmpty_getD (s : String) : (nullIfEmpty s).getD "" = s := by
  unfold nullIfEmpty
  split_ifs with h <;> simp [h]

/-- The constraint `authorization_codes_pkce_is_coherent`. -/
def CodeRow.PkceCoherent (row : CodeRow) : Prop :=
  (row.codeChallenge = none ∧ row.codeChallengeMethod = none) ∨
    (row.codeChallenge ≠ none ∧
      (row.codeChallengeMethod = some "S256" ∨ row.codeChallengeMethod = some "plain"))

instance (row : CodeRow) : Decidable row.PkceCoherent :=
  inferInstanceAs (Decidable (_ ∨ _))

def codeRow (orgID clientID sid userID : String) (g : GrantRecord) (resources : List String)
    (details : List Detail) : CodeRow where
  orgID := orgID
  clientID := clientID
  sid := sid
  userID := userID
  redirectURI := g.redirectURI
  scopes := g.scopes
  codeChallenge := nullIfEmpty g.codeChallenge
  codeChallengeMethod := nullIfEmpty g.codeChallengeMethod
  nonce := nullIfEmpty g.nonce
  resources := resources
  expiresAt := g.expiresAt
  dpopJKT := nullIfEmpty g.dpopJKT
  authorizationDetails := details

variable {D : Type} [DecidableEq D]

/-- The INSERT; `none` is a violated constraint. -/
def issueCode (codes : CodeTable D) (hash : D) (row : CodeRow) : Option (CodeTable D) :=
  if codes hash = none ∧ row.PkceCoherent then some (update codes hash (some row))
  else none

inductive ConsumeError where
  | reused | unknown

/-- The columns an UPDATE returns, with null read back as the empty string. -/
def CodeRow.consumed (row : CodeRow) : ConsumedCode where
  dpopJKT := row.dpopJKT.getD ""
  clientID := row.clientID
  redirectURI := row.redirectURI
  codeChallenge := row.codeChallenge.getD ""
  codeChallengeMethod := row.codeChallengeMethod.getD ""
  nonce := row.nonce.getD ""
  scopes := row.scopes
  expiresAt := row.expiresAt
  orgID := row.orgID
  sessionID := row.sid
  userID := row.userID
  resources := row.resources
  details := row.authorizationDetails

/-- Marks an unused code and returns it, with the table after. -/
def consumeCode (codes : CodeTable D) (hash : D) (now : ℤ) :
    Except ConsumeError (ConsumedCode × CodeTable D) :=
  match codes hash with
  | none => .error .unknown
  | some row =>
    if row.consumedAt.isSome then .error .reused
    else .ok (row.consumed, update codes hash (some { row with consumedAt := some now }))

theorem issueCode_eq_some {codes codes' : CodeTable D} {hash : D} {row : CodeRow}
    (h : issueCode codes hash row = some codes') :
    codes hash = none ∧ codes' = update codes hash (some row) := by
  unfold issueCode at h
  split_ifs at h with hfresh
  exact ⟨hfresh.1, by simpa using h.symm⟩

theorem consumeCode_ok {codes codes' : CodeTable D} {hash : D} {now : ℤ} {code : ConsumedCode}
    (h : consumeCode codes hash now = .ok (code, codes')) :
    ∃ row, codes hash = some row ∧ code = row.consumed ∧
      codes' = update codes hash (some { row with consumedAt := some now }) := by
  unfold consumeCode at h
  cases hrow : codes hash with
  | none => simp [hrow] at h
  | some row =>
    simp only [hrow] at h
    split_ifs at h
    simp only [Except.ok.injEq, Prod.mk.injEq] at h
    exact ⟨row, rfl, h.1.symm, h.2.symm⟩

theorem consumeCode_unspent {codes codes' : CodeTable D} {hash : D} {now : ℤ} {code : ConsumedCode}
    {row : CodeRow} (h : consumeCode codes hash now = .ok (code, codes'))
    (hrow : codes hash = some row) : row.consumedAt = none := by
  simp only [consumeCode, hrow] at h
  split_ifs at h with hspent
  simpa using hspent

inductive PKCEError where
  | mismatch | malformed

def validVerifier (s : String) : Bool := validChallenge s

def verifyPKCE (challengeOf : String → String) (method challenge verifier : String) :
    Except PKCEError Unit := do
  refuseIf (method ≠ "S256") .mismatch
  refuseIf (validVerifier verifier = false) .malformed
  refuseIf (challengeOf verifier ≠ challenge) .mismatch

/-- A refused redemption. When the code was already spent the grant is to be revoked too. -/
structure RedemptionError where
  alreadyConsumed : Bool := false
  error : TokenError

def redemptionErr (code desc : String) : RedemptionError := { error := tokenErr code desc }

def checkRedirectURI (req : TokenRequest) (g : GrantRecord) : Except RedemptionError Unit :=
  if req.redirectURI ≠ "" then
    refuseIf (req.redirectURI ≠ g.redirectURI) (redemptionErr "invalid_grant"
      "redirect_uri does not match the one used in the authorization request")
  else refuseIf (g.codeChallenge = "") (redemptionErr "invalid_request"
    "redirect_uri is required for an authorization code issued without PKCE")

def checkProofKey (g : GrantRecord) (presentedJKT : String) : Except RedemptionError Unit :=
  if g.dpopJKT ≠ "" then do
    refuseIf (presentedJKT = "") (redemptionErr "invalid_dpop_proof"
      ("this authorization code is bound to a DPoP key (dpop_jkt) and the " ++
        "token request carried no DPoP proof"))
    refuseIf (presentedJKT ≠ g.dpopJKT) (redemptionErr "invalid_dpop_proof"
      ("the DPoP proof is for a different key than the authorization " ++
        "request bound this code to"))
  else .ok ()

def checkVerifier (challengeOf : String → String) (req : TokenRequest) (c : Client)
    (g : GrantRecord) : Except RedemptionError Unit :=
  if g.codeChallenge ≠ "" then do
    refuseIf (req.codeVerifier = "") (redemptionErr "invalid_request" "code_verifier is required")
    (verifyPKCE challengeOf g.codeChallengeMethod g.codeChallenge req.codeVerifier).mapError
      fun _ => redemptionErr "invalid_grant" "code_verifier is invalid"
  else do
    refuseIf (req.codeVerifier ≠ "") (redemptionErr "invalid_request"
      ("code_verifier was sent but the authorization request carried no " ++
        "code_challenge; the request may have been downgraded"))
    refuseIf (c.requirePKCE = true)
      (redemptionErr "invalid_grant" "authorization code was issued without PKCE")

def checkGrant (challengeOf : String → String) (req : TokenRequest) (c : Client)
    (g : GrantRecord) (presentedJKT : String) (now : ℤ) : Except RedemptionError Unit := do
  refuseIf (g.clientID ≠ req.clientID)
    (redemptionErr "invalid_grant" "authorization code was not issued to this client")
  refuseIf (g.consumedAt.isSome)
    ⟨true, tokenErr "invalid_grant" "authorization code has already been used"⟩
  refuseIf (g.expiresAt ≤ now) (redemptionErr "invalid_grant" "authorization code has expired")
  checkRedirectURI req g
  checkProofKey g presentedJKT
  checkVerifier challengeOf req c g

def validateCodeRedemption (challengeOf : String → String) (req : TokenRequest)
    (c : Option Client) (g : Option GrantRecord) (presentedJKT : String) (now : ℤ) :
    Except RedemptionError Unit :=
  match c with
  | none => .error (redemptionErr "invalid_client" "unknown client")
  | some c => do
      refuseIf (c.enabled = false) (redemptionErr "invalid_client" "client is disabled")
      refuseIf (c.allowsGrantType "authorization_code" = false) (redemptionErr
        "unauthorized_client" "client may not use the authorization_code grant")
      refuseIf (req.code = "") (redemptionErr "invalid_request" "code is required")
      match g with
      | none => .error (redemptionErr "invalid_grant" "authorization code is unknown or expired")
      | some g => checkGrant challengeOf req c g presentedJKT now

/-- What a redemption that passes has in common with the grant. -/
structure Redeems (challengeOf : String → String) (req : TokenRequest) (presentedJKT : String)
    (g : GrantRecord) : Prop where
  client : req.clientID = g.clientID
  redirectURI : req.redirectURI = g.redirectURI ∨ req.redirectURI = "" ∧ g.codeChallenge ≠ ""
  verifier : g.codeChallenge ≠ "" →
    verifyPKCE challengeOf g.codeChallengeMethod g.codeChallenge req.codeVerifier = .ok ()
  noVerifier : g.codeChallenge = "" → req.codeVerifier = ""
  key : g.dpopJKT ≠ "" → presentedJKT = g.dpopJKT

variable {challengeOf : String → String} {req : TokenRequest} {c : Client} {g : GrantRecord}
  {jkt : String} {now : ℤ}

theorem checkRedirectURI_ok (h : checkRedirectURI req g = .ok ()) :
    req.redirectURI = g.redirectURI ∨ req.redirectURI = "" ∧ g.codeChallenge ≠ "" := by
  unfold checkRedirectURI at h
  split_ifs at h with hsent
  · left
    simpa using h
  · right
    exact ⟨by simpa using hsent, by simpa using h⟩

theorem checkProofKey_ok (h : checkProofKey g jkt = .ok ()) (hg : g.dpopJKT ≠ "") :
    jkt = g.dpopJKT := by
  rw [checkProofKey, if_pos hg, seq_ok] at h
  simpa using h.2

theorem checkVerifier_ok (h : checkVerifier challengeOf req c g = .ok ()) :
    (g.codeChallenge ≠ "" →
      verifyPKCE challengeOf g.codeChallengeMethod g.codeChallenge req.codeVerifier = .ok ()) ∧
    (g.codeChallenge = "" → req.codeVerifier = "") := by
  unfold checkVerifier at h
  split_ifs at h with hg
  · simp only [seq_ok, mapError_ok] at h
    exact ⟨fun _ => h.2, fun he => absurd he hg⟩
  · simp only [seq_ok, refuseIf_ok, ne_eq, not_not] at h
    exact ⟨fun he => absurd he hg, fun _ => h.1⟩

theorem validateCodeRedemption_ok {c : Option Client}
    (h : validateCodeRedemption challengeOf req c (some g) jkt now = .ok ()) :
    Redeems challengeOf req jkt g := by
  cases c with
  | none => simp [validateCodeRedemption] at h
  | some c =>
    simp only [validateCodeRedemption, checkGrant, seq_ok, refuseIf_ok, ne_eq, not_not] at h
    obtain ⟨_, _, _, hclient, _, _, huri, hkey, hverifier⟩ := h
    exact {
      client := hclient.symm
      redirectURI := checkRedirectURI_ok huri
      verifier := (checkVerifier_ok hverifier).1
      noVerifier := (checkVerifier_ok hverifier).2
      key := checkProofKey_ok hkey }

theorem validateCodeRedemption_unkeyed {c : Option Client} {jkt' : String} (hg : g.dpopJKT = "") :
    validateCodeRedemption challengeOf req c (some g) jkt now =
      validateCodeRedemption challengeOf req c (some g) jkt' now := by
  have hproof : ∀ k, checkProofKey g k = .ok () := by
    intro k
    rw [checkProofKey, if_neg (not_not.mpr hg)]
  simp only [validateCodeRedemption, checkGrant, hproof]

end Signari.AuthorizationCodes
