import Signari.AuthorizationCodes

/-!
# Pushed authorization requests

`internal/httpapi/par.go`. A client pushes its parameters over the back channel and gets a
handle; the handle is single use, lives ninety seconds and belongs to the client that
pushed. `consumePushedRequest` marks the row in the statement that reads it, and only then
looks at whose it is.

The random part of a handle is an input, as is what the checks of the client's credentials and of
the proof on the request have found.
-/
namespace Signari.PushedRequests
open GoStrings GoTime IndexedChecks UrlValues OAuthClients TokenRequests AuthorizeRequest Function
open AuthorizationCodes

/-- The configured issuer, and what the endpoints compute with outside code. -/
structure Primitives (D : Type) where
  issuer : String
  hashToken : String → D
  challengeOf : String → String
  parseURL : String → Option ParsedURL

/-- Hashing and URL parsing at the values below; the challenge is the one RFC 7636 gives for
its verifier. -/
def standIn : Primitives String where
  issuer := "https://idp"
  hashToken := id
  challengeOf _ := "E9Melhoa2OwvFrEMTJguCHaoeK1t8URWbuGJSstw-cM"
  parseURL _ := some { scheme := "https", fragment := "", hostname := "app", path := "/cb" }

structure PushedRow where
  orgID : String
  clientID : String
  params : Values
  expiresAt : ℤ
  dpopJKT : Option String
  usedAt : Option ℤ := none

abbrev PushedTable (D : Type) := D → Option PushedRow

def requestURIPrefix : String := "urn:ietf:params:oauth:request_uri:"

def parLifetime : ℤ := 90 * nanosPerSecond

/-- One push: the request, and what the handler finds while serving it. -/
structure PushCall where
  form : Option Values
  basic : Option (String × String) := none
  registry : List Client
  authenticated : Bool := true
  proof : Except String String := .ok ""
  random : String
  now : ℤ

/-- Parameters that authenticate the push and are not kept. -/
def credentialParams : List String := ["client_secret", "client_assertion", "client_assertion_type"]

def pushedAuthz (clientID : String) (form : Values) : AuthzRequest where
  clientID := clientID
  redirectURI := get form "redirect_uri"
  responseType := get form "response_type"
  scope := get form "scope"
  state := get form "state"
  nonce := get form "nonce"
  codeChallenge := get form "code_challenge"
  codeChallengeMethod := get form "code_challenge_method"

def pushedKey (form : Values) (proof : Except String String) : Except TokenError String :=
  match proof with
  | .error e => .error ⟨"invalid_dpop_proof", e, 400⟩
  | .ok proofJKT =>
    if proofJKT = "" then .ok (get form "dpop_jkt")
    else do
      refuseIf (get form "dpop_jkt" ≠ "" ∧ get form "dpop_jkt" ≠ proofJKT)
        ⟨"invalid_request", "dpop_jkt does not match the key in the DPoP proof on this request",
          400⟩
      .ok proofJKT

def knownClient (c : Option Client) : Except TokenError Client := match c with
  | none => .error ⟨"invalid_client", "unknown client", 401⟩
  | some c => .ok c

variable {D : Type}

/-- The row a push that passes every check is stored in. -/
def preparePush (P : Primitives D) (r : PushCall) (form : Values) :
    Except TokenError PushedRow := do
  (refuseDuplicateParams form).mapError fun e => ⟨"invalid_request", e, 400⟩
  refuseIf (get form "request_uri" ≠ "")
    ⟨"invalid_request", "a pushed request must not itself contain request_uri", 400⟩
  let creds ← parseClientCredentials r.basic form
  let c ← knownClient (lookupClient r.registry creds.clientID)
  refuseIf (c.type = .confidentialClient ∧ r.authenticated = false)
    ⟨"invalid_client", "client authentication failed", 401⟩
  let c ← (validateAuthz P.parseURL (pushedAuthz creds.clientID form) (some c)).mapError
    fun e => ⟨e.code, e.description, 400⟩
  let jkt ← pushedKey form r.proof
  .ok {
    orgID := c.orgID
    clientID := creds.clientID
    params := without form credentialParams
    expiresAt := r.now + parLifetime
    dpopJKT := nullIfEmpty jkt }

theorem preparePush_ok {P : Primitives D} {r : PushCall} {form : Values} {row : PushedRow}
    (h : preparePush P r form = .ok row) :
    get form "request_uri" = "" ∧ row.params = without form credentialParams ∧
      pushedKey form r.proof = .ok (row.dpopJKT.getD "") ∧ row.usedAt = none := by
  simp only [preparePush, bind_ok, mapError_ok, refuseIf_ok, ne_eq, not_not] at h
  obtain ⟨_, _, _, huri, creds, hcreds, c, _, _, _, _, _, jkt, hjkt, hrow⟩ := h
  simp only [Except.ok.injEq] at hrow
  subst hrow
  exact ⟨huri, rfl, by simpa using hjkt, rfl⟩

def PushCall.handle (r : PushCall) : String := requestURIPrefix ++ r.random

variable [DecidableEq D]

def handlePAR (P : Primitives D) (pushed : PushedTable D) (r : PushCall) :
    PushedTable D × Except TokenError String :=
  match r.form with
  | none => (pushed, .error ⟨"invalid_request", "malformed form body", 400⟩)
  | some form =>
    match preparePush P r form with
    | .error e => (pushed, .error e)
    | .ok row =>
      if pushed (P.hashToken r.handle) = none then
        (update pushed (P.hashToken r.handle) (some row), .ok r.handle)
      else (pushed, .error ⟨"server_error", "unavailable", 500⟩)

/-- The parameters a row stands for; the column's thumbprint wins over the parameter. -/
def PushedRow.requestParams (row : PushedRow) : Values :=
  if row.dpopJKT.getD "" ≠ "" then set row.params "dpop_jkt" (row.dpopJKT.getD "")
  else row.params

/-- Redeems a handle at the authorization endpoint. -/
def consumePushedRequest (P : Primitives D) (pushed : PushedTable D)
    (requestURI clientID : String) (now : ℤ) : PushedTable D × Except String Values :=
  if hasPrefix requestURI requestURIPrefix = false then
    (pushed, .error "request_uri is not a pushed request handle")
  else match pushed (P.hashToken requestURI) with
    | none => (pushed, .error "this request_uri has already been used, or has expired")
    | some row =>
      if row.usedAt.isSome ∨ row.expiresAt ≤ now then
        (pushed, .error "this request_uri has already been used, or has expired")
      else
        (update pushed (P.hashToken requestURI) (some { row with usedAt := some now }),
          if row.clientID ≠ clientID then
            .error "this request_uri was issued to a different client"
          else .ok row.requestParams)

/-- A handle that can still be redeemed by this client. -/
structure LiveHandle (P : Primitives D) (pushed : PushedTable D) (requestURI clientID : String)
    (now : ℤ) (row : PushedRow) : Prop where
  isHandle : hasPrefix requestURI requestURIPrefix = true
  stored : pushed (P.hashToken requestURI) = some row
  unused : row.usedAt = none
  unexpired : now < row.expiresAt
  owner : row.clientID = clientID

variable {P : Primitives D} {pushed : PushedTable D} {requestURI clientID : String} {now : ℤ}

omit [DecidableEq D] in
theorem LiveHandle.requestURI_ne {row : PushedRow}
    (h : LiveHandle P pushed requestURI clientID now row) : requestURI ≠ "" := by
  intro he
  have hprefix := h.isHandle
  rw [he] at hprefix
  exact absurd hprefix (by decide)

theorem consumePushedRequest_of_live {row : PushedRow}
    (h : LiveHandle P pushed requestURI clientID now row) :
    (consumePushedRequest P pushed requestURI clientID now).2 = .ok row.requestParams := by
  have hnow : ¬(row.expiresAt ≤ now) := not_le.mpr h.unexpired
  simp [consumePushedRequest, h.isHandle, h.stored, h.unused, hnow, h.owner]

theorem consumePushedRequest_ok {q : Values}
    (h : (consumePushedRequest P pushed requestURI clientID now).2 = .ok q) :
    ∃ row, LiveHandle P pushed requestURI clientID now row ∧ q = row.requestParams := by
  unfold consumePushedRequest at h
  split_ifs at h with hprefix
  cases hrow : pushed (P.hashToken requestURI) with
  | none => simp [hrow] at h
  | some row =>
    simp only [hrow] at h
    split_ifs at h with hlive howner
    simp only [Except.ok.injEq] at h
    obtain ⟨hunused, hnow⟩ := not_or.mp hlive
    exact ⟨row, {
      isHandle := by simpa using hprefix
      stored := hrow
      unused := by simpa using hunused
      unexpired := not_le.mp hnow
      owner := not_not.mp howner }, h.symm⟩

theorem consumePushedRequest_rows (hash : D) :
    (consumePushedRequest P pushed requestURI clientID now).1 hash = pushed hash ∨
      ∃ row used, pushed hash = some row ∧
        (consumePushedRequest P pushed requestURI clientID now).1 hash =
          some { row with usedAt := used } := by
  unfold consumePushedRequest
  split_ifs
  · exact .inl rfl
  · cases hrow : pushed (P.hashToken requestURI) with
    | none => exact .inl rfl
    | some row =>
      dsimp only
      by_cases hdead : row.usedAt.isSome = true ∨ row.expiresAt ≤ now
      · rw [if_pos hdead]
        exact .inl rfl
      · rw [if_neg hdead]
        by_cases hh : hash = P.hashToken requestURI
        · subst hh
          exact .inr ⟨row, some now, hrow, update_self ..⟩
        · exact .inl (update_of_ne hh ..)

end Signari.PushedRequests
