import Signari.LabelledRuns
import Signari.PushedRequests
import Signari.ScopeLists

/-!
# The authorization and token endpoints

`handleAuthorize` with `issueCodeAndRedirect`, and the code grant of `handleToken`, from
`internal/httpapi/flow.go`. Together with `handlePAR` they are a system over two tables, the codes
and the pushed requests.

Everything else a handler reads (clients, sessions, policies, consents, the clock) is part of
the request's data, with a failed read among the possible answers, so it may change freely
between two steps.
-/
namespace Signari.AuthorizeEndpoint
open GoStrings GoTime IndexedChecks UrlValues AuthnContext OAuthClients TokenRequests Function
open AuthorizeRequest AuthorizationCodes PushedRequests RichDetails ScopeLists LabelledRuns

/-- A session the cookie resolved to, and what reading it again returns. -/
structure SessionView where
  sid : String
  context : Option (Option ℤ × List String)
  enrolled : Option Bool := none
  user : Option String
  row : Option (String × String)

/-- One authorization request: what the browser sent, and what the handler finds. -/
structure AuthorizeCall where
  post : Bool := false
  rawQuery : String := ""
  urlQuery : Values := []
  form : Option Values := none
  registry : List Client
  requirePushed : String → Option Bool
  parseDetails : Client → String → Except AuthzError (List Detail)
  session : Except Unit (Option SessionView)
  policyRefusal : Option String := none
  consent : Except Unit Bool := .ok false
  code : String
  committed : Bool := true
  idToken : Option String := none
  now : ℤ

structure ResponseParams where
  code : String
  idToken : String := ""
  state : String
  issuer : String

/-- Where a request that gets no code is sent. -/
inductive Diversion where
  | failure (reason : String)
  | error (req : AuthzRequest) (e : AuthzError)
  | login
  | consent

/-- How an authorization request ends. A code that is stored may still fail to be
delivered. -/
inductive AuthorizeOutcome where
  | diverted (d : Diversion)
  | unavailable
  | issued (req : AuthzRequest) (code : String) (response : Option ResponseParams)

def authorizeParams (r : AuthorizeCall) : Except String Values :=
  if r.post = false then .ok r.urlQuery
  else match r.form with
    | none => .error ("the request body could not be parsed as " ++
        "application/x-www-form-urlencoded")
    | some form => do
        refuseIf (r.rawQuery ≠ "") ("an authorization request sent as POST must carry " ++
          "its parameters in the body alone, not split across the body and the URL")
        .ok form

variable {D : Type} [DecidableEq D]

/-- The parameters to act on: the pushed ones in place of the query, where a handle is
sent. -/
def effectiveParams (P : Primitives D) (pushed : PushedTable D) (query : Values) (now : ℤ) :
    PushedTable D × Except String Values :=
  if get query "request_uri" = "" then (pushed, .ok query)
  else let r := consumePushedRequest P pushed (get query "request_uri") (get query "client_id") now
    (r.1, r.2.map fun q => set q "client_id" (get query "client_id"))

def mustPushMessage : String := "This client must start authorization by pushing the request first."

def withDetails (r : AuthorizeCall) (c : Client) (req : AuthzRequest) :
    Except AuthzError AuthzRequest :=
  if req.rawAuthorizationDetails ≠ "" then
    (r.parseDetails c req.rawAuthorizationDetails).map fun ds =>
      { req with authorizationDetails := ds }
  else .ok req

def pushGate (r : AuthorizeCall) (c : Client) (q : Values) : Except Diversion Unit :=
  refuseIf (get q "request_uri" = "" ∧ r.requirePushed c.clientID = some true)
    (.failure mustPushMessage)

def admitParams (P : Primitives D) (r : AuthorizeCall) (q : Values) :
    Except Diversion (AuthzRequest × Client) := do
  let c ← (validateAuthz P.parseURL (parseAuthz q)
    (lookupClient r.registry (parseAuthz q).clientID)).mapError (.error (parseAuthz q))
  let req ← (withDetails r c (parseAuthz q)).mapError (.error (parseAuthz q))
  pushGate r c q
  .ok (req, c)

/-- The first half of the handler, up to the gate, with the pushed requests after it. -/
def admitRequest (P : Primitives D) (pushed : PushedTable D) (r : AuthorizeCall) :
    PushedTable D × Except Diversion (AuthzRequest × Client) :=
  match authorizeParams r with
  | .error e => (pushed, .error (.failure e))
  | .ok query =>
    match refuseDuplicateParams query with
    | .error e => (pushed, .error (.failure e))
    | .ok () =>
      let p := effectiveParams P pushed query r.now
      (p.1, (p.2.mapError .failure) >>= admitParams P r)

def couldNotVerify : AuthzError := redirectErr "server_error" "could not verify session"

def noSession (req : AuthzRequest) : Diversion :=
  if hasPrompt req.prompt promptNone then .error req (redirectErr "login_required"
    "no active session and prompt=none was requested")
  else .login

def stepUpErrorCode (reason : StepUpReason) : String :=
  if reason = .needStronger then "unmet_authentication_requirements" else "login_required"

/-- The live session a code may be issued for, or where the person is sent instead. -/
def checkSession (r : AuthorizeCall) (req : AuthzRequest) : Except Diversion SessionView :=
  match r.session with
  | .error () => .error (.error req couldNotVerify)
  | .ok none => .error (noSession req)
  | .ok (some v) =>
    match v.context with
    | none => .error (.error req couldNotVerify)
    | some (authTime, amr) =>
      let s := sessionSufficient amr authTime r.now req.acrValues req.maxAge req.prompt
      if s.1 = .none then .ok v
      else if hasPrompt req.prompt promptNone then
        .error (.error req (redirectErr (stepUpErrorCode s.1) s.2))
      else if s.1 = .needStronger ∧ v.enrolled = some false then
        .error (.error req (redirectErr "unmet_authentication_requirements"
          ("this account has no second factor enrolled, so the " ++
            "requested authentication context cannot be reached")))
      else .error (noSession req)

def consentRequiredReason (req : AuthzRequest) : String :=
  if req.authorizationDetails ≠ [] then
    "authorization_details always require explicit approval and cannot " ++
      "be satisfied by prior consent; retry without prompt=none"
  else "the user has not consented to the requested scopes"

def checkConsent (r : AuthorizeCall) (req : AuthzRequest) (v : SessionView) :
    Except Diversion Unit := do
  refuseIf (v.user = none) (.error req couldNotVerify)
  match r.policyRefusal with
  | some message => .error (.failure message)
  | none =>
    match r.consent with
    | .error () => .error (.error req (redirectErr "server_error" "could not check consent"))
    | .ok false => .ok ()
    | .ok true =>
      if hasPrompt req.prompt promptNone then
        .error (.error req (redirectErr "consent_required" (consentRequiredReason req)))
      else .error .consent

def codeTTL : ℤ := 60 * nanosPerSecond

/-- The grant of a request, as `issueCodeAndRedirect` fills it in. -/
def grantRecord (r : AuthorizeCall) (req : AuthzRequest) (c : Client) : GrantRecord where
  clientID := c.clientID
  redirectURI := req.redirectURI
  codeChallenge := req.codeChallenge
  codeChallengeMethod := req.codeChallengeMethod
  nonce := req.nonce
  scopes := splitScopes req.scope
  expiresAt := r.now + codeTTL

def responseParams (P : Primitives D) (r : AuthorizeCall) (req : AuthzRequest) :
    Option ResponseParams :=
  if normaliseSet req.responseType = "code id_token" then
    r.idToken.map fun t => ⟨r.code, t, req.state, P.issuer⟩
  else some ⟨r.code, "", req.state, P.issuer⟩

def issueCodeAndRedirect (P : Primitives D) (codes : CodeTable D) (r : AuthorizeCall)
    (req : AuthzRequest) (c : Client) (v : SessionView) : CodeTable D × AuthorizeOutcome :=
  match v.row with
  | none => (codes, .unavailable)
  | some (orgID, userID) =>
    match issueCode codes (P.hashToken r.code) (codeRow orgID c.clientID v.sid userID
        (grantRecord r req c) req.resources req.authorizationDetails) with
    | none => (codes, .unavailable)
    | some codes' =>
      if r.committed then (codes', .issued req r.code (responseParams P r req))
      else (codes, .unavailable)

/-- The two tables the endpoints share. -/
structure State (D : Type) where
  codes : CodeTable D := fun _ => none
  pushed : PushedTable D := fun _ => none

def checkSubject (r : AuthorizeCall) (x : AuthzRequest × Client) :
    Except Diversion (AuthzRequest × Client × SessionView) := do
  let v ← checkSession r x.1
  checkConsent r x.1 v
  .ok (x.1, x.2, v)

def handleAuthorize (P : Primitives D) (st : State D) (r : AuthorizeCall) :
    State D × AuthorizeOutcome :=
  let a := admitRequest P st.pushed r
  match a.2 >>= checkSubject r with
  | .error d => ({ st with pushed := a.1 }, .diverted d)
  | .ok (req, c, v) =>
    let i := issueCodeAndRedirect P st.codes r req c v
    (⟨i.1, a.1⟩, i.2)

/-- One token request: what was sent, and what the handler finds. -/
structure TokenCall where
  form : Option Values
  basic : Option (String × String) := none
  proof : Except String String := .ok ""
  registry : List Client
  authenticated : Except TokenError Unit := .ok ()
  vetoed : Except Unit Bool := .ok false
  minted : Bool := true
  now : ℤ

inductive TokenOutcome where
  | refused (e : TokenError)
  | dispatched (req : TokenRequest)
  | redeemed (req : TokenRequest) (jkt : String) (code : ConsumedCode)

def readToken (r : TokenCall) : Except TokenError (TokenRequest × String) := do
  let jkt ← r.proof.mapError fun e => ⟨"invalid_dpop_proof", e, 400⟩
  match r.form with
  | none => .error ⟨"invalid_request", "malformed form body", 400⟩
  | some form => do
      (refuseDuplicateParams form).mapError fun e => ⟨"invalid_request", e, 400⟩
      let req ← parseTokenRequest r.basic form
      validateGrantType req.grantType
      .ok (req, jkt)

def admitClient (r : TokenCall) (req : TokenRequest) (jkt : String) : Except TokenError Client := do
  let c ← knownClient (lookupClient r.registry req.clientID)
  requireClientAuth c req
  if c.type = .confidentialClient then r.authenticated else .ok ()
  refuseIf (c.dpopBoundAccessTokens = true ∧ jkt = "") ⟨"invalid_dpop_proof",
    "this client is registered with dpop_bound_access_tokens, " ++
      "so every token request must carry a DPoP proof", 400⟩
  refuseIf (req.grantType ≠ grantTypeTokenExchange ∧ c.allowsGrantType req.grantType = false)
    ⟨"unauthorized_client", "this client is not registered for the " ++ req.grantType ++
      " grant", 400⟩
  .ok c

/-- The code grant. A refusal of the redemption itself keeps the code spent, while a
failure after it rolls back. -/
def redeemCode (P : Primitives D) (codes : CodeTable D) (r : TokenCall) (req : TokenRequest)
    (c : Client) (jkt : String) : CodeTable D × TokenOutcome :=
  match consumeCode codes (P.hashToken req.code) r.now with
  | .error .reused => (codes, .refused
      ⟨"invalid_grant", "authorization code has already been used", 400⟩)
  | .error .unknown => (codes, .refused
      ⟨"invalid_grant", "authorization code is unknown or expired", 400⟩)
  | .ok (consumed, codes') =>
    match validateCodeRedemption P.challengeOf req (some c) (some consumed.toGrantRecord) jkt
        r.now with
    | .error e => (codes', .refused e.error)
    | .ok () =>
      match r.vetoed with
      | .error () => (codes, .refused serverError)
      | .ok true => (codes', .refused
          ⟨"access_denied", "this authorization was refused", 403⟩)
      | .ok false =>
        if r.minted then (codes', .redeemed req jkt consumed)
        else (codes, .refused serverError)

def handleToken (P : Primitives D) (st : State D) (r : TokenCall) : State D × TokenOutcome :=
  match readToken r with
  | .error e => (st, .refused e)
  | .ok (req, jkt) =>
    if req.grantType = grantTypePreAuthorizedCode then (st, .dispatched req)
    else match admitClient r req jkt with
      | .error e => (st, .refused e)
      | .ok c =>
        if req.grantType = "authorization_code" then
          let i := redeemCode P st.codes r req c jkt
          ({ st with codes := i.1 }, i.2)
        else (st, .dispatched req)

inductive Action where
  | push (r : PushCall)
  | authorize (r : AuthorizeCall)
  | token (r : TokenCall)

inductive Outcome where
  | pushed (answer : Except TokenError String)
  | authorized (outcome : AuthorizeOutcome)
  | answered (outcome : TokenOutcome)

def handle (P : Primitives D) (st : State D) : Action → State D × Outcome
  | .push r =>
    let i := handlePAR P st.pushed r
    ({ st with pushed := i.1 }, .pushed i.2)
  | .authorize r =>
    let i := handleAuthorize P st r
    (i.1, .authorized i.2)
  | .token r =>
    let i := handleToken P st r
    (i.1, .answered i.2)

/-- One request served. -/
def Step (P : Primitives D) (st : State D) (x : Action × Outcome) (st' : State D) : Prop :=
  handle P st x.1 = (st', x.2)

theorem step_of_outcome {P : Primitives D} {st : State D} {a : Action} {o : Outcome}
    (h : (handle P st a).2 = o) : Step P st (a, o) (handle P st a).1 :=
  Prod.ext rfl h

section

variable {P : Primitives D} {st : State D}

omit [DecidableEq D]

theorem withDetails_ok {r : AuthorizeCall} {c : Client} {req areq : AuthzRequest}
    (h : withDetails r c req = .ok areq) :
    ∃ ds, areq = { req with authorizationDetails := ds } := by
  unfold withDetails at h
  split_ifs at h
  · cases hd : r.parseDetails c req.rawAuthorizationDetails with
    | error e => simp [hd, Except.map] at h
    | ok ds =>
      simp only [hd, Except.map, Except.ok.injEq] at h
      exact ⟨ds, h.symm⟩
  · simp only [Except.ok.injEq] at h
    exact ⟨req.authorizationDetails, h.symm⟩

theorem admitParams_ok {r : AuthorizeCall} {q : Values} {areq : AuthzRequest} {c : Client} :
    admitParams P r q = .ok (areq, c) ↔
      validateAuthz P.parseURL (parseAuthz q)
        (lookupClient r.registry (parseAuthz q).clientID) = .ok c ∧
      withDetails r c (parseAuthz q) = .ok areq ∧
      ¬(get q "request_uri" = "" ∧ r.requirePushed c.clientID = some true) := by
  simp only [admitParams, pushGate, bind_ok, mapError_ok, refuseIf_ok, Except.ok.injEq,
    Prod.mk.injEq]
  constructor
  · rintro ⟨d, hvalid, req, hdetails, _, hgate, rfl, rfl⟩
    exact ⟨hvalid, hdetails, hgate⟩
  · rintro ⟨hvalid, hdetails, hgate⟩
    exact ⟨c, hvalid, areq, hdetails, (), hgate, rfl, rfl⟩

theorem admitParams_client {r : AuthorizeCall} {q : Values} {areq : AuthzRequest} {c : Client}
    (h : admitParams P r q = .ok (areq, c)) : c.clientID = areq.clientID := by
  obtain ⟨hvalid, hdetails, _⟩ := admitParams_ok.mp h
  obtain ⟨ds, rfl⟩ := withDetails_ok hdetails
  exact lookupClient_clientID (validateAuthz_ok hvalid).1

end

variable {P : Primitives D} {st : State D}

theorem admitRequest_ok {pushed : PushedTable D} {r : AuthorizeCall} {x : AuthzRequest × Client}
    (h : (admitRequest P pushed r).2 = .ok x) :
    ∃ query q, authorizeParams r = .ok query ∧ refuseDuplicateParams query = .ok () ∧
      (effectiveParams P pushed query r.now).2 = .ok q ∧ admitParams P r q = .ok x := by
  unfold admitRequest at h
  cases hquery : authorizeParams r with
  | error e => simp [hquery] at h
  | ok query =>
    cases hdup : refuseDuplicateParams query with
    | error e => simp [hquery, hdup] at h
    | ok u =>
      simp only [hquery, hdup, bind_ok, mapError_ok] at h
      obtain ⟨q, hq, hadmitted⟩ := h
      exact ⟨query, q, rfl, hdup, hq, hadmitted⟩

theorem issueCodeAndRedirect_cases (P : Primitives D) (codes : CodeTable D)
    (r : AuthorizeCall) (req : AuthzRequest) (c : Client) (v : SessionView) :
    issueCodeAndRedirect P codes r req c v = (codes, .unavailable) ∨
    ∃ orgID userID, codes (P.hashToken r.code) = none ∧
      issueCodeAndRedirect P codes r req c v =
        (update codes (P.hashToken r.code) (some (codeRow orgID c.clientID v.sid userID
          (grantRecord r req c) req.resources req.authorizationDetails)),
          .issued req r.code (responseParams P r req)) := by
  unfold issueCodeAndRedirect
  cases v.row with
  | none => exact .inl rfl
  | some ids =>
    obtain ⟨orgID, userID⟩ := ids
    dsimp only
    cases hissue : issueCode codes (P.hashToken r.code) (codeRow orgID c.clientID v.sid userID
        (grantRecord r req c) req.resources req.authorizationDetails) with
    | none => exact .inl rfl
    | some codes' =>
      obtain ⟨hfresh, rfl⟩ := issueCode_eq_some hissue
      cases hcommit : r.committed with
      | false => exact .inl (by simp)
      | true => exact .inr ⟨orgID, userID, hfresh, by simp⟩

theorem handleAuthorize_codes (P : Primitives D) (st : State D) (r : AuthorizeCall) :
    ((handleAuthorize P st r).1.codes = st.codes ∧
      ∀ areq code response, (handleAuthorize P st r).2 ≠ .issued areq code response) ∨
    ∃ areq c sid orgID userID, (admitRequest P st.pushed r).2 = .ok (areq, c) ∧
      st.codes (P.hashToken r.code) = none ∧
      (handleAuthorize P st r).1.codes = update st.codes (P.hashToken r.code)
        (some (codeRow orgID c.clientID sid userID (grantRecord r areq c) areq.resources
          areq.authorizationDetails)) ∧
      (handleAuthorize P st r).2 = .issued areq r.code (responseParams P r areq) := by
  unfold handleAuthorize
  dsimp only
  cases hready : (admitRequest P st.pushed r).2 >>= checkSubject r with
  | error d => exact .inl ⟨rfl, by simp⟩
  | ok x =>
    obtain ⟨areq, c, v⟩ := x
    have hadmitted : (admitRequest P st.pushed r).2 = .ok (areq, c) := by
      simp only [checkSubject, bind_ok, Except.ok.injEq, Prod.mk.injEq] at hready
      obtain ⟨x, hx, _, _, _, _, rfl, rfl, rfl⟩ := hready
      exact hx
    dsimp only
    obtain hi | ⟨orgID, userID, hfresh, hi⟩ := issueCodeAndRedirect_cases P st.codes r areq c v
    · rw [hi]
      exact .inl ⟨rfl, by simp⟩
    · rw [hi]
      exact .inr ⟨areq, c, v.sid, orgID, userID, hadmitted, hfresh, rfl, rfl⟩

theorem handleAuthorize_pushed (P : Primitives D) (st : State D) (r : AuthorizeCall) :
    (handleAuthorize P st r).1.pushed = (admitRequest P st.pushed r).1 := by
  unfold handleAuthorize
  dsimp only
  cases (admitRequest P st.pushed r).2 >>= checkSubject r <;> rfl

theorem redeemCode_codes (P : Primitives D) (codes : CodeTable D) (r : TokenCall)
    (req : TokenRequest) (c : Client) (jkt : String) :
    (redeemCode P codes r req c jkt).1 = codes ∨
    ∃ row, codes (P.hashToken req.code) = some row ∧
      (redeemCode P codes r req c jkt).1 = update codes (P.hashToken req.code)
        (some { row with consumedAt := some r.now }) := by
  unfold redeemCode
  cases hconsume : consumeCode codes (P.hashToken req.code) r.now with
  | error e => cases e <;> exact .inl rfl
  | ok x =>
    obtain ⟨code, codes'⟩ := x
    obtain ⟨row, hrow, rfl, rfl⟩ := consumeCode_ok hconsume
    dsimp only
    cases validateCodeRedemption P.challengeOf req (some c)
        (some row.consumed.toGrantRecord) jkt r.now with
    | error e => exact .inr ⟨row, hrow, rfl⟩
    | ok u =>
      dsimp only
      match r.vetoed with
      | .error () => exact .inl rfl
      | .ok true => exact .inr ⟨row, hrow, rfl⟩
      | .ok false =>
        cases r.minted with
        | false => exact .inl (by simp)
        | true => exact .inr ⟨row, hrow, by simp⟩

theorem redeemCode_redeemed {P : Primitives D} {codes : CodeTable D} {r : TokenCall}
    {req req' : TokenRequest} {c : Client} {jkt jkt' : String} {code : ConsumedCode} :
    (redeemCode P codes r req c jkt).2 = .redeemed req' jkt' code ↔
      req' = req ∧ jkt' = jkt ∧ r.vetoed = .ok false ∧ r.minted = true ∧
        ∃ codes', consumeCode codes (P.hashToken req.code) r.now = .ok (code, codes') ∧
          validateCodeRedemption P.challengeOf req (some c) (some code.toGrantRecord) jkt r.now =
            .ok () := by
  unfold redeemCode
  cases hconsume : consumeCode codes (P.hashToken req.code) r.now with
  | error e => cases e <;> simp
  | ok x =>
    obtain ⟨consumed, codes'⟩ := x
    simp only [Except.ok.injEq, Prod.mk.injEq]
    cases hvalid : validateCodeRedemption P.challengeOf req (some c)
        (some consumed.toGrantRecord) jkt r.now with
    | error e =>
      simp only [reduceCtorEq, false_iff]
      intro h
      obtain ⟨_, _, _, _, _, ⟨rfl, _⟩, hok⟩ := h
      simp [hvalid] at hok
    | ok u =>
      cases hveto : r.vetoed with
      | error u => simp
      | ok b =>
        cases b with
        | true => simp
        | false =>
          by_cases hminted : r.minted = true
          · rw [if_pos hminted, TokenOutcome.redeemed.injEq]
            constructor
            · intro h
              obtain ⟨rfl, rfl, rfl⟩ := h
              exact ⟨rfl, rfl, rfl, hminted, codes', ⟨rfl, rfl⟩, hvalid⟩
            · intro h
              obtain ⟨rfl, rfl, _, _, _, ⟨rfl, _⟩, _⟩ := h
              exact ⟨rfl, rfl, rfl⟩
          · simp [hminted]

theorem handleToken_redeemed {P : Primitives D} {st : State D} {r : TokenCall}
    {req : TokenRequest} {jkt : String} {code : ConsumedCode} :
    (handleToken P st r).2 = .redeemed req jkt code ↔
      readToken r = .ok (req, jkt) ∧ req.grantType = "authorization_code" ∧
        ∃ c, admitClient r req jkt = .ok c ∧
          (redeemCode P st.codes r req c jkt).2 = .redeemed req jkt code := by
  have hother : grantTypePreAuthorizedCode ≠ "authorization_code" := by decide
  unfold handleToken
  constructor
  · intro h
    cases hread : readToken r with
    | error e => simp [hread] at h
    | ok x =>
      obtain ⟨req₀, jkt₀⟩ := x
      by_cases hpre : req₀.grantType = grantTypePreAuthorizedCode
      · simp [hread, hpre] at h
      · cases hclient : admitClient r req₀ jkt₀ with
        | error e => simp [hread, hpre, hclient] at h
        | ok c =>
          by_cases hcode : req₀.grantType = "authorization_code"
          · simp only [hread, if_neg hpre, hclient, if_pos hcode] at h
            obtain ⟨rfl, rfl, _⟩ := redeemCode_redeemed.mp h
            exact ⟨rfl, hcode, c, hclient, h⟩
          · simp [hread, hpre, hclient, hcode] at h
  · intro h
    obtain ⟨hread, hcode, c, hclient, h⟩ := h
    have hpre : req.grantType ≠ grantTypePreAuthorizedCode := by
      rw [hcode]
      exact hother.symm
    simp only [hread, if_neg hpre, hclient, if_pos hcode]
    exact h

theorem handleToken_codes (P : Primitives D) (st : State D) (r : TokenCall) :
    (handleToken P st r).1 = st ∨
    ∃ hash row, st.codes hash = some row ∧ (handleToken P st r).1 = ⟨update st.codes hash
      (some { row with consumedAt := some r.now }), st.pushed⟩ := by
  unfold handleToken
  cases readToken r with
  | error e => exact .inl rfl
  | ok x =>
    obtain ⟨req, jkt⟩ := x
    dsimp only
    by_cases hpre : req.grantType = grantTypePreAuthorizedCode
    · rw [if_pos hpre]
      exact .inl rfl
    · rw [if_neg hpre]
      cases admitClient r req jkt with
      | error e => exact .inl rfl
      | ok c =>
        dsimp only
        by_cases hcode : req.grantType = "authorization_code"
        · rw [if_pos hcode]
          obtain hcodes | ⟨row, hrow, hcodes⟩ := redeemCode_codes P st.codes r req c jkt
          · exact .inl (by rw [hcodes])
          · exact .inr ⟨P.hashToken req.code, row, hrow, by rw [hcodes]⟩
        · rw [if_neg hcode]
          exact .inl rfl

end Signari.AuthorizeEndpoint
