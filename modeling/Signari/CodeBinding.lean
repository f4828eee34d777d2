import Signari.AuthorizeEndpoint
import Signari.HistoryTables

/-!
# What an authorization code is bound to

A binding travels from the parameters to the parsed request, the grant, the row and back.

The thumbprint of `dpop_jkt` is lost on the way: the grant is filled in without it, so
the column is always null and its check never runs. A code is therefore redeemed with one
proof as with any other, and `redemption_bound_iff` says that a redemption is bound to
everything its authorization request named exactly when that request named no key.
-/
namespace Signari.CodeBinding
open IndexedChecks UrlValues OAuthClients TokenRequests AuthorizeRequest AuthorizationCodes
open PushedRequests AuthorizeEndpoint LabelledRuns HistoryTables

variable {D : Type} [DecidableEq D] {P : Primitives D} {st st' : State D}

/-- The request answers to everything the authorization request named. -/
structure Bound (challengeOf : String → String) (areq : AuthzRequest) (req : TokenRequest)
    (jkt : String) : Prop where
  client : req.clientID = areq.clientID
  redirectURI : req.redirectURI = areq.redirectURI ∨ req.redirectURI = "" ∧ areq.codeChallenge ≠ ""
  verifier : areq.codeChallenge ≠ "" → verifyPKCE challengeOf areq.codeChallengeMethod
    areq.codeChallenge req.codeVerifier = .ok ()
  noVerifier : areq.codeChallenge = "" → req.codeVerifier = ""
  key : areq.dpopJKT ≠ "" → jkt = areq.dpopJKT

/-- The observation of a code stored under `hash` for a request. -/
def Issues (P : Primitives D) (x : Action × Outcome) (hash : D) (areq : AuthzRequest) : Prop :=
  ∃ r code response, x = (.authorize r, .authorized (.issued areq code response)) ∧
    P.hashToken code = hash

/-- What a row keeps of the request it was written for. -/
structure Carries (row : CodeRow) (areq : AuthzRequest) : Prop where
  client : row.clientID = areq.clientID
  redirectURI : row.redirectURI = areq.redirectURI
  challenge : row.codeChallenge = nullIfEmpty areq.codeChallenge
  method : row.codeChallengeMethod = nullIfEmpty areq.codeChallengeMethod
  key : row.dpopJKT = none

variable {xs : List (Action × Outcome)} {x : Action × Outcome}

omit [DecidableEq D] in
theorem issues_authorized {r : AuthorizeCall} {o : AuthorizeOutcome} {hash : D}
    {areq : AuthzRequest} (h : Issues P (.authorize r, .authorized o) hash areq) :
    ∃ code response, o = .issued areq code response ∧ P.hashToken code = hash := by
  obtain ⟨r', code, response, hx, hhash⟩ := h
  simp only [Prod.mk.injEq, Outcome.authorized.injEq] at hx
  exact ⟨code, response, hx.2, hhash⟩

theorem carries_codeRow {r : AuthorizeCall} {areq : AuthzRequest} {c : Client}
    (h : c.clientID = areq.clientID) (orgID sid userID : String) :
    Carries (codeRow orgID c.clientID sid userID (grantRecord r areq c) areq.resources
      areq.authorizationDetails) areq where
  client := h
  redirectURI := rfl
  challenge := rfl
  method := rfl
  key := rfl

theorem admitRequest_client {pushed : PushedTable D} {r : AuthorizeCall} {areq : AuthzRequest}
    {c : Client} (h : (admitRequest P pushed r).2 = .ok (areq, c)) :
    c.clientID = areq.clientID := by
  obtain ⟨_, _, _, _, _, hadmitted⟩ := admitRequest_ok h
  exact admitParams_client hadmitted

theorem recorded_authorize (h : Recorded (Issues P) Carries xs st.codes) (r : AuthorizeCall) :
    Recorded (Issues P) Carries (xs ++ [(.authorize r, .authorized (handleAuthorize P st r).2)])
      (handleAuthorize P st r).1.codes := by
  obtain ⟨hcodes, hnone⟩ | ⟨areq, c, sid, orgID, userID, hadmitted, hfresh, hcodes, hout⟩ :=
    handleAuthorize_codes P st r
  · refine h.frame (fun hash => .inl (by rw [hcodes])) ?_
    intro hash areq hissue
    obtain ⟨code, response, ho, _⟩ := issues_authorized hissue
    exact hnone areq code response ho
  · rw [hcodes, hout]
    refine h.insert hfresh ?_ (carries_codeRow (admitRequest_client hadmitted) orgID sid userID)
    intro hash areq'
    constructor
    · intro hissue
      obtain ⟨code, response, ho, hhash⟩ := issues_authorized hissue
      rw [AuthorizeOutcome.issued.injEq] at ho
      obtain ⟨rfl, rfl, _⟩ := ho
      exact ⟨hhash.symm, rfl⟩
    · rintro ⟨rfl, rfl⟩
      exact ⟨r, r.code, _, rfl, rfl⟩

theorem recorded_step (h : Recorded (Issues P) Carries xs st.codes) (hstep : Step P st x st') :
    Recorded (Issues P) Carries (xs ++ [x]) st'.codes := by
  obtain ⟨a, o⟩ := x
  cases a with
  | push r =>
    simp only [Step, handle, Prod.mk.injEq] at hstep
    obtain ⟨rfl, rfl⟩ := hstep
    refine h.frame (fun hash => .inl rfl) ?_
    rintro hash areq ⟨r', code, response, hx, _⟩
    simp at hx
  | authorize r =>
    simp only [Step, handle, Prod.mk.injEq] at hstep
    obtain ⟨rfl, rfl⟩ := hstep
    exact recorded_authorize h r
  | token r =>
    simp only [Step, handle, Prod.mk.injEq] at hstep
    obtain ⟨rfl, rfl⟩ := hstep
    refine h.frame ?_ ?_
    · intro hash
      obtain hst | ⟨spent, row, hrow, hst⟩ := handleToken_codes P st r
      · exact .inl (by rw [hst])
      · rw [hst]
        by_cases hh : hash = spent
        · subst hh
          exact .inr ⟨row, _, hrow, Function.update_self .., fun _ hc =>
            ⟨hc.client, hc.redirectURI, hc.challenge, hc.method, hc.key⟩⟩
        · exact .inl (Function.update_of_ne hh ..)
    · rintro hash areq ⟨r', code, response, hx, _⟩
      simp at hx

theorem recorded_run (h : Run (Step P) {} xs st) : Recorded (Issues P) Carries xs st.codes :=
  h.invariant (I := fun ys s => Recorded (Issues P) Carries ys s.codes) .empty
    fun hI hstep => recorded_step hI hstep

omit [DecidableEq D] in
/-- What passed against the row passed against the request, apart from the key. -/
theorem Carries.bound {challengeOf : String → String} {row : CodeRow} {areq : AuthzRequest}
    {req : TokenRequest} {jkt : String} (h : Carries row areq)
    (hok : Redeems challengeOf req jkt row.consumed.toGrantRecord) (hkey : areq.dpopJKT = "") :
    Bound challengeOf areq req jkt := by
  have hchallenge : row.consumed.codeChallenge = areq.codeChallenge := by
    simp [CodeRow.consumed, h.challenge]
  have hmethod : row.consumed.codeChallengeMethod = areq.codeChallengeMethod := by
    simp [CodeRow.consumed, h.method]
  have huri : row.consumed.redirectURI = areq.redirectURI := h.redirectURI
  have hclient : row.consumed.clientID = areq.clientID := h.client
  obtain ⟨hc, hr, hv, hn, _⟩ := hok
  rw [hclient] at hc
  rw [huri, hchallenge] at hr
  rw [hchallenge, hmethod] at hv
  rw [hchallenge] at hn
  exact ⟨hc, hr, hv, hn, fun hne => absurd hkey hne⟩

section
variable {r : TokenCall} {req : TokenRequest} {jkt : String} {code : ConsumedCode}

theorem redeemed_issued (hrun : Run (Step P) {} xs st)
    (h : (handleToken P st r).2 = .redeemed req jkt code) :
    ∃ row, code = row.consumed ∧ Redeems P.challengeOf req jkt row.consumed.toGrantRecord ∧
      (∃ y ∈ xs, ∃ areq, Issues P y (P.hashToken req.code) areq) ∧
      ∀ y ∈ xs, ∀ areq, Issues P y (P.hashToken req.code) areq → Carries row areq := by
  have hrec := recorded_run hrun
  obtain ⟨_, _, c, _, hredeem⟩ := handleToken_redeemed.mp h
  obtain ⟨_, _, _, _, codes', hconsume, hvalid⟩ := redeemCode_redeemed.mp hredeem
  obtain ⟨row, hrow, rfl, _⟩ := consumeCode_ok hconsume
  obtain ⟨y, hy, areq, hissue, _⟩ := hrec.written _ _ hrow
  refine ⟨row, rfl, validateCodeRedemption_ok hvalid, ⟨y, hy, areq, hissue⟩, ?_⟩
  intro z hz areq' hissue'
  obtain ⟨row', hrow', hcarries⟩ := hrec.kept z hz _ areq' hissue'
  rw [hrow, Option.some.injEq] at hrow'
  rw [hrow']
  exact hcarries

/-- The same request with a proof of another key. -/
def withProof (r : TokenCall) (jkt : String) : TokenCall := { r with proof := .ok jkt }

theorem readToken_withProof (h : readToken r = .ok (req, jkt)) (k : String) :
    readToken (withProof r k) = .ok (req, k) := by
  simp only [readToken, withProof, bind_ok, mapError_ok] at h ⊢
  obtain ⟨jkt', _, h⟩ := h
  refine ⟨k, rfl, ?_⟩
  cases hform : r.form with
  | none => simp [hform] at h
  | some form =>
    simp only [hform, bind_ok, Except.ok.injEq, Prod.mk.injEq] at h ⊢
    obtain ⟨_, hdup, req', hparse, _, hgrant, rfl, _⟩ := h
    exact ⟨_, hdup, req', hparse, _, hgrant, rfl, trivial⟩

theorem admitClient_withProof {c : Client} (h : admitClient r req jkt = .ok c) {k : String}
    (hk : k ≠ "") : admitClient (withProof r k) req k = .ok c := by
  simp only [admitClient, withProof, bind_ok] at h ⊢
  obtain ⟨c', hknown, _, hauth, h⟩ := h
  refine ⟨c', hknown, _, hauth, ?_⟩
  have hproof : ¬(c'.dpopBoundAccessTokens = true ∧ k = "") := fun hne => hk hne.2
  by_cases htype : c'.type = .confidentialClient
  · simp only [if_pos htype, seq_ok, refuseIf_ok] at h ⊢
    exact ⟨h.1, hproof, h.2.2⟩
  · simp only [if_neg htype, seq_ok, refuseIf_ok] at h ⊢
    exact ⟨h.1, hproof, h.2.2⟩

theorem redeemCode_withProof {c : Client} {codes : CodeTable D}
    (h : (redeemCode P codes r req c jkt).2 = .redeemed req jkt code) (hcode : code.dpopJKT = "")
    (k : String) : (redeemCode P codes (withProof r k) req c k).2 = .redeemed req k code := by
  obtain ⟨_, _, hveto, hminted, codes', hconsume, hvalid⟩ := redeemCode_redeemed.mp h
  refine redeemCode_redeemed.mpr ⟨rfl, rfl, hveto, hminted, codes', hconsume, ?_⟩
  exact (validateCodeRedemption_unkeyed hcode).trans hvalid

theorem handleToken_withProof (h : (handleToken P st r).2 = .redeemed req jkt code)
    (hcode : code.dpopJKT = "") {k : String} (hk : k ≠ "") :
    (handleToken P st (withProof r k)).2 = .redeemed req k code := by
  obtain ⟨hread, hgrant, c, hclient, hredeem⟩ := handleToken_redeemed.mp h
  exact handleToken_redeemed.mpr ⟨readToken_withProof hread k, hgrant, c,
    admitClient_withProof hclient hk, redeemCode_withProof hredeem hcode k⟩

def BoundWithAnyProof (P : Primitives D) (st : State D) (r : TokenCall) (req : TokenRequest)
    (areq : AuthzRequest) : Prop :=
  ∀ k code, (handleToken P st (withProof r k)).2 = .redeemed req k code →
    Bound P.challengeOf areq req k

def someKey : String := "0ZcOCORZNYy-DWpqq30jZyJGHTN0d2HglBV3uiguA4I"

def otherKey : String := "cn-I_WNMClehiVp51i_0VpOENW1upEerA8sEam5hn-s"

/-- After every run, the code of a request that is redeemed was issued for one authorization
request, and redemption is bound to all that this one named exactly if it named no key. -/
theorem redemption_bound_iff (hrun : Run (Step P) {} xs st)
    (h : (handleToken P st r).2 = .redeemed req jkt code) :
    (∃ y ∈ xs, ∃ areq, Issues P y (P.hashToken req.code) areq) ∧
      ∀ y ∈ xs, ∀ areq, Issues P y (P.hashToken req.code) areq →
        (BoundWithAnyProof P st r req areq ↔ areq.dpopJKT = "") := by
  obtain ⟨row, hcode, _, hex, hcarries⟩ := redeemed_issued hrun h
  refine ⟨hex, ?_⟩
  intro y hy areq hissue
  constructor
  · intro hbound
    have hrow : code.dpopJKT = "" := by
      rw [hcode, CodeRow.consumed, (hcarries y hy areq hissue).key, Option.getD_none]
    have hsome := hbound someKey code (handleToken_withProof h hrow (by decide))
    have hother := hbound otherKey code (handleToken_withProof h hrow (by decide))
    by_contra hkey
    have hsame : someKey = otherKey := (hsome.key hkey).trans (hother.key hkey).symm
    exact absurd hsame (by decide)
  · intro hkey k code' hredeem
    obtain ⟨row', _, hok, _, hcarries'⟩ := redeemed_issued hrun hredeem
    exact (hcarries' y hy areq hissue).bound hok hkey

end

def app : Client where
  clientID := "app"
  type := .publicClient
  scopes := ["openid"]
  redirectURIs := ["https://app/cb"]

def appQuery (jkt : String) : Values :=
  [("client_id", "app"), ("redirect_uri", "https://app/cb"), ("response_type", "code"),
    ("scope", "openid"), ("code_challenge", "E9Melhoa2OwvFrEMTJguCHaoeK1t8URWbuGJSstw-cM"),
    ("code_challenge_method", "S256"), ("dpop_jkt", jkt)]

def authorizeApp (jkt : String) : AuthorizeCall where
  urlQuery := appQuery jkt
  registry := [app]
  requirePushed _ := some false
  parseDetails _ _ := .ok []
  session := .ok (some ⟨"s1", some (some 0, ["pwd"]), none, some "u1", some ("o1", "u1")⟩)
  code := "c1"
  now := 0

def redeemApp : TokenCall where
  form := some [("grant_type", "authorization_code"), ("code", "c1"), ("client_id", "app"),
    ("code_verifier", "dBjftJeZ4CVP-mB92K27uhbUJU1p1r_wW1gFWFOEjXk")]
  registry := [app]
  now := 1

def redeemRequest : TokenRequest where
  grantType := "authorization_code"
  code := "c1"
  codeVerifier := "dBjftJeZ4CVP-mB92K27uhbUJU1p1r_wW1gFWFOEjXk"
  clientID := "app"

def redeemedCode : ConsumedCode where
  clientID := "app"
  redirectURI := "https://app/cb"
  codeChallenge := "E9Melhoa2OwvFrEMTJguCHaoeK1t8URWbuGJSstw-cM"
  codeChallengeMethod := "S256"
  scopes := ["openid"]
  expiresAt := 60000000000
  orgID := "o1"
  sessionID := "s1"
  userID := "u1"
  resources := []
  details := []

def issuedApp (jkt : String) : Action × Outcome :=
  (.authorize (authorizeApp jkt), .authorized (.issued (parseAuthz (appQuery jkt)) "c1"
    (some ⟨"c1", "", "", "https://idp"⟩)))

def redeemedApp : Action × Outcome :=
  (.token redeemApp, .answered (.redeemed redeemRequest "" redeemedCode))

def issuedState (jkt : String) : State String :=
  (handle standIn {} (.authorize (authorizeApp jkt))).1

def redeemedState (jkt : String) : State String :=
  (handle standIn (issuedState jkt) (.token redeemApp)).1

theorem redemption_bound_iff_app :
    (∃ y ∈ [issuedApp ""], ∃ areq, Issues standIn y (standIn.hashToken redeemRequest.code) areq) ∧
      ∀ y ∈ [issuedApp ""], ∀ areq,
        Issues standIn y (standIn.hashToken redeemRequest.code) areq →
          (BoundWithAnyProof standIn (issuedState "") redeemApp redeemRequest areq ↔
            areq.dpopJKT = "") := by
  have hissue : Step standIn {} (issuedApp "") (issuedState "") := step_of_outcome (by rfl)
  have hrun : Run (Step standIn) {} [issuedApp ""] (issuedState "") := .snoc .nil hissue
  have hredeem : (handleToken standIn (issuedState "") redeemApp).2 =
      .redeemed redeemRequest "" redeemedCode := by rfl
  exact redemption_bound_iff hrun hredeem

/-- A request that names a key gets a code that is redeemed without any proof. -/
theorem keyed_redemption_unbound :
    Run (Step standIn) {} ([issuedApp someKey] ++ redeemedApp :: []) (redeemedState someKey) ∧
      Issues standIn (issuedApp someKey) (standIn.hashToken redeemRequest.code)
        (parseAuthz (appQuery someKey)) ∧
      ¬Bound standIn.challengeOf (parseAuthz (appQuery someKey)) redeemRequest "" := by
  have hissue : Step standIn {} (issuedApp someKey) (issuedState someKey) :=
    step_of_outcome (by rfl)
  have hredeem : Step standIn (issuedState someKey) redeemedApp (redeemedState someKey) :=
    step_of_outcome (by rfl)
  refine ⟨.snoc (.snoc .nil hissue) hredeem, ⟨_, _, _, rfl, rfl⟩, ?_⟩
  intro h
  exact absurd (h.key (by decide)) (by decide)

end Signari.CodeBinding
