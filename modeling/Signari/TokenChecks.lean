import Signari.TokenExchange
import Signari.TokenMinting

/-!
# Where an access token is checked

Every place that asks the database whether an access token still stands: introspection
(`internal/httpapi/tokenadmin.go`), the userinfo endpoint (`internal/httpapi/userinfo.go`) and the
subject and actor tokens of an exchange, with the lookups of `internal/store/revocation.go` and
`IsSessionLive`. Any lookup may fail, which `up` decides; a lookup that fails is `none`, and every
check then refuses.

What all of the checks have in common is `Stands`: the token verifies, its grant and its own
identifier are not revoked, and its session, if it names one, is live.
-/
namespace Signari.TokenChecks
open GoStrings GoTime IndexedChecks JsonValues OAuthClients AccessTokens TokenExchange
open RefreshTokens TokenMinting

/-- The rows the lookups read. A revoked identifier is kept until its token's expiry. -/
structure Tables where
  families : String → Option FamilyRow := fun _ => none
  revokedJTIs : String → Option ℤ := fun _ => none
  sessions : String → Option SessionRow := fun _ => none
  activeUsers : String → Bool := fun _ => false

inductive Lookup where
  | grant | jti | session | user

/-- `GrantRevoked`: no grant cannot be revoked, and a family that is gone is. -/
def grantRevoked (db : Tables) (up : Lookup → Bool) (grantID : String) : Option Bool :=
  if grantID = "" then some false
  else if up .grant = false then none
  else match db.families grantID with
    | none => some true
    | some fam => some fam.revokedAt.isSome

/-- `JTIRevoked`. A token without an identifier is an error. -/
def jtiRevoked (db : Tables) (up : Lookup → Bool) (jti : String) : Option Bool :=
  if jti = "" then none
  else if up .jti = false then none
  else some (db.revokedJTIs jti).isSome

def SessionRow.live (s : SessionRow) (now : ℤ) : Bool :=
  s.revokedAt.isNone && decide (now < s.notAfter)

/-- `SessionLive`. -/
def sessionLive (db : Tables) (up : Lookup → Bool) (now : ℤ) (sid : String) : Option Bool :=
  if sid = "" then some false
  else if up .session = false then none
  else match db.sessions sid with
    | none => some false
    | some s => some (SessionRow.live s now)

/-- `IsSessionLive`, which also asks for the user; no row is an error here. -/
def isSessionLive (db : Tables) (up : Lookup → Bool) (now : ℤ) (sid : String) : Option Bool :=
  if up .session = false then none
  else (db.sessions sid).map fun s => SessionRow.live s now && db.activeUsers s.userID

/-- What is fixed for the server: its keys, its names and two library functions. -/
structure Server where
  payload : String → Option AccessTokenClaims
  issuer : String
  issuerAliases : List String := []
  parseURL : String → Option ParsedURL
  unmarshal : String → Except String Json

/-- `VerifyAccessTokenAny` with the accepted issuers. -/
def Server.verify (srv : Server) (now : ℤ) (raw : String) : Except String AccessTokenClaims :=
  verifyAccessTokenAny srv.payload (srv.issuer :: srv.issuerAliases) now raw

/-- What one exchange request finds. -/
def Server.exchangeEnv (srv : Server) (db : Tables) (up : Lookup → Bool) (now : ℤ)
    (dpopThumbprint : String) (activeKey : Bool) (newSID : Option String) : ExchangeEnv where
  payload := srv.payload
  issuer := srv.issuer
  issuerAliases := srv.issuerAliases
  now := now
  dpopThumbprint := dpopThumbprint
  grantRevoked := grantRevoked db up
  jtiRevoked := jtiRevoked db up
  sessionLive := sessionLive db up now
  activeKey := activeKey
  newSID := newSID
  parseURL := srv.parseURL
  unmarshal := srv.unmarshal

structure IntrospectionResponse where
  active : Bool
  scope : String := ""
  clientID : String := ""
  tokenType : String := ""
  expiry : ℤ := 0
  issuedAt : ℤ := 0
  subject : String := ""
  audience : List String := []
  issuer : String := ""
  jti : String := ""
  sessionID : String := ""
  authorizationDetails : List RichDetails.Detail := []
  cnf : Option Confirmation := none

def inactive : IntrospectionResponse := { active := false }

def boundKey (cnf : Option Confirmation) : String := cnf.elim "" Confirmation.jkt

def introspectedTokenType (cnf : Option Confirmation) : String :=
  if boundKey cnf ≠ "" then "DPoP" else "Bearer"

def activeResponse (issuer : String) (t : AccessTokenClaims) : IntrospectionResponse where
  active := true
  scope := t.scope
  clientID := t.clientID
  tokenType := introspectedTokenType t.cnf
  expiry := t.expiry
  issuedAt := t.issuedAt
  subject := t.subject
  audience := t.audience
  issuer := issuer
  jti := t.jti
  sessionID := t.sessionID
  authorizationDetails := t.authorizationDetails
  cnf := t.cnf

/-- `none` when the text is not one of our access tokens; it is then tried as a refresh token. -/
def introspectAccessToken (srv : Server) (db : Tables) (up : Lookup → Bool) (now : ℤ) (c : Client)
    (raw : String) : Option IntrospectionResponse :=
  match srv.verify now raw with
  | .error _ => none
  | .ok t => some (
      if t.clientID ≠ c.clientID ∧ audienceIncludes t.audience c.clientID = false then inactive
      else if t.expiry * nanosPerSecond < now then inactive
      else if grantRevoked db up t.grantID ≠ some false then inactive
      else if jtiRevoked db up t.jti ≠ some false then inactive
      else if t.sessionID ≠ "" ∧ sessionLive db up now t.sessionID ≠ some true then inactive
      else activeResponse srv.issuer t)

def audienceAccepted (t : AccessTokenClaims) (issuer : String) : Bool :=
  t.audience.any fun a => a == t.clientID || a == issuer

def hasScope (scope want : String) : Bool := want != "" && (fields scope).contains want

/-- How a token was presented: the scheme of the header, and the proof that came with it. -/
structure Presentation where
  scheme : String
  proof : Except String String

structure UserInfoRefusal where
  status : ℕ
  error : String
  description : String

def invalidToken (description : String) : UserInfoRefusal := ⟨401, "invalid_token", description⟩

def checkPresentation (bound : Bool) (scheme : String) : Except String Unit :=
  if bound = true ∧ scheme = "Bearer" then
    .error "this access token is sender-constrained and must be presented with the DPoP scheme"
  else if bound = false ∧ scheme = "DPoP" then
    .error "the DPoP scheme requires a sender-constrained access token"
  else .ok ()

def checkBoundKey (jkt : String) (proof : Except String String) : Except UserInfoRefusal Unit :=
  if jkt = "" then .ok ()
  else match proof with
    | .error _ => .error (invalidToken
        "the access token is sender-constrained and the DPoP proof did not match")
    | .ok presented => do
        refuseIf (presented = "") (invalidToken
          "the access token is sender-constrained and the DPoP proof did not match")
        refuseIf (jkt ≠ presented) (invalidToken "this access token is bound to a different key")

def userInfo (srv : Server) (db : Tables) (up : Lookup → Bool) (now : ℤ) (p : Presentation)
    (raw : String) : Except UserInfoRefusal AccessTokenClaims := do
  refuseIf (raw = "") ⟨401, "", ""⟩
  let t ← (srv.verify now raw).mapError fun _ => invalidToken "The access token is invalid"
  refuseIf (audienceAccepted t srv.issuer = false)
    (invalidToken "The access token was issued for a different resource")
  refuseIf (hasScope t.scope "openid" = false) ⟨403, "insufficient_scope", ""⟩
  refuseIf (grantRevoked db up t.grantID ≠ some false)
    (invalidToken "The authorization behind this token has been revoked")
  refuseIf (jtiRevoked db up t.jti ≠ some false) (invalidToken "The access token has been revoked")
  refuseIf (t.sessionID ≠ "" ∧ isSessionLive db up now t.sessionID ≠ some true)
    (invalidToken "The session has ended")
  (checkPresentation (boundKey t.cnf != "") p.scheme).mapError invalidToken
  checkBoundKey (boundKey t.cnf) p.proof
  refuseIf (up .user = false ∨ db.activeUsers t.subject = false)
    (invalidToken "The subject is not active")
  .ok t

def presentedSubject (env : ExchangeEnv) (raw : String) : Except TokenError AccessTokenClaims := do
  let t ← (env.verify raw).mapError fun _ =>
    tokenErr "invalid_grant" "the subject token is not valid"
  (requireSubjectTokenBinding env.dpopThumbprint t).mapError (tokenErr "invalid_dpop_proof")
  checkStanding env "subject" t
  .ok t

def presentedActor (env : ExchangeEnv) (raw : String) : Except TokenError AccessTokenClaims := do
  let t ← (env.verify raw).mapError fun _ =>
    tokenErr "invalid_grant" "the actor token is not valid"
  checkStanding env "actor" t
  .ok t

/-- The places a token can be shown to, with what else comes with it. -/
inductive Inspection where
  | introspection (caller : Client)
  | userInfo (p : Presentation)
  | subject (dpopThumbprint : String)
  | actor

/-- The check treats the text as an active token. -/
def Honours (srv : Server) (db : Tables) (up : Lookup → Bool) (now : ℤ) (raw : String) :
    Inspection → Prop
  | .introspection c =>
    ∃ r, introspectAccessToken srv db up now c raw = some r ∧ r.active = true
  | .userInfo p => ∃ t, userInfo srv db up now p raw = .ok t
  | .subject jkt => ∃ t, presentedSubject (srv.exchangeEnv db up now jkt true none) raw = .ok t
  | .actor => ∃ t, presentedActor (srv.exchangeEnv db up now "" true none) raw = .ok t

/-- The session behind a token, if it names one, has not ended. -/
def SessionStands (db : Tables) (now : ℤ) (sid : String) : Prop :=
  sid ≠ "" → ∃ s, db.sessions sid = some s ∧ SessionRow.live s now = true

/-- The grant a token names, if it names one, is there and not revoked. -/
def GrantStands (db : Tables) (grantID : String) : Prop :=
  grantID ≠ "" → ∃ fam, db.families grantID = some fam ∧ fam.revokedAt = none

/-- What every check asks of the claims of a token that verifies. -/
structure Stands (db : Tables) (now : ℤ) (t : AccessTokenClaims) : Prop where
  grant : GrantStands db t.grantID
  jti : db.revokedJTIs t.jti = none
  session : SessionStands db now t.sessionID

variable {srv : Server} {db : Tables} {up : Lookup → Bool} {now : ℤ} {raw : String}
  {t : AccessTokenClaims}

theorem grantRevoked_false {g : String} :
    grantRevoked db up g = some false ↔ GrantStands db g ∧ (g ≠ "" → up .grant = true) := by
  unfold grantRevoked GrantStands
  by_cases hg : g = ""
  · simp [hg]
  · cases hup : up .grant with
    | false => simp [hg]
    | true => cases hfam : db.families g <;> simp [hg]

theorem jtiRevoked_false {j : String} :
    jtiRevoked db up j = some false ↔ j ≠ "" ∧ up .jti = true ∧ db.revokedJTIs j = none := by
  unfold jtiRevoked
  by_cases hj : j = ""
  · simp [hj]
  · cases hup : up .jti <;> simp [hj]

theorem sessionLive_true {sid : String} (hsid : sid ≠ "") :
    sessionLive db up now sid = some true ↔ up .session = true ∧ SessionStands db now sid := by
  unfold sessionLive SessionStands
  cases hup : up .session with
  | false => simp [hsid]
  | true => cases hs : db.sessions sid <;> simp [hsid]

theorem isSessionLive_true {sid : String} (h : isSessionLive db up now sid = some true) :
    SessionStands db now sid := by
  unfold isSessionLive at h
  intro _
  cases hup : up .session with
  | false => simp [hup] at h
  | true =>
    cases hs : db.sessions sid with
    | none => simp [hup, hs] at h
    | some s =>
      simp only [hup, hs, Bool.true_eq_false, if_false, Option.map_some, Option.some.injEq,
        Bool.and_eq_true] at h
      exact ⟨s, rfl, h.1⟩

theorem verify_jti (h : srv.verify now raw = .ok t) : t.jti ≠ "" := by
  unfold Server.verify verifyAccessTokenAny at h
  cases hp : srv.payload raw with
  | none => simp [hp] at h
  | some c =>
    simp only [hp] at h
    split_ifs at h with _ _ _ _ hjti
    obtain rfl : c = t := by simpa using h
    exact hjti

theorem introspectAccessToken_active {c : Client} {r : IntrospectionResponse}
    (h : introspectAccessToken srv db up now c raw = some r) (hr : r.active = true) :
    ∃ t, srv.verify now raw = .ok t ∧ Stands db now t := by
  unfold introspectAccessToken at h
  cases hv : srv.verify now raw with
  | error e => simp [hv] at h
  | ok t =>
    simp only [hv, Option.some.injEq] at h
    have hne : inactive ≠ r := by
      rintro rfl
      simp [inactive] at hr
    refine ⟨t, rfl, ?_⟩
    split_ifs at h with h₁ h₂ hgrant hjti hsession
    · exact absurd h hne
    · exact absurd h hne
    · exact absurd h hne
    · exact absurd h hne
    · exact absurd h hne
    simp only [ne_eq, not_not] at hgrant hjti
    refine ⟨(grantRevoked_false.mp hgrant).1, (jtiRevoked_false.mp hjti).2.2, ?_⟩
    intro hsid
    exact ((sessionLive_true hsid).mp (not_not.mp fun hne => hsession ⟨hsid, hne⟩)).2 hsid

theorem userInfo_ok {p : Presentation} (h : userInfo srv db up now p raw = .ok t) :
    srv.verify now raw = .ok t ∧ Stands db now t := by
  simp only [userInfo, bind_ok, mapError_ok, refuseIf_ok, Except.ok.injEq] at h
  obtain ⟨_, _, t', hv, _, _, _, _, _, hgrant, _, hjti, _, hsession, _, _, _, _, _, _, rfl⟩ := h
  simp only [ne_eq, not_not] at hgrant hjti
  refine ⟨hv, (grantRevoked_false.mp hgrant).1, (jtiRevoked_false.mp hjti).2.2, ?_⟩
  intro hsid
  exact isSessionLive_true (not_not.mp fun hne => hsession ⟨hsid, hne⟩) hsid

theorem checkStanding_ok {jkt role : String} {key : Bool} {sid : Option String}
    (h : checkStanding (srv.exchangeEnv db up now jkt key sid) role t = .ok ()) :
    Stands db now t := by
  simp only [checkStanding, seq_ok, refuseIf_ok, ne_eq, not_not] at h
  obtain ⟨hgrant, hjti, hsession⟩ := h
  refine ⟨(grantRevoked_false.mp hgrant).1, (jtiRevoked_false.mp hjti).2.2, ?_⟩
  intro hsid
  exact ((sessionLive_true hsid).mp (not_not.mp fun hne => hsession ⟨hsid, hne⟩)).2 hsid

theorem Honours.stands {i : Inspection} (h : Honours srv db up now raw i) :
    ∃ t, srv.verify now raw = .ok t ∧ Stands db now t := by
  cases i with
  | introspection c =>
    obtain ⟨r, hr, hactive⟩ := h
    exact introspectAccessToken_active hr hactive
  | userInfo p =>
    obtain ⟨t, ht⟩ := h
    exact ⟨t, userInfo_ok ht⟩
  | subject jkt =>
    obtain ⟨t, ht⟩ := h
    simp only [presentedSubject, bind_ok, mapError_ok, Except.ok.injEq] at ht
    obtain ⟨t', hv, _, _, _, hstand, rfl⟩ := ht
    exact ⟨t', hv, checkStanding_ok hstand⟩
  | actor =>
    obtain ⟨t, ht⟩ := h
    simp only [presentedActor, bind_ok, mapError_ok, Except.ok.injEq] at ht
    obtain ⟨t', hv, _, hstand, rfl⟩ := ht
    exact ⟨t', hv, checkStanding_ok hstand⟩

theorem Stands.honoured (hv : srv.verify now raw = .ok t) (h : Stands db now t) :
    Honours srv db (fun _ => true) now raw .actor := by
  refine ⟨t, ?_⟩
  simp only [presentedActor, bind_ok, mapError_ok, Except.ok.injEq]
  refine ⟨t, hv, (), ?_, rfl⟩
  have hgrant : grantRevoked db (fun _ => true) t.grantID = some false :=
    grantRevoked_false.mpr ⟨h.grant, fun _ => rfl⟩
  have hjti : jtiRevoked db (fun _ => true) t.jti = some false :=
    jtiRevoked_false.mpr ⟨verify_jti hv, rfl, h.jti⟩
  simp only [checkStanding, seq_ok, refuseIf_ok, ne_eq, not_not]
  refine ⟨hgrant, hjti, ?_⟩
  rintro ⟨hsid, hne⟩
  have hlive : sessionLive db (fun _ => true) now t.sessionID = some true :=
    (sessionLive_true hsid).mpr ⟨rfl, h.session⟩
  exact hne hlive

theorem standing_iff (hv : srv.verify now raw = .ok t) :
    Stands db now t ↔ ∃ up i, Honours srv db up now raw i := by
  constructor
  · intro h
    exact ⟨_, _, h.honoured hv⟩
  · rintro ⟨up, i, h⟩
    obtain ⟨t', hv', hstands⟩ := h.stands
    rw [hv, Except.ok.injEq] at hv'
    rw [hv']
    exact hstands

/-- The ways in which a token that we signed is refused everywhere. -/
theorem refused_iff (hraw : srv.payload raw = some t) :
    (∀ up i, ¬Honours srv db up now raw i) ↔ ¬GrantStands db t.grantID ∨
      (∀ c, srv.verify now raw ≠ .ok c) ∨ db.revokedJTIs t.jti ≠ none ∨
        ¬SessionStands db now t.sessionID := by
  cases hv : srv.verify now raw with
  | error e =>
    have hnone : ∀ up i, ¬Honours srv db up now raw i := by
      intro up i h
      obtain ⟨c, hc, _⟩ := h.stands
      rw [hv] at hc
      cases hc
    simp [hnone]
  | ok c =>
    obtain rfl : c = t := Option.some.inj ((verifyAccessTokenAny_ok hv).1.symm.trans hraw)
    have hstands : Stands db now c ↔ GrantStands db c.grantID ∧ db.revokedJTIs c.jti = none ∧
        SessionStands db now c.sessionID :=
      ⟨fun h => ⟨h.grant, h.jti, h.session⟩, fun h => ⟨h.1, h.2.1, h.2.2⟩⟩
    rw [← not_iff_not]
    push Not
    rw [← standing_iff hv, hstands]
    simp

end Signari.TokenChecks
