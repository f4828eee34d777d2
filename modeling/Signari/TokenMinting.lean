import Signari.RefreshTokens

/-!
# Minting

`mintSet` of `internal/httpapi/flow.go`: the one place where a grant becomes tokens. Given the
subject, the session and the scopes it signs an access token, an ID token when `openid` was granted,
and with `offline_access` a refresh token in the given family or in a new one.

The session row is looked up for the actor and the authentication context only: whether
the session has ended is not asked here. What mappers and profile attributes add to the
tokens is left out; that resolving them may fail is kept.
-/
namespace Signari.TokenMinting
open GoTime AccessTokens OAuthClients RichDetails ScopeLists RefreshTokens

structure SessionRow where
  userID : String
  impersonatorID : Option String := none
  authTime : ℤ := 0
  acr : String := ""
  amr : List String := []
  notAfter : ℤ
  revokedAt : Option ℤ := none

structure IDTokenClaims where
  issuer : String
  subject : String
  audience : String
  expiry : ℤ
  issuedAt : ℤ
  authTime : ℤ
  acr : String
  amr : List String
  nonce : String
  sessionID : String
  authorizedParty : String
  actor : Option Actor

def defaultIDTokenTTL : ℤ := 300

/-- The arguments of one call. An empty `familyID` is a first issuance. -/
structure MintArgs where
  orgID : String
  userID : String
  sid : String
  nonce : String := ""
  scopes : List String
  resources : List String := []
  details : List Detail := []
  familyID : String := ""

/-- What a call finds around it. `mapped` and `profile` say whether the claims of the two tokens
could be resolved; a draw or an INSERT that fails is `none`. -/
structure MintEnv (D : Type) where
  issuer : String
  now : ℤ
  dpopThumbprint : String := ""
  certThumbprint : String := ""
  activeKey : Bool := true
  newSID : Option String
  newFamilyID : Option String := none
  mapped : Bool := true
  profile : Bool := true
  newRefresh : Option D := none

/-- What one call hands back and writes. `family` is the row of a new family. -/
structure Issued (D : Type) where
  access : AccessTokenClaims
  idToken : Option IDTokenClaims
  familyID : String
  family : Option FamilyRow
  refresh : Option (D × TokenRow D)

variable {D : Type}

def sessionActor (sessions : String → Option SessionRow) (sid : String) : Option (Option Actor) :=
  if sid = "" then some none
  else (sessions sid).map fun s =>
    match s.impersonatorID with
    | none => none
    | some who => if who = "" then none else some (.mk who none)

def newFamilyRow (env : MintEnv D) (c : Client) (a : MintArgs) : FamilyRow where
  orgID := a.orgID
  clientID := c.clientID
  userID := a.userID
  sid := a.sid
  details := a.details
  dpopJKT := env.dpopThumbprint
  certThumbprint := env.certThumbprint

def familyFor (env : MintEnv D) (c : Client) (a : MintArgs) : Option (String × Option FamilyRow) :=
  if a.familyID = "" ∧ "offline_access" ∈ a.scopes then
    if a.sid = "" then none
    else env.newFamilyID.map fun id => (id, some (newFamilyRow env c a))
  else some (a.familyID, none)

def mintAudience (c : Client) (a : MintArgs) : List String :=
  if a.resources = [] then [c.clientID] else a.resources

def accessClaims (env : MintEnv D) (c : Client) (a : MintArgs) (jti : String)
    (act : Option Actor) (familyID : String) : AccessTokenClaims where
  issuer := if c.issuerAlias ≠ "" then c.issuerAlias else env.issuer
  subject := a.userID
  audience := mintAudience c a
  expiry := (env.now + defaultAccessTokenTTL * nanosPerSecond) / nanosPerSecond
  issuedAt := env.now / nanosPerSecond
  jti := jti
  clientID := c.clientID
  scope := joinScopes a.scopes
  sessionID := a.sid
  act := act
  cnf := bindingFor env.dpopThumbprint env.certThumbprint
  authorizationDetails := filterByAudience a.details (mintAudience c a)
  grantID := familyID

def idClaims (env : MintEnv D) (c : Client) (a : MintArgs) (act : Option Actor)
    (s : SessionRow) : IDTokenClaims where
  issuer := if c.issuerAlias ≠ "" then c.issuerAlias else env.issuer
  subject := a.userID
  audience := c.clientID
  expiry := (env.now + defaultIDTokenTTL * nanosPerSecond) / nanosPerSecond
  issuedAt := env.now / nanosPerSecond
  authTime := s.authTime / nanosPerSecond
  acr := s.acr
  amr := s.amr
  nonce := a.nonce
  sessionID := a.sid
  authorizedParty := c.clientID
  actor := act

/-- An ID token is minted only where `openid` was granted, and then needs the session. -/
def mintIDToken (env : MintEnv D) (sessions : String → Option SessionRow) (c : Client)
    (a : MintArgs) (act : Option Actor) : Option (Option IDTokenClaims) :=
  if "openid" ∈ a.scopes then do
    let s ← sessions a.sid
    if env.profile then some (some (idClaims env c a act s)) else none
  else some none

def mintRefresh (env : MintEnv D) (c : Client) (a : MintArgs) (familyID : String) :
    Option (Option (D × TokenRow D)) :=
  if "offline_access" ∈ a.scopes then
    env.newRefresh.map fun hash => some (hash, {
      familyID := familyID
      scopes := a.scopes
      resources := a.resources
      expiresAt := env.now + seconds c.refreshTokenTTLSeconds })
  else some none

/-- The tokens for one authenticated subject; `none` is an error, after which the caller's
transaction is rolled back. -/
def mintSet (env : MintEnv D) (sessions : String → Option SessionRow) (c : Client)
    (a : MintArgs) : Option (Issued D) :=
  if env.activeKey = false then none
  else do
    let jti ← env.newSID
    let act ← sessionActor sessions a.sid
    let fam ← familyFor env c a
    if env.mapped = false ∧ a.userID ≠ "" then none
    else do
      let idToken ← mintIDToken env sessions c a act
      let refresh ← mintRefresh env c a fam.1
      some {
        access := accessClaims env c a jti act fam.1
        idToken := idToken
        familyID := fam.1
        family := fam.2
        refresh := refresh }

/-- What one successful call says about everything it issued. -/
structure MintSpec (env : MintEnv D) (c : Client) (a : MintArgs) (m : Issued D) : Prop where
  access : ∃ jti act, m.access = accessClaims env c a jti act m.familyID
  idToken : ∀ t, m.idToken = some t → t.sessionID = a.sid
  family : familyFor env c a = some (m.familyID, m.family)
  refresh : ∀ r, m.refresh = some r → r.2.familyID = m.familyID

theorem mintIDToken_sid {env : MintEnv D} {sessions : String → Option SessionRow} {c : Client}
    {a : MintArgs} {act : Option Actor} {t : IDTokenClaims}
    (h : mintIDToken env sessions c a act = some (some t)) : t.sessionID = a.sid := by
  unfold mintIDToken at h
  by_cases hopenid : "openid" ∈ a.scopes
  · rw [if_pos hopenid, Option.bind_eq_bind, Option.bind_eq_some_iff] at h
    obtain ⟨s, _, h⟩ := h
    split_ifs at h
    obtain rfl : idClaims env c a act s = t := by simpa using h
    rfl
  · simp [if_neg hopenid] at h

theorem mintRefresh_family {env : MintEnv D} {c : Client} {a : MintArgs} {familyID : String}
    {r : D × TokenRow D} (h : mintRefresh env c a familyID = some (some r)) :
    r.2.familyID = familyID := by
  unfold mintRefresh at h
  by_cases hoffline : "offline_access" ∈ a.scopes
  · rw [if_pos hoffline, Option.map_eq_some_iff] at h
    obtain ⟨hash, _, h⟩ := h
    rw [← Option.some.inj h]
  · simp [if_neg hoffline] at h

theorem familyFor_cases {env : MintEnv D} {c : Client} {a : MintArgs} {id : String}
    {family : Option FamilyRow} (h : familyFor env c a = some (id, family)) :
    (a.familyID = "" ∧ "offline_access" ∈ a.scopes ∧ a.sid ≠ "" ∧
        family = some (newFamilyRow env c a)) ∨
      ¬(a.familyID = "" ∧ "offline_access" ∈ a.scopes) ∧ id = a.familyID ∧ family = none := by
  unfold familyFor at h
  by_cases hnew : a.familyID = "" ∧ "offline_access" ∈ a.scopes
  · rw [if_pos hnew] at h
    by_cases hsid : a.sid = ""
    · simp [if_pos hsid] at h
    · rw [if_neg hsid] at h
      obtain ⟨_, _, heq⟩ := Option.map_eq_some_iff.mp h
      exact .inl ⟨hnew.1, hnew.2, hsid, (congrArg Prod.snd heq).symm⟩
  · rw [if_neg hnew, Option.some.injEq, Prod.mk.injEq] at h
    exact .inr ⟨hnew, h.1.symm, h.2.symm⟩

theorem mintSet_of {env : MintEnv D} {sessions : String → Option SessionRow} {c : Client}
    {a : MintArgs} {jti : String} {act : Option Actor} {fam : String × Option FamilyRow}
    {idToken : Option IDTokenClaims} {refresh : Option (D × TokenRow D)}
    (hkey : env.activeKey = true) (hjti : env.newSID = some jti)
    (hact : sessionActor sessions a.sid = some act) (hfam : familyFor env c a = some fam)
    (hmapped : env.mapped = true) (hid : mintIDToken env sessions c a act = some idToken)
    (href : mintRefresh env c a fam.1 = some refresh) :
    mintSet env sessions c a =
      some ⟨accessClaims env c a jti act fam.1, idToken, fam.1, fam.2, refresh⟩ := by
  simp [mintSet, hkey, hjti, hact, hfam, hmapped, hid, href]

/-- One successful call, taken apart. -/
theorem mintSet_eq_some {env : MintEnv D} {sessions : String → Option SessionRow} {c : Client}
    {a : MintArgs} {m : Issued D} (h : mintSet env sessions c a = some m) :
    ∃ jti act, sessionActor sessions a.sid = some act ∧
      familyFor env c a = some (m.familyID, m.family) ∧
      mintIDToken env sessions c a act = some m.idToken ∧
      mintRefresh env c a m.familyID = some m.refresh ∧
      m.access = accessClaims env c a jti act m.familyID := by
  unfold mintSet at h
  by_cases hkey : env.activeKey = false
  · simp [if_pos hkey] at h
  rw [if_neg hkey] at h
  simp only [Option.bind_eq_bind, Option.bind_eq_some_iff] at h
  obtain ⟨jti, _, act, hact, fam, hfam, h⟩ := h
  by_cases hmapped : env.mapped = false ∧ a.userID ≠ ""
  · simp [if_pos hmapped] at h
  rw [if_neg hmapped] at h
  simp only [Option.bind_eq_some_iff, Option.some.injEq] at h
  obtain ⟨idToken, hid, refresh, href, rfl⟩ := h
  exact ⟨jti, act, hact, hfam, hid, href, rfl⟩

theorem mintSet_spec {env : MintEnv D} {sessions : String → Option SessionRow} {c : Client}
    {a : MintArgs} {m : Issued D} (h : mintSet env sessions c a = some m) :
    MintSpec env c a m := by
  obtain ⟨jti, act, _, hfam, hid, href, haccess⟩ := mintSet_eq_some h
  exact {
    access := ⟨jti, act, haccess⟩
    idToken := fun t ht => mintIDToken_sid (hid.trans (congrArg some ht))
    family := hfam
    refresh := fun r hr => mintRefresh_family (href.trans (congrArg some hr)) }

theorem mintSet_refresh {env : MintEnv D} {sessions : String → Option SessionRow} {c : Client}
    {a : MintArgs} {m : Issued D} (h : mintSet env sessions c a = some m) (hr : m.refresh ≠ none) :
    "offline_access" ∈ a.scopes := by
  obtain ⟨_, _, _, _, _, href, _⟩ := mintSet_eq_some h
  by_contra hoffline
  rw [mintRefresh, if_neg hoffline, Option.some.injEq] at href
  exact hr href.symm

theorem MintSpec.grantID {env : MintEnv D} {c : Client} {a : MintArgs} {m : Issued D}
    (h : MintSpec env c a m) : m.access.grantID = m.familyID := by
  obtain ⟨jti, act, haccess⟩ := h.access
  rw [haccess]
  rfl

theorem MintSpec.sessionID {env : MintEnv D} {c : Client} {a : MintArgs} {m : Issued D}
    (h : MintSpec env c a m) : m.access.sessionID = a.sid := by
  obtain ⟨jti, act, haccess⟩ := h.access
  rw [haccess]
  rfl

end Signari.TokenMinting
