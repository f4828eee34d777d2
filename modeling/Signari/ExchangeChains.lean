import Signari.TokenExchange

/-!
# Chains of token exchanges

A token that came out of an exchange can be the subject of another, by another client, at another
time.

Scopes, subject, session and the actor chain follow a chain as they should (`chain_attenuates`). The
rich details do not: each exchange filters them by an audience its caller chooses and omits the
claim when nothing is left, so the next exchange starts from an unconstrained token.
-/
namespace Signari.ExchangeChains
open UrlValues JsonValues RichDetails OAuthClients AccessTokens ScopeLists TokenExchange List
open IndexedChecks

/-- One exchange request together with the token it produced. -/
structure Link where
  env : ExchangeEnv
  client : Client
  form : Values
  token : AccessTokenClaims

def Link.request (l : Link) : ExchangeRequest := parseExchange l.form

/-- The request presents `t` and is answered with the link's token. -/
def Link.Exchanges (l : Link) (t : AccessTokenClaims) : Prop :=
  l.env.verify l.request.subjectToken = .ok t ∧
    handleTokenExchange l.env l.client l.form = .ok l.token

/-- The party this exchange records: the actor token's subject when one was presented, else
the client. -/
def Link.actor (l : Link) : String := if l.request.actorToken = "" then l.client.clientID
  else (l.env.payload l.request.actorToken).elim "" AccessTokenClaims.subject

/-- The details the caller asked for; none when it asked for none. -/
def Link.requested (l : Link) : List Detail :=
  match parse l.env.unmarshal (get l.form "authorization_details") with
  | .ok ds => ds
  | .error _ => []

/-- The details that travel, before they are filtered by audience. -/
def Link.carried (l : Link) (t : AccessTokenClaims) : List Detail :=
  if l.requested = [] then t.authorizationDetails else l.requested

def Link.audience (l : Link) : List String := exchangeAudience l.request l.client.clientID

def Chain : AccessTokenClaims → List Link → Prop
  | _, [] => True
  | t, l :: ls => l.Exchanges t ∧ Chain l.token ls

def lastToken (t : AccessTokenClaims) : List Link → AccessTokenClaims
  | [] => t
  | l :: ls => lastToken l.token ls

theorem grantScopes_subset {requested scopes granted : List String}
    (h : grantScopes requested scopes = .ok granted) : granted ⊆ scopes := by
  unfold grantScopes at h
  split_ifs at h with hr
  · obtain rfl : scopes = granted := by simpa using h
    exact Subset.refl _
  · rw [seq_ok] at h
    obtain ⟨hall, hout⟩ := h
    obtain rfl : requested = granted := by simpa using hout
    intro w hw
    obtain ⟨i, hi⟩ := checkAll_mem hall hw
    simpa using hi

theorem checkAudience_ok {req : ExchangeRequest} {allowed : List String} {caller : String}
    (h : checkAudience req allowed caller = .ok ()) :
    ∀ a ∈ exchangeAudience req caller, a = caller ∨ a ∈ allowed := by
  intro a ha
  simp only [exchangeAudience] at ha
  split_ifs at ha with hnil
  · exact .inl (mem_singleton.mp ha)
  · obtain ⟨i, hi⟩ := checkAll_mem h ha
    simp only [refuseIf_ok, not_and, Bool.not_eq_false, contains_eq_mem, decide_eq_true_eq] at hi
    exact or_iff_not_imp_left.mpr hi

theorem validateExchange_ok {parseURL : String → Option ParsedURL} {req : ExchangeRequest}
    {confidential mayExchange : Bool} {allowed : List String} {caller : String}
    {scopes granted audience : List String}
    (h : validateExchange parseURL req confidential mayExchange allowed caller scopes =
      .ok (granted, audience)) :
    granted ⊆ scopes ∧ audience = exchangeAudience req caller ∧
      ∀ a ∈ audience, a = caller ∨ a ∈ allowed := by
  simp only [validateExchange, bind_ok, Except.ok.injEq, Prod.mk.injEq] at h
  obtain ⟨_, _, g, hg, _, _, _, ha, rfl, rfl⟩ := h
  exact ⟨grantScopes_subset hg, rfl, checkAudience_ok ha⟩

theorem actorSubject_ok {env : ExchangeEnv} {ex : ExchangeRequest} {actor : String}
    (h : actorSubject env ex = .ok actor) :
    (ex.actorToken = "" ∧ actor = "") ∨
      (ex.actorToken ≠ "" ∧ actor ≠ "" ∧
        (env.payload ex.actorToken).elim "" AccessTokenClaims.subject = actor) := by
  unfold actorSubject at h
  split_ifs at h with hr
  · exact .inl ⟨hr, by simpa [eq_comm] using h⟩
  · simp only [bind_ok, mapError_ok, Except.ok.injEq] at h
    obtain ⟨a, ha, _, _, rfl⟩ := h
    obtain ⟨hp, hne⟩ := verifyAccessTokenAny_ok ha
    exact .inr ⟨hr, hne, by simp [hp]⟩

theorem parse_empty (unmarshal : String → Except String Json) : parse unmarshal "" = .ok [] := rfl

/-- What travels through a successful exchange is what was asked for, or all of it, and is
covered by what the subject token had. -/
theorem exchangedDetails_ok {unmarshal : String → Except String Json} {ds out : List Detail}
    {raw : String} (h : exchangedDetails unmarshal ds raw = .ok out) :
    ∃ requested, parse unmarshal raw = .ok requested ∧
      out = (if requested = [] then ds else requested) ∧ CoveredBy ds out := by
  unfold exchangedDetails at h
  split_ifs at h with hr
  · obtain rfl : ds = out := by simpa using h
    exact ⟨[], by rw [hr, parse_empty], by simp, fun d hd => ⟨d, hd, covers_refl d⟩⟩
  · simp only [bind_ok, mapError_ok] at h
    obtain ⟨requested, hp, hn⟩ := h
    exact ⟨requested, hp, narrow_ok hn⟩

/-- Everything one successful exchange says about the token it produced. -/
structure Link.Spec (l : Link) (t : AccessTokenClaims) : Prop where
  scope : ∃ granted, l.token.scope = joinScopes granted ∧ granted ⊆ splitScopes t.scope
  subject : l.token.subject = t.subject
  session : l.token.sessionID = t.sessionID
  audience : l.token.audience = l.audience
  allowed : ∀ a ∈ l.token.audience, a = l.client.clientID ∨ a ∈ l.client.exchangeAudiences
  act : actorChain l.token.act = l.actor :: actorChain t.act
  details : l.token.authorizationDetails = filterByAudience (l.carried t) l.audience
  covered : CoveredBy t.authorizationDetails (l.carried t)

theorem Link.Exchanges.spec {l : Link} {t : AccessTokenClaims} (h : l.Exchanges t) : l.Spec t := by
  obtain ⟨hv, hx⟩ := h
  rw [Link.request] at hv
  simp only [handleTokenExchange, bind_ok, mapError_ok, hv, Except.ok.injEq, exists_eq_left'] at hx
  obtain ⟨_, _, _, _, _, _, actor, hactor, _, _, ⟨granted, audience⟩, hval, _, _, hx⟩ := hx
  cases hsid : l.env.newSID with
  | none => simp [hsid] at hx
  | some jti =>
    simp only [hsid, bind_ok, Except.ok.injEq] at hx
    obtain ⟨details, hdet, htok⟩ := hx
    obtain ⟨hsub, haud, hallow⟩ := validateExchange_ok hval
    obtain ⟨requested, hparse, hcarry, hcov⟩ := exchangedDetails_ok hdet
    have hreq : l.requested = requested := by simp only [Link.requested, hparse]
    have hcarried : l.carried t = details := by rw [Link.carried, hreq, hcarry]
    refine ⟨⟨granted, by rw [← htok], hsub⟩, by rw [← htok], by rw [← htok],
      by rw [← htok]; exact haud, by rw [← htok]; exact hallow, ?_, ?_, ?_⟩
    · rw [← htok]
      rcases actorSubject_ok hactor with ⟨hnone, rfl⟩ | ⟨hsome, hne, hp⟩
      · simp [actorChain, Link.actor, Link.request, hnone]
      · simp [actorChain, Link.actor, Link.request, hsome, hne, hp]
    · rw [← htok, hcarried]
      simp only [haud, Link.audience, Link.request]
    · rw [hcarried]
      exact hcov

theorem Link.Spec.scopes {l : Link} {t : AccessTokenClaims} (h : l.Spec t) :
    splitScopes l.token.scope ⊆ splitScopes t.scope := by
  obtain ⟨granted, hjoin, hsub⟩ := h.scope
  rw [hjoin, splitScopes_joinScopes ((splitScopes_words t.scope).of_subset hsub)]
  exact hsub

/-- Exchange attenuates. Along every chain of exchanges, by any clients with any requests,
the scopes only shrink, the subject and the session stay, every audience is the exchanging
client or one it is configured for, and each exchange adds its one actor in front. -/
theorem chain_attenuates (t₀ : AccessTokenClaims) (links : List Link) (h : Chain t₀ links) :
    splitScopes (lastToken t₀ links).scope ⊆ splitScopes t₀.scope ∧
    (lastToken t₀ links).subject = t₀.subject ∧
    (lastToken t₀ links).sessionID = t₀.sessionID ∧
    (∀ l ∈ links, ∀ a ∈ l.token.audience, a = l.client.clientID ∨ a ∈ l.client.exchangeAudiences) ∧
    actorChain (lastToken t₀ links).act = (links.map Link.actor).reverse ++ actorChain t₀.act := by
  induction links generalizing t₀ with
  | nil => exact ⟨Subset.refl _, rfl, rfl, by simp, by simp [lastToken]⟩
  | cons l ls ih =>
    obtain ⟨hx, hrest⟩ := h
    have hl := hx.spec
    obtain ⟨hscope, hsub, hsid, haud, hact⟩ := ih l.token hrest
    refine ⟨Subset.trans hscope hl.scopes, hsub.trans hl.subject, hsid.trans hl.session, ?_, ?_⟩
    · intro m hm
      rcases mem_cons.mp hm with rfl | hm
      · exact hl.allowed
      · exact haud m hm
    · rw [lastToken, hact, hl.act]
      simp

/-- At every exchange of the chain, some detail that travels has no locations or names the
audience the request is for. -/
def KeepsDetails : AccessTokenClaims → List Link → Prop
  | _, [] => True
  | t, l :: ls =>
    (∃ d ∈ l.carried t, d.concerns l.audience = true) ∧ KeepsDetails l.token ls

theorem chain_covered (t₀ : AccessTokenClaims) (links : List Link) (h : Chain t₀ links) :
    ∀ l ∈ links, CoveredBy t₀.authorizationDetails l.token.authorizationDetails := by
  induction links generalizing t₀ with
  | nil => simp
  | cons l ls ih =>
    obtain ⟨hx, hrest⟩ := h
    have hl := hx.spec
    have hstep : CoveredBy t₀.authorizationDetails l.token.authorizationDetails := by
      rw [hl.details]
      exact fun d hd => hl.covered d (filterByAudience_subset _ _ hd)
    intro m hm
    rcases mem_cons.mp hm with rfl | hm
    · exact hstep
    · exact hstep.trans (ih l.token hrest m hm)

theorem chain_keeps (t₀ : AccessTokenClaims) (links : List Link) (h : Chain t₀ links) :
    (∀ l ∈ links, l.token.authorizationDetails ≠ []) ↔ KeepsDetails t₀ links := by
  induction links generalizing t₀ with
  | nil => simp [KeepsDetails]
  | cons l ls ih =>
    obtain ⟨hx, hrest⟩ := h
    rw [forall_mem_cons, ih l.token hrest, KeepsDetails, hx.spec.details, filterByAudience_ne_nil]

/-- On every chain that starts from a constrained token, all its tokens stay constrained by
details the first one covers exactly when every exchange keeps a detail. -/
theorem chain_details_iff (t₀ : AccessTokenClaims) (links : List Link) (h : Chain t₀ links)
    (hne : t₀.authorizationDetails ≠ []) :
    (∀ t ∈ t₀ :: links.map Link.token, t.authorizationDetails ≠ [] ∧
      ∀ d ∈ t.authorizationDetails, ∃ o ∈ t₀.authorizationDetails, covers o d = true) ↔
    KeepsDetails t₀ links := by
  have hcov := chain_covered t₀ links h
  rw [← chain_keeps t₀ links h, forall_mem_cons, forall_mem_map]
  constructor
  · rintro ⟨_, hall⟩ l hl
    exact (hall l hl).1
  · intro hall
    exact ⟨⟨hne, fun d hd => ⟨d, hd, covers_refl d⟩⟩, fun l hl => ⟨hall l hl, hcov l hl⟩⟩

def paymentDetail : Detail := { type := "payment", locations := ["https://rs"] }

def paymentToken : AccessTokenClaims where
  issuer := "https://idp"
  subject := "alice"
  audience := ["https://rs"]
  expiry := 2000
  issuedAt := 1000
  jti := "j0"
  clientID := "shop"
  scope := "openid payments"
  sessionID := "s0"
  authorizationDetails := [paymentDetail]

def paymentEnv : ExchangeEnv where
  payload raw := if raw = "token" then some paymentToken else none
  issuer := "https://idp"
  now := 1500000000000
  grantRevoked _ := some false
  jtiRevoked _ := some false
  sessionLive _ := some true
  newSID := some "j1"
  parseURL _ := some { scheme := "https", fragment := "" }
  unmarshal _ := .error "unexpected end of JSON input"

def broker : Client where
  clientID := "broker"
  type := .confidentialClient
  mayExchange := true
  exchangeAudiences := ["https://rs"]

def exchangedToken (form : Values) : AccessTokenClaims :=
  match handleTokenExchange paymentEnv broker form with
  | .ok t => t
  | .error _ => paymentToken

def brokerForm (audience : Values) : Values :=
  [("subject_token", "token"), ("subject_token_type", tokenTypeAccess)] ++ audience

def brokerLink (audience : Values) : Link :=
  ⟨paymentEnv, broker, brokerForm audience, exchangedToken (brokerForm audience)⟩

/-- The broker exchanges the token it was given once more, for a service that has one too. -/
def actingLink : Link :=
  let service := { paymentToken with subject := "service", jti := "j2" }
  let env := { paymentEnv with
    payload := fun raw => if raw = "token" then some (brokerLink [("scope", "payments")]).token
      else if raw = "actor" then some service else none }
  let form := brokerForm [("actor_token", "actor"), ("actor_token_type", tokenTypeAccess)]
  ⟨env, broker, form, (handleTokenExchange env broker form).toOption.getD paymentToken⟩

theorem chain_attenuates_broker :
    Chain paymentToken [brokerLink [("scope", "payments")], actingLink] ∧
      actorChain (lastToken paymentToken [brokerLink [("scope", "payments")], actingLink]).act =
        ["service", "broker"] := by
  have hchain : Chain paymentToken [brokerLink [("scope", "payments")], actingLink] :=
    ⟨⟨rfl, rfl⟩, ⟨rfl, rfl⟩, trivial⟩
  obtain ⟨_, _, _, _, hact⟩ := chain_attenuates _ _ hchain
  refine ⟨hchain, hact.trans ?_⟩
  simp only [paymentToken, actorChain]
  decide

theorem chain_details_broker :
    Chain paymentToken [brokerLink [("audience", "https://rs")]] ∧
      (lastToken paymentToken
        [brokerLink [("audience", "https://rs")]]).authorizationDetails ≠ [] := by
  have hchain : Chain paymentToken [brokerLink [("audience", "https://rs")]] :=
    ⟨⟨rfl, rfl⟩, trivial⟩
  have hkeeps : KeepsDetails paymentToken [brokerLink [("audience", "https://rs")]] :=
    ⟨⟨paymentDetail, by decide, by decide⟩, trivial⟩
  have hall := (chain_details_iff _ _ hchain (by simp [paymentToken])).mpr hkeeps
  exact ⟨hchain, (hall _ (by simp [lastToken])).1⟩

/-- Exchanged without an audience the token is for the broker, no detail concerns the broker,
and the produced token carries none. -/
theorem brokerLink_drops_details :
    Chain paymentToken [brokerLink []] ∧ paymentToken.authorizationDetails ≠ [] ∧
      ¬∀ t ∈ paymentToken :: [brokerLink []].map Link.token, t.authorizationDetails ≠ [] ∧
        ∀ d ∈ t.authorizationDetails,
          ∃ o ∈ paymentToken.authorizationDetails, covers o d = true := by
  refine ⟨⟨⟨rfl, rfl⟩, trivial⟩, by simp [paymentToken], fun hall => ?_⟩
  exact (hall (brokerLink []).token (by simp)).1 rfl

end Signari.ExchangeChains
