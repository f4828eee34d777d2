import Signari.ConsentScreen
import Signari.AuthorizeEndpoint

/-!
# Resuming an authorization request

A request that needs the person is answered with a sign-in form or a consent screen, and when
these are done the browser is sent back to the authorization endpoint with the query it came
with, less the prompt values that were just satisfied. `resumption_converges` says that the
replay gets further: after a sign-in it is not asked to sign in again, and after Allow it gets
its code.

The age of the sign-in is judged anew at each replay, so both hold only while `max_age` is met.
A request that was pushed or posted is outside the theorem, and so is, for the code after Allow,
one with authorization details.
-/
namespace Signari.Resumption
open GoStrings GoTime IndexedChecks UrlValues AuthnContext OAuthClients TokenRequests List
open AuthorizeRequest AuthorizationCodes PushedRequests RichDetails ScopeLists ParkedQueries
open ConsentScreen hiding checkConsent
open AuthorizeEndpoint

variable {D : Type}

/-- What the endpoint finds around a request, apart from the session. Nothing fails to be read or
written there. -/
structure World where
  registry : List Client
  requirePushed : String → Bool := fun _ => false
  parseDetails : Client → String → Except AuthzError (List Detail) := fun _ _ => .ok []
  policyRefusal : Option String := none
  idToken : String := ""
  consents : Consents := fun _ _ => none

/-- A browser at the authorization endpoint with a query, before consent is looked up. -/
def arrive (w : World) (q : Query) (session : Option SessionView) (now : ℤ) (code : String) :
    AuthorizeCall where
  urlQuery := q.pairs
  registry := w.registry
  requirePushed := fun id => some (w.requirePushed id)
  parseDetails := w.parseDetails
  session := .ok session
  policyRefusal := w.policyRefusal
  code := code
  idToken := some w.idToken
  now := now

def asksConsent (P : Primitives D) (w : World) (q : Query) (session : Option SessionView) : Bool :=
  match admitParams P (arrive w q session 0 "") q.pairs, session with
  | .ok (areq, c), some v => (needsConsent w.consents c (v.user.getD "") areq).2
  | _, _ => false

/-- The same, with what `needsConsent` finds. -/
def visit (P : Primitives D) (w : World) (q : Query) (session : Option SessionView) (now : ℤ)
    (code : String) : AuthorizeCall :=
  { arrive w q session now code with consent := .ok (asksConsent P w q session) }

def signedIn (sid orgID userID : String) (amr : List String) (authTime : ℤ)
    (enrolled : Option Bool) : SessionView where
  sid := sid
  context := some (some authTime, amr)
  enrolled := enrolled
  user := some userID
  row := some (orgID, userID)

/-- Answered by asking for another, or a better, authentication. -/
def StepUp (o : AuthorizeOutcome) : Prop :=
  o = .diverted .login ∨ ∃ req e, o = .diverted (.error req e) ∧
    (e.code = "login_required" ∨ e.code = "unmet_authentication_requirements")

def MeetsACR (amr : List String) (req : AuthzRequest) : Prop :=
  parseACRValues req.acrValues = [] ∨
    (parseACRValues req.acrValues).any (satisfies (acrFromAMR amr)) = true

/-- The sign-in is no older than the request allows, by the endpoint's own comparison. -/
def YoungEnough (req : AuthzRequest) (authTime now : ℤ) : Prop :=
  ∀ m, req.maxAge = some m → sub now authTime ≤ seconds m

/-- The request passes every check before the session: it is sent in the URL with its parameters
inline, and the query parses. -/
structure Admitted (P : Primitives D) (w : World) (q : Query) (areq : AuthzRequest) (c : Client) :
    Prop where
  wellFormed : q.malformed = false
  inline : get q.pairs "request_uri" = ""
  single : refuseDuplicateParams q.pairs = .ok ()
  accepted : admitParams P (arrive w q none 0 "") q.pairs = .ok (areq, c)

section
variable {P : Primitives D} {w : World} {q : Query} {areq : AuthzRequest} {c : Client}
  {consumed : List String}

theorem admitParams_arrive (session : Option SessionView) (now : ℤ) (code : String) (v : Values) :
    admitParams P (arrive w q session now code) v = admitParams P (arrive w q none 0 "") v := rfl

theorem admitParams_visit (session : Option SessionView) (now : ℤ) (code : String) (v : Values) :
    admitParams P (visit P w q session now code) v = admitParams P (arrive w q none 0 "") v := rfl

theorem validatePrompt_filter {prompt prompt' : String} {f : String → Bool}
    (h : validatePrompt prompt = .ok ()) (hf : fields prompt' = (fields prompt).filter f) :
    validatePrompt prompt' = .ok () := by
  unfold validatePrompt at h ⊢
  rw [hf]
  by_cases hlen : (fields prompt).length < 2
  · have := length_filter_le f (fields prompt)
    rw [if_pos (by omega)]
  · rw [if_neg hlen] at h
    split_ifs at h with hnone
    have hnone' : ((fields prompt).filter f).contains promptNone = false := by
      simp only [contains_eq_mem, decide_eq_true_eq] at hnone
      simp [hnone]
    rw [hnone']
    simp only [Bool.false_eq_true, if_false, ite_self]

theorem validateAuthz_prompt {parseURL : String → Option ParsedURL} {req : AuthzRequest}
    {c : Option Client} {d : Client} {prompt : String} (h : validateAuthz parseURL req c = .ok d)
    (hp : validatePrompt req.prompt = .ok () → validatePrompt prompt = .ok ()) :
    validateAuthz parseURL { req with prompt := prompt } c = .ok d := by
  simp only [validateAuthz, bind_ok, mapError_ok] at h ⊢
  obtain ⟨e, h₁, u₂, h₂, u₃, h₃, u₄, h₄, u₅, h₅, u₆, h₆, u₇, h₇, u₈, h₈, u₉, h₉, u, hprompt,
    hrest⟩ := h
  exact ⟨e, h₁, u₂, h₂, u₃, h₃, u₄, h₄, u₅, h₅, u₆, h₆, u₇, h₇, u₈, h₈, u₉, h₉, u, hp hprompt,
    hrest⟩

theorem withDetails_prompt {r : AuthorizeCall} {req : AuthzRequest} {prompt : String}
    (h : withDetails r c req = .ok areq) :
    withDetails r c { req with prompt := prompt } = .ok { areq with prompt := prompt } := by
  unfold withDetails at h ⊢
  by_cases hraw : req.rawAuthorizationDetails ≠ ""
  · rw [if_pos hraw] at h ⊢
    cases hd : r.parseDetails c req.rawAuthorizationDetails with
    | error e => simp [hd, Except.map] at h
    | ok ds =>
      simp only [hd, Except.map, Except.ok.injEq] at h ⊢
      rw [← h]
  · rw [if_neg hraw, Except.ok.injEq] at h ⊢
    rw [← h]

/-- A request stays admitted when prompt values are taken out of it. -/
theorem Admitted.replayed (h : Admitted P w q areq c) (consumed : List String) :
    Admitted P w (consumePrompt q consumed)
      { areq with prompt := get (consumePrompt q consumed).pairs "prompt" } c := by
  obtain ⟨hvalid, hdetails, hgate⟩ := admitParams_ok.mp h.accepted
  refine ⟨malformed_consumePrompt h.wellFormed, ?_,
    refuseDuplicateParams_consumePrompt h.wellFormed h.single, admitParams_ok.mpr ⟨?_, ?_, ?_⟩⟩
  · rw [get_consumePrompt h.wellFormed (by decide)]
    exact h.inline
  · rw [parseAuthz_consumePrompt h.wellFormed]
    apply validateAuthz_prompt hvalid
    intro hp
    exact validatePrompt_filter hp (fields_consumePrompt h.wellFormed)
  · rw [parseAuthz_consumePrompt h.wellFormed]
    exact withDetails_prompt hdetails
  · rw [get_consumePrompt h.wellFormed (by decide)]
    exact hgate

theorem Admitted.prompt (h : Admitted P w q areq c) : areq.prompt = get q.pairs "prompt" := by
  obtain ⟨ds, rfl⟩ := withDetails_ok (admitParams_ok.mp h.accepted).2.1
  rfl

theorem Admitted.clientID (h : Admitted P w q areq c) :
    clientFromAuthz q = c.clientID ∧ c.clientID ≠ "" := by
  have hread : clientFromAuthz q = get q.pairs "client_id" := by
    simp [clientFromAuthz, parseQuery, h.wellFormed]
  have hnamed : c.clientID = get q.pairs "client_id" := by
    rw [admitParams_client h.accepted]
    obtain ⟨ds, rfl⟩ := withDetails_ok (admitParams_ok.mp h.accepted).2.1
    rfl
  refine ⟨hread.trans hnamed.symm, ?_⟩
  rw [hnamed]
  intro hempty
  have hvalid := (admitParams_ok.mp h.accepted).1
  simp only [validateAuthz, bind_ok, checkTarget, refuseIf_ok] at hvalid
  obtain ⟨_, ⟨_, hid, -⟩, -⟩ := hvalid
  apply hid
  change trimSpace (get q.pairs "client_id") = ""
  rw [hempty]
  rfl

theorem Admitted.asks (h : Admitted P w q areq c) (v : SessionView) :
    asksConsent P w q (some v) = (needsConsent w.consents c (v.user.getD "") areq).2 := by
  unfold asksConsent
  simp only [admitParams_arrive, h.accepted]

theorem sessionSufficient_none {amr : List String} {authTime now : ℤ} {req : AuthzRequest} :
    (sessionSufficient amr (some authTime) now req.acrValues req.maxAge req.prompt).1 = .none ↔
      hasPrompt req.prompt promptLogin = false ∧ hasPrompt req.prompt promptSelectAccount = false ∧
        YoungEnough req authTime now ∧ MeetsACR amr req := by
  have hacr : ((if parseACRValues req.acrValues = [] then (StepUpReason.none, "")
      else if (parseACRValues req.acrValues).any (satisfies (acrFromAMR amr)) then (.none, "")
      else (.needStronger, "the session does not meet the requested acr_values")).1 = .none) ↔
      MeetsACR amr req := by
    rw [MeetsACR]
    split_ifs with hnone hany
    · simp [hnone]
    · simp [hany]
    · simp [hnone, hany]
  rw [← hacr, YoungEnough]
  unfold sessionSufficient
  dsimp only
  cases hasPrompt req.prompt promptLogin with
  | true => simp
  | false =>
    cases hasPrompt req.prompt promptSelectAccount with
    | true => simp
    | false =>
      cases req.maxAge with
      | none => simp
      | some m =>
        by_cases hold : seconds m < sub now authTime
        · simp [hold]
        · simp [hold, not_lt.mp hold]

theorem checkPKCE_coherent (h : checkPKCE areq c = .ok ())
    (hmethod : areq.codeChallenge = "" → areq.codeChallengeMethod = "")
    (orgID sid userID : String) (r : AuthorizeCall) :
    (codeRow orgID c.clientID sid userID (grantRecord r areq c) areq.resources
      areq.authorizationDetails).PkceCoherent := by
  by_cases hchallenge : areq.codeChallenge = ""
  · left
    simp [codeRow, grantRecord, nullIfEmpty, hchallenge, hmethod hchallenge]
  · right
    have hs256 : areq.codeChallengeMethod = "S256" := by
      rw [checkPKCE, if_pos (.inr hchallenge)] at h
      simp only [seq_ok, refuseIf_ok, not_not] at h
      exact h.2.2.1
    simp [codeRow, grantRecord, nullIfEmpty, hchallenge, hs256]

theorem Admitted.pkce (h : Admitted P w q areq c) : checkPKCE areq c = .ok () := by
  obtain ⟨hvalid, hdetails, -⟩ := admitParams_ok.mp h.accepted
  obtain ⟨ds, rfl⟩ := withDetails_ok hdetails
  simp only [validateAuthz, bind_ok] at hvalid
  obtain ⟨e, -, _, -, _, -, _, -, _, -, _, -, _, -, _, hpkce, _, -, _, -, _, -, _, -, _, -, he⟩ :=
    hvalid
  simp only [Except.ok.injEq] at he
  subst he
  exact hpkce

variable [DecidableEq D]

theorem admitRequest_inline {pushed : PushedTable D} {r : AuthorizeCall} {v : Values}
    (hparams : authorizeParams r = .ok v) (hsingle : refuseDuplicateParams v = .ok ())
    (hinline : get v "request_uri" = "") :
    (admitRequest P pushed r).2 = admitParams P r v := by
  simp only [admitRequest, hparams, hsingle, effectiveParams, if_pos hinline, Except.mapError,
    bind, Except.bind]

theorem handleAuthorize_admitted {st : State D} {r : AuthorizeCall} {x : AuthzRequest × Client}
    (h : (admitRequest P st.pushed r).2 = .ok x) :
    (handleAuthorize P st r).2 = match checkSubject r x with
      | .error d => .diverted d
      | .ok (req, c, v) => (issueCodeAndRedirect P st.codes r req c v).2 := by
  have hbind : (admitRequest P st.pushed r).2 >>= checkSubject r = checkSubject r x := by
    rw [h]
    rfl
  unfold handleAuthorize
  dsimp only
  rw [hbind]
  cases checkSubject r x with
  | error d => rfl
  | ok y => rfl

theorem Admitted.outcome (h : Admitted P w q areq c) (st : State D) (session : Option SessionView)
    (now : ℤ) (code : String) :
    (handleAuthorize P st (visit P w q session now code)).2 =
      match checkSubject (visit P w q session now code) (areq, c) with
      | .error d => .diverted d
      | .ok (req, c, v) =>
        (issueCodeAndRedirect P st.codes (visit P w q session now code) req c v).2 := by
  have hparams : authorizeParams (visit P w q session now code) = .ok q.pairs := rfl
  apply handleAuthorize_admitted
  rw [admitRequest_inline hparams h.single h.inline, admitParams_visit, h.accepted]

theorem checkSession_signedIn {r : AuthorizeCall} {req : AuthzRequest} {v : SessionView}
    {amr : List String} {authTime : ℤ} (hr : r.session = .ok (some v))
    (hv : v.context = some (some authTime, amr)) :
    checkSession r req = .ok v ↔
      hasPrompt req.prompt promptLogin = false ∧ hasPrompt req.prompt promptSelectAccount = false ∧
        YoungEnough req authTime r.now ∧ MeetsACR amr req := by
  rw [← sessionSufficient_none]
  unfold checkSession
  simp only [hr, hv]
  by_cases h : (sessionSufficient amr (some authTime) r.now req.acrValues req.maxAge
      req.prompt).1 = .none
  · rw [if_pos h]
    simp [h]
  · rw [if_neg h]
    split_ifs <;> simp [h]

theorem checkSession_cases (r : AuthorizeCall) (req : AuthzRequest) :
    (∃ v, checkSession r req = .ok v ∧ r.session = .ok (some v)) ∨
      ∃ d, checkSession r req = .error d ∧ d ≠ .consent := by
  have hno : noSession req ≠ .consent := by
    unfold noSession
    split_ifs <;> simp
  unfold checkSession
  match r.session with
  | .error () => exact .inr ⟨_, rfl, by simp⟩
  | .ok none => exact .inr ⟨_, rfl, hno⟩
  | .ok (some v) =>
    dsimp only
    match v.context with
    | none => exact .inr ⟨_, rfl, by simp⟩
    | some (authTime, amr) =>
      dsimp only
      split_ifs
      · exact .inl ⟨v, rfl, rfl⟩
      · exact .inr ⟨_, rfl, by simp⟩
      · exact .inr ⟨_, rfl, by simp⟩
      · exact .inr ⟨_, rfl, hno⟩

theorem checkConsent_cases (r : AuthorizeCall) (req : AuthzRequest) (v : SessionView) :
    (checkConsent r req v = .ok () ∧ r.consent = .ok false) ∨
    (checkConsent r req v = .error .consent ∧ r.policyRefusal = none ∧ r.consent = .ok true) ∨
    (∃ reason, checkConsent r req v = .error (.failure reason)) ∨
    ∃ code desc, checkConsent r req v = .error (.error req (redirectErr code desc)) ∧
      (code = "server_error" ∨ code = "consent_required") := by
  unfold checkConsent
  cases v.user with
  | none => exact .inr (.inr (.inr ⟨"server_error", _, rfl, .inl rfl⟩))
  | some u =>
    simp only [refuseIf, reduceCtorEq, if_false]
    cases r.policyRefusal with
    | some message => exact .inr (.inr (.inl ⟨message, rfl⟩))
    | none =>
      match r.consent with
      | .error () => exact .inr (.inr (.inr ⟨"server_error", _, rfl, .inl rfl⟩))
      | .ok false => exact .inl ⟨rfl, rfl⟩
      | .ok true =>
        by_cases hnone : hasPrompt req.prompt promptNone = true
        · exact .inr (.inr (.inr ⟨"consent_required", _, if_pos hnone, .inr rfl⟩))
        · exact .inr (.inl ⟨if_neg hnone, rfl, rfl⟩)

theorem checkSubject_signedIn {r : AuthorizeCall} {req : AuthzRequest} {v : SessionView}
    (h : checkSession r req = .ok v) :
    checkSubject r (req, c) = (checkConsent r req v).map fun _ => (req, c, v) := by
  simp only [checkSubject, h]
  change (checkConsent r req v >>= fun _ => .ok (req, c, v)) = _
  cases checkConsent r req v <;> rfl

theorem Admitted.not_stepUp {session : Option SessionView} {now : ℤ} {code : String}
    {v : SessionView} (h : Admitted P w q areq c) (st : State D)
    (hsession : checkSession (visit P w q session now code) areq = .ok v) :
    ¬StepUp (handleAuthorize P st (visit P w q session now code)).2 := by
  rw [h.outcome]
  generalize visit P w q session now code = r at hsession ⊢
  rw [checkSubject_signedIn hsession]
  obtain ⟨hc, -⟩ | ⟨hc, -⟩ | ⟨reason, hc⟩ | ⟨code, desc, hc, hcode⟩ := checkConsent_cases r areq v
  · rw [hc]
    change ¬StepUp (issueCodeAndRedirect P st.codes r areq c v).2
    obtain hi | ⟨_, _, -, hi⟩ := issueCodeAndRedirect_cases P st.codes r areq c v
    · rw [hi]
      simp [StepUp]
    · rw [hi]
      simp [StepUp]
  · rw [hc]
    simp [StepUp, Except.map]
  · rw [hc]
    simp [StepUp, Except.map]
  · rw [hc]
    obtain rfl | rfl := hcode
    · simp [StepUp, Except.map, redirectErr]
    · simp [StepUp, Except.map, redirectErr]

theorem Admitted.issued {v : SessionView} {now : ℤ} {code : String}
    {ids : String × String} {st : State D} (h : Admitted P w q areq c)
    (hmethod : areq.codeChallenge = "" → areq.codeChallengeMethod = "")
    (hsession : checkSession (visit P w q (some v) now code) areq = .ok v)
    (huser : v.user ≠ none) (hrow : v.row = some ids) (hpolicy : w.policyRefusal = none)
    (hask : (needsConsent w.consents c (v.user.getD "") areq).2 = false)
    (hfresh : st.codes (P.hashToken code) = none) :
    ∃ response, (handleAuthorize P st (visit P w q (some v) now code)).2 =
      .issued areq code (some response) := by
  have hconsent : checkConsent (visit P w q (some v) now code) areq v = .ok () := by
    have hno : (visit P w q (some v) now code).consent = .ok false := by
      change Except.ok (asksConsent P w q (some v)) = _
      rw [h.asks, hask]
    have hpass : (visit P w q (some v) now code).policyRefusal = none := hpolicy
    simp only [checkConsent, refuseIf, if_neg huser, hpass, hno]
    rfl
  obtain ⟨orgID, userID⟩ := ids
  have hcoherent := checkPKCE_coherent h.pkce hmethod orgID v.sid userID
    (visit P w q (some v) now code)
  rw [h.outcome, checkSubject_signedIn hsession, hconsent]
  change ∃ response, (issueCodeAndRedirect P st.codes _ areq c v).2 = _
  simp only [issueCodeAndRedirect, hrow]
  rw [issueCode, if_pos ⟨hfresh, hcoherent⟩]
  change ∃ response, AuthorizeOutcome.issued areq code (responseParams P _ areq) = _
  simp only [AuthorizeOutcome.issued.injEq, true_and]
  unfold responseParams
  split_ifs
  · exact ⟨_, rfl⟩
  · exact ⟨_, rfl⟩

theorem Admitted.consent_asked {v : SessionView} {now : ℤ} {code : String} {st : State D}
    (h : Admitted P w q areq c)
    (hscreen : (handleAuthorize P st (visit P w q (some v) now code)).2 = .diverted .consent) :
    checkSession (visit P w q (some v) now code) areq = .ok v ∧ w.policyRefusal = none ∧
      (needsConsent w.consents c (v.user.getD "") areq).2 = true := by
  rw [h.outcome] at hscreen
  obtain ⟨u, hsession, hu⟩ | ⟨d, hsession, hd⟩ :=
    checkSession_cases (visit P w q (some v) now code) areq
  · have huv : u = v := by
      change Except.ok (some v) = Except.ok (some u) at hu
      simpa using hu.symm
    subst huv
    rw [checkSubject_signedIn hsession] at hscreen
    obtain ⟨hc, -⟩ | ⟨hc, hpolicy, hask⟩ | ⟨reason, hc⟩ | ⟨e, desc, hc, -⟩ :=
      checkConsent_cases (visit P w q (some u) now code) areq u
    · rw [hc] at hscreen
      change (issueCodeAndRedirect P st.codes _ areq c u).2 = _ at hscreen
      obtain hi | ⟨_, _, -, hi⟩ :=
        issueCodeAndRedirect_cases P st.codes (visit P w q (some u) now code) areq c u
      · simp [hi] at hscreen
      · simp [hi] at hscreen
    · refine ⟨hsession, hpolicy, ?_⟩
      rw [← h.asks]
      change Except.ok (asksConsent P w q (some u)) = _ at hask
      simpa using hask
    · simp [hc, Except.map] at hscreen
    · simp [hc, Except.map] at hscreen
  · simp only [checkSubject, hsession] at hscreen
    change AuthorizeOutcome.diverted d = _ at hscreen
    simp [hd] at hscreen

theorem hasPrompt_kept (hq : q.malformed = false) {p : String}
    (hp : hasPrompt (get q.pairs "prompt") p = false) :
    hasPrompt (get (consumePrompt q consumed).pairs "prompt") p = false := by
  rw [hasPrompt] at hp ⊢
  rw [fields_consumePrompt hq]
  simp only [contains_eq_mem, decide_eq_false_iff_not] at hp ⊢
  intro hmem
  exact hp (mem_of_mem_filter hmem)

theorem Admitted.signIn_settles (h : Admitted P w q areq c) {q' : Query} {v : SessionView}
    {amr : List String} {authTime now : ℤ} (hv : v.context = some (some authTime, amr))
    (hq' : resumeAfterSignIn P.parseURL q = .authorize q') (hacr : MeetsACR amr areq)
    (hage : YoungEnough areq authTime now) (st : State D) (code : String) :
    ¬StepUp (handleAuthorize P st (visit P w q' (some v) now code)).2 := by
  have hresumed : q' = consumeReauthPrompt q := by
    unfold resumeAfterSignIn at hq'
    cases hreturn : parkedReturn P.parseURL q with
    | some dest => simp [hreturn] at hq'
    | none =>
      simp only [hreturn, Destination.authorize.injEq] at hq'
      exact hq'.symm
  subst hresumed
  have h' := h.replayed [promptLogin, promptSelectAccount]
  apply h'.not_stepUp st (v := v)
  rw [checkSession_signedIn rfl hv]
  exact ⟨hasPrompt_consumePrompt h.wellFormed (by simp),
    hasPrompt_consumePrompt h.wellFormed (by simp), hage, hacr⟩

theorem Admitted.allow_settles (h : Admitted P w q areq c)
    (hdetails : areq.authorizationDetails = [])
    (hmethod : areq.codeChallenge = "" → areq.codeChallengeMethod = "") {v : SessionView}
    {amr : List String} {authTime now : ℤ} {userID : String} {ids : String × String}
    (hv : v.context = some (some authTime, amr)) (huser : v.user = some userID)
    (hrow : v.row = some ids) {code : String} {st : State D}
    (hscreen : (handleAuthorize P st (visit P w q (some v) now code)).2 = .diverted .consent) :
    ∃ t q', handleConsentPost w.consents (some userID)
        (allowForm q c (needsConsent w.consents c userID areq).1) = (t, .resumed q') ∧
      ∀ (st' : State D) now' code', YoungEnough areq authTime now' →
        st'.codes (P.hashToken code') = none → ∃ areq' response,
          (handleAuthorize P st' (visit P { w with consents := t } q' (some v) now' code')).2 =
            .issued areq' code' (some response) := by
  obtain ⟨hsession, hpolicy, hask⟩ := h.consent_asked hscreen
  rw [huser, Option.getD_some] at hask
  obtain ⟨hmissing, hlisted⟩ := needsConsent_asked hdetails hask
  obtain ⟨hlogin, hselect, -, hacr⟩ := (checkSession_signedIn rfl hv).mp hsession
  rw [h.prompt] at hlogin hselect
  set missing := (needsConsent w.consents c userID areq).1.missing with hshown
  refine ⟨recordConsent w.consents userID c.clientID missing, consumePrompt q [promptConsent],
    ?_, ?_⟩
  · simp only [handleConsentPost, allowForm, h.clientID.1, if_neg h.clientID.2, ← hshown]
    rw [if_neg (by simp), if_neg (by simp [hmissing])]
  · intro st' now' code' hage hfresh
    have h' := h.replayed [promptConsent]
    refine ⟨_, Admitted.issued ⟨h'.wellFormed, h'.inline, h'.single, h'.accepted⟩ hmethod ?_
      (by simp [huser]) hrow hpolicy ?_ hfresh⟩
    · rw [checkSession_signedIn rfl hv]
      exact ⟨hasPrompt_kept h.wellFormed hlogin, hasPrompt_kept h.wellFormed hselect, hage, hacr⟩
    · rw [huser]
      exact needsConsent_settled hdetails (hasPrompt_consumePrompt h.wellFormed (by simp))
        (checkConsent_recordConsent hlisted)

end

/-- After a sign-in that meets the request the replay is not sent to sign in again, and after
Allow the replay gets a code, in both cases while the sign-in is not too old for the request. -/
theorem resumption_converges [DecidableEq D] {P : Primitives D} {w : World} {q : Query}
    {areq : AuthzRequest} {c : Client} (h : Admitted P w q areq c) (sid orgID userID : String)
    (amr : List String) (authTime : ℤ) (enrolled : Option Bool) :
    let v := signedIn sid orgID userID amr authTime enrolled
    (∀ q', resumeAfterSignIn P.parseURL q = .authorize q' → MeetsACR amr areq →
      ∀ (st : State D) now code, YoungEnough areq authTime now →
        ¬StepUp (handleAuthorize P st (visit P w q' (some v) now code)).2) ∧
    (areq.authorizationDetails = [] → (areq.codeChallenge = "" → areq.codeChallengeMethod = "") →
      ∀ (st : State D) now code,
        (handleAuthorize P st (visit P w q (some v) now code)).2 = .diverted .consent →
        ∃ t q', handleConsentPost w.consents (some userID)
            (allowForm q c (needsConsent w.consents c userID areq).1) = (t, .resumed q') ∧
          ∀ (st' : State D) now' code', YoungEnough areq authTime now' →
            st'.codes (P.hashToken code') = none → ∃ areq' response,
              (handleAuthorize P st' (visit P { w with consents := t } q' (some v) now' code')).2 =
                .issued areq' code' (some response)) := by
  intro v
  constructor
  · intro q' hq' hacr st now code hage
    exact h.signIn_settles rfl hq' hacr hage st code
  · intro hdetails hmethod st now code hscreen
    exact h.allow_settles hdetails hmethod rfl rfl rfl hscreen

def ledger : Client where
  clientID := "ledger"
  type := .publicClient
  scopes := ["openid", "profile"]
  redirectURIs := ["https://app/cb"]

def ledgerWorld : World where
  registry := [ledger]

def ledgerQuery : Query where
  pairs := [("client_id", "ledger"), ("redirect_uri", "https://app/cb"),
    ("response_type", "code"), ("scope", "openid profile"), ("prompt", "consent"),
    ("max_age", "60"), ("code_challenge", "E9Melhoa2OwvFrEMTJguCHaoeK1t8URWbuGJSstw-cM"),
    ("code_challenge_method", "S256")]

theorem ledger_admitted :
    Admitted standIn ledgerWorld ledgerQuery (parseAuthz ledgerQuery.pairs) ledger :=
  ⟨rfl, by decide, by decide, by rfl⟩

def ledgerSession : SessionView := signedIn "s1" "org" "u1" ["pwd"] 0 none

/-- A minute later the same request is sent to sign in once more. -/
theorem ledger_asked_again :
    Admitted standIn ledgerWorld ledgerQuery (parseAuthz ledgerQuery.pairs) ledger ∧
      resumeAfterSignIn standIn.parseURL ledgerQuery =
        .authorize (consumeReauthPrompt ledgerQuery) ∧
      MeetsACR ["pwd"] (parseAuthz ledgerQuery.pairs) ∧
      StepUp (handleAuthorize standIn {} (visit standIn ledgerWorld
        (consumeReauthPrompt ledgerQuery) (some ledgerSession) (61 * nanosPerSecond) "c1")).2 := by
  refine ⟨ledger_admitted, by rfl, .inl (by decide), .inl ?_⟩
  rw [consumeReauthPrompt, (ledger_admitted.replayed _).outcome]
  rfl

/-- The request of `ledgerQuery`, half a minute after the sign-in: no second sign-in, a consent
screen, and then a code. -/
theorem ledger_converges :
    ¬StepUp (handleAuthorize standIn {} (visit standIn ledgerWorld
      (consumeReauthPrompt ledgerQuery) (some ledgerSession) (30 * nanosPerSecond) "c1")).2 ∧
    ∃ t q', handleConsentPost ledgerWorld.consents (some "u1") (allowForm ledgerQuery ledger
        (needsConsent ledgerWorld.consents ledger "u1" (parseAuthz ledgerQuery.pairs)).1) =
          (t, .resumed q') ∧
      ∃ areq response, (handleAuthorize standIn {} (visit standIn
        { ledgerWorld with consents := t } q' (some ledgerSession) (40 * nanosPerSecond) "c2")).2 =
          .issued areq "c2" (some response) := by
  have hyoung : ∀ now, sub now 0 ≤ seconds 60 →
      YoungEnough (parseAuthz ledgerQuery.pairs) 0 now := by
    intro now hnow m hm
    have h60 : (parseAuthz ledgerQuery.pairs).maxAge = some 60 := by decide
    obtain rfl : 60 = m := by simpa [h60] using hm
    exact hnow
  obtain ⟨hsignIn, hallow⟩ := resumption_converges ledger_admitted "s1" "org" "u1" ["pwd"] 0 none
  constructor
  · exact hsignIn _ (by rfl) (.inl (by decide)) {} _ _ (hyoung _ (by decide))
  · obtain ⟨t, q', hpost, hreplay⟩ := hallow (by decide) (by decide) {} 0 "c1" (by rfl)
    exact ⟨t, q', hpost, hreplay {} _ _ (hyoung _ (by decide)) rfl⟩

end Signari.Resumption
