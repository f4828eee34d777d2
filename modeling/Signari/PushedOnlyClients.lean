import Signari.AuthorizeEndpoint
import Signari.HistoryTables

/-!
# Clients that must push

A client may be registered to start authorization through a push only. The handler asks
whether a request was pushed after the pushed parameters have taken the place of the query,
and a push may not contain `request_uri`, so a request that was pushed looks like one that was
not: wherever the flag can be read, such a client is locked out with a live handle as without
one. `pushedOnly_iff` says exactly when the endpoint does what the flag is for.

The invariant is `stored_run`: each row of the table was written by one push of the run and
still holds what that push sent.
-/
namespace Signari.PushedOnlyClients
open IndexedChecks UrlValues OAuthClients TokenRequests AuthorizeRequest AuthorizationCodes
open PushedRequests AuthorizeEndpoint LabelledRuns HistoryTables

variable {D : Type} [DecidableEq D] {P : Primitives D} {st st' : State D}

/-- The observation of a request stored by a push. -/
def Pushes (P : Primitives D) (x : Action × Outcome) (hash : D) (p : PushCall) : Prop :=
  x = (.push p, .pushed (.ok p.handle)) ∧ P.hashToken p.handle = hash

def Holds (P : Primitives D) (row : PushedRow) (p : PushCall) : Prop :=
  ∃ form, p.form = some form ∧ preparePush P p form = .ok { row with usedAt := none }

variable {xs : List (Action × Outcome)} {x : Action × Outcome}

theorem handlePAR_cases (P : Primitives D) (pushed : PushedTable D) (p : PushCall) :
    ((handlePAR P pushed p).1 = pushed ∧ ∃ e, (handlePAR P pushed p).2 = .error e) ∨
    ∃ form row, p.form = some form ∧ preparePush P p form = .ok row ∧
      pushed (P.hashToken p.handle) = none ∧
      handlePAR P pushed p =
        (Function.update pushed (P.hashToken p.handle) (some row), .ok p.handle) := by
  unfold handlePAR
  cases hform : p.form with
  | none => exact .inl ⟨rfl, _, rfl⟩
  | some form =>
    dsimp only
    cases hprep : preparePush P p form with
    | error e => exact .inl ⟨rfl, _, rfl⟩
    | ok row =>
      dsimp only
      by_cases hfresh : pushed (P.hashToken p.handle) = none
      · rw [if_pos hfresh]
        exact .inr ⟨form, row, rfl, hprep, hfresh, rfl⟩
      · rw [if_neg hfresh]
        exact .inl ⟨rfl, _, rfl⟩

omit [DecidableEq D] in
theorem holds_of_preparePush {p : PushCall} {form : Values} {row : PushedRow}
    (hform : p.form = some form) (hprep : preparePush P p form = .ok row) : Holds P row p := by
  obtain ⟨_, _, _, hunused⟩ := preparePush_ok hprep
  have hrow : { row with usedAt := none } = row := by rw [← hunused]
  exact ⟨form, hform, by rw [hrow, hprep]⟩

theorem stored_push (h : Recorded (Pushes P) (Holds P) xs st.pushed) (p : PushCall) :
    Recorded (Pushes P) (Holds P) (xs ++ [(.push p, .pushed (handlePAR P st.pushed p).2)])
      (handlePAR P st.pushed p).1 := by
  obtain ⟨hsame, e, he⟩ | ⟨form, row, hform, hprep, hfresh, heq⟩ := handlePAR_cases P st.pushed p
  · refine h.frame (fun hash => .inl (by rw [hsame])) ?_
    rintro hash p' ⟨hx, _⟩
    simp [he] at hx
  · rw [heq]
    refine h.insert hfresh ?_ (holds_of_preparePush hform hprep)
    intro hash p'
    constructor
    · rintro ⟨hx, hhash⟩
      simp only [Prod.mk.injEq, Action.push.injEq] at hx
      rw [← hx.1] at hhash
      exact ⟨hhash.symm, hx.1.symm⟩
    · rintro ⟨rfl, rfl⟩
      exact ⟨rfl, rfl⟩

theorem admitRequest_pushed_rows {pushed : PushedTable D} (r : AuthorizeCall) (hash : D) :
    (admitRequest P pushed r).1 hash = pushed hash ∨ ∃ row used, pushed hash = some row ∧
      (admitRequest P pushed r).1 hash = some { row with usedAt := used } := by
  unfold admitRequest
  cases authorizeParams r with
  | error e => exact .inl rfl
  | ok query =>
    dsimp only
    cases refuseDuplicateParams query with
    | error e => exact .inl rfl
    | ok u =>
      dsimp only
      unfold effectiveParams
      by_cases huri : get query "request_uri" = ""
      · rw [if_pos huri]
        exact .inl rfl
      · rw [if_neg huri]
        exact consumePushedRequest_rows hash

theorem stored_step (h : Recorded (Pushes P) (Holds P) xs st.pushed) (hstep : Step P st x st') :
    Recorded (Pushes P) (Holds P) (xs ++ [x]) st'.pushed := by
  obtain ⟨a, o⟩ := x
  cases a with
  | push p =>
    simp only [Step, handle, Prod.mk.injEq] at hstep
    obtain ⟨rfl, rfl⟩ := hstep
    exact stored_push h p
  | authorize r =>
    simp only [Step, handle, Prod.mk.injEq] at hstep
    obtain ⟨rfl, rfl⟩ := hstep
    refine h.frame ?_ ?_
    · intro hash
      rw [handleAuthorize_pushed]
      obtain heq | ⟨row, used, hrow, hused⟩ := admitRequest_pushed_rows (P := P) r hash
      · exact .inl heq
      · exact .inr ⟨row, _, hrow, hused, fun _ hholds => hholds⟩
    · rintro hash p ⟨hx, _⟩
      simp at hx
  | token r =>
    simp only [Step, handle, Prod.mk.injEq] at hstep
    obtain ⟨rfl, rfl⟩ := hstep
    refine h.frame ?_ ?_
    · intro hash
      obtain hst | ⟨_, _, _, hst⟩ := handleToken_codes P st r <;> exact .inl (by rw [hst])
    · rintro hash p ⟨hx, _⟩
      simp at hx

theorem stored_run (h : Run (Step P) {} xs st) : Recorded (Pushes P) (Holds P) xs st.pushed :=
  h.invariant (I := fun ys s => Recorded (Pushes P) (Holds P) ys s.pushed) .empty
    fun hI hstep => stored_step hI hstep

/-- The parameters of a request; none where they cannot be read. -/
def query (r : AuthorizeCall) : Values := match authorizeParams r with
  | .error _ => []
  | .ok q => q

def pushedParams (p : PushCall) (form : Values) (clientID : String) : Values :=
  let kept := without form credentialParams
  let key := match pushedKey form p.proof with
    | .error _ => ""
    | .ok jkt => jkt
  set (if key ≠ "" then set kept "dpop_jkt" key else kept) "client_id" clientID

/-- What becomes of a request that ValidateAuthz accepted, with no gate after it. -/
def processed (r : AuthorizeCall) (c : Client) (q : Values) :
    Except Diversion (AuthzRequest × Client) :=
  ((withDetails r c (parseAuthz q)).mapError (.error (parseAuthz q))).map fun areq => (areq, c)

/-- The request redeems the live handle of a push of the run. -/
structure RedeemsPush (P : Primitives D) (xs : List (Action × Outcome)) (st : State D)
    (r : AuthorizeCall) (p : PushCall) (form : Values) : Prop where
  pushed : ∃ x ∈ xs, Pushes P x (P.hashToken (get (query r) "request_uri")) p
  sent : p.form = some form
  unambiguous : refuseDuplicateParams (query r) = .ok ()
  live : ∃ row, LiveHandle P st.pushed (get (query r) "request_uri") (get (query r) "client_id")
    r.now row

/-- What the flag is for: without a handle a request is refused, and with one it is processed
as pushed. -/
structure PushedOnly (P : Primitives D) (xs : List (Action × Outcome)) (st : State D)
    (r : AuthorizeCall) : Prop where
  noHandle : get (query r) "request_uri" = "" →
    ∃ d, (admitRequest P st.pushed r).2 = .error d ∧ (handleAuthorize P st r).2 = .diverted d
  withHandle : ∀ p form c, RedeemsPush P xs st r p form →
    validateAuthz P.parseURL (parseAuthz (pushedParams p form (get (query r) "client_id")))
      (lookupClient r.registry (get (query r) "client_id")) = .ok c →
    (admitRequest P st.pushed r).2 =
        processed r c (pushedParams p form (get (query r) "client_id")) ∧
      (admitRequest P st.pushed r).2 ≠ .error (.failure mustPushMessage)

/-- Where a request would be admitted, it has a handle exactly when the flag cannot be read. -/
def GateFits (P : Primitives D) (st : State D) (r : AuthorizeCall) : Prop :=
  ∀ q c areq, refuseDuplicateParams (query r) = .ok () →
    (effectiveParams P st.pushed (query r) r.now).2 = .ok q →
    validateAuthz P.parseURL (parseAuthz q) (lookupClient r.registry (parseAuthz q).clientID) =
      .ok c →
    withDetails r c (parseAuthz q) = .ok areq →
    (get (query r) "request_uri" ≠ "" ↔ r.requirePushed (get (query r) "client_id") = none)

omit [DecidableEq D] in
theorem requestParams_eq {row : PushedRow} {p : PushCall} {form : Values}
    (hform : p.form = some form) (h : Holds P row p) (clientID : String) :
    set row.requestParams "client_id" clientID = pushedParams p form clientID := by
  obtain ⟨form', hform', hprep⟩ := h
  obtain rfl : form = form' := by simpa [hform] using hform'
  obtain ⟨_, hparams, hkey, _⟩ := preparePush_ok hprep
  simp only at hparams hkey
  simp only [PushedRow.requestParams, pushedParams, hparams, hkey]

omit [DecidableEq D] in
theorem pushedParams_uri {row : PushedRow} {p : PushCall} {form : Values}
    (hform : p.form = some form) (h : Holds P row p) (clientID : String) :
    get (pushedParams p form clientID) "request_uri" = "" := by
  obtain ⟨form', hform', hprep⟩ := h
  obtain rfl : form = form' := by simpa [hform] using hform'
  obtain ⟨huri, _, _, _⟩ := preparePush_ok hprep
  have hkept : get (without form credentialParams) "request_uri" = "" := by
    rw [get_without form (by decide), huri]
  unfold pushedParams
  rw [get_set_ne _ _ (by decide)]
  split_ifs
  · rw [get_set_ne _ _ (by decide), hkept]
  · exact hkept

@[simp] theorem pushedParams_clientID (p : PushCall) (form : Values) (clientID : String) :
    (parseAuthz (pushedParams p form clientID)).clientID = clientID := by
  simp [parseAuthz, pushedParams]

variable {r : AuthorizeCall}

theorem admit_of_params {pushed : PushedTable D} {q : Values}
    (hread : authorizeParams r = .ok (query r)) (hdup : refuseDuplicateParams (query r) = .ok ())
    (hq : (effectiveParams P pushed (query r) r.now).2 = .ok q) :
    (admitRequest P pushed r).2 = admitParams P r q := by
  unfold admitRequest
  rw [hread]
  dsimp only
  rw [hdup]
  dsimp only
  rw [hq]
  simp only [Except.mapError, bind, Except.bind]

theorem read_of_get {k : String} (h : get (query r) k ≠ "") :
    authorizeParams r = .ok (query r) := by
  unfold query at h ⊢
  cases hread : authorizeParams r with
  | error e =>
    rw [hread] at h
    exact absurd rfl h
  | ok q => rfl

omit [DecidableEq D] in
/-- The gate is the only thing between an accepted request and its processing. -/
theorem admitParams_eq_processed {q : Values} {c : Client}
    (hvalid : validateAuthz P.parseURL (parseAuthz q)
      (lookupClient r.registry (parseAuthz q).clientID) = .ok c)
    (hgate : ∀ areq, withDetails r c (parseAuthz q) = .ok areq →
      ¬(get q "request_uri" = "" ∧ r.requirePushed c.clientID = some true)) :
    admitParams P r q = processed r c q := by
  cases hdetails : withDetails r c (parseAuthz q) with
  | error e =>
    simp [admitParams, processed, hvalid, hdetails, Except.mapError, Except.map, bind, Except.bind]
  | ok areq =>
    rw [admitParams_ok.mpr ⟨hvalid, hdetails, hgate areq hdetails⟩]
    simp [processed, hdetails, Except.mapError, Except.map]

theorem processed_ne_mustPush (c : Client) (q : Values) :
    processed r c q ≠ .error (.failure mustPushMessage) := by
  unfold processed
  cases withDetails r c (parseAuthz q) <;> simp [Except.mapError, Except.map]

theorem handleAuthorize_refused {d : Diversion} (h : (admitRequest P st.pushed r).2 = .error d) :
    (handleAuthorize P st r).2 = .diverted d := by
  simp [handleAuthorize, h, bind, Except.bind]

theorem effectiveParams_of_push {p : PushCall} {form : Values}
    (hstored : Recorded (Pushes P) (Holds P) xs st.pushed)
    (h : RedeemsPush P xs st r p form) :
    ∃ row, Holds P row p ∧ (effectiveParams P st.pushed (query r) r.now).2 =
      .ok (pushedParams p form (get (query r) "client_id")) := by
  obtain ⟨x, hx, hpush⟩ := h.pushed
  obtain ⟨row, hlive⟩ := h.live
  obtain ⟨row', hrow', hholds⟩ := hstored.kept x hx _ p hpush
  rw [hlive.stored, Option.some.injEq] at hrow'
  subst hrow'
  refine ⟨row, hholds, ?_⟩
  rw [effectiveParams, if_neg hlive.requestURI_ne]
  simp only [consumePushedRequest_of_live hlive, Except.map]
  rw [requestParams_eq h.sent hholds]

theorem push_of_effectiveParams {q : Values} (hstored : Recorded (Pushes P) (Holds P) xs st.pushed)
    (hdup : refuseDuplicateParams (query r) = .ok ())
    (hne : get (query r) "request_uri" ≠ "")
    (hq : (effectiveParams P st.pushed (query r) r.now).2 = .ok q) :
    ∃ p form row, RedeemsPush P xs st r p form ∧ Holds P row p ∧
      q = pushedParams p form (get (query r) "client_id") := by
  rw [effectiveParams, if_neg hne] at hq
  dsimp only at hq
  cases hconsume : (consumePushedRequest P st.pushed (get (query r) "request_uri")
      (get (query r) "client_id") r.now).2 with
  | error e => simp [hconsume, Except.map] at hq
  | ok q₀ =>
    obtain ⟨row, hlive, rfl⟩ := consumePushedRequest_ok hconsume
    obtain ⟨x, hx, p, hpush, hholds⟩ := hstored.written _ _ hlive.stored
    obtain ⟨form, hform, hprep⟩ := hholds
    refine ⟨p, form, row, ⟨⟨x, hx, hpush⟩, hform, hdup, row, hlive⟩, ⟨form, hform, hprep⟩, ?_⟩
    simp only [hconsume, Except.map, Except.ok.injEq] at hq
    rw [← hq, requestParams_eq hform ⟨form, hform, hprep⟩]

omit [DecidableEq D] in
/-- An accepted request was read: without parameters there is no client. -/
theorem read_of_valid {q : Values} {c : Client} (hq : get q "client_id" = get (query r) "client_id")
    (hvalid : validateAuthz P.parseURL (parseAuthz q)
      (lookupClient r.registry (parseAuthz q).clientID) = .ok c) :
    authorizeParams r = .ok (query r) ∧ c.clientID = get (query r) "client_id" := by
  have hfound := (validateAuthz_ok hvalid).1
  have hid := lookupClient_clientID hfound
  refine ⟨read_of_get (k := "client_id") ?_, by rw [hid]; exact hq⟩
  intro he
  have hempty : (parseAuthz q).clientID = "" := by rw [← he]; exact hq
  rw [hempty, lookupClient, if_pos rfl] at hfound
  simp at hfound

theorem gateFits_of_pushedOnly (hrun : Run (Step P) {} xs st)
    (hflag : r.requirePushed (get (query r) "client_id") ≠ some false)
    (h : PushedOnly P xs st r) : GateFits P st r := by
  intro q c areq hdup hq hvalid hdetails
  by_cases huri : get (query r) "request_uri" = ""
  · obtain rfl : query r = q := by simpa [effectiveParams, huri] using hq
    obtain ⟨hread, hclient⟩ := read_of_valid rfl hvalid
    obtain ⟨d, hd, _⟩ := h.noHandle huri
    refine ⟨fun hne => absurd huri hne, fun hnone => ?_⟩
    have hadmitted : admitParams P r (query r) = .ok (areq, c) := by
      rw [admitParams_ok, hclient, hnone]
      exact ⟨hvalid, hdetails, by simp⟩
    rw [admit_of_params hread hdup hq, hadmitted] at hd
    simp at hd
  · obtain ⟨p, form, row, hredeem, hholds, rfl⟩ :=
      push_of_effectiveParams (stored_run hrun) hdup huri hq
    rw [pushedParams_clientID] at hvalid
    obtain ⟨hproc, _⟩ := h.withHandle p form c hredeem hvalid
    refine ⟨fun _ => ?_, fun _ => huri⟩
    have hclient := lookupClient_clientID (validateAuthz_ok hvalid).1
    have hadmitted : admitParams P r (pushedParams p form (get (query r) "client_id")) =
        .ok (areq, c) := by
      rw [← admit_of_params (read_of_get huri) hdup hq, hproc]
      simp [processed, hdetails, Except.mapError, Except.map]
    have hgate := (admitParams_ok.mp hadmitted).2.2
    rw [hclient, pushedParams_uri hredeem.sent hholds] at hgate
    cases hread : r.requirePushed (get (query r) "client_id") with
    | none => rfl
    | some b => cases b <;> simp_all

theorem pushedOnly_of_gateFits (hrun : Run (Step P) {} xs st)
    (hflag : r.requirePushed (get (query r) "client_id") ≠ some false)
    (h : GateFits P st r) : PushedOnly P xs st r where
  noHandle := by
    intro huri
    cases hadmitted : (admitRequest P st.pushed r).2 with
    | error d => exact ⟨d, rfl, handleAuthorize_refused hadmitted⟩
    | ok x =>
      obtain ⟨areq, c⟩ := x
      obtain ⟨query', q, hread, hdup, hq, hparams⟩ := admitRequest_ok hadmitted
      obtain rfl : query r = query' := by simp [query, hread]
      obtain rfl : query r = q := by simpa [effectiveParams, huri] using hq
      obtain ⟨hvalid, hdetails, hgate⟩ := admitParams_ok.mp hparams
      obtain ⟨_, hclient⟩ := read_of_valid rfl hvalid
      have hnone := (h _ c areq hdup hq hvalid hdetails).not.mp (by simpa using huri)
      rw [hclient] at hgate
      cases hflag' : r.requirePushed (get (query r) "client_id") with
      | none => exact absurd hflag' hnone
      | some b => cases b <;> simp_all
  withHandle := by
    intro p form c hredeem hvalid
    obtain ⟨row, hholds, hq⟩ := effectiveParams_of_push (stored_run hrun) hredeem
    obtain ⟨_, hlive⟩ := hredeem.live
    have hne := hlive.requestURI_ne
    have hclient := lookupClient_clientID (validateAuthz_ok hvalid).1
    have hvalid' : validateAuthz P.parseURL
        (parseAuthz (pushedParams p form (get (query r) "client_id")))
        (lookupClient r.registry
          (parseAuthz (pushedParams p form (get (query r) "client_id"))).clientID) = .ok c := by
      rw [pushedParams_clientID, hvalid]
    have hproc : (admitRequest P st.pushed r).2 =
        processed r c (pushedParams p form (get (query r) "client_id")) := by
      rw [admit_of_params (read_of_get hne) hredeem.unambiguous hq]
      refine admitParams_eq_processed hvalid' ?_
      intro areq hdetails
      have hnone := (h _ c areq hredeem.unambiguous hq hvalid' hdetails).mp hne
      rw [hclient, hnone]
      simp
    rw [hproc]
    exact ⟨rfl, processed_ne_mustPush c _⟩

/-- Along every run, for a client whose flag is set: the endpoint does what the flag is for
exactly when the gate fits the request. -/
theorem pushedOnly_iff (hrun : Run (Step P) {} xs st)
    (hflag : r.requirePushed (get (query r) "client_id") ≠ some false) :
    PushedOnly P xs st r ↔ GateFits P st r :=
  ⟨gateFits_of_pushedOnly hrun hflag, pushedOnly_of_gateFits hrun hflag⟩

def vault : Client where
  clientID := "vault"
  type := .publicClient
  scopes := ["openid"]
  redirectURIs := ["https://app/cb"]

def vaultPush : PushCall where
  form := some [("client_id", "vault"), ("redirect_uri", "https://app/cb"),
    ("response_type", "code"), ("scope", "openid"),
    ("code_challenge", "E9Melhoa2OwvFrEMTJguCHaoeK1t8URWbuGJSstw-cM"),
    ("code_challenge_method", "S256")]
  registry := [vault]
  random := "h1"
  now := 0

def vaultAuthorize : AuthorizeCall where
  urlQuery := [("client_id", "vault"), ("request_uri", "urn:ietf:params:oauth:request_uri:h1")]
  registry := [vault]
  requirePushed _ := some true
  parseDetails _ _ := .ok []
  session := .ok none
  code := "c1"
  now := 1

def vaultPushed : Action × Outcome := (.push vaultPush, .pushed (.ok vaultPush.handle))

def vaultState : State String := (handle standIn {} (.push vaultPush)).1

theorem vault_run : Run (Step standIn) {} [vaultPushed] vaultState :=
  .snoc .nil (step_of_outcome (by rfl))

theorem pushedOnly_iff_vault :
    PushedOnly standIn [vaultPushed] vaultState vaultAuthorize ↔
      GateFits standIn vaultState vaultAuthorize :=
  pushedOnly_iff vault_run (by decide)

/-- The client redeems the handle it has just pushed and is told to push. -/
theorem vault_locked_out :
    Run (Step standIn) {} [vaultPushed] vaultState ∧
      vaultAuthorize.requirePushed (get (query vaultAuthorize) "client_id") = some true ∧
      (handleAuthorize standIn vaultState vaultAuthorize).2 = .diverted (.failure mustPushMessage) ∧
      ¬PushedOnly standIn [vaultPushed] vaultState vaultAuthorize := by
  have hrefused : (admitRequest standIn vaultState.pushed vaultAuthorize).2 =
      .error (.failure mustPushMessage) := by rfl
  refine ⟨vault_run, rfl, handleAuthorize_refused hrefused, ?_⟩
  intro h
  have hlive : LiveHandle standIn vaultState.pushed "urn:ietf:params:oauth:request_uri:h1" "vault"
      1 { orgID := "", clientID := "vault", params := vaultPush.form.getD [],
          expiresAt := 90000000000, dpopJKT := none } :=
    ⟨by decide, by rfl, rfl, by decide, rfl⟩
  have hredeem : RedeemsPush standIn [vaultPushed] vaultState vaultAuthorize vaultPush
      (vaultPush.form.getD []) :=
    ⟨⟨vaultPushed, List.mem_singleton.mpr rfl, rfl, rfl⟩, rfl, by decide, _, hlive⟩
  exact (h.withHandle vaultPush _ vault hredeem (by rfl)).2 hrefused

end Signari.PushedOnlyClients
