import Mathlib
import Signari.LabelledRuns
import Signari.SamlInbound

/-!
# External sign-ins and the browser that started them

`startFederation` and `handleFederatedCallback` of `internal/httpapi/federation.go`,
`handleSAMLSourceStart` and `handleSAMLSourceACS` of `internal/httpapi/samlsource.go`, with the
pending logins and outstanding requests of `internal/store`.

Any browser may be made to send any request. It cannot be made to send cookies other than its own,
and nobody can come by the cookie of another browser or foresee a random value. A pending login is
bound to a cookie; an outstanding request is known by its relay state alone.
`completed_where_started` says what that is worth.
-/
namespace Signari.FederatedSignIn
open GoStrings GoTime LabelledRuns SamlInbound List Function

section

structure PendingLogin where
  providerID : String
  orgID : String
  nonce : String
  codeVerifier : String
  linkUserID : String := ""
  returnTo : String := ""

/-- A row of `federated_logins`; the digest of its state is its key. -/
structure LoginRow (D : Type) where
  stateHash : D
  pending : PendingLogin
  bindingHash : D
  expiresAt : ℤ

/-- A row of `saml_source_requests`. -/
structure RequestRow where
  id : String
  providerID : String
  relayState : String
  returnPath : String
  expiresAt : ℤ
  consumedAt : Option ℤ := none

structure Tables (D : Type) where
  logins : List (LoginRow D) := []
  requests : List RequestRow := []
  assertions : List (String × String) := []

structure OidcProvider where
  id : String
  orgID : String

structure SamlSource where
  providerID : String
  ssoURL : String
  acsURL : String
  provider : InboundProvider
  trustsEmailVerification : Bool := false

structure ExternalIdentity where
  subject : String
  email : String := ""
  name : String := ""
  emailVerified : Bool := false

/-- What a sign-in is completed against. -/
inductive Flow (D : Type) where
  | login (stateHash : D)
  | request (id : String)

inductive Outcome (D : Type) where
  | notFound
  | refused (reason : String)
  | signInFirst
  | redirected
  | completed (flow : Option (Flow D)) (pending : PendingLogin) (ext : ExternalIdentity)

variable {D : Type} [DecidableEq D] (hash : String → D)

def loginTTL : ℤ := 600 * nanosPerSecond

def samlSourceRequestTTL : ℤ := 600 * nanosPerSecond

def beginFederatedLogin (t : Tables D) (p : PendingLogin) (state binding : String) (now : ℤ) :
    Option (Tables D) :=
  if t.logins.any fun r => r.stateHash = hash state then none
  else some { t with logins := ⟨hash state, p, hash binding, now + loginTTL⟩ :: t.logins }

/-- The row is deleted before the binding is compared; a refusal takes the deletion back, since
the caller gives up the transaction. -/
def consumeFederatedLogin (t : Tables D) (state binding : String) (now : ℤ) :
    Except String (LoginRow D × Tables D) :=
  match t.logins.find? fun r => r.stateHash = hash state ∧ now < r.expiresAt with
  | none => .error "this sign-in link has already been used or has expired"
  | some r =>
    if r.bindingHash ≠ hash binding then
      .error "this sign-in was started in a different browser"
    else let kept := t.logins.filter fun r => ¬(r.stateHash = hash state ∧ now < r.expiresAt)
      .ok (r, { t with logins := kept })

/-- A request to `/login/with/{slug}` or `/account/link/{slug}`: what the slug and the session
lead to, and the values that are drawn for it. -/
structure StartInput where
  provider : Option OidcProvider
  linking : Bool := false
  /-- The user and the organisation of the session. -/
  session : Option (String × String) := none
  returnTo : String := ""
  nonce : String
  verifier : String
  state : String
  binding : String
  now : ℤ

/-- Who a link is for: nobody, where none is asked for. -/
def linkUser (i : StartInput) (p : OidcProvider) : Except (Outcome D) String :=
  if i.linking then
    match i.session with
    | none => .error .signInFirst
    | some (userID, orgID) =>
      if orgID ≠ p.orgID then .error (.refused "That sign-in method is not available.")
      else .ok userID
  else .ok ""

/-- The browser is given the binding as a cookie when the login has been recorded. -/
def startFederation (t : Tables D) (i : StartInput) : Outcome D × Tables D × Option String :=
  match i.provider with
  | none => (.refused "That sign-in method is not available.", t, none)
  | some p =>
    match linkUser i p with
    | .error o => (o, t, none)
    | .ok user =>
      match beginFederatedLogin hash t
          ⟨p.id, p.orgID, i.nonce, i.verifier, user, i.returnTo⟩ i.state i.binding i.now with
      | none => (.refused "Something went wrong. Please try again.", t, none)
      | some t' => (.redirected, t', some i.binding)

/-- A request to `/login/callback/{slug}`, with what the provider makes of the code. -/
structure CallbackInput where
  error : String := ""
  code : String
  state : String
  provider : Option OidcProvider
  exchange : PendingLogin → Except String ExternalIdentity
  now : ℤ

/-- The handler once the cookie is there, and cleared. -/
def finishCallback (t : Tables D) (i : CallbackInput) (cookie : String) : Outcome D × Tables D :=
  match i.provider with
  | none => (.refused "That sign-in method is not available.", t)
  | some p =>
    match consumeFederatedLogin hash t i.state cookie i.now with
    | .error reason => (.refused reason, t)
    | .ok (r, t') =>
      if r.pending.providerID ≠ p.id then
        (.refused "That sign-in link does not match this provider.", t)
      else match i.exchange r.pending with
        | .error reason => (.refused reason, t')
        | .ok ext => (.completed (some (.login r.stateHash)) r.pending ext, t')

/-- The last component says whether the cookie is cleared. -/
def handleFederatedCallback (t : Tables D) (i : CallbackInput) (cookie : Option String) :
    Outcome D × Tables D × Bool :=
  if i.error ≠ "" then
    (.refused "The sign-in was cancelled or refused by the provider.", t, false)
  else if i.code = "" ∨ i.state = "" then (.refused "That sign-in link is incomplete.", t, false)
  else match cookie.filter (· ≠ "") with
    | none => (.refused ("This sign-in was started in a different browser, or the link is more " ++
        "than ten minutes old. Please try again."), t, false)
    | some c =>
      ((finishCallback hash t i c).1, (finishCallback hash t i c).2, true)

def recordSAMLRequest (t : Tables D) (r : RequestRow) : Option (Tables D) :=
  if t.requests.any fun q => q.id = r.id ∨ q.relayState = r.relayState then none
  else some { t with requests := r :: t.requests }

def consumeSAMLRequest (t : Tables D) (relayState : String) (now : ℤ) :
    Option (RequestRow × Tables D) :=
  (t.requests.find? fun r =>
      r.relayState = relayState ∧ r.consumedAt = none ∧ now < r.expiresAt).map fun r =>
    (r, { t with requests := t.requests.map fun q =>
      if q.relayState = relayState ∧ q.consumedAt = none ∧ now < q.expiresAt then
        { q with consumedAt := some now } else q })

def recordSAMLAssertion (t : Tables D) (providerID assertionID : String) : Option (Tables D) :=
  if t.assertions.contains (providerID, assertionID) then none
  else some { t with assertions := (providerID, assertionID) :: t.assertions }

/-- A request to `/saml/source/{slug}/start`. -/
structure SamlStartInput where
  source : Option SamlSource
  returnTo : String := ""
  id : String
  relay : String
  now : ℤ

def handleSAMLSourceStart (t : Tables D) (i : SamlStartInput) : Outcome D × Tables D :=
  match i.source with
  | none => (.notFound, t)
  | some src =>
    if src.ssoURL = "" ∨ src.provider.spEntityID = "" ∨ src.acsURL = "" then
      (.refused "That sign-in method is not configured correctly.", t)
    else match recordSAMLRequest t
        ⟨i.id, src.providerID, i.relay, i.returnTo, i.now + samlSourceRequestTTL, none⟩ with
      | none => (.refused "Something went wrong. Please try again.", t)
      | some t' => (.redirected, t')

/-- A post to `/saml/source/{slug}/acs`; `response` is the decoded form value. -/
structure AcsInput where
  source : Option SamlSource
  response : Option (List UInt8)
  relayState : String
  now : ℤ

variable {Cert : Type} (L : Library Cert)

/-- The handler once the outstanding request is claimed, or there is none to claim. -/
def finishACS (t : Tables D) (src : SamlSource) (raw : List UInt8) (now : ℤ)
    (pending : Option RequestRow) : Outcome D × Tables D :=
  match consumeResponse L raw src.provider
      ⟨(pending.map RequestRow.id).getD "", src.acsURL, now⟩ with
  | .error _ => (.refused "That sign-in could not be completed.", t)
  | .ok a =>
    if equalFold a.subjectFormat nameIDFormatTransient then
      (.refused "That sign-in method is not configured correctly.", t)
    else match recordSAMLAssertion t src.providerID a.assertionID with
      | none => (.refused "That sign-in could not be completed.", t)
      | some t' =>
        (.completed (pending.map fun r => .request r.id)
          ⟨"", "", "", "", "", (pending.map RequestRow.returnPath).getD ""⟩
          ⟨a.subject, a.email, a.name, src.trustsEmailVerification⟩, t')

def handleSAMLSourceACS (t : Tables D) (i : AcsInput) : Outcome D × Tables D := match i.source with
  | none => (.notFound, t)
  | some src =>
    match i.response with
    | none => (.refused "That sign-in could not be completed.", t)
    | some raw =>
      if i.relayState = "" then finishACS L t src raw i.now none
      else match consumeSAMLRequest t i.relayState i.now with
        | none => (.refused "That sign-in has expired. Please try again.", t)
        | some (r, t') =>
          if r.providerID ≠ src.providerID then
            (.refused "That sign-in could not be completed.", t')
          else finishACS L t' src raw i.now (some r)

end

/-- What happens: browsers send requests, their owners or the passing of time change their jars,
and expired logins are swept. -/
inductive Event (B : Type) where
  | start (b : B) (i : StartInput)
  | callback (b : B) (i : CallbackInput)
  | samlStart (b : B) (i : SamlStartInput)
  | acs (b : B) (i : AcsInput)
  | jar (b : B) (cookie : Option String)
  | sweep (now : ℤ)

/-- The tables and the jars of all browsers; beside them, who started what, which bindings were
given to whom, and what has been completed by whom. -/
structure World (B D : Type) where
  tables : Tables D := {}
  jars : B → Option String := fun _ => none
  startedBy : Flow D → Option B := fun _ => none
  bindings : List (B × String) := []
  completions : List (B × Option (Flow D)) := []

variable {B D Cert : Type} [DecidableEq D] (hash : String → D) (L : Library Cert)

def Outcome.completion (b : B) : Outcome D → List (B × Option (Flow D))
  | .completed flow _ _ => [(b, flow)]
  | _ => []

instance : DecidableEq (Flow D)
  | .login h, .login h' => decidable_of_iff (h = h') (by simp)
  | .request i, .request i' => decidable_of_iff (i = i') (by simp)
  | .login _, .request _ => isFalse (by simp)
  | .request _, .login _ => isFalse (by simp)

def World.act [DecidableEq B] (w : World B D) : Event B → World B D
  | .start b i =>
    match startFederation hash w.tables i with
    | (_, t, some binding) => { w with
        tables := t
        jars := update w.jars b (some binding)
        startedBy := update w.startedBy (.login (hash i.state)) (some b)
        bindings := (b, binding) :: w.bindings }
    | (_, t, none) => { w with tables := t }
  | .callback b i =>
    let r := handleFederatedCallback hash w.tables i (w.jars b)
    { w with
      tables := r.2.1
      jars := if r.2.2 then update w.jars b none else w.jars
      completions := r.1.completion b ++ w.completions }
  | .samlStart b i =>
    match handleSAMLSourceStart w.tables i with
    | (.redirected, t) => { w with
        tables := t
        startedBy := update w.startedBy (.request i.id) (some b) }
    | (_, t) => { w with tables := t }
  | .acs b i =>
    let r := handleSAMLSourceACS L w.tables i
    { w with tables := r.2, completions := r.1.completion b ++ w.completions }
  | .jar b cookie => { w with jars := update w.jars b cookie }
  | .sweep now => { w with tables := { w.tables with
      logins := w.tables.logins.filter fun r => now < r.expiresAt } }

/-- A value that is drawn passes for no other, and nobody puts a cookie into a jar that passes for
one that another browser was given. Responses that nobody asked for are not allowed. -/
def Allowed (w : World B D) : Event B → Prop
  | .start _ i => w.startedBy (.login (hash i.state)) = none ∧
      (∀ b v, w.jars b = some v → hash v ≠ hash i.binding) ∧
      ∀ g ∈ w.bindings, hash g.2 ≠ hash i.binding
  | .samlStart _ i => w.startedBy (.request i.id) = none
  | .acs _ i => ∀ src ∈ i.source, src.provider.allowUnsolicited = false
  | .jar b cookie => ∀ v ∈ cookie, ∀ g ∈ w.bindings, g.1 ≠ b → hash v ≠ hash g.2
  | _ => True

def Step [DecidableEq B] (w : World B D) (e : Event B) (w' : World B D) : Prop :=
  Allowed hash w e ∧ w' = w.act hash L e

/-- A post to the consumer service that carries the relay state of an outstanding request comes
from the browser that started it. -/
def OwnRelay (w : World B D) : Event B → Prop
  | .acs b i => ∀ r ∈ w.tables.requests, r.relayState = i.relayState → r.consumedAt = none →
      i.now < r.expiresAt → w.startedBy (.request r.id) = some b
  | _ => True

def OwnStep [DecidableEq B] (w : World B D) (e : Event B) (w' : World B D) : Prop :=
  Step hash L w e w' ∧ OwnRelay w e

def WhereStarted (w : World B D) (c : B × Option (Flow D)) : Prop :=
  ∃ flow, c.2 = some flow ∧ w.startedBy flow = some c.1

variable {hash L} {w w' : World B D} {e : Event B} {es : List (Event B)} {t : Tables D} {b : B}

theorem consumeFederatedLogin_ok {state binding : String} {now : ℤ} {r : LoginRow D}
    {t' : Tables D} (h : consumeFederatedLogin hash t state binding now = .ok (r, t')) :
    r ∈ t.logins ∧ r.bindingHash = hash binding ∧ t'.logins ⊆ t.logins := by
  unfold consumeFederatedLogin at h
  split at h
  · cases h
  · rename_i row hrow
    split_ifs at h with hbinding
    obtain ⟨rfl, rfl⟩ : row = r ∧ _ = t' := Prod.mk.injEq .. ▸ Except.ok.inj h
    exact ⟨mem_of_find?_eq_some hrow, not_not.mp hbinding, filter_subset_self _⟩

variable (hash t b) in
theorem finishCallback_spec (i : CallbackInput) (c : String) :
    (finishCallback hash t i c).2.logins ⊆ t.logins ∧
      ((finishCallback hash t i c).1.completion b = [] ∨ ∃ r ∈ t.logins, r.bindingHash = hash c ∧
        (finishCallback hash t i c).1.completion b = [(b, some (.login r.stateHash))]) := by
  unfold finishCallback
  split
  · exact ⟨Subset.refl _, .inl rfl⟩
  · split
    · exact ⟨Subset.refl _, .inl rfl⟩
    · rename_i r t' hconsume
      obtain ⟨hmem, hbinding, hsubset⟩ := consumeFederatedLogin_ok hconsume
      split_ifs
      · exact ⟨Subset.refl _, .inl rfl⟩
      · split
        · exact ⟨hsubset, .inl rfl⟩
        · exact ⟨hsubset, .inr ⟨r, hmem, hbinding, rfl⟩⟩

variable (hash t b) in
theorem handleFederatedCallback_spec (i : CallbackInput) (cookie : Option String) :
    (handleFederatedCallback hash t i cookie).2.1.logins ⊆ t.logins ∧
      ((handleFederatedCallback hash t i cookie).1.completion b = [] ∨
        ∃ c r, cookie = some c ∧ r ∈ t.logins ∧ r.bindingHash = hash c ∧
          (handleFederatedCallback hash t i cookie).1.completion b =
            [(b, some (.login r.stateHash))]) := by
  unfold handleFederatedCallback
  split_ifs
  · exact ⟨Subset.refl _, .inl rfl⟩
  · exact ⟨Subset.refl _, .inl rfl⟩
  · split
    · exact ⟨Subset.refl _, .inl rfl⟩
    · rename_i c hc
      obtain ⟨hsubset, hdone⟩ := finishCallback_spec hash t b i c
      refine ⟨hsubset, hdone.imp id ?_⟩
      rintro ⟨r, hmem, hbinding, hcompletion⟩
      exact ⟨c, r, (Option.filter_eq_some_iff.mp hc).1, hmem, hbinding, hcompletion⟩

theorem consumeResponse_unsolicited {raw : List UInt8} {p : InboundProvider} {dest : String}
    {now : ℤ} {out : InboundAssertion} (hp : p.allowUnsolicited = false) :
    consumeResponse L raw p ⟨"", dest, now⟩ ≠ .ok out := by
  intro h
  have hrefused : ∀ root A : XmlTrees.Node, checkInResponseTo root A p "" ≠ .ok () := by
    intro root A hok
    simp only [checkInResponseTo, if_true, IndexedChecks.seq_ok, IndexedChecks.refuseIf_ok] at hok
    exact hok.2.2 hp
  simp only [consumeResponse, IndexedChecks.bind_ok] at h
  obtain ⟨-, -, -, -, doc, -, root, -, -, -, -, -, A, -, -, -, A', -, -, -, u, hanswers, -⟩ := h
  exact hrefused _ _ hanswers

omit [DecidableEq D] in
theorem recordSAMLAssertion_logins {providerID assertionID : String} {t' : Tables D}
    (h : recordSAMLAssertion t providerID assertionID = some t') : t'.logins = t.logins := by
  unfold recordSAMLAssertion at h
  split_ifs at h
  exact Option.some.inj h ▸ rfl

variable (L t b) in
omit [DecidableEq D] in
theorem finishACS_spec (src : SamlSource) (raw : List UInt8) (now : ℤ)
    (pending : Option RequestRow) (hsrc : src.provider.allowUnsolicited = false) :
    (finishACS L t src raw now pending).2.logins = t.logins ∧
      ((finishACS L t src raw now pending).1.completion b = [] ∨ ∃ r, pending = some r ∧
        (finishACS L t src raw now pending).1.completion b = [(b, some (.request r.id))]) := by
  unfold finishACS
  split
  · exact ⟨rfl, .inl rfl⟩
  · rename_i a ha
    split_ifs
    · exact ⟨rfl, .inl rfl⟩
    · split
      · exact ⟨rfl, .inl rfl⟩
      · rename_i t' ht'
        refine ⟨recordSAMLAssertion_logins ht', .inr ?_⟩
        cases pending with
        | none => exact absurd ha (consumeResponse_unsolicited hsrc)
        | some r => exact ⟨r, rfl, rfl⟩

variable (L t b) in
omit [DecidableEq D] in
/-- A post to the consumer service leaves the logins alone, and what it completes is the request
that was outstanding under its relay state. -/
theorem handleSAMLSourceACS_spec (i : AcsInput)
    (hi : ∀ src ∈ i.source, src.provider.allowUnsolicited = false) :
    (handleSAMLSourceACS L t i).2.logins = t.logins ∧
      ((handleSAMLSourceACS L t i).1.completion b = [] ∨
        ∃ r ∈ t.requests, r.relayState = i.relayState ∧ r.consumedAt = none ∧ i.now < r.expiresAt ∧
          (handleSAMLSourceACS L t i).1.completion b = [(b, some (.request r.id))]) := by
  unfold handleSAMLSourceACS
  split
  · exact ⟨rfl, .inl rfl⟩
  · rename_i src hsrc
    have hsolicited := hi src hsrc
    split
    · exact ⟨rfl, .inl rfl⟩
    · rename_i raw _
      split_ifs
      · obtain ⟨hlogins, hnone | ⟨r, hr, -⟩⟩ := finishACS_spec L t b src raw i.now none hsolicited
        · exact ⟨hlogins, .inl hnone⟩
        · cases hr
      · split
        · exact ⟨rfl, .inl rfl⟩
        · rename_i r t' hconsume
          obtain ⟨r', hr', hpair⟩ := Option.map_eq_some_iff.mp hconsume
          obtain ⟨rfl, rfl⟩ := Prod.mk.inj hpair
          have hfound := find?_some hr'
          simp only [decide_eq_true_eq] at hfound
          split_ifs
          · exact ⟨rfl, .inl rfl⟩
          · obtain ⟨hlogins, hnone | ⟨r, hr, hdone⟩⟩ :=
              finishACS_spec L _ b src raw i.now (some r') hsolicited
            · exact ⟨hlogins, .inl hnone⟩
            · obtain rfl := Option.some.inj hr
              exact ⟨hlogins, .inr ⟨r', mem_of_find?_eq_some hr', hfound.1, hfound.2.1,
                hfound.2.2, hdone⟩⟩

variable (hash) in
theorem startFederation_cases (t : Tables D) (i : StartInput) :
    ((startFederation hash t i).2.1 = t ∧ (startFederation hash t i).2.2 = none) ∨
      ∃ p, (startFederation hash t i).2 =
        ({ t with logins := ⟨hash i.state, p, hash i.binding, i.now + loginTTL⟩ :: t.logins },
          some i.binding) := by
  unfold startFederation
  split
  · exact .inl ⟨rfl, rfl⟩
  · split
    · exact .inl ⟨rfl, rfl⟩
    · split
      · exact .inl ⟨rfl, rfl⟩
      · rename_i t' hbegin
        unfold beginFederatedLogin at hbegin
        split_ifs at hbegin
        exact .inr ⟨_, by rw [← Option.some.inj hbegin]⟩

omit [DecidableEq D] in
theorem handleSAMLSourceStart_logins (t : Tables D) (i : SamlStartInput) :
    (handleSAMLSourceStart t i).2.logins = t.logins := by
  unfold handleSAMLSourceStart
  split
  · rfl
  · split_ifs
    · rfl
    · split
      · rfl
      · rename_i t' hrecord
        unfold recordSAMLRequest at hrecord
        split_ifs at hrecord
        exact Option.some.inj hrecord ▸ rfl

def Bound (hash : String → D) (w : World B D) (r : LoginRow D) : Prop :=
  ∃ b β, w.startedBy (.login r.stateHash) = some b ∧ (b, β) ∈ w.bindings ∧ r.bindingHash = hash β

/-- Nobody's cookie passes for a binding of another browser, and the completions of logins are
where they should be. -/
structure Inv (hash : String → D) (w : World B D) : Prop where
  bound : ∀ r ∈ w.tables.logins, Bound hash w r
  jars : ∀ b v, w.jars b = some v → ∀ g ∈ w.bindings, hash v = hash g.2 → g.1 = b
  started : ∀ c ∈ w.completions, ∀ h, c.2 = some (.login h) → w.startedBy (.login h) = some c.1
  answered : ∀ c ∈ w.completions, c.2 ≠ none

variable [DecidableEq B]

variable (hash L) in
theorem act_start (w : World B D) (b : B) (i : StartInput) :
    w.act hash L (.start b i) = w ∨ ∃ p, w.act hash L (.start b i) =
      { w with
        tables := { w.tables with
          logins := ⟨hash i.state, p, hash i.binding, i.now + loginTTL⟩ :: w.tables.logins }
        jars := update w.jars b (some i.binding)
        startedBy := update w.startedBy (.login (hash i.state)) (some b)
        bindings := (b, i.binding) :: w.bindings } := by
  rcases hstart : startFederation hash w.tables i with ⟨o, t, c⟩
  obtain ⟨htables, hcookie⟩ | ⟨p, hp⟩ := startFederation_cases hash w.tables i
  · rw [hstart] at htables hcookie
    obtain ⟨rfl, rfl⟩ : t = w.tables ∧ c = none := ⟨htables, hcookie⟩
    exact .inl (by simp only [World.act, hstart])
  · rw [hstart] at hp
    obtain ⟨rfl, rfl⟩ := Prod.mk.inj hp
    exact .inr ⟨p, by simp only [World.act, hstart]⟩

variable (hash L) in
theorem act_samlStart (w : World B D) (b : B) (i : SamlStartInput) :
    ∃ t s, t.logins = w.tables.logins ∧
      (s = w.startedBy ∨ s = update w.startedBy (.request i.id) (some b)) ∧
      w.act hash L (.samlStart b i) = { w with tables := t, startedBy := s } := by
  have hlogins := handleSAMLSourceStart_logins w.tables i
  rcases hstart : handleSAMLSourceStart w.tables i with ⟨o, t⟩
  rw [hstart] at hlogins
  cases o with
  | redirected => exact ⟨t, _, hlogins, .inr rfl, by simp only [World.act, hstart]⟩
  | notFound | refused | signInFirst | completed =>
    exact ⟨t, _, hlogins, .inl rfl, by simp only [World.act, hstart]⟩

theorem Step.startedBy {flow : Flow D} (h : Step hash L w e w')
    (hflow : w.startedBy flow = some b) : w'.startedBy flow = some b := by
  obtain ⟨hallowed, rfl⟩ := h
  cases e with
  | start b' i =>
    obtain hsame | ⟨p, hp⟩ := act_start hash L w b' i
    · rwa [hsame]
    · rw [hp]
      refine (update_of_ne ?_ _ _).trans hflow
      rintro rfl
      exact absurd (hflow.symm.trans hallowed.1) (by simp)
  | samlStart b' i =>
    obtain ⟨t, s, -, rfl | rfl, hact⟩ := act_samlStart hash L w b' i
    · rwa [hact]
    · rw [hact]
      refine (update_of_ne ?_ _ _).trans hflow
      rintro rfl
      exact absurd (hflow.symm.trans hallowed) (by simp)
  | callback | acs | jar | sweep => exact hflow

theorem Step.bindings (h : Step hash L w e w') : w.bindings ⊆ w'.bindings := by
  obtain ⟨-, rfl⟩ := h
  cases e with
  | start b' i =>
    obtain hsame | ⟨p, hp⟩ := act_start hash L w b' i
    · rw [hsame]
      exact Subset.refl _
    · rw [hp]
      exact subset_cons_self ..
  | samlStart b' i =>
    obtain ⟨t, s, -, -, hact⟩ := act_samlStart hash L w b' i
    rw [hact]
    exact Subset.refl _
  | callback | acs | jar | sweep => exact Subset.refl _

theorem Bound.step {r : LoginRow D} (hr : Bound hash w r) (h : Step hash L w e w') :
    Bound hash w' r := by
  obtain ⟨b, β, hstarted, hgiven, hhash⟩ := hr
  exact ⟨b, β, h.startedBy hstarted, h.bindings hgiven, hhash⟩

theorem Inv.bound_step (hw : Inv hash w) (h : Step hash L w e w') :
    ∀ r ∈ w'.tables.logins, Bound hash w' r := by
  have hold : ∀ r ∈ w.tables.logins, Bound hash w' r := fun r hr => (hw.bound r hr).step h
  obtain ⟨hallowed, rfl⟩ := h
  cases e with
  | start b' i =>
    obtain hsame | ⟨p, hp⟩ := act_start hash L w b' i
    · rwa [hsame] at hold ⊢
    · intro r hr
      rw [hp] at hr hold ⊢
      obtain rfl | hr := mem_cons.mp hr
      · exact ⟨b', i.binding, update_self .., mem_cons_self, rfl⟩
      · exact hold r hr
  | samlStart b' i =>
    obtain ⟨t, s, hlogins, -, hact⟩ := act_samlStart hash L w b' i
    intro r hr
    refine hold r ?_
    rw [hact] at hr
    exact hlogins ▸ hr
  | callback b' i =>
    exact fun r hr => hold r ((handleFederatedCallback_spec hash w.tables b' i _).1 hr)
  | acs b' i =>
    exact fun r hr =>
      hold r ((handleSAMLSourceACS_spec L w.tables b' i hallowed).1 ▸ hr)
  | jar => exact hold
  | sweep => exact fun r hr => hold r (mem_filter.mp hr).1

theorem Inv.jars_step (hw : Inv hash w) (h : Step hash L w e w') :
    ∀ b v, w'.jars b = some v → ∀ g ∈ w'.bindings, hash v = hash g.2 → g.1 = b := by
  obtain ⟨hallowed, rfl⟩ := h
  cases e with
  | start b' i =>
    obtain hsame | ⟨p, hp⟩ := act_start hash L w b' i
    · rw [hsame]
      exact hw.jars
    · rw [hp]
      intro b v hv g hg hhash
      obtain ⟨-, hjars, hbindings⟩ := hallowed
      by_cases hb : b = b'
      · subst hb
        obtain rfl : i.binding = v := by simpa using hv
        obtain rfl | hg := mem_cons.mp hg
        · rfl
        · exact absurd hhash.symm (hbindings g hg)
      · have hv : w.jars b = some v := by simpa [hb] using hv
        obtain rfl | hg := mem_cons.mp hg
        · exact absurd hhash (hjars b v hv)
        · exact hw.jars b v hv g hg hhash
  | samlStart b' i =>
    obtain ⟨t, s, -, -, hact⟩ := act_samlStart hash L w b' i
    rw [hact]
    exact hw.jars
  | callback b' i =>
    intro b v hv
    refine hw.jars b v ?_
    simp only [World.act] at hv
    split_ifs at hv
    · by_cases hb : b = b'
      · simp [hb] at hv
      · simpa [hb] using hv
    · exact hv
  | jar b' cookie =>
    intro b v hv g hg hhash
    by_cases hb : b = b'
    · subst hb
      have hv : cookie = some v := by simpa [World.act] using hv
      by_contra hne
      exact hallowed v hv g hg hne hhash
    · have hv : w.jars b = some v := by simpa [World.act, hb] using hv
      exact hw.jars b v hv g hg hhash
  | acs | sweep => exact hw.jars

/-- What a step adds to the completions: nothing, the login that the sender's own cookie is bound
to, or the outstanding request under the relay state that was posted. -/
theorem Inv.completion_cases (hw : Inv hash w) (h : Step hash L w e w') :
    w'.completions = w.completions ∨
      (∃ b h, w.startedBy (.login h) = some b ∧
        w'.completions = (b, some (.login h)) :: w.completions) ∨
      ∃ b i, e = .acs b i ∧ ∃ r ∈ w.tables.requests, r.relayState = i.relayState ∧
        r.consumedAt = none ∧ i.now < r.expiresAt ∧
        w'.completions = (b, some (.request r.id)) :: w.completions := by
  obtain ⟨hallowed, rfl⟩ := h
  cases e with
  | start b' i =>
    obtain hsame | ⟨p, hp⟩ := act_start hash L w b' i
    · exact .inl (by rw [hsame])
    · exact .inl (by rw [hp])
  | samlStart b' i =>
    obtain ⟨t, s, -, -, hact⟩ := act_samlStart hash L w b' i
    exact .inl (by rw [hact])
  | callback b' i =>
    obtain ⟨-, hnone | ⟨c, r, hcookie, hr, hbinding, hdone⟩⟩ :=
      handleFederatedCallback_spec hash w.tables b' i (w.jars b')
    · exact .inl (by simp only [World.act, hnone, nil_append])
    · obtain ⟨b, β, hstarted, hgiven, hβ⟩ := hw.bound r hr
      obtain rfl : b = b' := hw.jars b' c hcookie (b, β) hgiven (hbinding.symm.trans hβ)
      refine .inr (.inl ⟨b, r.stateHash, hstarted, ?_⟩)
      simp only [World.act, hdone, cons_append, nil_append]
  | acs b' i =>
    obtain ⟨-, hnone | ⟨r, hr, hrelay, hunused, hunexpired, hdone⟩⟩ :=
      handleSAMLSourceACS_spec L w.tables b' i hallowed
    · exact .inl (by simp only [World.act, hnone, nil_append])
    · refine .inr (.inr ⟨b', i, rfl, r, hr, hrelay, hunused, hunexpired, ?_⟩)
      simp only [World.act, hdone, cons_append, nil_append]
  | jar | sweep => exact .inl rfl

theorem Inv.step (hw : Inv hash w) (h : Step hash L w e w') : Inv hash w' where
  bound := hw.bound_step h
  jars := hw.jars_step h
  started := by
    have hold : ∀ c ∈ w.completions, ∀ d, c.2 = some (.login d) →
        w'.startedBy (.login d) = some c.1 := fun c hc d hd => h.startedBy (hw.started c hc d hd)
    obtain hsame | ⟨b, d, hb, hnew⟩ | ⟨b, i, -, r, -, -, -, -, hnew⟩ := hw.completion_cases h
    · rwa [hsame]
    · rw [hnew, forall_mem_cons]
      refine ⟨fun d' hd' => ?_, hold⟩
      obtain rfl : d = d' := by simpa using hd'
      exact h.startedBy hb
    · rw [hnew, forall_mem_cons]
      exact ⟨fun d' hd' => (by simp at hd'), hold⟩
  answered := by
    obtain hsame | ⟨b, d, -, hnew⟩ | ⟨b, i, -, r, -, -, -, -, hnew⟩ := hw.completion_cases h
    · rw [hsame]
      exact hw.answered
    · rw [hnew, forall_mem_cons]
      exact ⟨by simp, hw.answered⟩
    · rw [hnew, forall_mem_cons]
      exact ⟨by simp, hw.answered⟩

theorem inv_run (hrun : Run (Step hash L) {} es w) : Inv hash w := by
  refine hrun.invariant (I := fun _ => Inv hash) ?_ fun hw h => hw.step h
  constructor
  case jars => simp
  all_goals exact fun _ h => absurd h not_mem_nil

theorem WhereStarted.step {c : B × Option (Flow D)} (hc : WhereStarted w c)
    (h : Step hash L w e w') : WhereStarted w' c := by
  obtain ⟨flow, hflow, hstarted⟩ := hc
  exact ⟨flow, hflow, h.startedBy hstarted⟩

theorem Inv.ownStep (hw : Inv hash w) (hall : ∀ c ∈ w.completions, WhereStarted w c)
    (h : OwnStep hash L w e w') : ∀ c ∈ w'.completions, WhereStarted w' c := by
  obtain ⟨h, hown⟩ := h
  have hold : ∀ c ∈ w.completions, WhereStarted w' c := fun c hc => (hall c hc).step h
  obtain hsame | ⟨b, d, hb, hnew⟩ | ⟨b, i, rfl, r, hr, hrelay, hunused, hunexpired, hnew⟩ :=
    hw.completion_cases h
  · rwa [hsame]
  · rw [hnew, forall_mem_cons]
    exact ⟨⟨_, rfl, h.startedBy hb⟩, hold⟩
  · rw [hnew, forall_mem_cons]
    exact ⟨⟨_, rfl, h.startedBy (hown r hr hrelay hunused hunexpired)⟩, hold⟩

/-- In every run a completed login was started by the browser that completed it, and where no post
carries another browser's relay state the same is true of the requests. -/
theorem completed_where_started (hrun : Run (Step hash L) {} es w) :
    (∀ c ∈ w.completions, ∃ flow, c.2 = some flow ∧
      ∀ d, flow = .login d → w.startedBy flow = some c.1) ∧
    (Run (OwnStep hash L) {} es w → ∀ c ∈ w.completions, WhereStarted w c) := by
  have hw := inv_run hrun
  refine ⟨fun c hc => ?_, fun hown => ?_⟩
  · obtain ⟨flow, hflow⟩ := Option.ne_none_iff_exists'.mp (hw.answered c hc)
    exact ⟨flow, hflow, fun d hd => hd ▸ hw.started c hc d (hd ▸ hflow)⟩
  · refine (hown.invariant (I := fun _ u =>
      Inv hash u ∧ ∀ c ∈ u.completions, WhereStarted u c) ?_ ?_).2
    · exact ⟨inv_run (L := L) .nil, fun _ h => absurd h not_mem_nil⟩
    · exact fun hu h => ⟨hu.1.step h.1, hu.1.ownStep hu.2 h⟩

inductive Browser where
  | alice
  | mallory
  deriving DecidableEq

/-- The provider's answer to the request `req-1`, about whoever signed in there. -/
def sampleResponse : XmlTrees.Node :=
  responseWith [⟨"", "InResponseTo", "req-1"⟩] "mallory"
    [.elem "saml" "SubjectConfirmation" [] [
      .elem "saml" "SubjectConfirmationData" [⟨"", "InResponseTo", "req-1"⟩] []]]
    "1970-12-31T00:00:00Z" []

def sampleSource : SamlSource where
  providerID := "p1"
  ssoURL := "sso"
  acsURL := "acs"
  provider := sampleProvider

/-- Mallory signs in with one provider and starts a request with another, whose answer is posted
by one of the two browsers. -/
def relayedBy (poster : Browser) : List (Event Browser) :=
  [.start .mallory
      ⟨some ⟨"p0", "org"⟩, false, none, "", "nonce", "verifier", "state", "binding", 0⟩,
    .callback .mallory
      ⟨"", "code", "state", some ⟨"p0", "org"⟩, fun _ => .ok ⟨"m", "", "", false⟩, 0⟩,
    .samlStart .mallory ⟨some sampleSource, "", "req-1", "relay-1", 0⟩,
    .acs poster ⟨some sampleSource, some [], "relay-1", 0⟩]

def World.after (w : World Browser String) : List (Event Browser) → World Browser String
  | [] => w
  | e :: es => (w.act id (sampleLibrary sampleResponse) e).after es

theorem relayedBy_completions (poster : Browser) :
    (World.after {} (relayedBy poster)).completions =
      [(poster, some (.request "req-1")), (.mallory, some (.login "state"))] := by
  cases poster <;> decide

theorem relayedBy_started (poster : Browser) :
    (World.after {} (relayedBy poster)).startedBy (.request "req-1") = some .mallory := by
  cases poster <;> decide

theorem relayedBy_fresh (poster : Browser) :
    (World.after {} ((relayedBy poster).take 2)).startedBy (.request "req-1") = none := by
  cases poster <;> decide

theorem relayedBy_run (poster : Browser) :
    Run (Step id (sampleLibrary sampleResponse)) {} (relayedBy poster)
      (World.after {} (relayedBy poster)) := by
  refine .cons ⟨⟨rfl, ?_, ?_⟩, rfl⟩ (.cons ⟨trivial, rfl⟩ (.cons ⟨?_, rfl⟩ (.cons ⟨?_, rfl⟩ .nil)))
  · simp
  · simp
  · exact relayedBy_fresh poster
  · rintro src ⟨⟩
    rfl

theorem relayedBy_mallory_run :
    Run (OwnStep id (sampleLibrary sampleResponse)) {} (relayedBy .mallory)
      (World.after {} (relayedBy .mallory)) := by
  refine .cons ⟨⟨⟨rfl, ?_, ?_⟩, rfl⟩, trivial⟩ (.cons ⟨⟨trivial, rfl⟩, trivial⟩
    (.cons ⟨⟨?_, rfl⟩, trivial⟩ (.cons ⟨⟨?_, rfl⟩, ?_⟩ .nil)))
  · simp
  · simp
  · exact relayedBy_fresh .mallory
  · rintro src ⟨⟩
    rfl
  · have howned : ∀ r ∈ (World.after {} ((relayedBy .mallory).take 3)).tables.requests,
        (World.after {} ((relayedBy .mallory).take 3)).startedBy (.request r.id) =
          some Browser.mallory := by decide
    exact fun r hr _ _ _ => howned r hr

theorem completed_where_started_mallory :
    (World.after {} (relayedBy .mallory)).completions.length = 2 ∧
      ∀ c ∈ (World.after {} (relayedBy .mallory)).completions,
        WhereStarted (World.after {} (relayedBy .mallory)) c :=
  ⟨by rw [relayedBy_completions]; rfl,
    (completed_where_started (relayedBy_run .mallory)).2 relayedBy_mallory_run⟩

/-- Mallory has another browser post the answer to the request started in her own, and that
browser is signed in as her. -/
theorem alice_signed_in_as_mallory :
    ∃ (es : List (Event Browser)) (w : World Browser String),
      Run (Step id (sampleLibrary sampleResponse)) {} es w ∧
        ∃ c ∈ w.completions, c = (.alice, some (.request "req-1")) ∧
          w.startedBy (.request "req-1") = some .mallory ∧ ¬WhereStarted w c := by
  refine ⟨_, _, relayedBy_run .alice, _, ?_, rfl, relayedBy_started .alice, ?_⟩
  · rw [relayedBy_completions]
    exact mem_cons_self
  · rintro ⟨flow, ⟨⟩, hstarted⟩
    exact absurd ((relayedBy_started .alice).symm.trans hstarted) (by decide)

end Signari.FederatedSignIn
