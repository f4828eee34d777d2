import Signari.PushedOnlyClients

/-!
# Validation at the push

`handlePAR` judges a request built from eight of the pushed parameters, and the authorization
endpoint judges what `ParseAuthz` reads in all of them. `ValidateAuthz` is parted here into the
checks on what the push copies (`CopiedChecks`) and the checks on the fields it leaves empty
(`UncopiedChecks`). The first come out the same both times; the second pass at the push
whatever was sent, so the request that was accepted there is accepted again exactly where
the parameters the push did not look at would pass too (`revalidated_iff`).
-/
namespace Signari.PushedValidation
open GoStrings IndexedChecks UrlValues AuthnContext OAuthClients TokenRequests AuthorizeRequest
open PushedRequests PushedOnlyClients

def CopiedChecks (parseURL : String → Option ParsedURL) (req : AuthzRequest) (c : Client) : Prop :=
  c.enabled = true ∧ req.redirectURI ≠ "" ∧ c.hasRedirectURI parseURL req.redirectURI = true ∧
    req.responseType ≠ "" ∧ checkResponseType req c = .ok () ∧
    c.allowsResponseType req.responseType = true ∧
    c.allowsGrantType "authorization_code" = true ∧ req.requestURI = "" ∧
    checkPKCE req c = .ok () ∧ checkScopes req c = .ok ()

/-- The checks on the fields the push leaves empty. -/
structure UncopiedChecks (parseURL : String → Option ParsedURL) (req : AuthzRequest) : Prop where
  requestObject : req.requestObject = ""
  dpopJKT : req.dpopJKT = "" ∨ validThumbprint req.dpopJKT = true
  prompt : validatePrompt req.prompt = .ok ()
  resources : validateResources parseURL req.resources = .ok ()
  responseMode : checkResponseMode req = .ok ()

theorem validateAuthz_some_iff {parseURL : String → Option ParsedURL} {req : AuthzRequest}
    {c d : Client} :
    validateAuthz parseURL req (some c) = .ok d ↔
      trimSpace req.clientID ≠ "" ∧ CopiedChecks parseURL req c ∧
        UncopiedChecks parseURL req ∧ c = d := by
  simp only [validateAuthz, checkTarget, bind_ok, refuseIf_ok, mapError_ok, ne_eq, not_not,
    not_and_or, Except.ok.injEq, Bool.not_eq_false, CopiedChecks]
  constructor
  · intro h
    grind [UncopiedChecks]
  · intro h
    grind [UncopiedChecks]

theorem checkResponseMode_congr {req req' : AuthzRequest}
    (hmode : req.responseMode = req'.responseMode) (htype : req.responseType = req'.responseType) :
    checkResponseMode req = checkResponseMode req' := by
  simp only [checkResponseMode, hmode, htype]

/-- The fields the push copies, alone. -/
def copied (req : AuthzRequest) : AuthzRequest where
  redirectURI := req.redirectURI
  responseType := req.responseType
  scope := req.scope
  state := req.state
  nonce := req.nonce
  codeChallenge := req.codeChallenge
  codeChallengeMethod := req.codeChallengeMethod
  requestURI := req.requestURI

theorem CopiedChecks.of_copied {parseURL : String → Option ParsedURL} {req req' : AuthzRequest}
    {c : Client} (h : CopiedChecks parseURL req c) (hsame : copied req = copied req') :
    CopiedChecks parseURL req' c := by
  have hcopied : CopiedChecks parseURL (copied req) c := h
  rw [hsame] at hcopied
  exact hcopied

def boundKey (r : PushCall) (form : Values) : String := match r.proof with
  | .ok proofJKT => if proofJKT = "" then get form "dpop_jkt" else proofJKT
  | .error _ => ""

/-- The parameters the push stores without a look at them would pass at the authorization
endpoint. -/
structure UncopiedFit (parseURL : String → Option ParsedURL) (r : PushCall) (form : Values) :
    Prop where
  requestObject : get form "request" = ""
  key : boundKey r form = "" ∨ validThumbprint (boundKey r form) = true
  prompt : validatePrompt (get form "prompt") = .ok ()
  resources : validateResources parseURL (values form "resource") = .ok ()
  responseMode : checkResponseMode (parseAuthz form) = .ok ()

theorem pushedKey_ok {r : PushCall} {form : Values} {jkt : String}
    (h : pushedKey form r.proof = .ok jkt) : jkt = boundKey r form := by
  unfold boundKey
  cases hproof : r.proof with
  | error e => simp [pushedKey, hproof] at h
  | ok proofJKT =>
    rw [hproof, pushedKey] at h
    dsimp only
    split_ifs at h ⊢ with hempty
    · exact (Except.ok.inj h).symm
    · rw [seq_ok] at h
      exact (Except.ok.inj h.2).symm

theorem eq_empty_of_pushedKey {form : Values} {proof : Except String String}
    (h : pushedKey form proof = .ok "") : get form "dpop_jkt" = "" := by
  cases proof with
  | error e => simp [pushedKey] at h
  | ok proofJKT =>
    rw [pushedKey] at h
    split_ifs at h with hempty
    · exact Except.ok.inj h
    · rw [seq_ok] at h
      exact absurd (Except.ok.inj h.2) hempty

variable {D : Type} [DecidableEq D] {P : Primitives D} {r : PushCall} {form : Values}
  {row : PushedRow}

section
omit [DecidableEq D]

theorem preparePush_checks (h : preparePush P r form = .ok row) :
    ∃ c, lookupClient r.registry row.clientID = some c ∧
      CopiedChecks P.parseURL (pushedAuthz row.clientID form) c ∧
      trimSpace row.clientID ≠ "" := by
  simp only [preparePush, bind_ok, mapError_ok] at h
  obtain ⟨_, _, _, _, creds, _, c, hc, _, _, d, hvalid, jkt, _, hrow⟩ := h
  obtain rfl := Except.ok.inj hrow
  obtain ⟨hid, hcopied, _⟩ := validateAuthz_some_iff.mp hvalid
  refine ⟨c, ?_, hcopied, hid⟩
  cases hfound : lookupClient r.registry creds.clientID with
  | none => simp [hfound, knownClient] at hc
  | some e => simpa [hfound, knownClient] using hc

/-- What is redeemed is what was sent, but for the credentials and the key. -/
theorem get_requestParams (h : preparePush P r form = .ok row) {k : String}
    (hkept : k ∉ credentialParams) (hkey : k ≠ "dpop_jkt") :
    get row.requestParams k = get form k := by
  rw [PushedRow.requestParams, (preparePush_ok h).2.1]
  split_ifs
  · rw [get_set_ne _ _ hkey, get_without _ hkept]
  · rw [get_without _ hkept]

theorem resources_requestParams (h : preparePush P r form = .ok row) :
    values row.requestParams "resource" = values form "resource" := by
  rw [PushedRow.requestParams, (preparePush_ok h).2.1]
  split_ifs
  · rw [values_set_ne _ _ (by decide), values_without _ (by decide)]
  · rw [values_without _ (by decide)]

theorem key_requestParams (h : preparePush P r form = .ok row) :
    get row.requestParams "dpop_jkt" = boundKey r form := by
  obtain ⟨_, hparams, hkey, _⟩ := preparePush_ok h
  rw [← pushedKey_ok hkey, PushedRow.requestParams, hparams]
  split_ifs with hstored
  · exact get_set _ _ _
  · have hnone : row.dpopJKT.getD "" = "" := not_not.mp hstored
    rw [hnone] at hkey ⊢
    rw [get_without _ (by decide), eq_empty_of_pushedKey hkey]

theorem uncopiedChecks_iff (h : preparePush P r form = .ok row) :
    UncopiedChecks P.parseURL (parseAuthz row.requestParams) ↔ UncopiedFit P.parseURL r form := by
  have hget {k : String} (hkept : k ∉ credentialParams) (hkey : k ≠ "dpop_jkt") :=
    get_requestParams h hkept hkey
  have hobject : (parseAuthz row.requestParams).requestObject = get form "request" :=
    hget (by decide) (by decide)
  have hprompt : (parseAuthz row.requestParams).prompt = get form "prompt" :=
    hget (by decide) (by decide)
  have hkey : (parseAuthz row.requestParams).dpopJKT = boundKey r form := key_requestParams h
  have hresources : (parseAuthz row.requestParams).resources = values form "resource" :=
    resources_requestParams h
  have hmode : checkResponseMode (parseAuthz row.requestParams) =
      checkResponseMode (parseAuthz form) := by
    apply checkResponseMode_congr
    · exact hget (by decide) (by decide)
    · exact hget (by decide) (by decide)
  constructor
  · rintro ⟨h₁, h₂, h₃, h₄, h₅⟩
    exact ⟨hobject ▸ h₁, hkey ▸ h₂, hprompt ▸ h₃, hresources ▸ h₄, hmode ▸ h₅⟩
  · rintro ⟨h₁, h₂, h₃, h₄, h₅⟩
    exact ⟨hobject ▸ h₁, hkey ▸ h₂, hprompt ▸ h₃, hresources ▸ h₄, hmode ▸ h₅⟩

theorem copied_requestParams (h : preparePush P r form = .ok row) :
    copied (pushedAuthz row.clientID form) = copied (parseAuthz row.requestParams) := by
  have hget {k : String} (hkept : k ∉ credentialParams) (hkey : k ≠ "dpop_jkt") :=
    (get_requestParams h hkept hkey).symm
  have huri : get row.requestParams "request_uri" = "" := by
    rw [get_requestParams h (by decide) (by decide)]
    exact (preparePush_ok h).1
  simp only [copied, pushedAuthz, parseAuthz, huri]
  congr 1 <;> exact hget (by decide) (by decide)

/-- The request of a redeemed row, under any client id, against the record it was pushed
under. -/
theorem validate_row_iff (h : preparePush P r form = .ok row) (id : String) :
    (∃ d, validateAuthz P.parseURL { parseAuthz row.requestParams with clientID := id }
        (lookupClient r.registry row.clientID) = .ok d) ↔
      trimSpace id ≠ "" ∧ UncopiedFit P.parseURL r form := by
  obtain ⟨c, hfound, hpushed, _⟩ := preparePush_checks h
  have hcopied : CopiedChecks P.parseURL { parseAuthz row.requestParams with clientID := id } c :=
    hpushed.of_copied (copied_requestParams h)
  rw [hfound, ← uncopiedChecks_iff h]
  constructor
  · rintro ⟨d, hd⟩
    obtain ⟨hid, _, ⟨h₁, h₂, h₃, h₄, h₅⟩, _⟩ := validateAuthz_some_iff.mp hd
    exact ⟨hid, h₁, h₂, h₃, h₄, h₅⟩
  · rintro ⟨hid, h₁, h₂, h₃, h₄, h₅⟩
    exact ⟨c, validateAuthz_some_iff.mpr ⟨hid, hcopied, ⟨h₁, h₂, h₃, h₄, h₅⟩, rfl⟩⟩

end

theorem handlePAR_stored {pushed : PushedTable D} {handle : String}
    (hform : r.form = some form) (h : (handlePAR P pushed r).2 = .ok handle) :
    ∃ row, preparePush P r form = .ok row ∧
      (handlePAR P pushed r).1 (P.hashToken handle) = some row := by
  simp only [handlePAR, hform] at h ⊢
  cases hrow : preparePush P r form with
  | error e => simp [hrow] at h
  | ok row =>
    simp only [hrow] at h ⊢
    split_ifs at h ⊢ with hfresh
    obtain rfl := Except.ok.inj h
    exact ⟨row, rfl, Function.update_self ..⟩

/-- A redemption of the handle a push was answered with: the row is still there, whatever
happened in between. -/
structure Redeems (P : Primitives D) (pushed later : PushedTable D) (r : PushCall)
    (form : Values) (clientID : String) (now : ℤ) (q : Values) : Prop where
  pushes : r.form = some form
  answered : (handlePAR P pushed r).2 = .ok r.handle
  kept : later (P.hashToken r.handle) = (handlePAR P pushed r).1 (P.hashToken r.handle)
  redeemed : (consumePushedRequest P later r.handle clientID now).2 = .ok q

variable {pushed later : PushedTable D} {clientID : String} {now : ℤ} {q : Values}

theorem Redeems.stored_row (h : Redeems P pushed later r form clientID now q) :
    ∃ row, preparePush P r form = .ok row ∧ row.clientID = clientID ∧ q = row.requestParams := by
  obtain ⟨row, hrow, hstored⟩ := handlePAR_stored h.pushes h.answered
  obtain ⟨live, hlive, rfl⟩ := consumePushedRequest_ok h.redeemed
  obtain rfl : live = row := by
    have hfound := hlive.stored
    rw [h.kept, hstored] at hfound
    exact (Option.some.inj hfound).symm
  exact ⟨live, hrow, hlive.owner, rfl⟩

theorem revalidated_iff (h : Redeems P pushed later r form clientID now q) :
    (∃ d, validateAuthz P.parseURL (parseAuthz q) (lookupClient r.registry clientID) = .ok d) ↔
      trimSpace (get form "client_id") ≠ "" ∧ UncopiedFit P.parseURL r form := by
  obtain ⟨row, hrow, rfl, rfl⟩ := h.stored_row
  have hid := get_requestParams hrow (by decide : "client_id" ∉ credentialParams) (by decide)
  rw [← hid]
  exact validate_row_iff hrow _

def promptForm (prompt : String) : Values := ("prompt", prompt) :: vaultPush.form.getD []

def promptPush (prompt : String) : PushCall := { vaultPush with form := some (promptForm prompt) }

def promptPushed (prompt : String) : PushedTable String :=
  (handlePAR standIn (fun _ => none) (promptPush prompt)).1

theorem revalidated_iff_consent :
    (∃ d, validateAuthz standIn.parseURL (parseAuthz (promptForm "consent"))
        (lookupClient (promptPush "consent").registry "vault") = .ok d) ↔
      trimSpace (get (promptForm "consent") "client_id") ≠ "" ∧
        UncopiedFit standIn.parseURL (promptPush "consent") (promptForm "consent") :=
  have hredeems : Redeems standIn (fun _ => none) (promptPushed "consent") (promptPush "consent")
      (promptForm "consent") "vault" 1 (promptForm "consent") := ⟨rfl, by rfl, rfl, by rfl⟩
  revalidated_iff hredeems

/-- A prompt that asks for two things at once is stored, and refused when it is redeemed. -/
theorem conflicting_prompt_pushed :
    Redeems standIn (fun _ => none) (promptPushed "none login") (promptPush "none login")
        (promptForm "none login") "vault" 1 (promptForm "none login") ∧
      ¬∃ d, validateAuthz standIn.parseURL (parseAuthz (promptForm "none login"))
        (lookupClient [vault] "vault") = .ok d := by
  refine ⟨⟨rfl, by rfl, rfl, by rfl⟩, ?_⟩
  rintro ⟨d, hd⟩
  have hfound : lookupClient [vault] "vault" = some vault := by decide
  rw [hfound] at hd
  have hprompt := (validateAuthz_some_iff.mp hd).2.2.1.prompt
  revert hprompt
  decide

end Signari.PushedValidation
