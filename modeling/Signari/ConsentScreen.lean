import Signari.ParkedQueries
import Signari.ScopeLists

/-!
# The consent screen

`CheckConsent` and `RecordConsent` of `internal/store/consent.go`, `needsConsent` and
`handleConsentPost` of `internal/httpapi/consent.go`. A recorded consent is a list of scope names
for a user and a client.

The form's token against forgery is already checked, and failing queries are left out.
-/
namespace Signari.ConsentScreen
open UrlValues AuthnContext OAuthClients AuthorizeRequest ScopeLists ParkedQueries List

structure ConsentRow where
  scopes : List String
  withdrawn : Bool := false

/-- The consents of each user, by client. -/
abbrev Consents := String → String → Option ConsentRow

structure ConsentDecision where
  granted : Bool
  missing : List String := []
  previously : List String := []

def grantedScopes (t : Consents) (userID clientID : String) : List String :=
  match t userID clientID with
  | none => []
  | some row => if row.withdrawn then [] else row.scopes

/-- What of the request is not agreed to yet; `openid` is not a permission. -/
def checkConsent (t : Consents) (userID clientID : String) (requested : List String) :
    ConsentDecision :=
  let granted := grantedScopes t userID clientID
  let missing := requested.filter fun s => s != "openid" && !granted.contains s
  ⟨missing.isEmpty, missing, granted⟩

def ConsentRow.merge (row : ConsentRow) (scopes : List String) : ConsentRow :=
  ⟨(row.scopes ++ scopes).dedup.insertionSort fun a b => a ≤ b, false⟩

def recordConsent (t : Consents) (userID clientID : String) (scopes : List String) : Consents :=
  fun u c => if u = userID ∧ c = clientID then
    match t userID clientID with
    | none => some ⟨scopes, false⟩
    | some row => some (row.merge scopes)
  else t u c

/-- The decision, and whether to ask. Asking to look again and details of one transaction come
before the exemption of first-party clients. -/
def needsConsent (t : Consents) (c : Client) (userID : String) (req : AuthzRequest) :
    ConsentDecision × Bool :=
  let requested := splitScopes req.scope
  if hasPrompt req.prompt promptConsent then
    let shown := requested.filter fun s => s != "openid"
    ({ checkConsent t userID c.clientID requested with missing := shown }, !shown.isEmpty)
  else if req.authorizationDetails ≠ [] then (checkConsent t userID c.clientID requested, true)
  else if c.firstParty then (⟨true, [], []⟩, false)
  else
    let d := checkConsent t userID c.clientID requested
    (d, !d.granted)

structure ConsentForm where
  authz : Query
  clientID : String := ""
  decision : String
  scopes : List String := []

inductive ConsentOutcome where
  | login
  | refused (message : String)
  | denied
  | resumed (q : Query)

/-- The form the screen posts when Allow is pressed. -/
def allowForm (authz : Query) (c : Client) (d : ConsentDecision) : ConsentForm where
  authz := authz
  clientID := c.clientID
  decision := "allow"
  scopes := d.missing

/-- The consents after it, and where the browser goes. The session's user is given. -/
def handleConsentPost (t : Consents) (user : Option String) (form : ConsentForm) :
    Consents × ConsentOutcome :=
  match user with
  | none => (t, .login)
  | some userID =>
    let clientID := clientFromAuthz form.authz
    if clientID = "" then (t, .refused "that consent request is incomplete")
    else if form.clientID ≠ "" ∧ form.clientID ≠ clientID then
      (t, .refused "that consent request could not be verified")
    else if form.decision ≠ "allow" ∨ form.scopes = [] then (t, .denied)
    else (recordConsent t userID clientID form.scopes,
      .resumed (consumePrompt form.authz [promptConsent]))

section
variable {t : Consents} {userID clientID : String} {scopes requested : List String}

theorem grantedScopes_recordConsent {s : String}
    (h : s ∈ grantedScopes t userID clientID ∨ s ∈ scopes) :
    s ∈ grantedScopes (recordConsent t userID clientID scopes) userID clientID := by
  simp only [grantedScopes, recordConsent, and_self, if_true] at h ⊢
  cases hrow : t userID clientID with
  | none =>
    simp only [hrow, not_mem_nil, false_or] at h
    simpa using h
  | some row =>
    simp only [hrow] at h
    simp only [ConsentRow.merge, Bool.false_eq_true, if_false, mem_insertionSort,
      mem_dedup, mem_append]
    rcases h with h | h
    · by_cases hw : row.withdrawn = true
      · simp [hw] at h
      · rw [if_neg hw] at h
        exact .inl h
    · exact .inr h

theorem checkConsent_recordConsent
    (h : ∀ s ∈ (checkConsent t userID clientID requested).missing, s ∈ scopes) :
    (checkConsent (recordConsent t userID clientID scopes) userID clientID requested).granted =
      true := by
  simp only [checkConsent, List.isEmpty_iff, filter_eq_nil_iff, Bool.and_eq_true,
    bne_iff_ne, Bool.not_eq_true', contains_eq_mem, decide_eq_false_iff_not,
    not_and, not_not] at h ⊢
  intro s hs hopen
  apply grantedScopes_recordConsent
  by_cases hg : s ∈ grantedScopes t userID clientID
  · exact .inl hg
  · right
    apply h s
    simp [hs, hopen, hg]

variable {c : Client} {req : AuthzRequest}

/-- A request without details is asked about only for scopes, and the screen lists every scope
that is missing. -/
theorem needsConsent_asked (hdetails : req.authorizationDetails = [])
    (hask : (needsConsent t c userID req).2 = true) :
    (needsConsent t c userID req).1.missing ≠ [] ∧
      ∀ s ∈ (checkConsent t userID c.clientID (splitScopes req.scope)).missing,
        s ∈ (needsConsent t c userID req).1.missing := by
  unfold needsConsent at hask ⊢
  by_cases hp : hasPrompt req.prompt promptConsent = true
  · simp only [if_pos hp, Bool.not_eq_true', isEmpty_eq_false_iff] at hask ⊢
    refine ⟨hask, ?_⟩
    intro s hs
    simp only [checkConsent, mem_filter, Bool.and_eq_true] at hs ⊢
    exact ⟨hs.1, hs.2.1⟩
  · rw [if_neg hp, if_neg (not_not.mpr hdetails)] at hask ⊢
    by_cases hf : c.firstParty = true
    · rw [if_pos hf] at hask
      cases hask
    · rw [if_neg hf] at hask ⊢
      refine ⟨?_, fun s hs => hs⟩
      simpa [checkConsent] using hask

theorem needsConsent_settled (hdetails : req.authorizationDetails = [])
    (hprompt : hasPrompt req.prompt promptConsent = false)
    (hgranted : (checkConsent t userID c.clientID (splitScopes req.scope)).granted = true) :
    (needsConsent t c userID req).2 = false := by
  unfold needsConsent
  rw [hprompt, if_neg (by decide), if_neg (not_not.mpr hdetails)]
  by_cases hf : c.firstParty = true
  · rw [if_pos hf]
  · rw [if_neg hf]
    simp [hgranted]

end

end Signari.ConsentScreen
