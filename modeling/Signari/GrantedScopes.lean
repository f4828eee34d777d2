import Signari.AuthorizeEndpoint

/-!
# The scopes of a code

`ValidateAuthz` looks the fields of the scope parameter up in the client's list, and
`issueCodeAndRedirect` stores what `splitScopes` makes of the same parameter. The first ends a
field at any Unicode space, the second at a space, a tab or a newline. They read one set of
scopes exactly where the parameter has no other kind of space (`granted_iff_separated`): any
other one stays inside a stored scope, which no client was checked for.
-/
namespace Signari.GrantedScopes
open GoStrings IndexedChecks UrlValues OAuthClients AuthorizeRequest AuthorizeEndpoint ScopeLists
  List

section
variable {sep sep' : Char → Bool} {c : Char}

theorem fieldsCarry_congr {cs : List Char} (h : ∀ d ∈ cs, sep d = sep' d) (carry : List Char) :
    fieldsCarry sep cs carry = fieldsCarry sep' cs carry := by
  induction cs generalizing carry with
  | nil => rfl
  | cons d ds ih =>
    have hds := ih fun e he => h e (mem_cons_of_mem d he)
    simp only [fieldsCarry, h d mem_cons_self, hds]

theorem fieldsBy_congr {s : String} (h : ∀ d ∈ s.toList, sep d = sep' d) :
    fieldsBy sep s = fieldsBy sep' s :=
  congrArg (List.map String.ofList) (fieldsCarry_congr h [])

theorem exists_fieldsCarry {cs carry : List Char} (hc : c ∈ carry ∨ c ∈ cs)
    (hsep : sep c = false) : ∃ w ∈ fieldsCarry sep cs carry, c ∈ w := by
  induction cs generalizing carry with
  | nil =>
    have hcarry : c ∈ carry := by simpa using hc
    exact ⟨carry, by simp [fieldsCarry, ne_nil_of_mem hcarry], hcarry⟩
  | cons d ds ih =>
    rw [mem_cons, or_left_comm] at hc
    cases hd : sep d with
    | false =>
      have hopen : c ∈ carry ++ [d] ∨ c ∈ ds := by
        rw [mem_append, mem_singleton]
        grind
      simpa [fieldsCarry, hd] using ih hopen
    | true =>
      have hne : c ≠ d := fun he => by simp [he, hd] at hsep
      have hrest : c ∈ carry ∨ c ∈ ds := hc.resolve_left hne
      by_cases hcarry : c ∈ carry
      · exact ⟨carry, by simp [fieldsCarry, hd, ne_nil_of_mem hcarry], hcarry⟩
      · obtain ⟨w, hw, hcw⟩ := ih (.inr (hrest.resolve_left hcarry) : c ∈ [] ∨ c ∈ ds)
        refine ⟨w, ?_, hcw⟩
        by_cases hnil : carry = [] <;> simp [fieldsCarry, hd, hnil, hw]

theorem exists_fieldsBy {s : String} (hc : c ∈ s.toList) (hsep : sep c = false) :
    ∃ w ∈ fieldsBy sep s, c ∈ w.toList := by
  obtain ⟨w, hw, hcw⟩ := exists_fieldsCarry (.inr hc : c ∈ [] ∨ c ∈ s.toList) hsep
  exact ⟨String.ofList w, mem_map_of_mem hw, by simpa using hcw⟩

end

def Separated (scope : String) : Prop :=
  ∀ c ∈ scope.toList, isSpace c = true → scopeSeparator c = true

theorem isSpace_of_scopeSeparator {c : Char} (h : scopeSeparator c = true) : isSpace c = true := by
  simp only [scopeSeparator, Bool.or_eq_true, beq_iff_eq] at h
  rcases h with (rfl | rfl) | rfl <;> decide

theorem Separated.splitScopes_eq {scope : String} (h : Separated scope) :
    splitScopes scope = fields scope :=
  fieldsBy_congr fun c hc => Bool.eq_iff_iff.mpr ⟨isSpace_of_scopeSeparator, h c hc⟩

theorem splitScopes_iff_separated (scope : String) :
    (∀ w, w ∈ splitScopes scope ↔ w ∈ fields scope) ↔ Separated scope := by
  constructor
  · intro h c hc hspace
    by_contra hstays
    obtain ⟨w, hw, hcw⟩ := exists_fieldsBy hc (Bool.eq_false_of_not_eq_true hstays)
    have hclean := (fieldsBy_mem ((h w).mp hw)).2 c hcw
    simp [hclean] at hspace
  · intro h w
    rw [h.splitScopes_eq]

theorem validateAuthz_registered {parseURL : String → Option ParsedURL} {req : AuthzRequest}
    {c : Option Client} {d : Client} (h : validateAuthz parseURL req c = .ok d) :
    ∀ w ∈ fields req.scope, w ∈ d.scopes := by
  simp only [validateAuthz, bind_ok] at h
  obtain ⟨e, _, _, _, _, _, _, _, _, _, _, _, _, _, _, _, _, _, _, _, _, hscopes, _, _, _, _,
    hd⟩ := h
  obtain rfl := Except.ok.inj hd
  simp only [checkScopes, seq_ok, refuseIf_ok, ne_eq, not_not] at hscopes
  intro w hw
  have hkept := filter_eq_nil_iff.mp hscopes.2.2 w hw
  simpa using hkept

/-- The scopes on the code are those of the parameter that were found in the client's list. -/
def GrantsValidated (r : AuthorizeCall) (req : AuthzRequest) (d : Client) : Prop :=
  ∀ w, w ∈ (grantRecord r req d).scopes ↔ w ∈ fields req.scope ∧ w ∈ d.scopes

theorem granted_iff_separated {parseURL : String → Option ParsedURL} {req : AuthzRequest}
    {c : Option Client} {d : Client} (r : AuthorizeCall)
    (h : validateAuthz parseURL req c = .ok d) :
    GrantsValidated r req d ↔ Separated req.scope := by
  have hall (w : String) : (w ∈ fields req.scope ∧ w ∈ d.scopes) ↔ w ∈ fields req.scope :=
    and_iff_left_of_imp (validateAuthz_registered h w)
  simp only [GrantsValidated, hall]
  exact splitScopes_iff_separated req.scope

def portal : Client where
  clientID := "portal"
  type := .confidentialClient
  requirePKCE := false
  scopes := ["openid", "profile"]
  redirectURIs := ["https://app/cb"]

def portalRequest (scope : String) : AuthzRequest where
  clientID := "portal"
  redirectURI := "https://app/cb"
  responseType := "code"
  scope := scope

def portalCall : AuthorizeCall where
  registry := [portal]
  requirePushed _ := none
  parseDetails _ _ := .ok []
  session := .ok none
  code := "c1"
  now := 0

theorem granted_iff_separated_portal :
    GrantsValidated portalCall (portalRequest "openid profile") portal ↔
      Separated "openid profile" :=
  granted_iff_separated portalCall
    (by rfl : validateAuthz (fun _ => none) (portalRequest "openid profile") (some portal) =
      .ok portal)

/-- A no-break space parts the two scopes that are checked and joins them on the code. -/
theorem no_break_space_granted :
    validateAuthz (fun _ => none) (portalRequest "openid\u00a0profile") (some portal) = .ok portal ∧
      ¬GrantsValidated portalCall (portalRequest "openid\u00a0profile") portal := by
  refine ⟨by rfl, fun h => ?_⟩
  have hstored : "openid\u00a0profile" ∈
      (grantRecord portalCall (portalRequest "openid\u00a0profile") portal).scopes := by
    decide
  have hlisted := ((h _).mp hstored).2
  revert hlisted
  decide

end Signari.GrantedScopes
