import Signari.GoStrings
import Mathlib.Data.List.Sort

/-!
# Configuration files

The declarative file of `internal/config` and its `Validate`. Every problem of a file is collected
before the file is refused, so `validate` is a list of problems that must be empty.

The redirect URI validator is shared with the other registration paths and `secureURL`
parses its URL, so both are arguments.
-/
namespace Signari.ConfigFile
open GoStrings List

structure Group where
  name : String
  displayName : String := ""
  description : String := ""

structure Client where
  clientID : String
  name : String := ""
  redirectURIs : List String := []
  scopes : List String := []
  isPublic : Bool := false
  launchURL : String := ""
  logoURL : String := ""
  portalHidden : Bool := false
  enabled : Option Bool := none

structure SAMLProvider where
  entityID : String
  name : String := ""
  acsURLs : List String := []
  nameID : String := ""
  enabled : Option Bool := none

structure RADIUSClient where
  name : String
  network : String := ""
  enabled : Option Bool := none
  secret : String := ""

structure File where
  version : ℤ := 1
  org : String := ""
  groups : List Group := []
  clients : List Client := []
  samlProviders : List SAMLProvider := []
  radiusClients : List RADIUSClient := []

/-- `clients.ValidateRedirectURI` and `secureURL`. -/
structure Urls where
  validateRedirectURI : String → Except String Unit
  secureURL : String → Bool

/-- `if c { add(text) }`. -/
def problemIf (c : Prop) [Decidable c] (text : String) : List String := if c then [text] else []

@[simp] theorem problemIf_nil {c : Prop} [Decidable c] {text : String} :
    problemIf c text = [] ↔ ¬c := by
  unfold problemIf
  split_ifs with h <;> simp [h]

section
variable {α : Type} (kind noun : String) (key : α → String) (own : α → List String)

/-- The loop over one section; `seen` are the keys of the entries before this one. -/
def sectionProblems : ℕ → List String → List α → List String
  | _, _, [] => []
  | i, seen, x :: xs =>
    if key x = "" then
      (kind ++ "[" ++ toString i ++ "]: " ++ noun ++ " is required") ::
        sectionProblems (i + 1) seen xs
    else
      problemIf (key x ∈ seen) (kind ++ "[" ++ toString i ++ "]: " ++ quote (key x) ++
        " appears twice") ++ own x ++ sectionProblems (i + 1) (key x :: seen) xs

variable {kind noun key own}

theorem sectionProblems_nil {i : ℕ} {seen : List String} {xs : List α}
    (h : sectionProblems kind noun key own i seen xs = []) :
    (xs.map key).Nodup ∧ ∀ x ∈ xs, key x ≠ "" ∧ own x = [] ∧ key x ∉ seen := by
  induction xs generalizing i seen with
  | nil => simp
  | cons x xs ih =>
    unfold sectionProblems at h
    split_ifs at h with hx
    simp only [append_eq_nil_iff, problemIf_nil] at h
    obtain ⟨⟨hseen, hown⟩, hrest⟩ := h
    obtain ⟨hnodup, hxs⟩ := ih hrest
    simp only [mem_cons, not_or] at hxs
    constructor
    · simp only [map_cons, nodup_cons, mem_map, not_exists, not_and]
      exact ⟨fun y hy => (hxs y hy).2.2.1, hnodup⟩
    · rw [forall_mem_cons]
      exact ⟨⟨hx, hown, hseen⟩, fun y hy => ⟨(hxs y hy).1, (hxs y hy).2.1, (hxs y hy).2.2.2⟩⟩

end

section
variable (urls : Urls)

def redirectProblems (c : Client) : List String :=
  c.redirectURIs.flatMap fun u =>
    match urls.validateRedirectURI u with
    | .ok () => []
    | .error e => ["clients[" ++ c.clientID ++ "]: " ++ e]

def clientProblems (c : Client) : List String :=
  problemIf (c.redirectURIs = []) ("clients[" ++ c.clientID ++
    "]: at least one redirect_uri is required") ++
  redirectProblems urls c ++
  problemIf (c.launchURL ≠ "" ∧ urls.secureURL c.launchURL = false)
    ("clients[" ++ c.clientID ++ "]: launch_url must be https") ++
  problemIf (c.logoURL ≠ "" ∧ hasPrefix c.logoURL "https://" = false)
    ("clients[" ++ c.clientID ++ "]: logo_url must be https") ++
  problemIf (c.portalHidden = true ∧ c.launchURL ≠ "") ("clients[" ++ c.clientID ++
    "]: portal_hidden and launch_url contradict each other")

def acsProblems (p : SAMLProvider) (u : String) : List String :=
  problemIf (hasPrefix u "https://" = false) ("saml_providers[" ++ p.entityID ++ "]: acs_url " ++
    quote u ++ " must be https: it carries a signed assertion for a real user") ++
  problemIf (u.toList.contains '*' = true) ("saml_providers[" ++ p.entityID ++ "]: acs_url " ++
    quote u ++ " contains a wildcard")

def samlProblems (p : SAMLProvider) : List String :=
  problemIf (p.acsURLs = []) ("saml_providers[" ++ p.entityID ++
    "]: at least one acs_url is required") ++
  p.acsURLs.flatMap (acsProblems p) ++
  problemIf (p.nameID ∉ ["", "persistent", "emailAddress", "transient"])
    ("saml_providers[" ++ p.entityID ++ "]: name_id_format " ++ quote p.nameID ++
      " is not one of persistent, emailAddress, transient")

def radiusProblems (r : RADIUSClient) : List String :=
  problemIf (r.network = "") ("radius_clients[" ++ r.name ++ "]: network is required") ++
  problemIf (r.secret ≠ "") ("radius_clients[" ++ r.name ++ "]: remove `secret`. A RADIUS " ++
    "shared secret in a repository is in every clone of it, every editor backup and the CI " ++
    "logs of anyone who forked it. Set it with `signari radius add-client` instead")

def problems (f : File) : List String :=
  sectionProblems "groups" "name" Group.name (fun _ => []) 0 [] f.groups ++
  sectionProblems "clients" "client_id" Client.clientID (clientProblems urls) 0 [] f.clients ++
  sectionProblems "saml_providers" "entity_id" SAMLProvider.entityID samlProblems 0 []
    f.samlProviders ++
  sectionProblems "radius_clients" "name" RADIUSClient.name radiusProblems 0 [] f.radiusClients

def validate (f : File) : Except String Unit := if problems urls f = [] then .ok ()
  else .error ("the configuration has " ++ toString (problems urls f).length ++
    " problem(s):\n  " ++ join ((problems urls f).insertionSort (· ≤ ·)) "\n  " ++
    "\n\nNothing was changed. A file that is half-applied looks like it worked and fails " ++
    "somewhere in the middle")

/-- `Parse` on a decoded document. -/
def parse (f : File) : Except String File := do
  if f.version ≠ 1 then
    throw ("version must be 1 (got " ++ toString f.version ++ ")")
  validate urls f
  return f

variable {urls}

/-- What a validated file promises the plan: keys that name one entry each. -/
structure Keyed (f : File) : Prop where
  groups : (f.groups.map Group.name).Nodup
  clients : (f.clients.map Client.clientID).Nodup
  samlProviders : (f.samlProviders.map SAMLProvider.entityID).Nodup
  radiusNames : (f.radiusClients.map RADIUSClient.name).Nodup

theorem keyed_of_validate {f : File} (h : validate urls f = .ok ()) : Keyed f := by
  unfold validate at h
  split_ifs at h with hp
  simp only [problems, append_eq_nil_iff] at hp
  obtain ⟨⟨⟨hg, hc⟩, hs⟩, hr⟩ := hp
  exact ⟨(sectionProblems_nil hg).1, (sectionProblems_nil hc).1, (sectionProblems_nil hs).1,
    (sectionProblems_nil hr).1⟩

end

end Signari.ConfigFile
