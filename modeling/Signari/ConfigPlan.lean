import Signari.ConfigFile
import Signari.KeyedRows
import Signari.OAuthClients
import Mathlib.Data.String.Basic

/-!
# The plan of a configuration file

The tables a configuration file speaks about, `read`, which loads one organisation's part of them,
and `BuildPlan`, which compares that with the file. A group is keyed by its name, a SAML provider by
its entity id and a RADIUS client by its network, each within the organisation; a client is keyed by
`client_id` across all organisations.

A network is a `cidr` value. The plan compares what the file writes with what PostgreSQL
prints, so the two spellings of the argument `pg` matter: `parse` reads any accepted
spelling and `print` is the canonical one, which reads back as itself.

The four sections of the plan are one function, `entryChange`, at four kinds of entry.
-/
namespace Signari.ConfigPlan
open GoStrings KeyedRows ConfigFile List

/-- The input and output functions of the type `cidr`. -/
structure CidrText (Cidr : Type) where
  parse : String → Option Cidr
  print : Cidr → String
  parse_print : ∀ c, parse (print c) = some c

theorem CidrText.print_injective {Cidr : Type} (pg : CidrText Cidr) :
    Function.Injective pg.print := by
  intro a b h
  have hab := pg.parse_print a
  rw [h, pg.parse_print] at hab
  exact (Option.some.inj hab).symm

/-! ## The tables -/

structure GroupRow where
  org : String
  name : String
  displayName : String
  description : Option String

structure ClientRow where
  clientID : String
  org : String
  displayName : String
  clientType : OAuthClients.ClientType
  clientSecretHash : Option String
  scopes : List String
  enabled : Bool
  initiateLoginURI : Option String
  logoURI : Option String
  portalHidden : Bool
  redirectURIs : List String
  updatedAt : ℕ

structure ACSRow where
  url : String
  binding : String
  isDefault : Bool

structure SAMLRow where
  org : String
  entityID : String
  displayName : String
  nameIDFormat : String
  enabled : Bool
  acsURLs : List ACSRow

structure RADIUSRow (Cidr : Type) where
  org : String
  network : Cidr
  name : String
  secretEnc : List UInt8
  enabled : Bool

def GroupRow.key (r : GroupRow) : String × String := (r.org, r.name)

def SAMLRow.key (r : SAMLRow) : String × String := (r.org, r.entityID)

def RADIUSRow.key {Cidr : Type} (r : RADIUSRow Cidr) : String × Cidr := (r.org, r.network)

inductive Kind where
  | group | client | samlProvider | radiusClient
  deriving DecidableEq

def Kind.text : Kind → String
  | .group => "group"
  | .client => "client"
  | .samlProvider => "saml_provider"
  | .radiusClient => "radius_client"

inductive Action where
  | create | update | delete
  deriving DecidableEq

structure Change where
  action : Action
  kind : Kind
  name : String
  detail : String := ""
  destructive : Bool := false

/-- An audit record of `recordApply`. -/
structure AppliedEvent where
  org : String
  kind : Kind
  name : String
  action : Action

structure State (Cidr : Type) where
  groups : Table GroupRow.key := ∅
  clients : Table ClientRow.clientID := ∅
  samlProviders : Table SAMLRow.key := ∅
  radiusClients : Table (@RADIUSRow.key Cidr) := ∅
  /-- `core.scopes`: the scopes each organisation declared. -/
  scopes : List (String × String) := []
  configVersion : ℕ := 0
  events : List AppliedEvent := []

section
variable {Cidr : Type} [DecidableEq Cidr] (s : State Cidr) (org : String)

def State.group (name : String) : Option GroupRow := s.groups.lookup (org, name)

def State.client (clientID : String) : Option ClientRow := s.clients.lookup clientID

def State.samlProvider (entityID : String) : Option SAMLRow :=
  s.samlProviders.lookup (org, entityID)

def State.radiusClient (network : Cidr) : Option (RADIUSRow Cidr) :=
  s.radiusClients.lookup (org, network)

end

/-! ## Reading the deployment -/

def GroupRow.read (r : GroupRow) : Group := ⟨r.name, r.displayName, r.description.getD ""⟩

def ClientRow.read (r : ClientRow) : Client :=
  { clientID := r.clientID, name := r.displayName, redirectURIs := r.redirectURIs,
    scopes := r.scopes, isPublic := r.clientType = .publicClient,
    launchURL := r.initiateLoginURI.getD "", logoURL := r.logoURI.getD "",
    portalHidden := r.portalHidden, enabled := some r.enabled }

def SAMLRow.read (r : SAMLRow) : SAMLProvider :=
  { entityID := r.entityID, name := r.displayName, nameID := r.nameIDFormat,
    acsURLs := r.acsURLs.map ACSRow.url, enabled := some r.enabled }

section
variable {Cidr : Type} (pg : CidrText Cidr)

def RADIUSRow.read (r : RADIUSRow Cidr) : RADIUSClient :=
  { name := r.name, network := pg.print r.network, enabled := some r.enabled }

/-- The maps of one organisation, as their lookups and their keys. -/
structure Current where
  group : String → Option Group
  groupNames : List String
  client : String → Option Client
  clientIDs : List String
  samlProvider : String → Option SAMLProvider
  entityIDs : List String
  radiusClient : String → Option RADIUSClient
  networks : List String

def read (s : State Cidr) (org : String) : Current where
  group name := (s.groups.lookup (org, name)).map GroupRow.read
  groupNames := (s.groups.rows.filter fun r => r.org = org).map GroupRow.name
  client id := ((s.clients.lookup id).filter fun r => r.org = org).map ClientRow.read
  clientIDs := (s.clients.rows.filter fun r => r.org = org).map ClientRow.clientID
  samlProvider id := (s.samlProviders.lookup (org, id)).map SAMLRow.read
  entityIDs := (s.samlProviders.rows.filter fun r => r.org = org).map SAMLRow.entityID
  radiusClient text := (s.radiusClients.rows.find? fun r =>
    r.org = org ∧ pg.print r.network = text).map (RADIUSRow.read pg)
  networks := (s.radiusClients.rows.filter fun r => r.org = org).map fun r => pg.print r.network

end

/-! ## The difference -/

def sameSet (a b : List String) : Bool :=
  if a.length ≠ b.length then false
  else a.insertionSort (· ≤ ·) == b.insertionSort (· ≤ ·)

theorem sameSet_iff {a b : List String} : sameSet a b = true ↔ a.Perm b := by
  unfold sameSet
  constructor
  · intro h
    split_ifs at h
    have hsort : a.insertionSort (· ≤ ·) = b.insertionSort (· ≤ ·) := by simpa using h
    exact (perm_insertionSort _ a).symm.trans (hsort ▸ perm_insertionSort _ b)
  · intro h
    rw [if_neg (not_not.mpr h.length_eq), beq_iff_eq]
    have hp : (a.insertionSort (· ≤ ·)).Perm (b.insertionSort (· ≤ ·)) :=
      (perm_insertionSort _ a).trans (h.trans (perm_insertionSort _ b).symm)
    exact hp.eq_of_pairwise (fun x y _ _ hxy hyx => le_antisymm hxy hyx)
      (pairwise_insertionSort _ a) (pairwise_insertionSort _ b)

/-- `if c { d = append(d, field) }`. -/
def fieldIf (c : Prop) [Decidable c] (field : String) : List String := if c then [field] else []

@[simp] theorem mem_fieldIf {c : Prop} [Decidable c] {field x : String} :
    x ∈ fieldIf c field ↔ c ∧ x = field := by
  unfold fieldIf
  split_ifs with h <;> simp [h]

/-- `want != nil && have != nil && *have != *want`. -/
def flagDiffers (held want : Option Bool) : Prop :=
  ∃ h w, held = some h ∧ want = some w ∧ h ≠ w

instance (held want : Option Bool) : Decidable (flagDiffers held want) :=
  match held, want with
  | some h, some w => decidable_of_iff (h ≠ w) (by simp [flagDiffers])
  | none, _ => .isFalse (by simp [flagDiffers])
  | some _, none => .isFalse (by simp [flagDiffers])

def clientFields (held want : Client) : List String :=
  fieldIf (want.name ≠ "" ∧ held.name ≠ want.name) "name" ++
  fieldIf (sameSet held.redirectURIs want.redirectURIs = false) "redirect_uris" ++
  fieldIf (want.scopes ≠ [] ∧ sameSet held.scopes want.scopes = false) "scopes" ++
  fieldIf (held.launchURL ≠ want.launchURL) "launch_url" ++
  fieldIf (held.logoURL ≠ want.logoURL) "logo_url" ++
  fieldIf (held.portalHidden ≠ want.portalHidden) "portal_hidden" ++
  fieldIf (flagDiffers held.enabled want.enabled) "enabled"

def clientDiff (held want : Client) : String := join (clientFields held want) ", "

def samlFields (held want : SAMLProvider) : List String :=
  fieldIf (want.name ≠ "" ∧ held.name ≠ want.name) "name" ++
  fieldIf (sameSet held.acsURLs want.acsURLs = false) "acs_urls" ++
  fieldIf (want.nameID ≠ "" ∧ held.nameID ≠ want.nameID) "name_id_format" ++
  fieldIf (flagDiffers held.enabled want.enabled) "enabled"

def samlDiff (held want : SAMLProvider) : String := join (samlFields held want) ", "

/-- The change one entry of the file asks for: a creation when the deployment does not hold
it, an update when the two differ. -/
def entryChange {β : Type} (kind : Kind) (name : String) (held : Option β) (creation : String)
    (diff : β → String) : Option Change :=
  match held with
  | none => some { action := .create, kind := kind, name := name, detail := creation }
  | some h =>
    if diff h = "" then none
    else some { action := .update, kind := kind, name := name, detail := diff h }

def groupChange (cur : Current) (g : Group) : Option Change :=
  entryChange .group g.name (cur.group g.name) "" fun held =>
    if held.displayName ≠ g.displayName ∨ held.description ≠ g.description then
      "display name or description"
    else ""

def clientChange (cur : Current) (c : Client) : Option Change :=
  entryChange .client c.clientID (cur.client c.clientID) "" fun held => clientDiff held c

def samlChange (cur : Current) (p : SAMLProvider) : Option Change :=
  entryChange .samlProvider p.entityID (cur.samlProvider p.entityID) "" fun held => samlDiff held p

def radiusChange (cur : Current) (r : RADIUSClient) : Option Change :=
  entryChange .radiusClient r.network (cur.radiusClient r.network)
    (r.name ++ " — needs `signari radius add-client` to set its secret") fun held =>
      if held.name ≠ r.name then held.name ++ " → " ++ r.name else ""

/-- The deletions of one section under `-prune`. -/
def deletions (kind : Kind) (detail : String) (held inFile : List String) : List Change :=
  (held.filter fun name => name ∉ inFile).map fun name =>
    { action := .delete, kind := kind, name := name, detail := detail, destructive := true }

def entryChanges (cur : Current) (f : File) : List Change :=
  f.groups.filterMap (groupChange cur) ++ f.clients.filterMap (clientChange cur) ++
    f.samlProviders.filterMap (samlChange cur) ++ f.radiusClients.filterMap (radiusChange cur)

def pruneChanges (cur : Current) (f : File) : List Change :=
  deletions .group "every policy naming this group stops matching" cur.groupNames
    (f.groups.map Group.name) ++
  deletions .client "this application stops working immediately" cur.clientIDs
    (f.clients.map Client.clientID) ++
  deletions .samlProvider "this application stops working immediately" cur.entityIDs
    (f.samlProviders.map SAMLProvider.entityID) ++
  deletions .radiusClient "this network device stops authenticating" cur.networks
    (f.radiusClients.map RADIUSClient.network)

def Action.rank : Action → ℕ
  | .create => 0
  | .update => 1
  | .delete => 2

/-- The order of `sortPlan`: creates, updates, deletes; by kind and name within each. -/
def planLess (a b : Change) : Bool :=
  if a.action.rank ≠ b.action.rank then a.action.rank < b.action.rank
  else if a.kind.text ≠ b.kind.text then a.kind.text < b.kind.text
  else a.name < b.name

def sortPlan (p : List Change) : List Change :=
  p.insertionSort fun a b => planLess b a = false

def buildPlan {Cidr : Type} (pg : CidrText Cidr) (s : State Cidr) (org : String) (f : File)
    (prune : Bool) : List Change :=
  let cur := read pg s org
  sortPlan (entryChanges cur f ++ if prune then pruneChanges cur f else [])

/-! ## What a plan holds -/

theorem join_eq_empty {parts : List String} {sep : String} (h : ∀ p ∈ parts, p ≠ "") :
    join parts sep = "" ↔ parts = [] := by
  cases parts with
  | nil => simp [join]
  | cons p ps =>
    have hp : p ≠ "" := h p (by simp)
    cases ps with
    | nil => simpa [join] using hp
    | cons q qs => simp [join, hp]

theorem clientFields_ne_empty {held want : Client} : ∀ p ∈ clientFields held want, p ≠ "" := by
  intro p hp
  simp only [clientFields, mem_append, mem_fieldIf] at hp
  rcases hp with (((((h | h) | h) | h) | h) | h) | h
  all_goals
    rw [h.2]
    decide

theorem clientDiff_eq_empty {held want : Client} :
    clientDiff held want = "" ↔ clientFields held want = [] :=
  join_eq_empty clientFields_ne_empty

theorem samlFields_ne_empty {held want : SAMLProvider} :
    ∀ p ∈ samlFields held want, p ≠ "" := by
  intro p hp
  simp only [samlFields, mem_append, mem_fieldIf] at hp
  rcases hp with ((h | h) | h) | h
  all_goals
    rw [h.2]
    decide

theorem samlDiff_eq_empty {held want : SAMLProvider} :
    samlDiff held want = "" ↔ samlFields held want = [] :=
  join_eq_empty samlFields_ne_empty

section
variable {β : Type} {kind : Kind} {name creation : String} {held : Option β} {diff : β → String}
  {c : Change}

theorem entryChange_spec (h : entryChange kind name held creation diff = some c) :
    c.kind = kind ∧ c.name = name ∧ c.action ≠ .delete := by
  unfold entryChange at h
  split at h
  · obtain rfl := Option.some.inj h
    simp
  · split_ifs at h
    obtain rfl := Option.some.inj h
    simp

theorem entryChange_eq_none :
    entryChange kind name held creation diff = none ↔ ∃ h, held = some h ∧ diff h = "" := by
  cases held with
  | none => simp [entryChange]
  | some h =>
    by_cases hd : diff h = ""
    · simp [entryChange, hd]
    · simp [entryChange, hd]

theorem entryChange_update (h : entryChange kind name held creation diff = some c)
    (hu : c.action = .update) : ∃ x, held = some x ∧ diff x ≠ "" ∧ c.detail = diff x := by
  unfold entryChange at h
  split at h
  · obtain rfl := Option.some.inj h
    simp at hu
  · rename_i x
    split_ifs at h with hd
    obtain rfl := Option.some.inj h
    exact ⟨x, rfl, hd, rfl⟩

end

def sectionChanges (cur : Current) (f : File) : Kind → List Change
  | .group => f.groups.filterMap (groupChange cur)
  | .client => f.clients.filterMap (clientChange cur)
  | .samlProvider => f.samlProviders.filterMap (samlChange cur)
  | .radiusClient => f.radiusClients.filterMap (radiusChange cur)

def fileNames (f : File) : Kind → List String
  | .group => f.groups.map Group.name
  | .client => f.clients.map Client.clientID
  | .samlProvider => f.samlProviders.map SAMLProvider.entityID
  | .radiusClient => f.radiusClients.map RADIUSClient.network

/-- The names the organisation's objects of one kind are read under. -/
def heldNames (cur : Current) : Kind → List String
  | .group => cur.groupNames
  | .client => cur.clientIDs
  | .samlProvider => cur.entityIDs
  | .radiusClient => cur.networks

section
variable {cur : Current} {f : File} {c : Change} {kind : Kind}

theorem mem_filterMap_spec {α : Type} {xs : List α} {change : α → Option Change}
    {name : α → String}
    (hspec : ∀ x c, change x = some c → c.kind = kind ∧ c.name = name x ∧ c.action ≠ .delete)
    (h : c ∈ xs.filterMap change) :
    c.kind = kind ∧ c.name ∈ xs.map name ∧ c.action ≠ .delete := by
  obtain ⟨x, hx, hc⟩ := mem_filterMap.mp h
  obtain ⟨hkind, hname, hact⟩ := hspec x c hc
  exact ⟨hkind, hname ▸ mem_map_of_mem hx, hact⟩

theorem mem_sectionChanges (h : c ∈ sectionChanges cur f kind) :
    c.kind = kind ∧ c.name ∈ fileNames f kind ∧ c.action ≠ .delete := by
  cases kind with
  | group | client | samlProvider | radiusClient =>
    exact mem_filterMap_spec (fun x c hc => entryChange_spec hc) h

theorem mem_entryChanges : c ∈ entryChanges cur f ↔ c ∈ sectionChanges cur f c.kind := by
  have hsum : c ∈ entryChanges cur f ↔ ∃ kind, c ∈ sectionChanges cur f kind := by
    simp only [entryChanges, mem_append]
    constructor
    · rintro (((h | h) | h) | h)
      · exact ⟨.group, h⟩
      · exact ⟨.client, h⟩
      · exact ⟨.samlProvider, h⟩
      · exact ⟨.radiusClient, h⟩
    · rintro ⟨kind, h⟩
      cases kind with
      | group => exact .inl (.inl (.inl h))
      | client => exact .inl (.inl (.inr h))
      | samlProvider => exact .inl (.inr h)
      | radiusClient => exact .inr h
  rw [hsum]
  constructor
  · rintro ⟨kind, h⟩
    rwa [(mem_sectionChanges h).1]
  · intro h
    exact ⟨c.kind, h⟩

theorem mem_deletions {detail : String} {held inFile : List String} :
    c ∈ deletions kind detail held inFile ↔ ∃ name, (name ∈ held ∧ name ∉ inFile) ∧
      c = { action := .delete, kind := kind, name := name, detail := detail,
            destructive := true } := by
  simp only [deletions, mem_map, mem_filter, decide_eq_true_eq]
  constructor
  · rintro ⟨name, h, rfl⟩
    exact ⟨name, h, rfl⟩
  · rintro ⟨name, h, rfl⟩
    exact ⟨name, h, rfl⟩

/-- What `-prune` deletes: the objects the file does not name. -/
theorem mem_pruneChanges_spec (h : c ∈ pruneChanges cur f) :
    c.action = .delete ∧ c.name ∈ heldNames cur c.kind ∧ c.name ∉ fileNames f c.kind := by
  simp only [pruneChanges, mem_append, mem_deletions] at h
  rcases h with ((⟨n, hn, rfl⟩ | ⟨n, hn, rfl⟩) | ⟨n, hn, rfl⟩) | ⟨n, hn, rfl⟩
  · exact ⟨rfl, hn⟩
  · exact ⟨rfl, hn⟩
  · exact ⟨rfl, hn⟩
  · exact ⟨rfl, hn⟩

theorem exists_pruneChange {name : String} (hheld : name ∈ heldNames cur kind)
    (hfile : name ∉ fileNames f kind) :
    ∃ c ∈ pruneChanges cur f, c.action = .delete ∧ c.kind = kind ∧ c.name = name := by
  simp only [pruneChanges, mem_append, mem_deletions]
  cases kind with
  | group => exact ⟨_, .inl (.inl (.inl ⟨name, ⟨hheld, hfile⟩, rfl⟩)), rfl, rfl, rfl⟩
  | client => exact ⟨_, .inl (.inl (.inr ⟨name, ⟨hheld, hfile⟩, rfl⟩)), rfl, rfl, rfl⟩
  | samlProvider => exact ⟨_, .inl (.inr ⟨name, ⟨hheld, hfile⟩, rfl⟩), rfl, rfl, rfl⟩
  | radiusClient => exact ⟨_, .inr ⟨name, ⟨hheld, hfile⟩, rfl⟩, rfl, rfl, rfl⟩

end

section
variable {Cidr : Type} {pg : CidrText Cidr} {s : State Cidr} {org : String} {f : File}
  {prune : Bool} {c : Change} {kind : Kind} {name : String}

theorem mem_buildPlan : c ∈ buildPlan pg s org f prune ↔
    c ∈ sectionChanges (read pg s org) f c.kind ∨
      (prune = true ∧ c ∈ pruneChanges (read pg s org) f) := by
  unfold buildPlan sortPlan
  simp only [mem_insertionSort, mem_append, mem_entryChanges]
  cases prune <;> simp

theorem mem_buildPlan_named (hname : name ∈ fileNames f kind) :
    (c ∈ buildPlan pg s org f prune ∧ c.kind = kind ∧ c.name = name) ↔
      c ∈ sectionChanges (read pg s org) f kind ∧ c.name = name := by
  rw [mem_buildPlan]
  constructor
  · rintro ⟨h | ⟨-, h⟩, rfl, rfl⟩
    · exact ⟨h, rfl⟩
    · exact ((mem_pruneChanges_spec h).2.2 hname).elim
  · rintro ⟨h, rfl⟩
    obtain rfl := (mem_sectionChanges h).1
    exact ⟨.inl h, rfl, rfl⟩

theorem exists_delete_iff :
    (∃ c ∈ buildPlan pg s org f prune, c.action = .delete ∧ c.kind = kind ∧ c.name = name) ↔
      prune = true ∧ name ∈ heldNames (read pg s org) kind ∧ name ∉ fileNames f kind := by
  constructor
  · rintro ⟨c, hc, hact, rfl, rfl⟩
    rcases mem_buildPlan.mp hc with h | ⟨hprune, h⟩
    · exact ((mem_sectionChanges h).2.2 hact).elim
    · exact ⟨hprune, (mem_pruneChanges_spec h).2⟩
  · rintro ⟨hprune, hheld, hfile⟩
    obtain ⟨c, hc, h⟩ := exists_pruneChange hheld hfile
    exact ⟨c, mem_buildPlan.mpr (.inr ⟨hprune, hc⟩), h⟩

theorem buildPlan_eq_nil : buildPlan pg s org f prune = [] ↔
    (∀ kind, sectionChanges (read pg s org) f kind = []) ∧
      (prune = true → ∀ kind, heldNames (read pg s org) kind ⊆ fileNames f kind) := by
  simp only [eq_nil_iff_forall_not_mem, mem_buildPlan]
  constructor
  · intro h
    refine ⟨fun kind c hc => ?_, fun hprune kind name hheld => ?_⟩
    · have hkind := (mem_sectionChanges hc).1
      exact h c (.inl (hkind ▸ hc))
    · by_contra hfile
      obtain ⟨c, hc, -⟩ := exists_pruneChange hheld hfile
      exact h c (.inr ⟨hprune, hc⟩)
  · rintro ⟨hsec, hprune⟩ c (hc | ⟨hp, hc⟩)
    · exact hsec _ c hc
    · obtain ⟨-, hheld, hfile⟩ := mem_pruneChanges_spec hc
      exact hfile (hprune hp _ hheld)

end

end Signari.ConfigPlan
