import Signari.ConfigPlan

/-!
# Applying a plan

`Apply`: one loop of upserts for each section of the file, over the entries the plan wants, then the
plan's deletions, then the records of the change.

Each upsert writes every column of its row, with a default for what the file leaves out, and
replaces the redirect URIs and consumer URLs wholesale. An existing client keeps its
organisation, type and secret; an existing RADIUS client keeps all but its name.
-/
namespace Signari.ConfigApply
open GoStrings IndexedChecks KeyedMaps KeyedRows ConfigFile ConfigPlan List

/-! ## The plan's index -/

/-- `byName[kind+"/"+name]`: the last change filed under a key. -/
def planned (plan : List Change) (kind : Kind) (name : String) : Option Change :=
  plan.reverse.find? fun c => c.kind.text ++ "/" ++ c.name = kind.text ++ "/" ++ name

/-- The entries the loops do not skip. -/
def wanted (plan : List Change) (kind : Kind) (name : String) : Bool :=
  match planned plan kind name with
  | none => false
  | some c => c.action ≠ .delete

theorem planKey_inj {k k' : Kind} {n n' : String}
    (h : k.text ++ "/" ++ n = k'.text ++ "/" ++ n') : k = k' ∧ n = n' := by
  have hlist := congrArg String.toList h
  simp only [String.toList_append] at hlist
  cases k <;> cases k' <;>
    first
      | exact ⟨rfl, by simpa [Kind.text] using h⟩
      | simp [Kind.text] at hlist

theorem planned_some {plan : List Change} {kind : Kind} {name : String} {c : Change}
    (h : planned plan kind name = some c) : c ∈ plan ∧ c.kind = kind ∧ c.name = name := by
  have hmem := mem_of_find?_eq_some h
  have hkey := find?_some h
  exact ⟨by simpa using hmem, planKey_inj (by simpa using hkey)⟩

theorem planned_eq_none {plan : List Change} {kind : Kind} {name : String} :
    planned plan kind name = none ↔ ∀ c ∈ plan, ¬(c.kind = kind ∧ c.name = name) := by
  simp only [planned, find?_eq_none, mem_reverse, decide_eq_true_eq]
  constructor
  · rintro h c hc ⟨rfl, rfl⟩
    exact h c hc rfl
  · intro h c hc hkey
    exact h c hc (planKey_inj hkey)

theorem wanted_iff {plan : List Change} {kind : Kind} {name : String}
    (h : ∀ c ∈ plan, c.kind = kind → c.name = name → c.action ≠ .delete) :
    wanted plan kind name = true ↔ ∃ c ∈ plan, c.kind = kind ∧ c.name = name := by
  unfold wanted
  cases hp : planned plan kind name with
  | none =>
    have hnone := planned_eq_none.mp hp
    simp only [Bool.false_eq_true, false_iff]
    rintro ⟨c, hc, hkey⟩
    exact hnone c hc hkey
  | some c =>
    obtain ⟨hc, hkind, hname⟩ := planned_some hp
    simp only [decide_eq_true_eq]
    exact ⟨fun _ => ⟨c, hc, hkind, hname⟩, fun _ => h c hc hkind hname⟩

/-! ## The statements -/

/-- `NULLIF(x, '')`. -/
def nullIfEmpty (x : String) : Option String := if x = "" then none else some x

@[simp] theorem nullIfEmpty_getD (x : String) : (nullIfEmpty x).getD "" = x := by
  unfold nullIfEmpty
  split_ifs with h <;> simp [h]

def firstNonEmpty (a b : String) : String := if a ≠ "" then a else b

/-- The constraint `groups_name_shape`. -/
def groupNameShape (name : String) : Bool :=
  name.toList ≠ [] && name.toList.length ≤ 64 &&
    name.toList.all fun c => c.isAlphanum || c = '.' || c = '_' || c = '-'

/-- The first value that an insertion of all of them would repeat. -/
def repeated (seen : List String) : List String → Option String
  | [] => none
  | u :: us => if u ∈ seen then some u else repeated (u :: seen) us

def standardScopes : List String := ["openid", "profile", "email", "groups", "offline_access"]

def defaultScopes : List String := ["openid", "profile", "email", "offline_access"]

section
variable {Cidr : Type}

/-- `store.UndeclaredScopes`. -/
def undeclaredScopes (s : State Cidr) (org : String) (requested : List String) : List String :=
  (requested.filter fun x => x ∉ standardScopes).filter fun x => (org, x) ∉ s.scopes

def writeGroup (g : Group) (r : GroupRow) : GroupRow :=
  { r with displayName := g.displayName, description := nullIfEmpty g.description }

theorem writeGroup_key (g : Group) (r : GroupRow) : (writeGroup g r).key = r.key := rfl

def freshGroup (org : String) (g : Group) : GroupRow :=
  ⟨org, g.name, g.displayName, nullIfEmpty g.description⟩

def applyGroup (plan : List Change) (org : String) (g : Group) (s : State Cidr) :
    Except String (State Cidr) :=
  if wanted plan .group g.name = false then .ok s
  else if groupNameShape g.name = false then
    .error ("group " ++ quote g.name ++ ": violates groups_name_shape")
  else if g.displayName = "" then
    .error ("group " ++ quote g.name ++ ": null value in column display_name")
  else .ok { s with
    groups := s.groups.upsert (freshGroup org g) (writeGroup g) (writeGroup_key g) }

def scopesWritten (c : Client) : List String := if c.scopes = [] then defaultScopes else c.scopes

/-- The columns the upsert sets on a conflict, and the redirect URIs put in place of the
old ones. -/
def writeClient (now : ℕ) (c : Client) (r : ClientRow) : ClientRow :=
  { r with
    displayName := firstNonEmpty c.name c.clientID
    scopes := scopesWritten c
    enabled := c.enabled.getD true
    initiateLoginURI := nullIfEmpty c.launchURL
    logoURI := nullIfEmpty c.logoURL
    portalHidden := c.portalHidden
    redirectURIs := c.redirectURIs
    updatedAt := now }

theorem writeClient_key (now : ℕ) (c : Client) (r : ClientRow) :
    (writeClient now c r).clientID = r.clientID := rfl

def freshClient (now : ℕ) (org : String) (c : Client) : ClientRow :=
  { clientID := c.clientID, org := org, displayName := firstNonEmpty c.name c.clientID,
    clientType := if c.isPublic then .publicClient else .confidentialClient,
    clientSecretHash := if c.isPublic then none else some "unset",
    scopes := scopesWritten c, enabled := c.enabled.getD true,
    initiateLoginURI := nullIfEmpty c.launchURL, logoURI := nullIfEmpty c.logoURL,
    portalHidden := c.portalHidden, redirectURIs := c.redirectURIs, updatedAt := now }

theorem freshClient_key (now : ℕ) (org : String) (c : Client) :
    (freshClient now org c).clientID = c.clientID := rfl

/-- The constraints on the two portal columns. -/
def portalURLs (c : Client) : Bool :=
  (c.launchURL = "" || hasPrefix c.launchURL "https://" ||
      hasPrefix c.launchURL "http://localhost" || hasPrefix c.launchURL "http://127.0.0.1") &&
    (c.logoURL = "" || hasPrefix c.logoURL "https://")

def applyClient (now : ℕ) (plan : List Change) (org : String) (c : Client) (s : State Cidr) :
    Except String (State Cidr) :=
  if wanted plan .client c.clientID = false then .ok s
  else if undeclaredScopes s org (scopesWritten c) ≠ [] then
    .error ("client " ++ quote c.clientID ++ " is registered for scope(s) " ++
      join (undeclaredScopes s org (scopesWritten c)) ", " ++ ", which this " ++
      "organisation has not declared. Declare them first, or correct the " ++
      "spelling: a client registered for a scope nobody declared can ask " ++
      "for it and receive nothing, and any claim mapper gated on the " ++
      "intended spelling silently never fires")
  else if portalURLs c = false then
    .error ("client " ++ quote c.clientID ++ ": violates a check on the portal columns")
  else match repeated [] c.redirectURIs with
    | some u => .error ("client " ++ quote c.clientID ++ " redirect_uri " ++ quote u ++
        ": violates client_redirect_uris_pkey")
    | none => .ok { s with
        clients := s.clients.upsert (freshClient now org c) (writeClient now c)
          (writeClient_key now c) }

def nameIDWritten (p : SAMLProvider) : String := if p.nameID = "" then "persistent" else p.nameID

/-- The consumer URLs as they are inserted: POST bindings, the first one the default. -/
def acsRows (urls : List String) : List ACSRow := urls.mapIdx fun i u => ⟨u, "HTTP-POST", i == 0⟩

def writeSAML (p : SAMLProvider) (r : SAMLRow) : SAMLRow :=
  { r with
    displayName := firstNonEmpty p.name p.entityID
    nameIDFormat := nameIDWritten p
    enabled := p.enabled.getD true
    acsURLs := acsRows p.acsURLs }

theorem writeSAML_key (p : SAMLProvider) (r : SAMLRow) : (writeSAML p r).key = r.key := rfl

def freshSAML (org : String) (p : SAMLProvider) : SAMLRow :=
  { org := org, entityID := p.entityID, displayName := firstNonEmpty p.name p.entityID,
    nameIDFormat := nameIDWritten p, enabled := p.enabled.getD true,
    acsURLs := acsRows p.acsURLs }

def applySAML (plan : List Change) (org : String) (p : SAMLProvider) (s : State Cidr) :
    Except String (State Cidr) :=
  if wanted plan .samlProvider p.entityID = false then .ok s
  else match repeated [] p.acsURLs with
    | some u => .error ("saml provider " ++ quote p.entityID ++ " acs " ++ quote u ++
        ": violates saml_acs_urls_pkey")
    | none => .ok { s with
        samlProviders := s.samlProviders.upsert (freshSAML org p) (writeSAML p) (writeSAML_key p) }

variable [DecidableEq Cidr] (pg : CidrText Cidr)

def freshRADIUS (org : String) (network : Cidr) (r : RADIUSClient) : RADIUSRow Cidr :=
  ⟨org, network, r.name, [], false⟩

def writeRADIUS (r : RADIUSClient) (row : RADIUSRow Cidr) : RADIUSRow Cidr :=
  { row with name := r.name }

omit [DecidableEq Cidr] in
theorem writeRADIUS_key (r : RADIUSClient) (row : RADIUSRow Cidr) :
    (writeRADIUS r row).key = row.key := rfl

def applyRADIUS (plan : List Change) (org : String) (r : RADIUSClient) (s : State Cidr) :
    Except String (State Cidr) :=
  if wanted plan .radiusClient r.network = false then .ok s
  else match pg.parse r.network with
    | none => .error ("radius client " ++ quote r.name ++ ": invalid input syntax for type cidr")
    | some network =>
      if r.name.toList.all (· == ' ') = true then
        .error ("radius client " ++ quote r.name ++ ": violates radius_clients_name_check")
      else .ok { s with
        radiusClients := s.radiusClients.upsert (freshRADIUS org network r)
          (writeRADIUS r) (writeRADIUS_key r) }

/-- `DELETE … WHERE org_id = org AND client_id = id`. -/
def deleteClient (org id : String) (t : Table ClientRow.clientID) : Table ClientRow.clientID :=
  if (t.lookup id).any (·.org = org) then t.erase id else t

theorem lookup_deleteClient {org id j : String} {t : Table ClientRow.clientID} :
    (deleteClient org id t).lookup j =
      if id = j then (t.lookup j).filter (·.org ≠ org) else t.lookup j := by
  unfold deleteClient
  split_ifs with hany hj hj
  · rw [Table.lookup_erase, if_pos hj.symm, eq_comm, Option.filter_eq_none_iff]
    intro r hr
    rw [hj, hr] at hany
    simpa using hany
  · rw [Table.lookup_erase, if_neg (Ne.symm hj)]
  · cases hrow : t.lookup j with
    | none => rfl
    | some r =>
      rw [hj, hrow] at hany
      have horg : r.org ≠ org := by simpa using hany
      rw [eq_comm, Option.filter_eq_some_iff]
      exact ⟨rfl, by simpa using horg⟩
  · rfl

/-- One round of the loop of deletions. -/
def applyDelete (org : String) (c : Change) (s : State Cidr) : Except String (State Cidr) :=
  if c.action ≠ .delete then .ok s
  else match c.kind with
    | .group => .ok { s with groups := s.groups.erase (org, c.name) }
    | .client => .ok { s with
        clients := deleteClient org c.name s.clients }
    | .samlProvider => .ok { s with
        samlProviders := s.samlProviders.erase (org, c.name) }
    | .radiusClient =>
      match pg.parse c.name with
      | none => .error ("deleting " ++ c.kind.text ++ " " ++ quote c.name ++
          ": invalid input syntax for type cidr")
      | some network => .ok { s with
          radiusClients := s.radiusClients.erase (org, network) }

def recordApply (org : String) (plan : List Change) (s : State Cidr) : State Cidr :=
  { s with
    events := s.events ++ plan.map fun c => ⟨org, c.kind, c.name, c.action⟩
    configVersion := s.configVersion + 1 }

def apply (now : ℕ) (org : String) (f : File) (plan : List Change) (s : State Cidr) :
    Except String (State Cidr) := do
  let s ← foldKeys (applyGroup plan org) f.groups s
  let s ← foldKeys (applyClient now plan org) f.clients s
  let s ← foldKeys (applySAML plan org) f.samlProviders s
  let s ← foldKeys (applyRADIUS pg plan org) f.radiusClients s
  let s ← foldKeys (applyDelete pg org) plan s
  return recordApply org plan s

/-! ## What a successful apply leaves under one key -/

theorem foldl_ite_idem {α β : Type} {g : β → β} (hg : ∀ v, g (g v) = g v) (P : α → Prop)
    [DecidablePred P] (xs : List α) (v : β) :
    xs.foldl (fun v x => if P x then g v else v) v = if ∃ x ∈ xs, P x then g v else v := by
  induction xs generalizing v with
  | nil => simp
  | cons x xs ih =>
    rw [foldl_cons, ih]
    by_cases hx : P x
    · by_cases hxs : ∃ y ∈ xs, P y
      · simp [hx, hxs, hg]
      · simp [hx, hxs]
    · simp [hx]

/-- The entry's effect on the row under its name. -/
def entryWrite {α ρ : Type} (name : α → String) (want : String → Bool) (fresh : α → ρ)
    (write : α → ρ → ρ) (x : α) (n : String) (v : Option ρ) : Option ρ :=
  if want (name x) = true ∧ n = name x then some (v.elim (fresh x) (write x)) else v

theorem foldl_erase {α β : Type} (P : α → Prop) [DecidablePred P] (xs : List α) (v : Option β) :
    xs.foldl (fun v x => if P x then none else v) v = if ∃ x ∈ xs, P x then none else v :=
  foldl_ite_idem (g := fun _ => none) (fun _ => rfl) P xs v

/-- The row under a name after a section's loop. -/
def written {α ρ : Type} (name : α → String) (want : String → Bool) (fresh : α → ρ)
    (write : α → ρ → ρ) (xs : List α) (n : String) (v : Option ρ) : Option ρ :=
  xs.foldl (fun v x => entryWrite name want fresh write x n v) v

section
variable {α ρ : Type} {name : α → String} {want : String → Bool} {fresh : α → ρ}
  {write : α → ρ → ρ} {xs : List α} {x : α} {n : String} {v : Option ρ}

theorem written_of_mem (hnodup : (xs.map name).Nodup) (hx : x ∈ xs) :
    written name want fresh write xs (name x) v =
      if want (name x) = true then some (v.elim (fresh x) (write x)) else v := by
  unfold written
  rw [foldl_single hnodup hx]
  · simp [entryWrite]
  · intro y _ hy v
    simp [entryWrite, Ne.symm hy]

theorem written_of_not_mem (h : n ∉ xs.map name) : written name want fresh write xs n v = v := by
  refine foldl_untouched fun x hx v => ?_
  have hne : n ≠ name x := fun he => h (he ▸ mem_map_of_mem hx)
  simp [entryWrite, hne]

end

def Deletes (plan : List Change) (kind : Kind) (name : String) : Prop :=
  ∃ c ∈ plan, c.action = .delete ∧ c.kind = kind ∧ c.name = name

instance (plan : List Change) (kind : Kind) (name : String) : Decidable (Deletes plan kind name) :=
  inferInstanceAs (Decidable (∃ c ∈ plan, _))

variable {pg} {now : ℕ} {org : String} {f : File} {plan : List Change} {s s' : State Cidr}

omit [DecidableEq Cidr] in
theorem applyGroup_ok {g : Group} (h : applyGroup plan org g s = .ok s') :
    s'.clients = s.clients ∧ s'.samlProviders = s.samlProviders ∧
      s'.radiusClients = s.radiusClients ∧ ∀ n, s'.group org n =
        entryWrite Group.name (wanted plan .group) (freshGroup org) writeGroup g n
          (s.group org n) := by
  unfold applyGroup at h
  split_ifs at h with hw
  · obtain rfl := Except.ok.inj h
    simp [entryWrite, hw]
  · obtain rfl := Except.ok.inj h
    refine ⟨rfl, rfl, rfl, fun n => ?_⟩
    rw [State.group, Table.lookup_upsert]
    simp [GroupRow.key, freshGroup, entryWrite, State.group, hw]

omit [DecidableEq Cidr] in
theorem applyClient_ok {c : Client} (h : applyClient now plan org c s = .ok s') :
    s'.groups = s.groups ∧ s'.samlProviders = s.samlProviders ∧
      s'.radiusClients = s.radiusClients ∧ ∀ id, s'.client id =
        entryWrite Client.clientID (wanted plan .client) (freshClient now org)
          (writeClient now) c id (s.client id) := by
  unfold applyClient at h
  split_ifs at h with hw
  · obtain rfl := Except.ok.inj h
    simp [entryWrite, hw]
  · split at h
    · simp at h
    · obtain rfl := Except.ok.inj h
      refine ⟨rfl, rfl, rfl, fun id => ?_⟩
      rw [State.client, Table.lookup_upsert, freshClient_key]
      simp [entryWrite, State.client, hw]

omit [DecidableEq Cidr] in
theorem applySAML_ok {p : SAMLProvider} (h : applySAML plan org p s = .ok s') :
    s'.groups = s.groups ∧ s'.clients = s.clients ∧
      s'.radiusClients = s.radiusClients ∧ ∀ id, s'.samlProvider org id =
        entryWrite SAMLProvider.entityID (wanted plan .samlProvider) (freshSAML org)
          writeSAML p id (s.samlProvider org id) := by
  unfold applySAML at h
  split_ifs at h with hw
  · obtain rfl := Except.ok.inj h
    simp [entryWrite, hw]
  · split at h
    · simp at h
    · obtain rfl := Except.ok.inj h
      refine ⟨rfl, rfl, rfl, fun id => ?_⟩
      rw [State.samlProvider, Table.lookup_upsert]
      simp [SAMLRow.key, freshSAML, entryWrite, State.samlProvider, hw]

def radiusWrite (pg : CidrText Cidr) (plan : List Change) (org : String) (r : RADIUSClient)
    (network : Cidr) (v : Option (RADIUSRow Cidr)) : Option (RADIUSRow Cidr) :=
  if wanted plan .radiusClient r.network = true ∧ pg.parse r.network = some network then
    some (v.elim (freshRADIUS org network r) (writeRADIUS r))
  else v

theorem applyRADIUS_ok {r : RADIUSClient} (h : applyRADIUS pg plan org r s = .ok s') :
    s'.groups = s.groups ∧ s'.clients = s.clients ∧ s'.samlProviders = s.samlProviders ∧
      (wanted plan .radiusClient r.network = true → (pg.parse r.network).isSome = true) ∧
      ∀ network, s'.radiusClient org network =
        radiusWrite pg plan org r network (s.radiusClient org network) := by
  unfold applyRADIUS at h
  by_cases hw : wanted plan .radiusClient r.network = false
  · rw [if_pos hw] at h
    obtain rfl := Except.ok.inj h
    simp [radiusWrite, hw]
  · rw [if_neg hw] at h
    cases hparse : pg.parse r.network with
    | none => simp [hparse] at h
    | some network =>
      simp only [hparse] at h
      split_ifs at h
      obtain rfl := Except.ok.inj h
      refine ⟨rfl, rfl, rfl, fun _ => rfl, fun j => ?_⟩
      rw [State.radiusClient, Table.lookup_upsert]
      by_cases hj : j = network
      · subst hj
        simp [RADIUSRow.key, freshRADIUS, radiusWrite, State.radiusClient, hw, hparse]
      · have hne : network ≠ j := Ne.symm hj
        simp [RADIUSRow.key, freshRADIUS, radiusWrite, State.radiusClient, hparse, hj, hne]

theorem applyDelete_ok {c : Change} (h : applyDelete pg org c s = .ok s') :
    (∀ n, s'.group org n =
      if c.action = .delete ∧ c.kind = .group ∧ c.name = n then none else s.group org n) ∧
    (∀ id, s'.client id =
      if c.action = .delete ∧ c.kind = .client ∧ c.name = id then
        (s.client id).filter (·.org ≠ org)
      else s.client id) ∧
    (∀ id, s'.samlProvider org id =
      if c.action = .delete ∧ c.kind = .samlProvider ∧ c.name = id then none
      else s.samlProvider org id) ∧
    ∀ network, s'.radiusClient org network =
      if c.action = .delete ∧ c.kind = .radiusClient ∧ pg.parse c.name = some network then none
      else s.radiusClient org network := by
  unfold applyDelete at h
  by_cases hact : c.action = .delete
  · rw [if_neg (not_not.mpr hact)] at h
    cases hkind : c.kind with
    | group =>
      simp only [hkind] at h
      obtain rfl := Except.ok.inj h
      refine ⟨fun n => ?_, fun id => ?_, fun id => ?_, fun network => ?_⟩
      · rw [State.group, Table.lookup_erase]
        by_cases hn : c.name = n
        · simp [hact, hn]
        · simp [hn, Ne.symm hn, State.group]
      · simp [State.client]
      · simp [State.samlProvider]
      · simp [State.radiusClient]
    | client =>
      simp only [hkind] at h
      obtain rfl := Except.ok.inj h
      refine ⟨fun n => ?_, fun id => ?_, fun id => ?_, fun network => ?_⟩
      · simp [State.group]
      · rw [State.client, lookup_deleteClient]
        simp [hact, State.client]
      · simp [State.samlProvider]
      · simp [State.radiusClient]
    | samlProvider =>
      simp only [hkind] at h
      obtain rfl := Except.ok.inj h
      refine ⟨fun n => ?_, fun id => ?_, fun id => ?_, fun network => ?_⟩
      · simp [State.group]
      · simp [State.client]
      · rw [State.samlProvider, Table.lookup_erase]
        by_cases hn : c.name = id
        · simp [hact, hn]
        · simp [hn, Ne.symm hn, State.samlProvider]
      · simp [State.radiusClient]
    | radiusClient =>
      simp only [hkind] at h
      cases hparse : pg.parse c.name with
      | none => simp [hparse] at h
      | some network =>
        simp only [hparse] at h
        obtain rfl := Except.ok.inj h
        refine ⟨fun n => ?_, fun id => ?_, fun id => ?_, fun j => ?_⟩
        · simp [State.group]
        · simp [State.client]
        · simp [State.samlProvider]
        · rw [State.radiusClient, Table.lookup_erase]
          by_cases hj : network = j
          · simp [hact, hj]
          · simp [hj, Ne.symm hj, State.radiusClient]
  · rw [if_pos hact] at h
    obtain rfl := Except.ok.inj h
    simp [hact]

/-- The states between the loops of a successful apply. -/
theorem apply_stages (h : apply pg now org f plan s = .ok s') :
    ∃ s₁ s₂ s₃ s₄ s₅, foldKeys (applyGroup plan org) f.groups s = .ok s₁ ∧
      foldKeys (applyClient now plan org) f.clients s₁ = .ok s₂ ∧
      foldKeys (applySAML plan org) f.samlProviders s₂ = .ok s₃ ∧
      foldKeys (applyRADIUS pg plan org) f.radiusClients s₃ = .ok s₄ ∧
      foldKeys (applyDelete pg org) plan s₄ = .ok s₅ ∧ s' = recordApply org plan s₅ := by
  simp only [apply, bind_ok] at h
  obtain ⟨s₁, h₁, s₂, h₂, s₃, h₃, s₄, h₄, s₅, h₅, heq⟩ := h
  exact ⟨s₁, s₂, s₃, s₄, s₅, h₁, h₂, h₃, h₄, h₅, (Except.ok.inj heq).symm⟩

theorem apply_group (h : apply pg now org f plan s = .ok s') (n : String) :
    s'.group org n = if Deletes plan .group n then none
      else written Group.name (wanted plan .group) (freshGroup org) writeGroup f.groups n
        (s.group org n) := by
  obtain ⟨s₁, s₂, s₃, s₄, s₅, h₁, h₂, h₃, h₄, h₅, rfl⟩ := apply_stages h
  have hg := foldKeys_pointwise (fun n (s : State Cidr) => s.group org n) _ h₁
    (fun _ _ _ hs => (applyGroup_ok hs).2.2.2) n
  have hc : s₂.groups = s₁.groups := foldKeys_frame State.groups
    (fun hs => (applyClient_ok hs).1) h₂
  have hp : s₃.groups = s₂.groups := foldKeys_frame State.groups (fun hs => (applySAML_ok hs).1) h₃
  have hr : s₄.groups = s₃.groups := foldKeys_frame State.groups
    (fun hs => (applyRADIUS_ok hs).1) h₄
  have hd := foldKeys_pointwise (fun n (s : State Cidr) => s.group org n) _ h₅
    (fun _ _ _ hs => (applyDelete_ok hs).1) n
  have hsame : s₄.group org n = s₁.group org n := by
    rw [State.group, State.group, hr, hp, hc]
  change s₅.group org n = _
  rw [hd, foldl_erase, hsame, hg]
  rfl

theorem apply_client (h : apply pg now org f plan s = .ok s') (id : String) :
    s'.client id = if Deletes plan .client id then
        (written Client.clientID (wanted plan .client) (freshClient now org) (writeClient now)
          f.clients id (s.client id)).filter (·.org ≠ org)
      else written Client.clientID (wanted plan .client) (freshClient now org)
        (writeClient now) f.clients id (s.client id) := by
  obtain ⟨s₁, s₂, s₃, s₄, s₅, h₁, h₂, h₃, h₄, h₅, rfl⟩ := apply_stages h
  have hg : s₁.clients = s.clients := foldKeys_frame State.clients
    (fun hs => (applyGroup_ok hs).1) h₁
  have hc := foldKeys_pointwise (fun id (s : State Cidr) => s.client id) _ h₂
    (fun _ _ _ hs => (applyClient_ok hs).2.2.2) id
  have hp : s₃.clients = s₂.clients := foldKeys_frame State.clients
    (fun hs => (applySAML_ok hs).2.1) h₃
  have hr : s₄.clients = s₃.clients := foldKeys_frame State.clients
    (fun hs => (applyRADIUS_ok hs).2.1) h₄
  have hd := foldKeys_pointwise (fun id (s : State Cidr) => s.client id)
    (fun c id v => if c.action = .delete ∧ c.kind = .client ∧ c.name = id then
      v.filter (·.org ≠ org) else v) h₅
    (fun _ _ _ hs => (applyDelete_ok hs).2.1) id
  have hbefore : s₁.client id = s.client id := by rw [State.client, State.client, hg]
  have hafter : s₄.client id = s₂.client id := by rw [State.client, State.client, hr, hp]
  have hidem : ∀ v : Option ClientRow,
      (v.filter (·.org ≠ org)).filter (·.org ≠ org) = v.filter (·.org ≠ org) := by
    intro v
    cases v with
    | none => rfl
    | some r => by_cases hr : r.org = org <;> simp [Option.filter, hr]
  change s₅.client id = _
  rw [hd, foldl_ite_idem hidem, hafter, hc, hbefore]
  rfl

theorem apply_samlProvider (h : apply pg now org f plan s = .ok s') (id : String) :
    s'.samlProvider org id = if Deletes plan .samlProvider id then none
      else written SAMLProvider.entityID (wanted plan .samlProvider) (freshSAML org) writeSAML
        f.samlProviders id (s.samlProvider org id) := by
  obtain ⟨s₁, s₂, s₃, s₄, s₅, h₁, h₂, h₃, h₄, h₅, rfl⟩ := apply_stages h
  have hg : s₁.samlProviders = s.samlProviders := foldKeys_frame State.samlProviders
    (fun hs => (applyGroup_ok hs).2.1) h₁
  have hc : s₂.samlProviders = s₁.samlProviders := foldKeys_frame State.samlProviders
    (fun hs => (applyClient_ok hs).2.1) h₂
  have hp := foldKeys_pointwise (fun id (s : State Cidr) => s.samlProvider org id) _ h₃
    (fun _ _ _ hs => (applySAML_ok hs).2.2.2) id
  have hr : s₄.samlProviders = s₃.samlProviders := foldKeys_frame State.samlProviders
    (fun hs => (applyRADIUS_ok hs).2.2.1) h₄
  have hd := foldKeys_pointwise (fun id (s : State Cidr) => s.samlProvider org id) _ h₅
    (fun _ _ _ hs => (applyDelete_ok hs).2.2.1) id
  have hbefore : s₂.samlProvider org id = s.samlProvider org id := by
    rw [State.samlProvider, State.samlProvider, hc, hg]
  have hafter : s₄.samlProvider org id = s₃.samlProvider org id := by
    rw [State.samlProvider, State.samlProvider, hr]
  change s₅.samlProvider org id = _
  rw [hd, foldl_erase, hafter, hp, hbefore]
  rfl

def DeletesNetwork (pg : CidrText Cidr) (plan : List Change) (network : Cidr) : Prop :=
  ∃ c ∈ plan, c.action = .delete ∧ c.kind = .radiusClient ∧ pg.parse c.name = some network

instance (network : Cidr) : Decidable (DeletesNetwork pg plan network) :=
  inferInstanceAs (Decidable (∃ c ∈ plan, _))

theorem apply_radiusClient (h : apply pg now org f plan s = .ok s') (network : Cidr) :
    s'.radiusClient org network = if DeletesNetwork pg plan network then none
      else f.radiusClients.foldl (fun v r => radiusWrite pg plan org r network v)
        (s.radiusClient org network) := by
  obtain ⟨s₁, s₂, s₃, s₄, s₅, h₁, h₂, h₃, h₄, h₅, rfl⟩ := apply_stages h
  have hg : s₁.radiusClients = s.radiusClients := foldKeys_frame State.radiusClients
    (fun hs => (applyGroup_ok hs).2.2.1) h₁
  have hc : s₂.radiusClients = s₁.radiusClients := foldKeys_frame State.radiusClients
    (fun hs => (applyClient_ok hs).2.2.1) h₂
  have hp : s₃.radiusClients = s₂.radiusClients := foldKeys_frame State.radiusClients
    (fun hs => (applySAML_ok hs).2.2.1) h₃
  have hr := foldKeys_pointwise (fun n (s : State Cidr) => s.radiusClient org n) _ h₄
    (fun _ _ _ hs => (applyRADIUS_ok hs).2.2.2.2) network
  have hd := foldKeys_pointwise (fun n (s : State Cidr) => s.radiusClient org n) _ h₅
    (fun _ _ _ hs => (applyDelete_ok hs).2.2.2) network
  have hbefore : s₃.radiusClient org network = s.radiusClient org network := by
    rw [State.radiusClient, State.radiusClient, hp, hc, hg]
  change s₅.radiusClient org network = _
  rw [hd, foldl_erase, hr, hbefore]
  rfl

end

end Signari.ConfigApply
