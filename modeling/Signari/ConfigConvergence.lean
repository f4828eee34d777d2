import Signari.ConfigEffects

/-!
# Convergence and confinement

Two promises of a pruning apply. `Converged`: the organisation holds exactly what the file
names and a second plan is empty. `Confined`: the rows of other organisations are untouched.

`client_id` is a key across all organisations while the plan reads one, so an entry under
another organisation's id is planned as a creation, rewrites the foreign row and leaves it
where it is: neither promise survives it. The other way to miss convergence is a network
that the file spells otherwise than PostgreSQL prints it, or lists twice.
-/
namespace Signari.ConfigConvergence
open GoStrings KeyedMaps KeyedRows ConfigFile ConfigPlan ConfigApply ConfigEffects List

section
variable {Cidr : Type} [DecidableEq Cidr] (pg : CidrText Cidr) (org : String) (f : File)
  (s s' : State Cidr)

/-- The organisation's objects are the file's, and planning again finds nothing to do. -/
structure Converged : Prop where
  group : ∀ n, (s'.group org n).isSome = true ↔ n ∈ f.groups.map Group.name
  client : ∀ id, (∃ row, s'.client id = some row ∧ row.org = org) ↔
    id ∈ f.clients.map Client.clientID
  saml : ∀ id, (s'.samlProvider org id).isSome = true ↔
    id ∈ f.samlProviders.map SAMLProvider.entityID
  radius : ∀ network, (s'.radiusClient org network).isSome = true ↔
    ∃ r ∈ f.radiusClients, pg.parse r.network = some network
  stable : buildPlan pg s' org f true = []

/-- When a pruning apply converges: no client id of the file is held by another
organisation, and the networks are distinct and written as PostgreSQL prints them. -/
structure Convergent : Prop where
  owned : ∀ c ∈ f.clients, ∀ row, s.client c.clientID = some row → row.org = org
  printed : ∀ r ∈ f.radiusClients, ∃ network, r.network = pg.print network
  distinct : (f.radiusClients.map RADIUSClient.network).Nodup

end

/-! ## What the upserts leave no difference in -/

theorem samlFields_written (p : SAMLProvider) (row : SAMLRow) :
    samlFields (writeSAML p row).read p = [] := by
  rw [eq_nil_iff_forall_not_mem]
  intro x hx
  rw [mem_samlFields] at hx
  rcases hx with ((⟨⟨hset, hne⟩, -⟩ | ⟨hne, -⟩) | ⟨⟨hset, hne⟩, -⟩) | ⟨hne, -⟩
  · exact hne (if_pos hset)
  · have hurls : (acsRows p.acsURLs).map ACSRow.url = p.acsURLs := by
      exact ext_getElem (by simp [acsRows]) (by simp [acsRows])
    rw [SAMLRow.read, writeSAML, hurls, sameSet_iff.mpr (.refl _)] at hne
    cases hne
  · exact hne (if_neg hset)
  · obtain ⟨held, want, hheld, hwant, hdiff⟩ := hne
    rw [SAMLRow.read, writeSAML, hwant] at hheld
    exact hdiff (Option.some.inj hheld).symm

theorem clientFields_written (now : ℕ) (c : Client) (row : ClientRow) :
    clientFields (writeClient now c row).read c = [] := by
  rw [eq_nil_iff_forall_not_mem]
  intro x hx
  rw [mem_clientFields] at hx
  rcases hx with (((((⟨⟨hset, hne⟩, -⟩ | ⟨hne, -⟩) | ⟨⟨hset, hne⟩, -⟩) | ⟨hne, -⟩) | ⟨hne, -⟩) |
    ⟨hne, -⟩) | ⟨hne, -⟩
  · exact hne (if_pos hset)
  · rw [ClientRow.read, writeClient, sameSet_iff.mpr (.refl _)] at hne
    cases hne
  · have hscopes : scopesWritten c = c.scopes := if_neg hset
    rw [ClientRow.read, writeClient, hscopes, sameSet_iff.mpr (.refl _)] at hne
    cases hne
  · exact hne (nullIfEmpty_getD _)
  · exact hne (nullIfEmpty_getD _)
  · exact hne rfl
  · obtain ⟨held, want, hheld, hwant, hdiff⟩ := hne
    rw [ClientRow.read, writeClient, hwant] at hheld
    exact hdiff (Option.some.inj hheld).symm

theorem freshClient_eq (now : ℕ) (org : String) (c : Client) :
    writeClient now c (freshClient now org c) = freshClient now org c := rfl

theorem freshSAML_eq (org : String) (p : SAMLProvider) :
    writeSAML p (freshSAML org p) = freshSAML org p := rfl

section
variable {Cidr : Type} [DecidableEq Cidr] {pg : CidrText Cidr} {now : ℕ} {org : String}
  {f : File} {prune : Bool} {s s' : State Cidr}

/-! ## The four sections after an apply -/

variable (happly : apply pg now org f (buildPlan pg s org f prune) s = .ok s')
include happly

theorem group_settled (hk : Keyed f) {g : Group} (hg : g ∈ f.groups) :
    groupChange (read pg s' org) g = none := by
  have hafter := group_named happly hk hg
  rw [groupChange, entryChange_eq_none, read_group, hafter]
  by_cases hn : groupChange (read pg s org) g = none
  · rw [if_pos hn]
    rwa [groupChange, entryChange_eq_none, read_group] at hn
  · rw [if_neg hn]
    refine ⟨_, rfl, if_neg ?_⟩
    cases s.group org g.name with
    | none => simp [freshGroup, GroupRow.read]
    | some row => simp [writeGroup, GroupRow.read]

theorem client_settled (hk : Keyed f) {c : Client} (hc : c ∈ f.clients)
    (howned : ∀ row, s.client c.clientID = some row → row.org = org) :
    clientChange (read pg s' org) c = none := by
  have hafter := client_named happly hk hc
  by_cases hn : clientChange (read pg s org) c = none
  · rw [if_pos hn] at hafter
    rw [clientChange, entryChange_eq_none] at hn ⊢
    obtain ⟨held, hheld, hdiff⟩ := hn
    obtain ⟨row, hrow, horg, rfl⟩ := read_client_some.mp hheld
    exact ⟨row.read, read_client_some.mpr ⟨row, hafter.trans hrow, horg, rfl⟩, hdiff⟩
  · rw [if_neg hn] at hafter
    obtain ⟨old, hold, horg⟩ : ∃ old : ClientRow,
        (s.client c.clientID).elim (freshClient now org c) (writeClient now c) =
          writeClient now c old ∧ old.org = org := by
      cases hrow : s.client c.clientID with
      | none => exact ⟨freshClient now org c, (freshClient_eq now org c).symm, rfl⟩
      | some row => exact ⟨row, rfl, howned row hrow⟩
    rw [hold] at hafter
    rw [clientChange_eq_none hafter horg, clientDiff_eq_empty]
    exact clientFields_written now c old

theorem saml_settled (hk : Keyed f) {p : SAMLProvider} (hp : p ∈ f.samlProviders) :
    samlChange (read pg s' org) p = none := by
  have hafter := saml_named happly hk hp
  by_cases hn : samlChange (read pg s org) p = none
  · rw [if_pos hn] at hafter
    rw [samlChange, entryChange_eq_none, read_saml] at hn ⊢
    rwa [hafter]
  · rw [if_neg hn] at hafter
    obtain ⟨old, hold⟩ : ∃ old : SAMLRow,
        (s.samlProvider org p.entityID).elim (freshSAML org p) (writeSAML p) = writeSAML p old := by
      cases s.samlProvider org p.entityID with
      | none => exact ⟨freshSAML org p, (freshSAML_eq org p).symm⟩
      | some row => exact ⟨row, rfl⟩
    rw [hold] at hafter
    rw [samlChange_eq_none hafter, samlDiff_eq_empty]
    exact samlFields_written p old

omit happly [DecidableEq Cidr] in
theorem wanted_radius (hdistinct : (f.radiusClients.map RADIUSClient.network).Nodup)
    {r : RADIUSClient} (hr : r ∈ f.radiusClients) :
    wanted (buildPlan pg s org f prune) .radiusClient r.network = true ↔
      radiusChange (read pg s org) r ≠ none := by
  rw [wanted_buildPlan (mem_map_of_mem hr)]
  exact exists_change_iff (fun _ _ h => entryChange_spec h) hdistinct hr

omit happly [DecidableEq Cidr] in
theorem network_of_parse (hprinted : ∀ r ∈ f.radiusClients, ∃ network, r.network = pg.print network)
    {r : RADIUSClient} (hr : r ∈ f.radiusClients) {network : Cidr}
    (hparse : pg.parse r.network = some network) : r.network = pg.print network := by
  obtain ⟨held, hheld⟩ := hprinted r hr
  rw [hheld, pg.parse_print, Option.some.injEq] at hparse
  rw [hheld, hparse]

theorem radius_named (hprinted : ∀ r ∈ f.radiusClients, ∃ network, r.network = pg.print network)
    (hdistinct : (f.radiusClients.map RADIUSClient.network).Nodup) {r : RADIUSClient}
    (hr : r ∈ f.radiusClients) {network : Cidr} (hnet : r.network = pg.print network) :
    s'.radiusClient org network =
      radiusWrite pg (buildPlan pg s org f prune) org r network (s.radiusClient org network) := by
  have hkeep : ¬DeletesNetwork pg (buildPlan pg s org f prune) network := by
    intro hd
    refine (deletesNetwork_buildPlan.mp hd).2.2 ?_
    rw [← hnet]
    exact mem_map_of_mem hr
  rw [apply_radiusClient happly, if_neg hkeep]
  refine foldl_single hdistinct hr fun q hq hne v => if_neg ?_
  rintro ⟨-, hparse⟩
  exact hne ((network_of_parse hprinted hq hparse).trans hnet.symm)

theorem radius_settled (hprinted : ∀ r ∈ f.radiusClients, ∃ network, r.network = pg.print network)
    (hdistinct : (f.radiusClients.map RADIUSClient.network).Nodup) {r : RADIUSClient}
    (hr : r ∈ f.radiusClients) : radiusChange (read pg s' org) r = none := by
  obtain ⟨network, hnet⟩ := hprinted r hr
  have hafter := radius_named happly hprinted hdistinct hr hnet
  have hparse : pg.parse r.network = some network := by rw [hnet, pg.parse_print]
  by_cases hn : radiusChange (read pg s org) r = none
  · have hskip : s'.radiusClient org network = s.radiusClient org network := by
      rw [hafter, radiusWrite, if_neg]
      rintro ⟨hw, -⟩
      exact (wanted_radius hdistinct hr).mp hw hn
    rw [radiusChange, entryChange_eq_none, hnet, read_radius_print] at hn ⊢
    rwa [hskip]
  · rw [radiusWrite, if_pos ⟨(wanted_radius hdistinct hr).mpr hn, hparse⟩] at hafter
    rw [radiusChange, entryChange_eq_none, hnet, read_radius_print, hafter]
    refine ⟨_, rfl, if_neg (not_not.mpr ?_)⟩
    cases s.radiusClient org network with
    | none => rfl
    | some row => rfl

end

section
variable {Cidr : Type} [DecidableEq Cidr] {pg : CidrText Cidr} {now : ℕ} {org : String}
  {f : File} {s s' : State Cidr}

theorem radius_omitted (happly : apply pg now org f (buildPlan pg s org f true) s = .ok s')
    {network : Cidr} (hn : ¬∃ r ∈ f.radiusClients, pg.parse r.network = some network) :
    s'.radiusClient org network = none := by
  have hfile : pg.print network ∉ f.radiusClients.map RADIUSClient.network := by
    intro hmem
    obtain ⟨r, hr, hnet⟩ := mem_map.mp hmem
    exact hn ⟨r, hr, by rw [hnet, pg.parse_print]⟩
  rw [apply_radiusClient happly]
  cases hrow : s.radiusClient org network with
  | none =>
    have hskip : ∀ r ∈ f.radiusClients, ∀ v,
        radiusWrite pg (buildPlan pg s org f true) org r network v = v := by
      intro r hr v
      exact if_neg fun h => hn ⟨r, hr, h.2⟩
    rw [foldl_untouched hskip]
    exact ite_self none
  | some row => rw [if_pos (deletesNetwork_buildPlan.mpr ⟨rfl, by simp [hrow], hfile⟩)]

/-! ## Convergence -/

omit [DecidableEq Cidr] in
/-- The plan is empty when every entry is settled and the file names every object. -/
theorem stable_of_settled (hg : ∀ g ∈ f.groups, groupChange (read pg s' org) g = none)
    (hc : ∀ c ∈ f.clients, clientChange (read pg s' org) c = none)
    (hp : ∀ p ∈ f.samlProviders, samlChange (read pg s' org) p = none)
    (hr : ∀ r ∈ f.radiusClients, radiusChange (read pg s' org) r = none)
    (hheld : ∀ kind, heldNames (read pg s' org) kind ⊆ fileNames f kind) :
    buildPlan pg s' org f true = [] := by
  rw [buildPlan_eq_nil]
  refine ⟨fun kind => ?_, fun _ => hheld⟩
  cases kind with
  | group => exact List.filterMap_eq_nil_iff.mpr hg
  | client => exact List.filterMap_eq_nil_iff.mpr hc
  | samlProvider => exact List.filterMap_eq_nil_iff.mpr hp
  | radiusClient => exact List.filterMap_eq_nil_iff.mpr hr

omit [DecidableEq Cidr] in
theorem radius_held {r : RADIUSClient} (h : radiusChange (read pg s' org) r = none) :
    ∃ row : RADIUSRow Cidr, pg.print row.network = r.network ∧
      (read pg s' org).radiusClient r.network = some (row.read pg) ∧ row.name = r.name := by
  obtain ⟨held, hheld, hdiff⟩ := entryChange_eq_none.mp h
  have hfound := hheld
  simp only [ConfigPlan.read, Option.map_eq_some_iff] at hfound
  obtain ⟨row, hfind, rfl⟩ := hfound
  have hmatch : row.org = org ∧ pg.print row.network = r.network := by
    simpa using find?_some hfind
  refine ⟨row, hmatch.2, hheld, ?_⟩
  by_contra hne
  have hdiffers : (row.read pg).name ≠ r.name := hne
  rw [if_pos hdiffers] at hdiff
  simp [String.append_eq_empty_iff] at hdiff

variable (hk : Keyed f) (happly : apply pg now org f (buildPlan pg s org f true) s = .ok s')
include hk happly

theorem group_exactly (n : String) :
    (s'.group org n).isSome = true ↔ n ∈ f.groups.map Group.name := by
  by_cases hn : n ∈ f.groups.map Group.name
  · obtain ⟨g, hg, rfl⟩ := mem_map.mp hn
    obtain ⟨held, hheld, -⟩ := entryChange_eq_none.mp (group_settled happly hk hg)
    rw [read_group, Option.map_eq_some_iff] at hheld
    obtain ⟨row, hrow, -⟩ := hheld
    simp only [hrow, Option.isSome_some, hn]
  · simp [group_omitted happly hn, hn]

theorem client_exactly (howned : ∀ c ∈ f.clients, ∀ row, s.client c.clientID = some row →
    row.org = org) (id : String) :
    (∃ row, s'.client id = some row ∧ row.org = org) ↔ id ∈ f.clients.map Client.clientID := by
  by_cases hn : id ∈ f.clients.map Client.clientID
  · obtain ⟨c, hc, rfl⟩ := mem_map.mp hn
    obtain ⟨held, hheld, -⟩ := entryChange_eq_none.mp (client_settled happly hk hc (howned c hc))
    obtain ⟨row, hrow, horg, -⟩ := read_client_some.mp hheld
    simp only [hn, iff_true]
    exact ⟨row, hrow, horg⟩
  · simp only [client_omitted happly hn, hn, iff_false]
    rintro ⟨row, hrow, horg⟩
    simp [horg] at hrow

theorem saml_exactly (id : String) :
    (s'.samlProvider org id).isSome = true ↔ id ∈ f.samlProviders.map SAMLProvider.entityID := by
  by_cases hn : id ∈ f.samlProviders.map SAMLProvider.entityID
  · obtain ⟨p, hp, rfl⟩ := mem_map.mp hn
    obtain ⟨held, hheld, -⟩ := entryChange_eq_none.mp (saml_settled happly hk hp)
    rw [read_saml, Option.map_eq_some_iff] at hheld
    obtain ⟨row, hrow, -⟩ := hheld
    simp only [hrow, Option.isSome_some, hn]
  · simp [saml_omitted happly hn, hn]

omit hk in
theorem radius_exactly (hprinted : ∀ r ∈ f.radiusClients, ∃ network, r.network = pg.print network)
    (hdistinct : (f.radiusClients.map RADIUSClient.network).Nodup) (network : Cidr) :
    (s'.radiusClient org network).isSome = true ↔
      ∃ r ∈ f.radiusClients, pg.parse r.network = some network := by
  by_cases hn : ∃ r ∈ f.radiusClients, pg.parse r.network = some network
  · obtain ⟨r, hr, hparse⟩ := id hn
    obtain ⟨held, hheld, -⟩ := entryChange_eq_none.mp (radius_settled happly hprinted hdistinct hr)
    rw [network_of_parse hprinted hr hparse, read_radius_print, Option.map_eq_some_iff] at hheld
    obtain ⟨row, hrow, -⟩ := hheld
    simp only [hrow, Option.isSome_some, hn]
  · simp [radius_omitted happly hn, hn]

theorem converged_of_convergent (h : Convergent pg org f s) : Converged pg org f s' := by
  have group := group_exactly hk happly
  have client := client_exactly hk happly h.owned
  have saml := saml_exactly hk happly
  have radius := radius_exactly happly h.printed h.distinct
  refine ⟨group, client, saml, radius, stable_of_settled (fun g hg => group_settled happly hk hg)
    (fun c hc => client_settled happly hk hc (h.owned c hc))
    (fun p hp => saml_settled happly hk hp)
    (fun r hr => radius_settled happly h.printed h.distinct hr) ?_⟩
  intro kind name hname
  cases kind with
  | group => exact (group name).mp (mem_groupNames.mp hname)
  | client => exact (client name).mp (mem_clientIDs.mp hname)
  | samlProvider => exact (saml name).mp (mem_entityIDs.mp hname)
  | radiusClient =>
    obtain ⟨network, hrow, rfl⟩ := mem_networks.mp hname
    obtain ⟨r, hr, hparse⟩ := (radius network).mp hrow
    rw [← network_of_parse h.printed hr hparse]
    exact mem_map_of_mem hr

end

section
variable {Cidr : Type} [DecidableEq Cidr] {pg : CidrText Cidr} {now : ℕ} {org : String}
  {f : File} {prune : Bool} {s s' : State Cidr}

theorem foreign_client (hk : Keyed f)
    (happly : apply pg now org f (buildPlan pg s org f prune) s = .ok s') {c : Client}
    (hc : c ∈ f.clients) {row : ClientRow} (hrow : s.client c.clientID = some row)
    (horg : row.org ≠ org) : s'.client c.clientID = some (writeClient now c row) := by
  have hne : clientChange (read pg s org) c ≠ none := by
    intro hn
    obtain ⟨held, hheld, -⟩ := entryChange_eq_none.mp hn
    obtain ⟨own, hown, howner, -⟩ := read_client_some.mp hheld
    rw [hrow, Option.some.injEq] at hown
    exact horg (hown ▸ howner)
  rw [client_named happly hk hc, if_neg hne, hrow]
  rfl

theorem convergent_of_converged (hk : Keyed f)
    (happly : apply pg now org f (buildPlan pg s org f true) s = .ok s')
    (h : Converged pg org f s') : Convergent pg org f s := by
  have hsettled : ∀ r ∈ f.radiusClients, radiusChange (read pg s' org) r = none :=
    List.filterMap_eq_nil_iff.mp ((buildPlan_eq_nil.mp h.stable).1 .radiusClient)
  refine ⟨fun c hc row hrow => ?_, fun r hr => ?_, ?_⟩
  · by_contra horg
    obtain ⟨row', hrow', horg'⟩ := (h.client c.clientID).mpr (mem_map_of_mem hc)
    rw [foreign_client hk happly hc hrow horg, Option.some.injEq] at hrow'
    obtain rfl := hrow'
    exact horg horg'
  · obtain ⟨row, hprint, -⟩ := radius_held (hsettled r hr)
    exact ⟨row.network, hprint.symm⟩
  · refine Nodup.map_on (fun q hq r hr hqr => ?_) (Nodup.of_map _ hk.radiusNames)
    obtain ⟨row, -, hrow, hname⟩ := radius_held (hsettled q hq)
    obtain ⟨row', -, hrow', hname'⟩ := radius_held (hsettled r hr)
    rw [hqr, hrow', Option.some.injEq] at hrow
    have hsame : q.name = r.name :=
      hname.symm.trans ((congrArg RADIUSClient.name hrow).symm.trans hname')
    exact inj_on_of_nodup_map hk.radiusNames hq hr hsame

/-- A pruning apply converges exactly when the file's client ids are not another
organisation's and its networks are distinct and spelled as PostgreSQL prints them. -/
theorem converged_iff {urls : Urls} (hv : validate urls f = .ok ())
    (happly : apply pg now org f (buildPlan pg s org f true) s = .ok s') :
    Converged pg org f s' ↔ Convergent pg org f s :=
  ⟨convergent_of_converged (keyed_of_validate hv) happly,
    converged_of_convergent (keyed_of_validate hv) happly⟩

/-! ## Confinement -/

/-- The row and its redirect URIs are as they were. -/
structure SameRow (row row' : ClientRow) : Prop where
  columns : { row' with redirectURIs := row.redirectURIs } = row
  redirectURIs : row'.redirectURIs.Perm row.redirectURIs

/-- No client row of another organisation is changed. -/
def Confined (org : String) (s s' : State Cidr) : Prop :=
  ∀ id row, s.client id = some row → row.org ≠ org →
    ∃ row', s'.client id = some row' ∧ SameRow row row'

/-- The row already holds, column by column, what the entry would write at this moment. -/
structure AlreadyHolds (now : ℕ) (c : Client) (row : ClientRow) : Prop where
  displayName : row.displayName = firstNonEmpty c.name c.clientID
  scopes : row.scopes = scopesWritten c
  enabled : row.enabled = c.enabled.getD true
  initiateLoginURI : row.initiateLoginURI = nullIfEmpty c.launchURL
  logoURI : row.logoURI = nullIfEmpty c.logoURL
  portalHidden : row.portalHidden = c.portalHidden
  redirectURIs : c.redirectURIs.Perm row.redirectURIs
  updatedAt : row.updatedAt = now

theorem sameRow_writeClient {c : Client} {row : ClientRow} :
    SameRow row (writeClient now c row) ↔ AlreadyHolds now c row := by
  constructor
  · rintro ⟨hcolumns, huris⟩
    exact ⟨(congrArg ClientRow.displayName hcolumns).symm,
      (congrArg ClientRow.scopes hcolumns).symm, (congrArg ClientRow.enabled hcolumns).symm,
      (congrArg ClientRow.initiateLoginURI hcolumns).symm,
      (congrArg ClientRow.logoURI hcolumns).symm, (congrArg ClientRow.portalHidden hcolumns).symm,
      huris, (congrArg ClientRow.updatedAt hcolumns).symm⟩
  · intro h
    refine ⟨?_, h.redirectURIs⟩
    rw [writeClient, ← h.displayName, ← h.scopes, ← h.enabled, ← h.initiateLoginURI,
      ← h.logoURI, ← h.portalHidden, ← h.updatedAt]

/-- Applying a file is confined to its organisation exactly when every client id of the file
that another organisation holds is an entry that would write nothing new. -/
theorem confined_iff {urls : Urls} (hv : validate urls f = .ok ())
    (happly : apply pg now org f (buildPlan pg s org f prune) s = .ok s') :
    Confined org s s' ↔ ∀ c ∈ f.clients, ∀ row, s.client c.clientID = some row →
      row.org ≠ org → AlreadyHolds now c row := by
  have hk := keyed_of_validate hv
  constructor
  · intro h c hc row hrow horg
    obtain ⟨row', hrow', hsame⟩ := h c.clientID row hrow horg
    rw [foreign_client hk happly hc hrow horg, Option.some.injEq] at hrow'
    exact sameRow_writeClient.mp (hrow' ▸ hsame)
  · intro h id row hrow horg
    by_cases hfile : id ∈ f.clients.map Client.clientID
    · obtain ⟨c, hc, rfl⟩ := mem_map.mp hfile
      exact ⟨_, foreign_client hk happly hc hrow horg,
        sameRow_writeClient.mpr (h c hc row hrow horg)⟩
    · refine ⟨row, ?_, rfl, .refl _⟩
      rw [client_omitted happly hfile, hrow]
      cases prune <;> simp [horg]

end

/-! ## A device spelled without its prefix length, and a client id in use elsewhere -/

def deviceRow : RADIUSRow Block := ⟨"acme", .device, "ap", [1], true⟩

def deviceState : State Block := { radiusClients := ⟨[deviceRow], by simp⟩ }

def deviceFile (network : String) : File :=
  { radiusClients := [{ name := "ap", network := network }] }

theorem converged_device : ∃ s', apply blocks 2 "acme" (deviceFile "10.0.0.0/8")
    (buildPlan blocks deviceState "acme" (deviceFile "10.0.0.0/8") true) deviceState = .ok s' ∧
      Converged blocks "acme" (deviceFile "10.0.0.0/8") s' := by
  have hv : validate anyRedirect (deviceFile "10.0.0.0/8") = .ok () := rfl
  obtain ⟨s', happly⟩ : ∃ s', apply blocks 2 "acme" (deviceFile "10.0.0.0/8")
    (buildPlan blocks deviceState "acme" (deviceFile "10.0.0.0/8") true) deviceState = .ok s' :=
      ⟨_, rfl⟩
  refine ⟨s', happly, (converged_iff hv happly).mpr ⟨?_, ?_, ?_⟩⟩
  · simp [deviceFile]
  · intro r hr
    obtain rfl : r = { name := "ap", network := "10.0.0.0/8" } := by simpa [deviceFile] using hr
    exact ⟨.lan, rfl⟩
  · simp [deviceFile]

/-- The device the file names, by an address PostgreSQL prints with `/32`, is created and
deleted in one apply: it is gone, with its secret. -/
theorem respelled_device_deleted :
    validate anyRedirect (deviceFile "10.0.0.1") = .ok () ∧
      ∃ s', apply blocks 2 "acme" (deviceFile "10.0.0.1")
        (buildPlan blocks deviceState "acme" (deviceFile "10.0.0.1") true) deviceState = .ok s' ∧
        s'.radiusClient "acme" .device = none ∧
        ¬Converged blocks "acme" (deviceFile "10.0.0.1") s' := by
  refine ⟨rfl, _, rfl, rfl, fun h => ?_⟩
  have hheld := (h.radius .device).mpr ⟨{ name := "ap", network := "10.0.0.1" },
    by simp [deviceFile], rfl⟩
  cases hheld

theorem confined_wiki : Confined "acme" (wikiState false) (wikiAfter false) := by
  have hv : validate anyRedirect wikiFile = .ok () := rfl
  have happly : apply blocks 2 "acme" wikiFile
      (buildPlan blocks (wikiState false) "acme" wikiFile false) (wikiState false) =
        .ok (wikiAfter false) := rfl
  refine (confined_iff hv happly).mpr fun c hc row hrow horg => ?_
  obtain rfl : c = wikiEntry := by simpa [wikiFile] using hc
  obtain rfl : wikiRow false = row := Option.some.inj hrow
  exact (horg rfl).elim

/-- A file of another organisation that lists `wiki` switches this one's application on. -/
theorem foreign_client_rewritten :
    validate anyRedirect wikiFile = .ok () ∧
      ∃ s', apply blocks 2 "globex" wikiFile
        (buildPlan blocks (wikiState false) "globex" wikiFile false) (wikiState false) = .ok s' ∧
        s'.client "wiki" = some (writeClient 2 wikiEntry (wikiRow false)) ∧
        ¬Confined "globex" (wikiState false) s' := by
  refine ⟨rfl, _, rfl, rfl, fun h => ?_⟩
  obtain ⟨row', hrow', hsame⟩ := h "wiki" (wikiRow false) rfl (by decide)
  obtain rfl : writeClient 2 wikiEntry (wikiRow false) = row' := Option.some.inj hrow'
  cases congrArg ClientRow.enabled hsame.columns

end Signari.ConfigConvergence
