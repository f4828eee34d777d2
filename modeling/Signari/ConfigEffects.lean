import Signari.ConfigApply

/-!
# What applying a file's own plan does

The rows that a successful apply of `buildPlan` leaves, section by section: an entry whose
change is empty leaves its row alone, any other entry has its row written whole, and `-prune`
removes what the file does not name. A RADIUS entry is planned under the text of the file and
written under the `cidr` value, so a network spelled otherwise than PostgreSQL prints it is
always planned as a creation and renames the device the value already belongs to.

`PlanFaithful` is the promise of a plan: what it does not name is unchanged, and what it
updates changes only in the fields it lists. The upserts keep it exactly when, for each
entry with an update, every column the file leaves out already holds the default that is
written there.
-/
namespace Signari.ConfigEffects
open GoStrings KeyedMaps KeyedRows ConfigFile ConfigPlan ConfigApply List

section
variable {Cidr : Type} {pg : CidrText Cidr} {now : ℕ} {org : String}
  {f : File} {prune : Bool} {s s' : State Cidr}

/-! ## Reading one row -/

theorem mem_groupNames {n : String} :
    n ∈ heldNames (read pg s org) .group ↔ (s.group org n).isSome = true := by
  simp only [heldNames, ConfigPlan.read, mem_map, mem_filter, decide_eq_true_eq]
  constructor
  · rintro ⟨r, ⟨hr, horg⟩, hname⟩
    have hlook := Table.mem_rows.mp hr
    rw [GroupRow.key, horg, hname] at hlook
    simp [State.group, hlook]
  · intro h
    obtain ⟨r, hr⟩ := Option.isSome_iff_exists.mp h
    have hkey : r.key = (org, n) := Table.key_of_lookup hr
    have hmem : r ∈ s.groups.rows := Table.mem_rows.mpr (hkey ▸ hr)
    exact ⟨r, ⟨hmem, congrArg Prod.fst hkey⟩, congrArg Prod.snd hkey⟩

theorem mem_clientIDs {id : String} :
    id ∈ heldNames (read pg s org) .client ↔ ∃ r, s.client id = some r ∧ r.org = org := by
  simp only [heldNames, ConfigPlan.read, mem_map, mem_filter, decide_eq_true_eq]
  constructor
  · rintro ⟨r, ⟨hr, horg⟩, rfl⟩
    exact ⟨r, Table.mem_rows.mp hr, horg⟩
  · rintro ⟨r, hr, horg⟩
    have hkey : r.clientID = id := Table.key_of_lookup hr
    exact ⟨r, ⟨Table.mem_rows.mpr (hkey ▸ hr), horg⟩, hkey⟩

theorem mem_entityIDs {id : String} :
    id ∈ heldNames (read pg s org) .samlProvider ↔ (s.samlProvider org id).isSome = true := by
  simp only [heldNames, ConfigPlan.read, mem_map, mem_filter, decide_eq_true_eq]
  constructor
  · rintro ⟨r, ⟨hr, horg⟩, hname⟩
    have hlook := Table.mem_rows.mp hr
    rw [SAMLRow.key, horg, hname] at hlook
    simp [State.samlProvider, hlook]
  · intro h
    obtain ⟨r, hr⟩ := Option.isSome_iff_exists.mp h
    have hkey : r.key = (org, id) := Table.key_of_lookup hr
    have hmem : r ∈ s.samlProviders.rows := Table.mem_rows.mpr (hkey ▸ hr)
    exact ⟨r, ⟨hmem, congrArg Prod.fst hkey⟩, congrArg Prod.snd hkey⟩

theorem read_radius_respelled {text : String} {network : Cidr}
    (hparse : pg.parse text = some network) (hne : pg.print network ≠ text) :
    (read pg s org).radiusClient text = none := by
  simp only [ConfigPlan.read, Option.map_eq_none_iff, find?_eq_none, decide_eq_true_eq, not_and]
  intro r _ _ hprint
  have hback := pg.parse_print r.network
  rw [hprint, hparse, Option.some.injEq] at hback
  exact hne (hback ▸ hprint)

/-! ## Which entries are written -/

theorem wanted_buildPlan {kind : Kind} {name : String} (hname : name ∈ fileNames f kind) :
    wanted (buildPlan pg s org f prune) kind name = true ↔
      ∃ c ∈ sectionChanges (read pg s org) f kind, c.name = name := by
  rw [wanted_iff]
  · constructor
    · rintro ⟨c, hc, hkind, hn⟩
      exact ⟨c, (mem_buildPlan_named hname).mp ⟨hc, hkind, hn⟩⟩
    · rintro ⟨c, hc⟩
      exact ⟨c, (mem_buildPlan_named hname).mpr hc⟩
  · intro c hc hkind hn
    have hsec := ((mem_buildPlan_named hname).mp ⟨hc, hkind, hn⟩).1
    exact (mem_sectionChanges hsec).2.2

theorem exists_change_iff {α : Type} {xs : List α} {change : α → Option Change}
    {name : α → String} {kind : Kind}
    (hspec : ∀ x c, change x = some c → c.kind = kind ∧ c.name = name x ∧ c.action ≠ .delete)
    (hnodup : (xs.map name).Nodup) {x : α} (hx : x ∈ xs) :
    (∃ c ∈ xs.filterMap change, c.name = name x) ↔ change x ≠ none := by
  constructor
  · rintro ⟨c, hc, hn⟩
    obtain ⟨y, hy, hyc⟩ := mem_filterMap.mp hc
    have hyx : y = x := inj_on_of_nodup_map hnodup hy hx ((hspec y c hyc).2.1 ▸ hn)
    rw [← hyx, hyc]
    simp
  · intro h
    obtain ⟨c, hc⟩ := Option.ne_none_iff_exists'.mp h
    exact ⟨c, mem_filterMap.mpr ⟨x, hx, hc⟩, (hspec x c hc).2.1⟩

theorem wanted_group (hk : Keyed f) {g : Group} (hg : g ∈ f.groups) :
    wanted (buildPlan pg s org f prune) .group g.name = true ↔
      groupChange (read pg s org) g ≠ none := by
  rw [wanted_buildPlan (mem_map_of_mem hg)]
  exact exists_change_iff (fun _ _ h => entryChange_spec h) hk.groups hg

theorem wanted_client (hk : Keyed f) {c : Client} (hc : c ∈ f.clients) :
    wanted (buildPlan pg s org f prune) .client c.clientID = true ↔
      clientChange (read pg s org) c ≠ none := by
  rw [wanted_buildPlan (mem_map_of_mem hc)]
  exact exists_change_iff (fun _ _ h => entryChange_spec h) hk.clients hc

theorem wanted_saml (hk : Keyed f) {p : SAMLProvider} (hp : p ∈ f.samlProviders) :
    wanted (buildPlan pg s org f prune) .samlProvider p.entityID = true ↔
      samlChange (read pg s org) p ≠ none := by
  rw [wanted_buildPlan (mem_map_of_mem hp)]
  exact exists_change_iff (fun _ _ h => entryChange_spec h) hk.samlProviders hp

theorem wanted_respelled {r : RADIUSClient} (hr : r ∈ f.radiusClients) {network : Cidr}
    (hparse : pg.parse r.network = some network) (hne : pg.print network ≠ r.network) :
    wanted (buildPlan pg s org f prune) .radiusClient r.network = true := by
  rw [wanted_buildPlan (mem_map_of_mem hr)]
  have hchange : radiusChange (read pg s org) r ≠ none := by
    rw [radiusChange, read_radius_respelled hparse hne]
    simp [entryChange]
  obtain ⟨c, hc⟩ := Option.ne_none_iff_exists'.mp hchange
  exact ⟨c, mem_filterMap.mpr ⟨r, hr, hc⟩, (entryChange_spec hc).2.1⟩

/-! ## The rows an apply of the plan leaves -/

theorem deletes_buildPlan {kind : Kind} {name : String} :
    Deletes (buildPlan pg s org f prune) kind name ↔
      prune = true ∧ name ∈ heldNames (read pg s org) kind ∧ name ∉ fileNames f kind :=
  exists_delete_iff

theorem not_deletes_named {kind : Kind} {name : String} (h : name ∈ fileNames f kind) :
    ¬Deletes (buildPlan pg s org f prune) kind name :=
  fun hd => (deletes_buildPlan.mp hd).2.2 h

variable [DecidableEq Cidr]

theorem mem_networks {text : String} :
    text ∈ heldNames (read pg s org) .radiusClient ↔
      ∃ network, (s.radiusClient org network).isSome = true ∧ pg.print network = text := by
  simp only [heldNames, ConfigPlan.read, mem_map, mem_filter, decide_eq_true_eq]
  constructor
  · rintro ⟨r, ⟨hr, horg⟩, rfl⟩
    have hlook := Table.mem_rows.mp hr
    rw [RADIUSRow.key, horg] at hlook
    exact ⟨r.network, by simp [State.radiusClient, hlook], rfl⟩
  · rintro ⟨network, h, rfl⟩
    obtain ⟨r, hr⟩ := Option.isSome_iff_exists.mp h
    have hkey : r.key = (org, network) := Table.key_of_lookup hr
    have hmem : r ∈ s.radiusClients.rows := Table.mem_rows.mpr (hkey ▸ hr)
    exact ⟨r, ⟨hmem, congrArg Prod.fst hkey⟩, congrArg (pg.print ·.2) hkey⟩

theorem read_radius_print (network : Cidr) :
    (read pg s org).radiusClient (pg.print network) =
      (s.radiusClient org network).map (RADIUSRow.read pg) := by
  have hpred : (fun r : RADIUSRow Cidr =>
      decide (r.org = org ∧ pg.print r.network = pg.print network)) =
      fun r => decide (r.key = (org, network)) := by
    funext r
    simp [RADIUSRow.key, pg.print_injective.eq_iff]
  simp only [ConfigPlan.read, State.radiusClient, Table.lookup]
  rw [hpred]

variable (happly : apply pg now org f (buildPlan pg s org f prune) s = .ok s')
include happly

theorem group_named (hk : Keyed f) {g : Group} (hg : g ∈ f.groups) :
    s'.group org g.name = if groupChange (read pg s org) g = none then s.group org g.name
      else some ((s.group org g.name).elim (freshGroup org g) (writeGroup g)) := by
  rw [apply_group happly, if_neg (not_deletes_named (mem_map_of_mem hg)),
    written_of_mem hk.groups hg]
  by_cases hc : groupChange (read pg s org) g = none
  · rw [if_pos hc, if_neg fun hw => (wanted_group hk hg).mp hw hc]
  · rw [if_neg hc, if_pos ((wanted_group hk hg).mpr hc)]

theorem client_named (hk : Keyed f) {c : Client} (hc : c ∈ f.clients) :
    s'.client c.clientID = if clientChange (read pg s org) c = none then s.client c.clientID
      else some ((s.client c.clientID).elim (freshClient now org c) (writeClient now c)) := by
  rw [apply_client happly, if_neg (not_deletes_named (mem_map_of_mem hc)),
    written_of_mem hk.clients hc]
  by_cases hn : clientChange (read pg s org) c = none
  · rw [if_pos hn, if_neg fun hw => (wanted_client hk hc).mp hw hn]
  · rw [if_neg hn, if_pos ((wanted_client hk hc).mpr hn)]

theorem saml_named (hk : Keyed f) {p : SAMLProvider} (hp : p ∈ f.samlProviders) :
    s'.samlProvider org p.entityID =
      if samlChange (read pg s org) p = none then s.samlProvider org p.entityID
      else some ((s.samlProvider org p.entityID).elim (freshSAML org p) (writeSAML p)) := by
  rw [apply_samlProvider happly, if_neg (not_deletes_named (mem_map_of_mem hp)),
    written_of_mem hk.samlProviders hp]
  by_cases hn : samlChange (read pg s org) p = none
  · rw [if_pos hn, if_neg fun hw => (wanted_saml hk hp).mp hw hn]
  · rw [if_neg hn, if_pos ((wanted_saml hk hp).mpr hn)]

theorem group_omitted {n : String} (hn : n ∉ f.groups.map Group.name) :
    s'.group org n = if prune = true then none else s.group org n := by
  rw [apply_group happly, written_of_not_mem hn]
  cases prune with
  | false => rw [if_neg fun hd => by simp [deletes_buildPlan] at hd, if_neg Bool.false_ne_true]
  | true =>
    rw [if_pos rfl]
    split_ifs with hd
    · rfl
    · by_contra hrow
      have hheld : n ∈ heldNames (read pg s org) .group :=
        mem_groupNames.mpr (Option.isSome_iff_ne_none.mpr hrow)
      exact hd (deletes_buildPlan.mpr ⟨rfl, hheld, hn⟩)

theorem client_omitted {id : String} (hn : id ∉ f.clients.map Client.clientID) :
    s'.client id = if prune = true then (s.client id).filter (·.org ≠ org) else s.client id := by
  rw [apply_client happly, written_of_not_mem hn]
  cases prune with
  | false => rw [if_neg fun hd => by simp [deletes_buildPlan] at hd, if_neg Bool.false_ne_true]
  | true =>
    rw [if_pos rfl]
    split_ifs with hd
    · rfl
    · cases hrow : s.client id with
      | none => rfl
      | some row =>
        have hne : row.org ≠ org := fun horg =>
          hd (deletes_buildPlan.mpr ⟨rfl, mem_clientIDs.mpr ⟨row, hrow, horg⟩, hn⟩)
        simp [Option.filter, hne]

theorem saml_omitted {id : String} (hn : id ∉ f.samlProviders.map SAMLProvider.entityID) :
    s'.samlProvider org id = if prune = true then none else s.samlProvider org id := by
  rw [apply_samlProvider happly, written_of_not_mem hn]
  cases prune with
  | false => rw [if_neg fun hd => by simp [deletes_buildPlan] at hd, if_neg Bool.false_ne_true]
  | true =>
    rw [if_pos rfl]
    split_ifs with hd
    · rfl
    · by_contra hrow
      have hheld : id ∈ heldNames (read pg s org) .samlProvider :=
        mem_entityIDs.mpr (Option.isSome_iff_ne_none.mpr hrow)
      exact hd (deletes_buildPlan.mpr ⟨rfl, hheld, hn⟩)

omit happly in
theorem deletesNetwork_buildPlan {network : Cidr} :
    DeletesNetwork pg (buildPlan pg s org f prune) network ↔
      prune = true ∧ (s.radiusClient org network).isSome = true ∧
        pg.print network ∉ f.radiusClients.map RADIUSClient.network := by
  constructor
  · rintro ⟨c, hc, hact, hkind, hparse⟩
    obtain ⟨hprune, hheld, hfile⟩ := exists_delete_iff.mp ⟨c, hc, hact, hkind, rfl⟩
    obtain ⟨held, hrow, hprint⟩ := mem_networks.mp hheld
    rw [← hprint, pg.parse_print, Option.some.injEq] at hparse
    subst hparse
    exact ⟨hprune, hrow, hprint ▸ hfile⟩
  · rintro ⟨hprune, hrow, hfile⟩
    obtain ⟨c, hc, hact, hkind, hname⟩ := exists_delete_iff.mpr
      ⟨hprune, mem_networks.mpr ⟨network, hrow, rfl⟩, hfile⟩
    exact ⟨c, hc, hact, hkind, hname ▸ pg.parse_print network⟩

/-- The entries written to a network under a spelling PostgreSQL does not print. -/
def respelled (pg : CidrText Cidr) (f : File) (network : Cidr) : List RADIUSClient :=
  f.radiusClients.filter fun r => pg.parse r.network = some network ∧ r.network ≠ pg.print network

omit happly in
/-- A row that a section of RADIUS entries reaches takes the name of the last of them. -/
theorem foldl_radiusWrite {plan : List Change} {network : Cidr} {rs : List RADIUSClient}
    {row : RADIUSRow Cidr} :
    rs.foldl (fun v r => radiusWrite pg plan org r network v) (some row) =
      some { row with name := ((rs.filter fun r => wanted plan .radiusClient r.network = true ∧
        pg.parse r.network = some network).getLast?.map RADIUSClient.name).getD row.name } := by
  induction rs generalizing row with
  | nil => rfl
  | cons r rs ih =>
    rw [foldl_cons]
    by_cases hr : wanted plan .radiusClient r.network = true ∧ pg.parse r.network = some network
    · have hwrite : radiusWrite pg plan org r network (some row) = some (writeRADIUS r row) :=
        if_pos hr
      rw [hwrite, ih, filter_cons_of_pos (by simpa using hr), getLast?_cons]
      cases (rs.filter fun r => wanted plan .radiusClient r.network = true ∧
        pg.parse r.network = some network).getLast? with
      | none => rfl
      | some q => rfl
    · have hskip : radiusWrite pg plan org r network (some row) = some row := if_neg hr
      rw [hskip, ih, filter_cons_of_neg (by simpa using hr)]

/-- Where the plan does not name a network, the row takes the name of the last entry that
spells it otherwise. -/
theorem radius_unnamed {network : Cidr} {row : RADIUSRow Cidr}
    (hrow : s.radiusClient org network = some row)
    (hname : ¬∃ c ∈ buildPlan pg s org f prune,
      c.kind = .radiusClient ∧ c.name = pg.print network) :
    s'.radiusClient org network = some { row with
      name := ((respelled pg f network).getLast?.map RADIUSClient.name).getD row.name } := by
  have hkeep : ¬DeletesNetwork pg (buildPlan pg s org f prune) network := by
    intro hd
    obtain ⟨hprune, hheld, hfile⟩ := deletesNetwork_buildPlan.mp hd
    obtain ⟨c, hc, -, hkind, hn⟩ := exists_delete_iff.mpr
      ⟨hprune, mem_networks.mpr ⟨network, hheld, rfl⟩, hfile⟩
    exact hname ⟨c, hc, hkind, hn⟩
  have hrespelled : respelled pg f network = f.radiusClients.filter fun r =>
      wanted (buildPlan pg s org f prune) .radiusClient r.network = true ∧
        pg.parse r.network = some network := by
    refine filter_congr fun r hr => ?_
    by_cases hparse : pg.parse r.network = some network
    · by_cases hprint : r.network = pg.print network
      · have hnot : ¬wanted (buildPlan pg s org f prune) .radiusClient r.network = true := by
          intro hw
          obtain ⟨c, hc, hn⟩ := (wanted_buildPlan (mem_map_of_mem hr)).mp hw
          have hin : c ∈ buildPlan pg s org f prune ∧ c.kind = .radiusClient ∧ c.name = r.network :=
            (mem_buildPlan_named (mem_map_of_mem hr)).mpr ⟨hc, hn⟩
          exact hname ⟨c, hin.1, hin.2.1, hin.2.2.trans hprint⟩
        simp [hprint ▸ hnot, hprint]
      · simp [hparse, hprint, wanted_respelled hr hparse (Ne.symm hprint)]
    · simp [hparse]
  rw [apply_radiusClient happly, if_neg hkeep, hrow, foldl_radiusWrite, hrespelled]

end

/-! ## The promise of a plan -/

def Named (plan : List Change) (kind : Kind) (name : String) : Prop :=
  ∃ c ∈ plan, c.kind = kind ∧ c.name = name

/-- Two rows of a client that differ at most in the listed fields, and in when they were
written. Lists are compared as `sameSet` does and absent URLs as `read` reads them. -/
structure ClientDiffersIn (fields : List String) (row row' : ClientRow) : Prop where
  clientID : row'.clientID = row.clientID
  org : row'.org = row.org
  clientType : row'.clientType = row.clientType
  clientSecretHash : row'.clientSecretHash = row.clientSecretHash
  name : "name" ∉ fields → row'.displayName = row.displayName
  redirectURIs : "redirect_uris" ∉ fields → row'.redirectURIs.Perm row.redirectURIs
  scopes : "scopes" ∉ fields → row'.scopes.Perm row.scopes
  launchURL : "launch_url" ∉ fields → row'.initiateLoginURI.getD "" = row.initiateLoginURI.getD ""
  logoURL : "logo_url" ∉ fields → row'.logoURI.getD "" = row.logoURI.getD ""
  portalHidden : "portal_hidden" ∉ fields → row'.portalHidden = row.portalHidden
  enabled : "enabled" ∉ fields → row'.enabled = row.enabled

structure SAMLDiffersIn (fields : List String) (row row' : SAMLRow) : Prop where
  org : row'.org = row.org
  entityID : row'.entityID = row.entityID
  name : "name" ∉ fields → row'.displayName = row.displayName
  acsURLs : "acs_urls" ∉ fields → row'.acsURLs.Perm row.acsURLs
  nameIDFormat : "name_id_format" ∉ fields → row'.nameIDFormat = row.nameIDFormat
  enabled : "enabled" ∉ fields → row'.enabled = row.enabled

section
variable {Cidr : Type} [DecidableEq Cidr] (pg : CidrText Cidr) (org : String) (f : File)
  (plan : List Change) (s s' : State Cidr)

/-- What an operator reads a plan as: the objects it does not name stay as they are, and an
update touches the fields of its detail only. A client keeps what its entry leaves unset. -/
structure PlanFaithful : Prop where
  unnamed_group : ∀ n row, s.group org n = some row → ¬Named plan .group n →
    s'.group org n = some row
  unnamed_client : ∀ id row, s.client id = some row → row.org = org → ¬Named plan .client id →
    s'.client id = some row
  unnamed_saml : ∀ id row, s.samlProvider org id = some row → ¬Named plan .samlProvider id →
    s'.samlProvider org id = some row
  unnamed_radius : ∀ network row, s.radiusClient org network = some row →
    ¬Named plan .radiusClient (pg.print network) → s'.radiusClient org network = some row
  updated_group : ∀ ch ∈ plan, ch.action = .update → ch.kind = .group →
    ∃ row row', s.group org ch.name = some row ∧ s'.group org ch.name = some row' ∧
      row'.key = row.key ∧ ch.detail = "display name or description"
  updated_client : ∀ ch ∈ plan, ch.action = .update → ch.kind = .client →
    ∃ row row', s.client ch.name = some row ∧ s'.client ch.name = some row' ∧
      ∃ c ∈ f.clients, c.clientID = ch.name ∧ ch.detail = clientDiff row.read c ∧
        ClientDiffersIn (clientFields row.read c) row row'
  updated_saml : ∀ ch ∈ plan, ch.action = .update → ch.kind = .samlProvider →
    ∃ row row', s.samlProvider org ch.name = some row ∧ s'.samlProvider org ch.name = some row' ∧
      ∃ p ∈ f.samlProviders, p.entityID = ch.name ∧ ch.detail = samlDiff row.read p ∧
        SAMLDiffersIn (samlFields row.read p) row row'
  updated_radius : ∀ ch ∈ plan, ch.action = .update → ch.kind = .radiusClient →
    ∃ network row row', ch.name = pg.print network ∧ s.radiusClient org network = some row ∧
      s'.radiusClient org network = some row' ∧ { row' with name := row.name } = row ∧
      ∃ r ∈ f.radiusClients, r.network = ch.name ∧ ch.detail = row.name ++ " → " ++ r.name
  unset_fields : ∀ c ∈ f.clients, ∀ row, s.client c.clientID = some row → row.org = org →
    ∃ row', s'.client c.clientID = some row' ∧ (c.enabled = none → row'.enabled = row.enabled) ∧
      (c.scopes = [] → row'.scopes.Perm row.scopes) ∧
      (c.name = "" → row'.displayName = row.displayName)

/-- An entry whose row is rewritten leaves out only columns that hold their default. -/
def ClientDefaulted (c : Client) (row : ClientRow) : Prop :=
  (c.name = "" → row.displayName = c.clientID) ∧
    (c.scopes = [] → row.scopes.Perm defaultScopes) ∧ (c.enabled = none → row.enabled = true)

/-- For a SAML provider the file's order of URLs matters too: it decides the default one. -/
def SAMLDefaulted (p : SAMLProvider) (row : SAMLRow) : Prop :=
  (p.name = "" → row.displayName = p.entityID) ∧ (p.nameID = "" → row.nameIDFormat = "persistent") ∧
    (p.enabled = none → row.enabled = true) ∧
    (sameSet (row.acsURLs.map ACSRow.url) p.acsURLs = true → (acsRows p.acsURLs).Perm row.acsURLs)

/-- When applying a file does what its plan says. -/
structure Defaulted (prune : Bool) : Prop where
  client : ∀ c ∈ f.clients, ∀ row, s.client c.clientID = some row → row.org = org →
    clientDiff row.read c ≠ "" → ClientDefaulted c row
  saml : ∀ p ∈ f.samlProviders, ∀ row, s.samlProvider org p.entityID = some row →
    samlDiff row.read p ≠ "" → SAMLDefaulted p row
  radius : ∀ network row, s.radiusClient org network = some row →
    (∀ r ∈ f.radiusClients, r.network = pg.print network → r.name = row.name) →
    (prune = true → pg.print network ∈ f.radiusClients.map RADIUSClient.network) →
    ∀ r ∈ (respelled pg f network).getLast?, r.name = row.name

theorem mem_clientFields {held want : Client} {x : String} : x ∈ clientFields held want ↔
    (((((((want.name ≠ "" ∧ held.name ≠ want.name) ∧ x = "name") ∨
      (sameSet held.redirectURIs want.redirectURIs = false ∧ x = "redirect_uris")) ∨
      ((want.scopes ≠ [] ∧ sameSet held.scopes want.scopes = false) ∧ x = "scopes")) ∨
      (held.launchURL ≠ want.launchURL ∧ x = "launch_url")) ∨
      (held.logoURL ≠ want.logoURL ∧ x = "logo_url")) ∨
      (held.portalHidden ≠ want.portalHidden ∧ x = "portal_hidden")) ∨
      (flagDiffers held.enabled want.enabled ∧ x = "enabled") := by
  simp only [clientFields, mem_append, mem_fieldIf]

theorem mem_samlFields {held want : SAMLProvider} {x : String} : x ∈ samlFields held want ↔
    ((((want.name ≠ "" ∧ held.name ≠ want.name) ∧ x = "name") ∨
      (sameSet held.acsURLs want.acsURLs = false ∧ x = "acs_urls")) ∨
      ((want.nameID ≠ "" ∧ held.nameID ≠ want.nameID) ∧ x = "name_id_format")) ∨
      (flagDiffers held.enabled want.enabled ∧ x = "enabled") := by
  simp only [samlFields, mem_append, mem_fieldIf]

theorem writeClient_differsIn {now : ℕ} {c : Client} {row : ClientRow} :
    ClientDiffersIn (clientFields row.read c) row (writeClient now c row) ↔
      ClientDefaulted c row := by
  constructor
  · intro h
    refine ⟨fun hname => ?_, fun hscopes => ?_, fun henabled => ?_⟩
    · have hkept := h.name (by simp [mem_clientFields, hname])
      simpa [writeClient, firstNonEmpty, hname] using hkept.symm
    · have hkept := h.scopes (by simp [mem_clientFields, hscopes])
      simpa [writeClient, scopesWritten, hscopes] using hkept.symm
    · have hkept := h.enabled (by simp [mem_clientFields, henabled, flagDiffers])
      simpa [writeClient, henabled] using hkept.symm
  · rintro ⟨hname, hscopes, henabled⟩
    refine ⟨rfl, rfl, rfl, rfl, fun h => ?_, fun h => ?_, fun h => ?_, fun h => ?_, fun h => ?_,
      fun h => ?_, fun h => ?_⟩
    · by_cases hc : c.name = ""
      · simp [writeClient, firstNonEmpty, hc, hname hc]
      · have heq : row.displayName = c.name := by
          simpa [mem_clientFields, ClientRow.read, hc] using h
        simp [writeClient, firstNonEmpty, hc, heq]
    · have hsame : sameSet row.redirectURIs c.redirectURIs = true := by
        simpa [mem_clientFields, ClientRow.read] using h
      exact (sameSet_iff.mp hsame).symm
    · by_cases hc : c.scopes = []
      · simpa [writeClient, scopesWritten, hc] using (hscopes hc).symm
      · have hsame : sameSet row.scopes c.scopes = true := by
          simpa [mem_clientFields, ClientRow.read, hc] using h
        simpa [writeClient, scopesWritten, hc] using (sameSet_iff.mp hsame).symm
    · have heq : row.initiateLoginURI.getD "" = c.launchURL := by
        simpa [mem_clientFields, ClientRow.read] using h
      simp [writeClient, heq]
    · have heq : row.logoURI.getD "" = c.logoURL := by
        simpa [mem_clientFields, ClientRow.read] using h
      simp [writeClient, heq]
    · have heq : row.portalHidden = c.portalHidden := by
        simpa [mem_clientFields, ClientRow.read] using h
      simp [writeClient, heq]
    · cases hc : c.enabled with
      | none => simp [writeClient, hc, henabled hc]
      | some b =>
        have heq : row.enabled = b := by
          simpa [mem_clientFields, ClientRow.read, flagDiffers, hc] using h
        simp [writeClient, hc, heq]

theorem writeSAML_differsIn {p : SAMLProvider} {row : SAMLRow} :
    SAMLDiffersIn (samlFields row.read p) row (writeSAML p row) ↔ SAMLDefaulted p row := by
  constructor
  · intro h
    refine ⟨fun hname => ?_, fun hformat => ?_, fun henabled => ?_, fun hsame => ?_⟩
    · have hkept := h.name (by simp [mem_samlFields, hname])
      simpa [writeSAML, firstNonEmpty, hname] using hkept.symm
    · have hkept := h.nameIDFormat (by simp [mem_samlFields, hformat])
      simpa [writeSAML, nameIDWritten, hformat] using hkept.symm
    · have hkept := h.enabled (by simp [mem_samlFields, henabled, flagDiffers])
      simpa [writeSAML, henabled] using hkept.symm
    · exact h.acsURLs (by simp [mem_samlFields, SAMLRow.read, hsame])
  · rintro ⟨hname, hformat, henabled, hurls⟩
    refine ⟨rfl, rfl, fun h => ?_, fun h => ?_, fun h => ?_, fun h => ?_⟩
    · by_cases hp : p.name = ""
      · simp [writeSAML, firstNonEmpty, hp, hname hp]
      · have heq : row.displayName = p.name := by simpa [mem_samlFields, SAMLRow.read, hp] using h
        simp [writeSAML, firstNonEmpty, hp, heq]
    · exact hurls (by simpa [mem_samlFields, SAMLRow.read] using h)
    · by_cases hp : p.nameID = ""
      · simp [writeSAML, nameIDWritten, hp, hformat hp]
      · have heq : row.nameIDFormat = p.nameID := by
          simpa [mem_samlFields, SAMLRow.read, hp] using h
        simp [writeSAML, nameIDWritten, hp, heq]
    · cases hp : p.enabled with
      | none => simp [writeSAML, hp, henabled hp]
      | some b =>
        have heq : row.enabled = b := by
          simpa [mem_samlFields, SAMLRow.read, flagDiffers, hp] using h
        simp [writeSAML, hp, heq]

end

section
variable {Cidr : Type} {pg : CidrText Cidr} {now : ℕ} {org : String} {f : File} {prune : Bool}
  {s s' : State Cidr}

/-! ## The changes the plan names -/

theorem named_iff_wanted {kind : Kind} {name : String} (hname : name ∈ fileNames f kind) :
    Named (buildPlan pg s org f prune) kind name ↔
      wanted (buildPlan pg s org f prune) kind name = true := by
  rw [wanted_buildPlan hname]
  constructor
  · rintro ⟨c, hc, hkind, hn⟩
    exact ⟨c, (mem_buildPlan_named hname).mp ⟨hc, hkind, hn⟩⟩
  · rintro ⟨c, hc⟩
    exact ⟨c, (mem_buildPlan_named hname).mpr hc⟩

theorem not_named_omitted {kind : Kind} {name : String} (hname : name ∉ fileNames f kind)
    (hheld : name ∈ heldNames (read pg s org) kind)
    (h : ¬Named (buildPlan pg s org f prune) kind name) : prune = false := by
  by_contra hprune
  obtain ⟨c, hc, -, hkind, hn⟩ := exists_delete_iff.mpr ⟨Bool.not_eq_false _ ▸ hprune, hheld, hname⟩
  exact h ⟨c, hc, hkind, hn⟩

theorem update_mem_section {ch : Change} (hch : ch ∈ buildPlan pg s org f prune)
    (hact : ch.action = .update) : ch ∈ sectionChanges (read pg s org) f ch.kind := by
  rcases mem_buildPlan.mp hch with h | ⟨-, h⟩
  · exact h
  · rw [(mem_pruneChanges_spec h).1] at hact
    cases hact

theorem read_client_some {id : String} {held : Client} :
    (read pg s org).client id = some held ↔
      ∃ row, s.client id = some row ∧ row.org = org ∧ row.read = held := by
  simp only [ConfigPlan.read, State.client, Option.map_eq_some_iff, Option.filter_eq_some_iff,
    decide_eq_true_eq, and_assoc]

theorem read_saml (id : String) :
    (read pg s org).samlProvider id = (s.samlProvider org id).map SAMLRow.read := rfl

theorem read_group (n : String) : (read pg s org).group n = (s.group org n).map GroupRow.read := rfl

theorem clientChange_eq_none {c : Client} {row : ClientRow} (hrow : s.client c.clientID = some row)
    (horg : row.org = org) :
    clientChange (read pg s org) c = none ↔ clientDiff row.read c = "" := by
  have hheld : (read pg s org).client c.clientID = some row.read :=
    read_client_some.mpr ⟨row, hrow, horg, rfl⟩
  rw [clientChange, entryChange_eq_none, hheld]
  simp

theorem samlChange_eq_none {p : SAMLProvider} {row : SAMLRow}
    (hrow : s.samlProvider org p.entityID = some row) :
    samlChange (read pg s org) p = none ↔ samlDiff row.read p = "" := by
  rw [samlChange, entryChange_eq_none, read_saml, hrow]
  simp

variable [DecidableEq Cidr]

theorem radius_not_named {network : Cidr} {row : RADIUSRow Cidr}
    (hrow : s.radiusClient org network = some row) :
    ¬Named (buildPlan pg s org f prune) .radiusClient (pg.print network) ↔
      (∀ r ∈ f.radiusClients, r.network = pg.print network → r.name = row.name) ∧
        (prune = true → pg.print network ∈ f.radiusClients.map RADIUSClient.network) := by
  have hchange : ∀ r : RADIUSClient, r.network = pg.print network →
      (radiusChange (read pg s org) r = none ↔ r.name = row.name) := by
    intro r hr
    rw [radiusChange, entryChange_eq_none, hr, read_radius_print, hrow]
    by_cases hn : row.name = r.name
    · simp [RADIUSRow.read, hn]
    · simp [RADIUSRow.read, hn, Ne.symm hn, String.append_eq_empty_iff]
  constructor
  · intro h
    refine ⟨fun r hr hprint => (hchange r hprint).mp ?_, fun hprune => ?_⟩
    · by_contra hne
      obtain ⟨c, hc⟩ := Option.ne_none_iff_exists'.mp hne
      obtain ⟨hkind, hn, -⟩ := entryChange_spec hc
      have hsec : c ∈ sectionChanges (read pg s org) f .radiusClient :=
        mem_filterMap.mpr ⟨r, hr, hc⟩
      exact h ⟨c, mem_buildPlan.mpr (.inl (hkind.symm ▸ hsec)), hkind, hn.trans hprint⟩
    · by_contra hfile
      have hheld : pg.print network ∈ heldNames (read pg s org) .radiusClient :=
        mem_networks.mpr ⟨network, by simp [hrow], rfl⟩
      have hoff := not_named_omitted hfile hheld h
      rw [hprune] at hoff
      cases hoff
  · rintro ⟨hname, hprune⟩ ⟨c, hc, hkind, hn⟩
    rcases mem_buildPlan.mp hc with hsec | ⟨hp, hdel⟩
    · rw [hkind] at hsec
      obtain ⟨r, hr, hrc⟩ := mem_filterMap.mp hsec
      have hprint : r.network = pg.print network := (entryChange_spec hrc).2.1.symm.trans hn
      rw [(hchange r hprint).mpr (hname r hr hprint)] at hrc
      cases hrc
    · have hnot := (mem_pruneChanges_spec hdel).2.2
      rw [hkind, hn] at hnot
      exact hnot (hprune hp)

/-! ## The plan against the apply -/

variable (happly : apply pg now org f (buildPlan pg s org f prune) s = .ok s')
include happly

theorem group_unnamed (hk : Keyed f) {n : String} {row : GroupRow}
    (hrow : s.group org n = some row) (hn : ¬Named (buildPlan pg s org f prune) .group n) :
    s'.group org n = some row := by
  by_cases hfile : n ∈ f.groups.map Group.name
  · obtain ⟨g, hg, rfl⟩ := mem_map.mp hfile
    rw [named_iff_wanted hfile, wanted_group hk hg, not_not] at hn
    rw [group_named happly hk hg, if_pos hn, hrow]
  · have hheld : n ∈ heldNames (read pg s org) .group := mem_groupNames.mpr (by simp [hrow])
    rw [group_omitted happly hfile, not_named_omitted hfile hheld hn, if_neg Bool.false_ne_true,
      hrow]

theorem client_unnamed (hk : Keyed f) {id : String} {row : ClientRow}
    (hrow : s.client id = some row) (horg : row.org = org)
    (hn : ¬Named (buildPlan pg s org f prune) .client id) : s'.client id = some row := by
  by_cases hfile : id ∈ f.clients.map Client.clientID
  · obtain ⟨c, hc, rfl⟩ := mem_map.mp hfile
    rw [named_iff_wanted hfile, wanted_client hk hc, not_not] at hn
    rw [client_named happly hk hc, if_pos hn, hrow]
  · have hheld : id ∈ heldNames (read pg s org) .client := mem_clientIDs.mpr ⟨row, hrow, horg⟩
    rw [client_omitted happly hfile, not_named_omitted hfile hheld hn,
      if_neg Bool.false_ne_true, hrow]

theorem saml_unnamed (hk : Keyed f) {id : String} {row : SAMLRow}
    (hrow : s.samlProvider org id = some row)
    (hn : ¬Named (buildPlan pg s org f prune) .samlProvider id) :
    s'.samlProvider org id = some row := by
  by_cases hfile : id ∈ f.samlProviders.map SAMLProvider.entityID
  · obtain ⟨p, hp, rfl⟩ := mem_map.mp hfile
    rw [named_iff_wanted hfile, wanted_saml hk hp, not_not] at hn
    rw [saml_named happly hk hp, if_pos hn, hrow]
  · have hheld : id ∈ heldNames (read pg s org) .samlProvider := mem_entityIDs.mpr (by simp [hrow])
    rw [saml_omitted happly hfile, not_named_omitted hfile hheld hn, if_neg Bool.false_ne_true,
      hrow]

theorem group_updated (hk : Keyed f) {ch : Change} (hch : ch ∈ buildPlan pg s org f prune)
    (hact : ch.action = .update) (hkind : ch.kind = .group) :
    ∃ row row', s.group org ch.name = some row ∧ s'.group org ch.name = some row' ∧
      row'.key = row.key ∧ ch.detail = "display name or description" := by
  have hsec := update_mem_section hch hact
  rw [hkind] at hsec
  obtain ⟨g, hg, hgc⟩ := mem_filterMap.mp hsec
  obtain ⟨held, hheld, hdiff, hdetail⟩ := entryChange_update hgc hact
  rw [read_group, Option.map_eq_some_iff] at hheld
  obtain ⟨row, hrow, rfl⟩ := hheld
  have hne : groupChange (read pg s org) g ≠ none := by
    rw [hgc]
    simp
  have hafter := group_named happly hk hg
  rw [if_neg hne, hrow] at hafter
  rw [(entryChange_spec hgc).2.1]
  refine ⟨row, writeGroup g row, hrow, hafter, rfl, ?_⟩
  rw [hdetail, if_pos]
  by_contra hsame
  exact hdiff (if_neg hsame)

theorem client_updated (hk : Keyed f) {ch : Change} (hch : ch ∈ buildPlan pg s org f prune)
    (hact : ch.action = .update) (hkind : ch.kind = .client) :
    ∃ c ∈ f.clients, c.clientID = ch.name ∧ ∃ row, s.client ch.name = some row ∧
      row.org = org ∧ clientDiff row.read c ≠ "" ∧ ch.detail = clientDiff row.read c ∧
      s'.client ch.name = some (writeClient now c row) := by
  have hsec := update_mem_section hch hact
  rw [hkind] at hsec
  obtain ⟨c, hc, hcc⟩ := mem_filterMap.mp hsec
  obtain ⟨held, hheld, hdiff, hdetail⟩ := entryChange_update hcc hact
  obtain ⟨row, hrow, horg, rfl⟩ := read_client_some.mp hheld
  have hne : clientChange (read pg s org) c ≠ none := by
    rw [hcc]
    simp
  have hafter := client_named happly hk hc
  rw [if_neg hne, hrow] at hafter
  rw [(entryChange_spec hcc).2.1]
  exact ⟨c, hc, rfl, row, hrow, horg, hdiff, hdetail, hafter⟩

theorem saml_updated (hk : Keyed f) {ch : Change} (hch : ch ∈ buildPlan pg s org f prune)
    (hact : ch.action = .update) (hkind : ch.kind = .samlProvider) :
    ∃ p ∈ f.samlProviders, p.entityID = ch.name ∧ ∃ row, s.samlProvider org ch.name = some row ∧
      samlDiff row.read p ≠ "" ∧ ch.detail = samlDiff row.read p ∧
      s'.samlProvider org ch.name = some (writeSAML p row) := by
  have hsec := update_mem_section hch hact
  rw [hkind] at hsec
  obtain ⟨p, hp, hpc⟩ := mem_filterMap.mp hsec
  obtain ⟨held, hheld, hdiff, hdetail⟩ := entryChange_update hpc hact
  rw [read_saml, Option.map_eq_some_iff] at hheld
  obtain ⟨row, hrow, rfl⟩ := hheld
  have hne : samlChange (read pg s org) p ≠ none := by
    rw [hpc]
    simp
  have hafter := saml_named happly hk hp
  rw [if_neg hne, hrow] at hafter
  rw [(entryChange_spec hpc).2.1]
  exact ⟨p, hp, rfl, row, hrow, hdiff, hdetail, hafter⟩

theorem radius_updated {ch : Change} (hch : ch ∈ buildPlan pg s org f prune)
    (hact : ch.action = .update) (hkind : ch.kind = .radiusClient) :
    ∃ network row row', ch.name = pg.print network ∧ s.radiusClient org network = some row ∧
      s'.radiusClient org network = some row' ∧ { row' with name := row.name } = row ∧
      ∃ r ∈ f.radiusClients, r.network = ch.name ∧ ch.detail = row.name ++ " → " ++ r.name := by
  have hsec := update_mem_section hch hact
  rw [hkind] at hsec
  obtain ⟨r, hr, hrc⟩ := mem_filterMap.mp hsec
  obtain ⟨held, hheld, hdiff, hdetail⟩ := entryChange_update hrc hact
  have hname : ch.name = r.network := (entryChange_spec hrc).2.1
  simp only [ConfigPlan.read, Option.map_eq_some_iff] at hheld
  obtain ⟨row, hfind, rfl⟩ := hheld
  have hmatch : row.org = org ∧ pg.print row.network = r.network := by
    simpa using find?_some hfind
  have hrow : s.radiusClient org row.network = some row := by
    have hlook := Table.mem_rows.mp (mem_of_find?_eq_some hfind)
    rwa [RADIUSRow.key, hmatch.1] at hlook
  have hkeep : ¬DeletesNetwork pg (buildPlan pg s org f prune) row.network := by
    intro hd
    refine (deletesNetwork_buildPlan.mp hd).2.2 ?_
    rw [hmatch.2]
    exact mem_map_of_mem hr
  have hafter := apply_radiusClient happly row.network
  rw [if_neg hkeep, hrow, foldl_radiusWrite] at hafter
  refine ⟨row.network, row, _, hname.trans hmatch.2.symm, hrow, hafter, rfl, r, hr, hname.symm, ?_⟩
  rw [hdetail, if_pos]
  · rfl
  · by_contra hsame
    exact hdiff (if_neg (not_not.mpr hsame))

theorem faithful_of_defaulted (hk : Keyed f) (h : Defaulted pg org f s prune) :
    PlanFaithful pg org f (buildPlan pg s org f prune) s s' where
  unnamed_group _ _ hrow hn := group_unnamed happly hk hrow hn
  unnamed_client _ _ hrow horg hn := client_unnamed happly hk hrow horg hn
  unnamed_saml _ _ hrow hn := saml_unnamed happly hk hrow hn
  unnamed_radius network row hrow hn := by
    obtain ⟨hname, hprune⟩ := (radius_not_named hrow).mp hn
    rw [radius_unnamed happly hrow hn]
    cases hlast : (respelled pg f network).getLast? with
    | none => rfl
    | some r =>
      have hsame := h.radius network row hrow hname hprune r hlast
      simp [hsame]
  updated_group _ hch hact hkind := group_updated happly hk hch hact hkind
  updated_client ch hch hact hkind := by
    obtain ⟨c, hc, hid, row, hrow, horg, hdiff, hdetail, hafter⟩ :=
      client_updated happly hk hch hact hkind
    have hdef := h.client c hc row (hid ▸ hrow) horg hdiff
    exact ⟨row, _, hrow, hafter, c, hc, hid, hdetail, writeClient_differsIn.mpr hdef⟩
  updated_saml ch hch hact hkind := by
    obtain ⟨p, hp, hid, row, hrow, hdiff, hdetail, hafter⟩ := saml_updated happly hk hch hact hkind
    have hdef := h.saml p hp row (hid ▸ hrow) hdiff
    exact ⟨row, _, hrow, hafter, p, hp, hid, hdetail, writeSAML_differsIn.mpr hdef⟩
  updated_radius _ hch hact hkind := radius_updated happly hch hact hkind
  unset_fields c hc row hrow horg := by
    have hafter := client_named happly hk hc
    by_cases hdiff : clientDiff row.read c = ""
    · rw [if_pos ((clientChange_eq_none hrow horg).mpr hdiff), hrow] at hafter
      exact ⟨row, hafter, fun _ => rfl, fun _ => .refl _, fun _ => rfl⟩
    · rw [if_neg fun hn => hdiff ((clientChange_eq_none hrow horg).mp hn), hrow] at hafter
      obtain ⟨hname, hscopes, henabled⟩ := h.client c hc row hrow horg hdiff
      refine ⟨_, hafter, fun hu => ?_, fun hu => ?_, fun hu => ?_⟩
      · simp [writeClient, hu, henabled hu]
      · simpa [writeClient, scopesWritten, hu] using (hscopes hu).symm
      · simp [writeClient, firstNonEmpty, hu, hname hu]

theorem defaulted_of_faithful (hk : Keyed f)
    (h : PlanFaithful pg org f (buildPlan pg s org f prune) s s') :
    Defaulted pg org f s prune where
  client c hc row hrow horg hdiff := by
    have hne : clientChange (read pg s org) c ≠ none := fun hn =>
      hdiff ((clientChange_eq_none hrow horg).mp hn)
    obtain ⟨ch, hch⟩ := Option.ne_none_iff_exists'.mp hne
    obtain ⟨hkind, hname, -⟩ := entryChange_spec hch
    have hact : ch.action = .update := by
      rw [clientChange, read_client_some.mpr ⟨row, hrow, horg, rfl⟩, entryChange,
        if_neg hdiff] at hch
      rw [← Option.some.inj hch]
    have hin : ch ∈ buildPlan pg s org f prune := by
      refine mem_buildPlan.mpr (.inl ?_)
      rw [hkind]
      exact mem_filterMap.mpr ⟨c, hc, hch⟩
    obtain ⟨old, new, hold, hnew, c', hc', hid, -, hdiffers⟩ := h.updated_client ch hin hact hkind
    have hcc : c' = c := inj_on_of_nodup_map hk.clients hc' hc (hid.trans hname)
    have hafter := client_named happly hk hc
    rw [if_neg hne, hrow] at hafter
    rw [hname] at hold hnew
    rw [hrow, Option.some.injEq] at hold
    rw [hafter, Option.some.injEq] at hnew
    rw [hcc, ← hold, ← hnew] at hdiffers
    exact writeClient_differsIn.mp hdiffers
  saml p hp row hrow hdiff := by
    have hne : samlChange (read pg s org) p ≠ none := fun hn =>
      hdiff ((samlChange_eq_none hrow).mp hn)
    obtain ⟨ch, hch⟩ := Option.ne_none_iff_exists'.mp hne
    obtain ⟨hkind, hname, -⟩ := entryChange_spec hch
    have hact : ch.action = .update := by
      rw [samlChange, read_saml, hrow, Option.map_some, entryChange, if_neg hdiff] at hch
      rw [← Option.some.inj hch]
    have hin : ch ∈ buildPlan pg s org f prune := by
      refine mem_buildPlan.mpr (.inl ?_)
      rw [hkind]
      exact mem_filterMap.mpr ⟨p, hp, hch⟩
    obtain ⟨old, new, hold, hnew, p', hp', hid, -, hdiffers⟩ := h.updated_saml ch hin hact hkind
    have hpp : p' = p := inj_on_of_nodup_map hk.samlProviders hp' hp (hid.trans hname)
    have hafter := saml_named happly hk hp
    rw [if_neg hne, hrow] at hafter
    rw [hname] at hold hnew
    rw [hrow, Option.some.injEq] at hold
    rw [hafter, Option.some.injEq] at hnew
    rw [hpp, ← hold, ← hnew] at hdiffers
    exact writeSAML_differsIn.mp hdiffers
  radius network row hrow hname hprune r hr := by
    have hn := (radius_not_named hrow).mpr ⟨hname, hprune⟩
    have hafter := radius_unnamed happly hrow hn
    rw [h.unnamed_radius network row hrow hn, Option.mem_def.mp hr, Option.some.injEq] at hafter
    exact (congrArg RADIUSRow.name hafter).symm

omit happly in
/-- Applying a file does what its plan says exactly when every rewritten entry leaves out
only columns that hold their default. -/
theorem plan_faithful_iff {urls : Urls} (hv : validate urls f = .ok ())
    (happly : apply pg now org f (buildPlan pg s org f prune) s = .ok s') :
    PlanFaithful pg org f (buildPlan pg s org f prune) s s' ↔ Defaulted pg org f s prune :=
  ⟨defaulted_of_faithful happly (keyed_of_validate hv),
    faithful_of_defaulted happly (keyed_of_validate hv)⟩

end

/-! ## An application whose logo changed -/

/-- Two networks as PostgreSQL reads and prints them. -/
inductive Block where
  | device | lan
  deriving DecidableEq

def Block.print : Block → String
  | .device => "10.0.0.1/32"
  | .lan => "10.0.0.0/8"

def Block.parse (text : String) : Option Block :=
  if text = "10.0.0.1/32" ∨ text = "10.0.0.1" then some .device
  else if text = "10.0.0.0/8" then some .lan
  else none

def blocks : CidrText Block := ⟨Block.parse, Block.print, by rintro (_ | _) <;> rfl⟩

def anyRedirect : Urls := ⟨fun _ => .ok (), fun u => hasPrefix u "https://"⟩

def wikiRow (enabled : Bool) : ClientRow :=
  { clientID := "wiki", org := "acme", displayName := "Wiki", clientType := .publicClient,
    clientSecretHash := none, scopes := ["openid"], enabled := enabled, initiateLoginURI := none,
    logoURI := none, portalHidden := false, redirectURIs := ["https://wiki.example/cb"],
    updatedAt := 1 }

def wikiState (enabled : Bool) : State Block := { clients := ⟨[wikiRow enabled], by simp⟩ }

/-- The entry gives the application a logo and says nothing of `enabled`. -/
def wikiEntry : Client :=
  { clientID := "wiki", name := "Wiki", redirectURIs := ["https://wiki.example/cb"],
    scopes := ["openid"], logoURL := "https://wiki.example/logo.png" }

def wikiFile : File := { clients := [wikiEntry] }

def wikiAfter (enabled : Bool) : State Block :=
  { clients := ⟨[writeClient 2 wikiEntry (wikiRow enabled)], by simp⟩
    configVersion := 1
    events := [⟨"acme", .client, "wiki", .update⟩] }

theorem plan_faithful_wiki :
    PlanFaithful blocks "acme" wikiFile (buildPlan blocks (wikiState true) "acme" wikiFile false)
      (wikiState true) (wikiAfter true) := by
  have hv : validate anyRedirect wikiFile = .ok () := rfl
  have happly : apply blocks 2 "acme" wikiFile
      (buildPlan blocks (wikiState true) "acme" wikiFile false) (wikiState true) =
        .ok (wikiAfter true) := rfl
  refine (plan_faithful_iff hv happly).mpr ⟨fun c hc row hrow _ _ => ?_, ?_, ?_⟩
  · obtain rfl : c = wikiEntry := by simpa [wikiFile] using hc
    obtain rfl : wikiRow true = row := Option.some.inj hrow
    exact ⟨by simp [wikiEntry], by simp [wikiEntry], fun _ => rfl⟩
  · simp [wikiFile]
  · intro network row hrow
    cases hrow

/-- A disabled application comes back on because its logo changed; the plan names the logo
alone. -/
theorem disabled_client_returns :
    validate anyRedirect wikiFile = .ok () ∧
      buildPlan blocks (wikiState false) "acme" wikiFile false =
        [{ action := .update, kind := .client, name := "wiki", detail := "logo_url" }] ∧
      apply blocks 2 "acme" wikiFile (buildPlan blocks (wikiState false) "acme" wikiFile false)
        (wikiState false) = .ok (wikiAfter false) ∧
      ¬PlanFaithful blocks "acme" wikiFile
        (buildPlan blocks (wikiState false) "acme" wikiFile false) (wikiState false)
        (wikiAfter false) := by
  refine ⟨rfl, rfl, rfl, fun h => ?_⟩
  obtain ⟨row', hrow', henabled, -⟩ :=
    h.unset_fields wikiEntry (by simp [wikiFile]) (wikiRow false) rfl rfl
  obtain rfl : writeClient 2 wikiEntry (wikiRow false) = row' := Option.some.inj hrow'
  cases henabled rfl

end Signari.ConfigEffects
