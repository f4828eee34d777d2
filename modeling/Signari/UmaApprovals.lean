import Signari.UmaRefusals

/-!
# What the owner of a resource decides

A refused grant submits a request under its client, person and resource server. When an undecided
request of that asker exists already, the grant refers to it, whatever it is for. So the owner may
be shown one question, decide it, and leave a client that has asked another one where it was.
`asked_recorded_iff` says when that does not happen: every undecided request that a submission
finds is for the same permissions.

A request keeps what it was recorded for, since identifiers are given out once (`Filed`). And what
an approval grants stays granted until somebody takes it back, so that every decision on the
successor ticket comes out the same way (`Granted`).
-/
namespace Signari.UmaApprovals
open AuthzConditions AuthzModel SubjectFacts List
open UmaTables UmaHandlers UmaTraces UmaProvenance UmaRefusals StatementPrograms
open Prog

section

variable {D : Type} {E : Platform D} {c : Client} {form : GrantForm D}
  {expect : (o : Op D) → Res o → Prop}

/-- What the successor of a submitted request stands for. -/
def polled (c : Client) (t : TicketRow D) (party : RequestingParty) (id : ℕ) : TicketOrigin :=
  ⟨t.orgID, t.resourceServer, t.permissions, party.userID, c.clientID, some id⟩

/-- What stands behind an answer `request_submitted`. -/
structure Submitting (c : Client) (xs : Trace (Op D) Res) (next d : D) (t : TicketRow D)
    (party : RequestingParty) (zs : Trace (Op D) Res) (id : ℕ) : Prop where
  presents : Presents c t
  person : party.userID ≠ ""
  submits : Submits (submission c t party) zs id
  trace : ∃ ys settings, Adds [.identifying, .minting, .deciding] [⟨.redeem d, some (some t)⟩] ys ∧
    xs = ys ++ [⟨.loadSettings c.orgID, some settings⟩] ++ zs ++
      [⟨.mint (polled c t party id), some next⟩]

def SubmittedFor (c : Client) (xs : Trace (Op D) Res) (a : Answer D) : Prop :=
  ∀ next n desc, a = .uma (submitted next n desc) →
    ∃ d t party zs id, Submitting c xs next d t party zs id

theorem submittedFor_unsubmitted {xs : Trace (Op D) Res} {e : UmaError D} (he : Unsubmitted e) :
    SubmittedFor c xs (.uma e) := by
  rintro next n desc heq
  obtain rfl := Answer.uma.inj heq
  exact absurd rfl he

theorem submittedFor_unavailable {xs : Trace (Op D) Res} :
    SubmittedFor c xs (unavailable : Answer D) := fun _ _ _ h => nomatch h

theorem grant_submitted :
    Holds expect (Minting fun _ _ => True) (SubmittedFor c) [] (handleUMAGrant E c form) := by
  refine handleUMAGrant_holds (fun e he => submittedFor_unsubmitted he)
    (fun d _ => submittedFor_unavailable) (fun d e _ he => submittedFor_unsubmitted he) ?_
  intro d t _ _
  refine grantRedeemed_holds (fun _ _ _ _ => trivial) (fun ys e _ he => submittedFor_unsubmitted he)
    (fun ys _ => submittedFor_unavailable) ?_ ?_
  · intro ys party p scope hpresents hev
    refine refuseUMA_holds (fun _ => trivial) (fun _ _ _ _ => trivial)
      (fun _ zs _ => ⟨submittedFor_unavailable, fun e he => submittedFor_unsubmitted he⟩)
      (fun _ zs _ => submittedFor_unavailable)
      (fun _ settings _ => submittedFor_unsubmitted
        (by decide : "request_denied" ≠ "request_submitted")) ?_
    intro hparty settings zs id next desc _ hzs next' n' desc' heq
    have hticket := congrArg UmaError.ticket (Answer.uma.inj heq)
    obtain rfl : next = next' := Option.some.inj hticket
    exact ⟨d, t, party, zs, id, hpresents, hparty, hzs, ys, settings, hev.adds, rfl⟩
  · intro ys party _ _ _ _
    exact issueRPT_holds (fun _ _ => submittedFor_unavailable) fun _ _ _ _ _ _ _ h => nomatch h

variable {xs zs : Trace (Op D) Res} {next d : D} {t : TicketRow D} {party : RequestingParty}
  {id : ℕ}

theorem Submitting.redeemed (h : Submitting c xs next d t party zs id) :
    (⟨.redeem d, some (some t)⟩ : Entry D) ∈ xs := by
  obtain ⟨ys, settings, hadds, rfl⟩ := h.trace
  have hmem := hadds.subset (mem_singleton_self _)
  simp [hmem]

theorem Submitting.minted (h : Submitting c xs next d t party zs id) :
    (⟨.mint (polled c t party id), some next⟩ : Entry D) ∈ xs := by
  obtain ⟨ys, settings, -, rfl⟩ := h.trace
  simp

theorem Submitting.subset (h : Submitting c xs next d t party zs id) : zs ⊆ xs := by
  obtain ⟨ys, settings, -, rfl⟩ := h.trace
  exact fun x hx => by simp [hx]

theorem Submitting.looks (h : Submitting c xs next d t party zs id) {org cl person rs : String}
    {r : Option (Option PendingRow)} (hmem : (⟨.pendingFor org cl person rs, r⟩ : Entry D) ∈ xs) :
    r = some none ∨ ∃ row, r = some (some row) ∧ row.id = id := by
  obtain ⟨ys, settings, hadds, rfl⟩ := h.trace
  have hold : (⟨.pendingFor org cl person rs, r⟩ : Entry D) ∉ ys := fun hys =>
    nomatch mem_singleton.1 (hadds.mem hys (by simp [stage]))
  simp only [List.append_assoc, mem_append, mem_singleton] at hmem
  rcases hmem with hmem | hmem | hmem | hmem
  · exact absurd hmem hold
  · cases hmem
  · cases h.submits with
    | found row =>
      cases mem_singleton.1 hmem
      exact .inr ⟨row, rfl, rfl⟩
    | recorded id =>
      rcases mem_cons.1 hmem with hmem | hmem
      · cases hmem
        exact .inl rfl
      · cases mem_singleton.1 hmem
    | lost row =>
      simp only [mem_cons, not_mem_nil, or_false] at hmem
      rcases hmem with hmem | hmem | hmem
      · cases hmem
        exact .inl rfl
      · cases hmem
      · cases hmem
        exact .inr ⟨row, rfl, rfl⟩
  · cases hmem

theorem evaluate_permits {before : Trace (Op D) Res → Op D → Prop} {orgID subjectType subjectID :
    String} (l : List (Permission × String)) {xs : Trace (Op D) Res}
    (hbefore : ∀ ys org req, before ys (.decide org req))
    (hdecide : ∀ x ∈ l, ∀ r, expect (.decide orgID
      ⟨subjectType, subjectID, x.1.resourceType, x.1.resourceID, x.2⟩) r → r ≠ some false) :
    Holds expect before (fun _ r => r = none ∨ r = some none) xs
      (evaluate orgID subjectType subjectID l) := by
  induction l generalizing xs with
  | nil => exact .inr rfl
  | cons a rest ih =>
    obtain ⟨p, scope⟩ := a
    refine holds_call.2 ⟨hbefore _ _ _, fun r hr => ?_⟩
    rcases r with _ | _ | _
    · exact .inl rfl
    · exact absurd rfl (hdecide (p, scope) mem_cons_self _ hr)
    · exact ih fun x hx => hdecide x (mem_cons_of_mem _ hx)

/-- A ticket with a person, presented by the client it is bound to, when every decision on it is
permitted: there is a token, or something fails. -/
theorem grant_honoured {t : TicketRow D} {d : D} (who : String) (horg : t.orgID = c.orgID)
    (hbound : t.boundClient = c.clientID) (hparty : t.requestingParty ≠ "")
    (hredeem : ∀ r, expect (.redeem d) r → r = some (some t))
    (href : ∀ r, expect (.partyRef t.requestingParty) r → r = some (some who))
    (hdecide : ∀ x ∈ asks t.permissions, ∀ r, expect (.decide c.orgID
      ⟨"user", who, x.1.resourceType, x.1.resourceID, x.2⟩) r → r ≠ some false) :
    Holds expect (Minting fun _ _ => True)
      (fun _ a => a = unavailable ∨ ∃ rpt ttl, a = .granted rpt ttl t.requestingParty) []
      (handleUMAGrant E c { ticket := some d }) := by
  refine holds_call.2 ⟨fun _ _ => not_mem_nil, fun r hr => ?_⟩
  obtain rfl := hredeem r hr
  change Holds expect _ _ _ (grantRedeemed E c { ticket := some d } t)
  unfold grantRedeemed requestingParty
  rw [if_neg (not_not.2 horg), if_neg fun h => h.2 hbound]
  dsimp only
  rw [if_neg (by simp), if_pos hparty, if_neg (by simp)]
  refine holds_call.2 ⟨trivial, fun r hr => ?_⟩
  obtain rfl := href r hr
  change Holds expect _ _ _ (evaluate c.orgID _ _ _ >>= _)
  dsimp only
  rw [if_neg hparty]
  refine holds_bind.2 ((evaluate_permits _ (fun _ _ _ => trivial) hdecide).mono fun ys r hr => ?_)
  rcases hr with rfl | rfl
  · exact .inl rfl
  · exact issueRPT_holds (fun _ _ => .inl rfl) fun _ rpt _ _ => .inr ⟨rpt, _, rfl⟩

end

section

variable {D : Type} {s s' : Tables D}

theorem pendingFor_eq_some {org cl party rs : String} {row : PendingRow}
    (h : pendingFor s org cl party rs = some row) :
    row ∈ s.pending ∧ row.undecidedFor org cl party rs s.now.instant = true :=
  ⟨mem_of_find?_eq_some h, by simpa using find?_some h⟩

def Granted (keys : List RelationKey) (s : Tables D) : Prop :=
  ∀ key ∈ keys, ∃ r ∈ s.relations, r.toRelationKey = key ∧ r.expiresAt = none

def grantedKeys (p : PendingRow) (who relation : String) : List RelationKey :=
  p.permissions.map fun perm =>
    ⟨p.orgID, "user", who, relation, perm.resourceType, perm.resourceID⟩

/-- A row of a request, once the request with this identifier is decided. -/
def PendingRow.decide_ (p : PendingRow) (id : ℕ) (state : PendingState) (relation : String) :
    PendingRow :=
  if p.id = id ∧ p.state = .pending then { p with state := state, grantedRelation := relation }
  else p

theorem decidePendingRequest_eq {id : ℕ} {state : PendingState} {relation : String}
    (h : decidePendingRequest s id state relation = some s') :
    s' = { s with pending := s.pending.map fun p => PendingRow.decide_ p id state relation } := by
  unfold decidePendingRequest at h
  split at h
  · exact (Option.some.inj h).symm
  · cases h

theorem grantRelation_eq {key : RelationKey} (h : grantRelation s key = some s') :
    ∃ hkey : key.wellFormed = true, s' = { s with
      relations := (s.relations.filter fun r => decide (r.toRelationKey ≠ key)) ++
        [{ key with expiresAt := none, checked := hkey }] } := by
  unfold grantRelation at h
  split at h
  · rename_i hkey
    exact ⟨hkey, (Option.some.inj h).symm⟩
  · cases h

theorem grantRelation_granted {key : RelationKey} {keys : List RelationKey}
    (h : grantRelation s key = some s') (hs : Granted keys s) : Granted (key :: keys) s' := by
  obtain ⟨hkey, rfl⟩ := grantRelation_eq h
  intro k hk
  by_cases heq : k = key
  · exact ⟨_, mem_append_right _ (mem_singleton_self _), heq.symm, rfl⟩
  · obtain ⟨r, hr, rfl, hnone⟩ := hs k ((mem_cons.1 hk).resolve_left heq)
    refine ⟨r, mem_append_left _ (mem_filter.2 ⟨hr, ?_⟩), rfl, hnone⟩
    exact decide_eq_true heq

theorem Granted.mono {keys keys' : List RelationKey} (hs : Granted keys s) (h : keys' ⊆ keys) :
    Granted keys' s := fun key hkey => hs key (h hkey)

theorem grants_granted {keys : List RelationKey} {org who relation : String}
    (l : List Permission) (h : l.foldlM (fun s perm => grantRelation s
      ⟨org, "user", who, relation, perm.resourceType, perm.resourceID⟩) s = some s')
    (hs : Granted keys s) :
    s' = { s with relations := s'.relations } ∧
      Granted ((l.map fun perm => ⟨org, "user", who, relation, perm.resourceType,
        perm.resourceID⟩) ++ keys) s' := by
  induction l generalizing s keys with
  | nil =>
    cases h
    exact ⟨rfl, hs⟩
  | cons perm l ih =>
    rw [foldlM_cons] at h
    obtain ⟨t, hone, hrest⟩ := Option.bind_eq_some_iff.1 h
    have hgrant := grantRelation_granted hone hs
    obtain ⟨hkey, rfl⟩ := grantRelation_eq hone
    obtain ⟨hsame, hgranted⟩ := ih hrest hgrant
    refine ⟨hsame, hgranted.mono fun key hkey => ?_⟩
    rcases mem_cons.1 hkey with rfl | hkey
    · exact mem_append_right _ mem_cons_self
    rcases mem_append.1 hkey with hkey | hkey
    · exact mem_append_left _ hkey
    · exact mem_append_right _ (mem_cons_of_mem _ hkey)

theorem approveTransaction_eq {p : PendingRow} {who relation : String}
    (h : approveTransaction s p who relation = some s') : s' = { s with
        relations := s'.relations
        pending := s.pending.map fun q => PendingRow.decide_ q p.id .approved relation } ∧
      ∀ keys, Granted keys s → Granted (grantedKeys p who relation ++ keys) s' := by
  obtain ⟨t, hgrants, hdecide⟩ := Option.bind_eq_some_iff.1 h
  obtain rfl := decidePendingRequest_eq hdecide
  refine ⟨?_, fun keys hs => (grants_granted _ hgrants hs).2⟩
  have hnone : Granted [] s := fun _ h => absurd h not_mem_nil
  rw [(grants_granted _ hgrants hnone).1]

/-- What a statement that is none of the decisions leaves alone. -/
structure SameRequests (s s' : Tables D) : Prop where
  pending : s'.pending = s.pending
  lastRequest : s'.lastRequest = s.lastRequest
  relations : s'.relations = s.relations

theorem SameRequests.refl (s : Tables D) : SameRequests s s := ⟨rfl, rfl, rfl⟩

theorem mintSuccessorTicket_sameRequests {d : D} {o : TicketOrigin}
    (h : mintSuccessorTicket s d o = some s') : SameRequests s s' := by
  unfold mintSuccessorTicket at h
  split at h
  · cases h
    exact ⟨rfl, rfl, rfl⟩
  · cases h

/-- The statements that record or decide a request. -/
def records : Op D → Bool
  | .insertPending _ | .approve .. | .deny _ => true
  | _ => false

variable [DecidableEq D] {E : Platform D} {o : Op D} {r : Res o}

theorem exec_sameRequests (hexec : Exec E s o r s') (ho : records o = false) :
    SameRequests s s' := by
  cases o with
  | insertPending | approve | deny => cases ho
  | lookupClient | inspect | partyRef | loadSettings | pendingFor | pendingByID | loadModel =>
    rw [(Replies.reads hexec).1]
    exact .refl s
  | decide =>
    obtain ⟨b, -, hrep⟩ := hexec
    rw [hrep.reads.1]
    exact .refl s
  | timeNow =>
    rw [hexec.2]
    exact .refl s
  | newSID | activeKey | signJSON | csrfToken =>
    rw [show s' = s from hexec]
    exact .refl s
  | redeem | consume =>
    rcases Replies.cases hexec with ⟨-, rfl⟩ | ⟨-, rfl⟩ <;> exact ⟨rfl, rfl, rfl⟩
  | beginInteraction =>
    obtain ⟨d, -, hrep⟩ := hexec
    rcases hrep.cases with ⟨-, rfl⟩ | ⟨-, rfl⟩ <;> exact ⟨rfl, rfl, rfl⟩
  | createTicket | mint =>
    obtain ⟨d, -, ⟨-, rfl⟩ | ⟨x, heffect, -⟩⟩ := hexec
    · exact .refl _
    · obtain ⟨t, hmint, heq⟩ := Option.map_eq_some_iff.1 heffect
      cases heq
      exact mintSuccessorTicket_sameRequests hmint

theorem Granted.ran {keys : List RelationKey} (hs : Granted keys s) (hexec : Exec E s o r s') :
    Granted keys s' := by
  have hsame : s'.relations = s.relations → Granted keys s' := fun heq key hkey => by
    obtain ⟨r, hr, hrest⟩ := hs key hkey
    exact ⟨r, heq ▸ hr, hrest⟩
  cases o with
  | insertPending q =>
    rcases hexec with ⟨-, rfl⟩ | ⟨id, heffect, -⟩
    · exact hs
    · unfold insertPendingRequest at heffect
      split at heffect
      · cases heffect
      · cases heffect
        exact hsame rfl
  | approve p who relation =>
    rcases hexec with ⟨-, rfl⟩ | ⟨x, heffect, -⟩
    · exact hs
    · obtain ⟨t, happrove, heq⟩ := Option.map_eq_some_iff.1 heffect
      cases heq
      exact ((approveTransaction_eq happrove).2 keys hs).mono (subset_append_right _ _)
  | deny id =>
    rcases hexec with ⟨-, rfl⟩ | ⟨x, heffect, -⟩
    · exact hs
    · split at heffect
      · cases heffect
        exact hs
      · rename_i t hdeny
        cases heffect
        exact hsame (by rw [decidePendingRequest_eq hdeny])
  | _ => exact hsame (exec_sameRequests hexec rfl).relations

end

section

variable {D : Type} {E : Platform D} {s : Tables D}

theorem wellFormed_relation {key : RelationKey} (h : key.wellFormed = true) :
    key.relation ≠ "" := by
  rintro hnone
  unfold RelationKey.wellFormed at h
  rw [hnone, show plainName "" = false from rfl] at h
  simp at h

theorem meetRelations_mem {common : Option (List String)} {relations : List String}
    {relation : String} (h : relation ∈ meetRelations common relations) :
    relation ∈ relations ∧ ∀ l, common = some l → relation ∈ l := by
  cases common with
  | none => exact ⟨mem_dedup.1 h, fun _ hl => nomatch hl⟩
  | some l =>
    obtain ⟨hl, hmem⟩ := mem_filter.1 h
    refine ⟨contains_iff_mem.1 hmem, fun l' heq => ?_⟩
    cases heq
    exact hl

theorem foldlM_meet {model : Model} {relation : String} (l : List (Permission × String))
    {common : Option (List String)} {found : List String}
    (h : l.foldlM (fun common a => (model.relationsFor a.1.resourceType a.2).map fun relations =>
      some (meetRelations common relations)) common = some (some found))
    (hmem : relation ∈ found) : (∀ b, common = some b → relation ∈ b) ∧
      ∀ x ∈ l, ∃ relations, model.relationsFor x.1.resourceType x.2 = some relations ∧
        relation ∈ relations := by
  induction l generalizing common with
  | nil =>
    cases h
    refine ⟨fun b hb => ?_, fun x hx => absurd hx not_mem_nil⟩
    cases hb
    exact hmem
  | cons a l ih =>
    rw [foldlM_cons] at h
    obtain ⟨next, hone, hrest⟩ := Option.bind_eq_some_iff.1 h
    obtain ⟨relations, hfor, rfl⟩ := Option.map_eq_some_iff.1 hone
    obtain ⟨hnext, hall⟩ := ih hrest
    obtain ⟨hrelations, hcommon⟩ := meetRelations_mem (hnext _ rfl)
    refine ⟨hcommon, fun x hx => ?_⟩
    rcases mem_cons.1 hx with rfl | hx
    · exact ⟨relations, hfor, hrelations⟩
    · exact hall x hx

theorem candidateRelations_mem {model : Model} {permissions : List Permission} {relation : String}
    (h : relation ∈ candidateRelations model permissions) :
    ∀ x ∈ asks permissions, ∃ relations, model.relationsFor x.1.resourceType x.2 = some relations ∧
      relation ∈ relations := by
  unfold candidateRelations at h
  split at h
  · exact absurd h not_mem_nil
  · rename_i common hfold
    rw [mem_insertionSort] at h
    cases common with
    | none => exact absurd h not_mem_nil
    | some found => exact (foldlM_meet _ hfold h).2

theorem decideLocally_granted {model : Model} {org who relation : String} {relations : List String}
    {resourceType resourceID action : String} (hmodel : s.models org = some model)
    (hfor : model.relationsFor resourceType action = some relations)
    (hrelation : relation ∈ relations) (hcond : model.conditionFor resourceType action = none)
    (hgranted : ∃ r ∈ s.relations, r.toRelationKey =
      ⟨org, "user", who, relation, resourceType, resourceID⟩ ∧ r.expiresAt = none) :
    decideLocally E s org ⟨"user", who, resourceType, resourceID, action⟩ = true := by
  obtain ⟨r, hr, hkey, hexpiry⟩ := hgranted
  have hheld : ∀ groups, holdsAny s org "user" who relations resourceType resourceID groups ≠ "" := by
    intro groups
    have hgrants : r.grants org (("user", who) :: groups.map fun g => ("group", g)) relations
        resourceType resourceID s.now.instant = true := by
      obtain ⟨⟨org', type', id', relation', otype', oid'⟩, expiry, checked⟩ := r
      cases hkey
      cases hexpiry
      simp [RelationRow.grants, hrelation]
    unfold holdsAny
    cases hfind : s.relations.find? (fun r => r.grants org
        (("user", who) :: groups.map fun g => ("group", g)) relations resourceType resourceID
        s.now.instant) with
    | none => exact absurd hgrants (find?_eq_none.1 hfind r hr)
    | some found => exact wellFormed_relation found.checked
  unfold decideLocally
  simp only [hmodel, hfor, hcond, Option.all_none, Bool.and_true, decide_eq_true_eq]
  rw [if_neg fun h => hheld _ h.1]
  exact hheld _

end

section

variable {D : Type} {E : Platform D} {h : List (Ev D)} {s s' : Tables D} {e : Ev D}

/-- A request keeps the number and the question it was recorded with, and an asker has one that is
undecided. -/
structure Filed (h : List (Ev D)) (s : Tables D) : Prop where
  numbered : ∀ k r id, .ran k (.insertPending r) (some id) ∈ h → id ≤ s.lastRequest
  unique : ∀ k r j r' id, .ran k (.insertPending r) (some id) ∈ h →
    .ran j (.insertPending r') (some id) ∈ h → r = r'
  rows : ∀ p ∈ s.pending, ∃ k, .ran k (.insertPending p.toPendingRequest) (some p.id) ∈ h
  single : ∀ p ∈ s.pending, ∀ q ∈ s.pending, p.sameAsker q.toPendingRequest = true →
    q.state = .pending → p = q

theorem filed_untouched (hs : Untouched s) : Filed [] s := by
  refine ⟨?_, ?_, ?_, ?_⟩ <;> simp [hs.2.2]

theorem Filed.same (hfiled : Filed h s) (he : ∀ k r id, e ≠ .ran k (.insertPending r) (some id))
    (hlast : s'.lastRequest = s.lastRequest)
    (hrows : ∀ p ∈ s'.pending, ∃ q ∈ s.pending, p.toPendingRequest = q.toPendingRequest ∧
      p.id = q.id ∧ (p.state = .pending → p = q)) : Filed (h ++ [e]) s' := by
  have hold : ∀ {k r id}, (.ran k (.insertPending r) (some id) : Ev D) ∈ h ++ [e] →
      .ran k (.insertPending r) (some id) ∈ h := fun hmem =>
    mem_before hmem (Ne.symm (he _ _ _))
  refine ⟨fun k r id hmem => hlast ▸ hfiled.numbered k r id (hold hmem),
    fun k r j r' id hmem hmem' => hfiled.unique k r j r' id (hold hmem) (hold hmem'),
    fun p hp => ?_, fun p hp q hq hsame hstate => ?_⟩
  · obtain ⟨q, hq, hreq, hid, -⟩ := hrows p hp
    obtain ⟨k, hk⟩ := hfiled.rows q hq
    exact ⟨k, mem_append_left _ (hreq ▸ hid ▸ hk)⟩
  · obtain ⟨p', hp', -, -, hkeep⟩ := hrows p hp
    obtain ⟨q', hq', -, -, hkeep'⟩ := hrows q hq
    obtain rfl := hkeep' hstate
    have hpending : p.state = .pending := by
      unfold PendingRow.sameAsker at hsame
      exact (of_decide_eq_true hsame).1
    obtain rfl := hkeep hpending
    exact hfiled.single p hp' q hq' hsame hstate

theorem Filed.insert {k : ℕ} {q : PendingRequest} {id : ℕ} (hfiled : Filed h s)
    (hinsert : insertPendingRequest s q = some (id, s')) :
    Filed (h ++ [Event.ran k (Op.insertPending q) (some id)]) s' := by
  unfold insertPendingRequest at hinsert
  split at hinsert
  · cases hinsert
  rename_i hnobody
  cases hinsert
  have hnobody : ∀ p ∈ s.pending, ¬ p.sameAsker q = true := by simpa using hnobody
  have hcases : ∀ {j r i}, (.ran j (.insertPending r) (some i) : Ev D) ∈
      h ++ [Event.ran k (Op.insertPending q) (some (s.lastRequest + 1))] →
      .ran j (.insertPending r) (some i) ∈ h ∨ r = q ∧ i = s.lastRequest + 1 := by
    intro j r i hmem
    rcases mem_append.1 hmem with hmem | hmem
    · exact .inl hmem
    · cases mem_singleton.1 hmem
      exact .inr ⟨rfl, rfl⟩
  have hnew : ∀ {j r}, (.ran j (.insertPending r) (some (s.lastRequest + 1)) : Ev D) ∉ h :=
    fun hmem => absurd (hfiled.numbered _ _ _ hmem) (Nat.not_succ_le_self _)
  refine ⟨fun j r i hmem => ?_, fun j r j' r' i hmem hmem' => ?_, fun p hp => ?_,
    fun p hp p' hp' hsame hstate => ?_⟩
  · rcases hcases hmem with hmem | ⟨-, rfl⟩
    · exact Nat.le_succ_of_le (hfiled.numbered j r i hmem)
    · exact Nat.le_refl _
  · rcases hcases hmem with hold | ⟨hr, hi⟩ <;> rcases hcases hmem' with hold' | ⟨hr', hi'⟩
    · exact hfiled.unique j r j' r' i hold hold'
    · exact absurd (hi' ▸ hold) hnew
    · exact absurd (hi ▸ hold') hnew
    · exact hr.trans hr'.symm
  · rcases mem_append.1 hp with hp | hp
    · obtain ⟨j, hj⟩ := hfiled.rows p hp
      exact ⟨j, mem_append_left _ hj⟩
    · obtain rfl := mem_singleton.1 hp
      exact ⟨k, mem_append_right _ (mem_singleton_self _)⟩
  · rcases mem_append.1 hp with hp | hp <;> rcases mem_append.1 hp' with hp' | hp'
    · exact hfiled.single p hp p' hp' hsame hstate
    · obtain rfl := mem_singleton.1 hp'
      exact absurd hsame (hnobody p hp)
    · obtain rfl := mem_singleton.1 hp
      refine absurd ?_ (hnobody p' hp')
      simp only [PendingRow.sameAsker, decide_eq_true_eq] at hsame ⊢
      exact ⟨hstate, hsame.2.1.symm, hsame.2.2.1.symm, hsame.2.2.2.1.symm, hsame.2.2.2.2.symm⟩
    · rw [mem_singleton.1 hp, mem_singleton.1 hp']

theorem Filed.decided {id : ℕ} (state : PendingState) {relation : String} (hfiled : Filed h s)
    (he : ∀ k r id, e ≠ .ran k (.insertPending r) (some id)) (hstate : state ≠ .pending)
    (hpending : s'.pending = s.pending.map fun p => PendingRow.decide_ p id state relation)
    (hlast : s'.lastRequest = s.lastRequest) : Filed (h ++ [e]) s' := by
  refine hfiled.same he hlast fun p hp => ?_
  rw [hpending] at hp
  obtain ⟨q, hq, rfl⟩ := mem_map.1 hp
  refine ⟨q, hq, ?_⟩
  unfold PendingRow.decide_
  split
  · exact ⟨rfl, rfl, fun h => absurd h hstate⟩
  · exact ⟨rfl, rfl, fun _ => rfl⟩

variable [DecidableEq D]

theorem Filed.ran {k : ℕ} {o : Op D} {r : Res o} (hfiled : Filed h s) (hexec : Exec E s o r s') :
    Filed (h ++ [Event.ran k o r]) s' := by
  have hkeep : (∀ q, o ≠ .insertPending q) → SameRequests s s' →
      Filed (h ++ [Event.ran k o r]) s' := fun ho hsame =>
    hfiled.same (by rintro _ q _ ⟨⟩; exact ho q rfl) hsame.lastRequest
      fun p hp => ⟨p, hsame.pending ▸ hp, rfl, rfl, fun _ => rfl⟩
  cases o with
  | insertPending q =>
    rcases hexec with ⟨rfl, rfl⟩ | ⟨id, heffect, rfl⟩
    · exact hfiled.same (fun _ _ _ h => nomatch h) rfl fun p hp => ⟨p, hp, rfl, rfl, fun _ => rfl⟩
    · exact hfiled.insert heffect
  | approve p who relation =>
    rcases hexec with ⟨-, rfl⟩ | ⟨x, heffect, -⟩
    · exact hkeep (fun _ h => nomatch h) (.refl _)
    · obtain ⟨t, happrove, heq⟩ := Option.map_eq_some_iff.1 heffect
      cases heq
      have hsame := (approveTransaction_eq happrove).1
      exact hfiled.decided .approved (fun _ _ _ h => nomatch h) (fun h => nomatch h)
        (by rw [hsame]) (by rw [hsame])
  | deny id =>
    rcases hexec with ⟨-, rfl⟩ | ⟨x, heffect, -⟩
    · exact hkeep (fun _ h => nomatch h) (.refl _)
    · split at heffect
      · cases heffect
        exact hkeep (fun _ h => nomatch h) (.refl _)
      · rename_i t hdeny
        cases heffect
        obtain rfl := decidePendingRequest_eq hdeny
        exact hfiled.decided .denied (fun _ _ _ h => nomatch h) (fun h => nomatch h) rfl rfl
  | _ => exact hkeep (fun _ h => nomatch h) (exec_sameRequests hexec rfl)

theorem run_filed {es : List (Ev D)} {w : World D} (hs : Untouched s) (hrun : UmaRun E s es w) :
    Filed es w.state := by
  have hquiet : ∀ {h : List (Ev D)} {t : Tables D} {e : Ev D}, Filed h t →
      (∀ k r id, e ≠ .ran k (.insertPending r) (some id)) → Filed (h ++ [e]) t :=
    fun hfiled he => hfiled.same he rfl fun p hp => ⟨p, hp, rfl, rfl, fun _ => rfl⟩
  refine Run.tables hrun (filed_untouched hs) (fun hfiled => hquiet hfiled fun _ _ _ h => nomatch h)
    (fun hfiled _ hexec => hfiled.ran hexec) (fun hfiled => hquiet hfiled fun _ _ _ h => nomatch h)
    ?_
  rintro h t t' e hfiled ⟨hallowed, rfl⟩
  refine hfiled.same (fun _ _ _ h => nomatch h) ?_ fun p hp => ⟨p, ?_, rfl, rfl, fun _ => rfl⟩
  · cases e <;> rfl
  · cases e with
    | deleted tickets interactions pending => exact hallowed.2.2.subset hp
    | _ => exact hp

end

section

variable {D : Type} [DecidableEq D] (E : Platform D) (s : Tables D) (es : List (Ev D))

/-- A client has presented a ticket and was answered `request_submitted`, with a successor that
refers to this request. -/
structure Asked (k : ℕ) (c : Client) (t : TicketRow D) (next : D) (q : ℕ) : Prop where
  began : ∃ form, .began k (.grant c form) ∈ es
  redeemed : ∃ d, .ran k (.redeem d) (some (some t)) ∈ es
  minted : ∃ o, .ran k (.mint o) (some next) ∈ es ∧ o.pendingRequest = some q
  answered : ∃ n desc, .answered k (.uma (submitted next n desc)) ∈ es

/-- The request records what the ticket is for. -/
def RecordsAsked : Prop := ∀ k c t next q, Asked es k c t next q →
  ∀ hs ts u, es = hs ++ ts → UmaRun E s hs u →
    ∀ p ∈ u.state.pending, p.id = q → p.permissions = t.permissions

def During (i : ℕ) (u : World D) : Prop :=
  ∃ hs o x ts v, es = hs ++ .ran i o x :: ts ∧ UmaRun E s hs u ∧
    Step (handle E) (Exec E) Changes u (.ran i o x) v

/-- Nothing but the decision of the owner bears on a later presentation: what is granted is not
taken back, the model that the approval has read is still the model and has no condition on what
is asked, the person is known under the same name, and there is no policy service of the
operator. -/
structure Unopposed (j : ℕ) (p : PendingRow) (who relation : String) (post : List (Ev D)) (i : ℕ)
    (orgID person : String) : Prop where
  kept : ∀ rows, .env (.relations rows) ∈ post → ∀ key ∈ grantedKeys p who relation,
    ∃ r ∈ rows, r.toRelationKey = key ∧ r.expiresAt = none
  model : ∀ m, .ran j (.loadModel p.orgID) (some (some m)) ∈ es →
    (∀ x ∈ asks p.permissions, m.conditionFor x.1.resourceType x.2 = none) ∧
      ∀ u, During E s es i u → u.state.models orgID = some m
  person : ∀ u, During E s es i u → requestingPartyRef u.state person = some who
  provider : ∀ u, During E s es i u → u.state.provider orgID = false

/-- After an approval the same client presents the successor ticket, and is granted a token for
the person on it. -/
def ApprovalHonoured : Prop := ∀ k c t next q, Asked es k c t next q →
  ∀ j requestID p who relation pre post,
    es = pre ++ .ran j (.approve p who relation) (some ()) :: post →
    .began j (.approve requestID relation) ∈ es → p.id = q →
  ∀ i c' t' a, .began i (.grant c' { ticket := some next }) ∈ post →
    c'.clientID = c.clientID → c'.orgID = c.orgID →
    .ran i (.redeem next) (some (some t')) ∈ es →
    Unopposed E s es j p who relation post i c.orgID t'.requestingParty →
    .ran i (.partyRef t'.requestingParty) none ∉ es →
    .answered i a ∈ es → a ≠ unavailable →
    ∃ rpt ttl, a = .granted rpt ttl t'.requestingParty

/-- Every undecided request that a submission finds is for what its ticket is for. -/
def AskedAlone : Prop := ∀ k c t next q, Asked es k c t next q →
  ∀ hs ts org cl party rs x u v, es = hs ++ .ran k (.pendingFor org cl party rs) x :: ts →
    UmaRun E s hs u → Step (handle E) (Exec E) Changes u (.ran k (.pendingFor org cl party rs) x) v →
    ∀ p ∈ u.state.pending, p.undecidedFor org cl party rs u.state.now.instant = true →
      p.permissions = t.permissions

variable {E s es} {w : World D} {k : ℕ} {c : Client} {t : TicketRow D} {next : D} {q : ℕ}

theorem mint_unique (hs : Untouched s) (hrun : UmaRun E s es w) {j : ℕ} {o o' : TicketOrigin}
    {d : D} (hmint : .ran k (.mint o) (some d) ∈ es) (hmint' : .ran j (.mint o') (some d) ∈ es) :
    o = o' := by
  have hnever : ∀ {hs' : List (Ev D)} {ts i o₁ l o₂}, es = hs' ++ Event.ran i (Op.mint o₁) (some d) :: ts →
      .ran l (.mint o₂) (some d) ∉ hs' := by
    rintro hs' ts i o₁ l o₂ rfl hmem
    obtain ⟨a, b, hpre, hstep, -⟩ := hrun.split
    cases hstep with
    | ran _ hexec =>
      obtain ⟨d', hfresh, ⟨hnone, -⟩ | ⟨x, heffect, hx⟩⟩ := hexec
      · cases hnone
      · obtain ⟨u, -, heq⟩ := Option.map_eq_some_iff.1 heffect
        cases hx
        cases heq
        exact hfresh ((run_tracked hs hpre).2.minted l o₂ d hmem)
  obtain ⟨xs, ys, hes⟩ := append_of_mem hmint
  rw [hes] at hmint'
  rcases mem_append.1 hmint' with hmem | hmem
  · exact absurd hmem (hnever hes)
  · rcases mem_cons.1 hmem with heq | hmem
    · cases heq
      rfl
    · obtain ⟨ys, zs, rfl⟩ := append_of_mem hmem
      rw [← cons_append, ← List.append_assoc] at hes
      exact absurd (mem_append_right _ mem_cons_self) (hnever hes)

theorem Asked.submitting (hs : Untouched s) (hrun : UmaRun E s es w)
    (hasked : Asked es k c t next q) : ∃ d party zs, Submitting c (own k es) next d t party zs q ∧
      ∀ j o, .ran j (.mint o) (some next) ∈ es → o = polled c t party q := by
  obtain ⟨⟨form, hbegan⟩, ⟨d, hredeem⟩, ⟨o, hmint, hpending⟩, n, desc, hanswered⟩ := hasked
  obtain ⟨call, hcall, hreach⟩ := Run.answered hrun hanswered
  obtain rfl := (Run.booked hrun).once k _ _ hbegan hcall
  have hholds : Holds (fun _ _ => True) (Minting fun _ _ => True) (SubmittedFor c) (own k es)
      (.ret (.uma (submitted next n desc))) :=
    grant_submitted.reaches hreach fun _ _ => trivial
  obtain ⟨d', t', party, zs, id, hsub⟩ := hholds next n desc rfl
  have hsame := (run_tracked hs hrun).2.single k _ _ _ _ hredeem (mem_own.1 hsub.redeemed)
  cases hsame
  have honly : ∀ j o, .ran j (.mint o) (some next) ∈ es → o = polled c t party id := fun j o hj =>
    mint_unique hs hrun hj (mem_own.1 hsub.minted)
  rw [honly k o hmint] at hpending
  obtain rfl : id = q := Option.some.inj hpending
  exact ⟨d, party, zs, hsub, honly⟩

/-- The request that a submission refers to was recorded in its organisation, and for its
permissions when it asks alone. -/
theorem Asked.recorded (hs : Untouched s) (hrun : UmaRun E s es w)
    (hasked : Asked es k c t next q) : ∃ i r, .ran i (.insertPending r) (some q) ∈ es ∧
      r.orgID = c.orgID ∧ (AskedAlone E s es → r.permissions = t.permissions) := by
  obtain ⟨d, party, zs, hsub, -⟩ := hasked.submitting hs hrun
  have hfound : ∀ {org cl person rs : String} {row : PendingRow}, row.id = q → org = c.orgID →
      (⟨.pendingFor org cl person rs, some (some row)⟩ : Entry D) ∈ zs →
      ∃ i r, .ran i (.insertPending r) (some q) ∈ es ∧ r.orgID = c.orgID ∧
        (AskedAlone E s es → r.permissions = t.permissions) := by
    rintro org cl person rs row rfl rfl hmem
    obtain ⟨hs', ts, a, b, hes, hpre, hstep, hexec⟩ :=
      Run.executed hrun (mem_own.1 (hsub.subset hmem))
    have hrow : pendingFor a.state c.orgID cl person rs = some row := by
      rcases (Replies.reads hexec).2 with hnone | hsome
      · cases hnone
      · exact (Option.some.inj hsome).symm
    obtain ⟨hmem, hundecided⟩ := pendingFor_eq_some hrow
    obtain ⟨i, hi⟩ := (run_filed hs hpre).rows row hmem
    refine ⟨i, row.toPendingRequest, hes ▸ mem_append_left _ hi, ?_, fun halone => ?_⟩
    · unfold PendingRow.undecidedFor at hundecided
      exact (of_decide_eq_true hundecided).1
    · exact halone k c t next row.id hasked hs' ts _ _ _ _ _ a b hes hpre hstep row hmem hundecided
  cases hsub.submits with
  | found row => exact hfound rfl rfl (mem_singleton_self _)
  | recorded id =>
    exact ⟨k, submission c t party, mem_own.1 (hsub.subset (mem_cons_of_mem _
      (mem_singleton_self _))), rfl, fun _ => rfl⟩
  | lost row =>
    exact hfound rfl rfl (mem_cons_of_mem _ (mem_cons_of_mem _ (mem_singleton_self _)))

theorem Asked.row (hs : Untouched s) (hrun : UmaRun E s es w) (hasked : Asked es k c t next q)
    {hs' ts : List (Ev D)} {u : World D} (hes : es = hs' ++ ts) (hpre : UmaRun E s hs' u)
    {p : PendingRow} (hp : p ∈ u.state.pending) (hid : p.id = q) :
    p.orgID = c.orgID ∧ (AskedAlone E s es → p.permissions = t.permissions) := by
  obtain ⟨i, r, hrecorded, horg, hperm⟩ := hasked.recorded hs hrun
  obtain ⟨j, hj⟩ := (run_filed hs hpre).rows p hp
  obtain rfl := (run_filed hs hrun).unique j _ i r q (hes ▸ mem_append_left _ (hid ▸ hj)) hrecorded
  exact ⟨horg, hperm⟩

theorem recordsAsked_iff (hs : Untouched s) (hrun : UmaRun E s es w) :
    RecordsAsked E s es ↔ AskedAlone E s es := by
  constructor
  · intro hrecords k c t next q hasked hs' ts org cl party rs x u v hes hpre hstep p hp hundecided
    obtain ⟨d, person, zs, hsub, -⟩ := hasked.submitting hs hrun
    have hmem : (⟨.pendingFor org cl party rs, x⟩ : Entry D) ∈ own k es :=
      mem_own.2 (hes ▸ mem_append_right _ mem_cons_self)
    have hx : x = none ∨ x = some (pendingFor u.state org cl party rs) := by
      cases hstep with
      | ran _ hexec => exact (Replies.reads hexec).2
    rcases hsub.looks hmem with rfl | ⟨row, rfl, hid⟩
    · rcases hx with hx | hx
      · cases hx
      · exact absurd hundecided (find?_eq_none.1 (Option.some.inj hx).symm p hp)
    · rcases hx with hx | hx
      · cases hx
      · obtain ⟨hrow, hundecided'⟩ := pendingFor_eq_some (Option.some.inj hx).symm
        refine hrecords k c t next q hasked hs' _ u hes hpre p hp (Eq.trans ?_ hid)
        unfold PendingRow.undecidedFor at hundecided hundecided'
        obtain ⟨horg, hcl, hparty, hrs, hstate, -⟩ := of_decide_eq_true hundecided
        obtain ⟨horg', hcl', hparty', hrs', hstate', -⟩ := of_decide_eq_true hundecided'
        refine congrArg PendingRow.id ((run_filed hs hpre).single p hp row hrow ?_ hstate')
        unfold PendingRow.sameAsker
        exact decide_eq_true ⟨hstate, horg.trans horg'.symm, hcl.trans hcl'.symm,
          hparty.trans hparty'.symm, hrs.trans hrs'.symm⟩
  · intro halone k c t next q hasked hs' ts u hes hpre p hp hid
    exact (hasked.row hs hrun hes hpre hp hid).2 halone

theorem approval_source (hrun : UmaRun E s es w) {j : ℕ} {requestID : Option ℕ} {p : PendingRow}
    {who relation relation' : String} (hcall : .began j (.approve requestID relation') ∈ es)
    (happrove : .ran j (.approve p who relation) (some ()) ∈ es) :
    (∃ hs ts u, es = hs ++ ts ∧ UmaRun E s hs u ∧ p ∈ u.state.pending) ∧
      ∃ m, .ran j (.loadModel p.orgID) (some (some m)) ∈ es ∧
        relation ∈ candidateRelations m p.permissions := by
  obtain ⟨hs', rest, hsub, call, hbegan, hreach⟩ := Run.stated hrun happrove
  obtain rfl := (Run.booked hrun).once j _ _ hcall (hsub hbegan)
  have hholds : Holds (fun _ _ => True) Approving (fun _ a => NoToken a) (own j hs')
      (.stmt (.approve p who relation) rest) := umaApprove_holds.reaches hreach fun _ _ => trivial
  obtain ⟨id, email, m, hread, -, hmodel, hrelation, -⟩ := hholds.1
  refine ⟨?_, m, hsub (mem_own.1 hmodel), hrelation⟩
  obtain ⟨xs, ys, a, b, hes, hpre, -, hexec⟩ := Run.executed hrun (hsub (mem_own.1 hread))
  refine ⟨xs, _, a, hes, hpre, ?_⟩
  rcases (Replies.reads hexec).2 with hnone | hsome
  · cases hnone
  · obtain ⟨row, hfind, heq⟩ := Option.map_eq_some_iff.1 (Option.some.inj hsome).symm
    cases heq
    exact mem_of_find?_eq_some hfind

theorem approval_stands {pre mid : List (Ev D)} {j : ℕ} {p : PendingRow} {who relation : String}
    {u : World D} (hrun : UmaRun E s (pre ++ Event.ran j (Op.approve p who relation) (some ()) :: mid) u)
    (hkept : ∀ rows, .env (.relations rows) ∈ mid → ∀ key ∈ grantedKeys p who relation,
      ∃ r ∈ rows, r.toRelationKey = key ∧ r.expiresAt = none) :
    Granted (grantedKeys p who relation) u.state := by
  obtain ⟨a, b, -, hstep, hmore⟩ := hrun.split
  have hgranted : Granted (grantedKeys p who relation) b.state := by
    cases hstep with
    | ran _ hexec =>
      obtain ⟨hnone, -⟩ | ⟨x, heffect, -⟩ := hexec
      · cases hnone
      · obtain ⟨v, happrove, heq⟩ := Option.map_eq_some_iff.1 heffect
        cases heq
        have hstart : Granted [] a.state := fun _ h => absurd h not_mem_nil
        exact ((approveTransaction_eq happrove).2 [] hstart).mono (subset_append_left _ _)
  clear hrun hstep
  have hstands : (∀ rows, .env (.relations rows) ∈ mid → ∀ key ∈ grantedKeys p who relation,
      ∃ r ∈ rows, r.toRelationKey = key ∧ r.expiresAt = none) →
      Granted (grantedKeys p who relation) u.state := by
    refine hmore.invariant (I := fun xs q => (∀ rows, .env (.relations rows) ∈ xs →
      ∀ key ∈ grantedKeys p who relation, ∃ r ∈ rows, r.toRelationKey = key ∧ r.expiresAt = none) →
      Granted (grantedKeys p who relation) q.state) (fun _ => hgranted) ?_
    intro xs q q' e ih hstep hkept
    have hq := ih fun rows hmem => hkept rows (mem_append_left _ hmem)
    cases hstep with
    | began | answered => exact hq
    | ran _ hexec => exact hq.ran hexec
    | env hchange =>
      rename_i e _
      obtain ⟨-, hq'⟩ := hchange
      subst hq'
      cases e with
      | relations rows =>
        exact fun key hkey => hkept rows (by simp) key hkey
      | _ => exact hq
  exact hstands hkept

theorem approvalHonoured_of_alone (hs : Untouched s) (hrun : UmaRun E s es w)
    (halone : AskedAlone E s es) : ApprovalHonoured E s es := by
  intro k c t next q hasked j requestID p who relation pre post hes hcall hid i c' t' a hbegan
    hclient horg hredeem hopen hlost hanswered ha
  obtain ⟨d, party, zs, hsub, honly⟩ := hasked.submitting hs hrun
  have hchain := (run_tracked hs hrun).2
  have horigin : t'.toTicketOrigin = polled c t party q :=
    hchain.redeemed i next t' hredeem k _ (mem_own.1 hsub.minted)
  have happrove : .ran j (.approve p who relation) (some ()) ∈ es :=
    hes ▸ mem_append_right _ mem_cons_self
  obtain ⟨⟨hs', ts, u, hpre, hrun', hp⟩, m, hmodel, hrelation⟩ :=
    approval_source hrun hcall happrove
  obtain ⟨hporg, hperm⟩ := hasked.row hs hrun hpre hrun' hp hid
  have hpermissions : t'.permissions = p.permissions :=
    (congrArg TicketOrigin.permissions horigin).trans (hperm halone).symm
  have hin : ∀ {o x}, .ran i o x ∈ es → ∃ u v, During E s es i u ∧
      Granted (grantedKeys p who relation) u.state ∧ Exec E u.state o x v := by
    intro o x hmem
    obtain ⟨xs, ys, a, b, hsplit, hreach, hstep, hexec⟩ := Run.executed hrun hmem
    refine ⟨a, b.state, ⟨xs, o, x, ys, b, hsplit, hreach, hstep⟩, ?_, hexec⟩
    rw [append_cons] at hes
    obtain ⟨mid, rfl, hmid⟩ := Run.later (hes ▸ hrun) hbegan (hes.symm.trans hsplit)
    rw [← append_cons] at hreach
    exact approval_stands hreach fun rows hrows => hopen.kept rows (hmid hrows)
  obtain ⟨call, hcall', hreach⟩ := Run.answered hrun hanswered
  have hbegan' : .began i (.grant c' { ticket := some next }) ∈ es :=
    hes ▸ mem_append_right _ (mem_cons_of_mem _ hbegan)
  obtain rfl := (Run.booked hrun).once i _ _ hbegan' hcall'
  have hholds : Holds (fun o x => (⟨o, x⟩ : Entry D) ∈ own i es) (Minting fun _ _ => True)
      (fun _ a => a = unavailable ∨ ∃ rpt ttl, a = .granted rpt ttl t'.requestingParty) (own i es)
      (.ret a) := by
    refine (grant_honoured who ?_ ?_ ?_ ?_ ?_ ?_).reaches hreach fun x hx => hx
    · rw [horg, horigin]
      exact hsub.presents.1
    · rw [hclient, horigin]
      rfl
    · rw [horigin]
      exact hsub.person
    · intro x hx
      have hsame := hchain.single i _ _ _ _ (mem_own.1 hx) hredeem
      cases hsame
      rfl
    · intro x hx
      obtain ⟨u, v, hu, -, hexec⟩ := hin (mem_own.1 hx)
      rcases (Replies.reads hexec).2 with rfl | rfl
      · exact absurd (mem_own.1 hx) hlost
      · rw [hopen.person u hu]
    · rintro x hx r hr rfl
      obtain ⟨u, v, hu, hgranted, b, hdecides, hrep⟩ := hin (mem_own.1 hr)
      obtain rfl : b = false := by
        rcases hrep.reads.2 with hnone | hsome
        · cases hnone
        · exact (Option.some.inj hsome).symm
      rw [hpermissions] at hx
      obtain ⟨relations, hfor, hmem⟩ := candidateRelations_mem hrelation x hx
      obtain ⟨hcond, hstill⟩ := hopen.model m hmodel
      have hkey : (⟨p.orgID, "user", who, relation, x.1.resourceType, x.1.resourceID⟩ :
          RelationKey) ∈ grantedKeys p who relation := by
        obtain ⟨perm, hperm, hscope⟩ := mem_flatMap.1 hx
        obtain ⟨scope, -, rfl⟩ := mem_map.1 hscope
        exact mem_map.2 ⟨perm, hperm, rfl⟩
      have hgrant := hgranted _ hkey
      rw [hporg, ← horg] at hgrant
      have hpermit := decideLocally_granted (E := E) (horg ▸ hstill u hu) hfor hmem (hcond x hx)
        hgrant
      rcases hdecides with hlocal | ⟨-, hprovider, -⟩
      · exact Bool.false_ne_true (hlocal.trans hpermit)
      · rw [horg, hopen.provider u hu] at hprovider
        cases hprovider
  exact hholds.resolve_left ha

/-- What the owner decides is what was asked, and it is honoured, exactly when every undecided
request that a submission finds is for the permissions of its ticket. -/
theorem asked_recorded_iff (hs : Untouched s) (hrun : UmaRun E s es w) :
    RecordsAsked E s es ∧ ApprovalHonoured E s es ↔ AskedAlone E s es :=
  ⟨fun h => (recordsAsked_iff hs hrun).1 h.1, fun halone =>
    ⟨(recordsAsked_iff hs hrun).2 halone, approvalHonoured_of_alone hs hrun halone⟩⟩

end

def readElsewhere : Permission := ⟨"document", "8", ["read"]⟩

def askElsewhere : PermissionRequest := ⟨.ok "storage", true, .decoded [readElsewhere]⟩

def elsewhereTicket : TicketRow ℕ :=
  { firstTicket with permissions := [readElsewhere], ticketHash := 3 }

def elsewhereTicketed : Tables ℕ :=
  { guardedSubmitted with
    tickets := guardedSubmitted.tickets ++ [elsewhereTicket], drawn := [3, 2, 1] }

def askingElsewhere : Trace (Op ℕ) Res :=
  [⟨.lookupClient "storage", some (some storage)⟩,
    ⟨.createTicket "acme" "storage" [readElsewhere], some 3⟩]

theorem elsewhere_asked : Plays (Exec vouching) guardedSubmitted
    (handle vouching (.permission askElsewhere)) askingElsewhere elsewhereTicketed (.created 3) := by
  have hlookup : Exec vouching guardedSubmitted (.lookupClient "storage") (some (some storage))
      guardedSubmitted :=
    .inr ⟨some storage, congrArg (fun x => some (x, guardedSubmitted)) (by decide), rfl⟩
  have hcreate : Exec vouching guardedSubmitted
      (.createTicket "acme" "storage" [readElsewhere]) (some 3) elsewhereTicketed :=
    ⟨3, by decide, .inr ⟨3, rfl, rfl⟩⟩
  exact .stmt hlookup (.stmt hcreate .ret)

def pushesElsewhere : GrantForm ℕ :=
  { ticket := some 3, claimToken := "a.b", claimTokenFormat := claimTokenFormatIDToken }

def elsewhereSpent : Tables ℕ :=
  { elsewhereTicketed with
    tickets := guardedSubmitted.tickets ++ [{ elsewhereTicket with redeemed := true }] }

def pollsElsewhere : TicketOrigin :=
  ⟨"acme", "storage", [readElsewhere], "alice", "gallery", some 1⟩

def elsewhereSubmitted : Tables ℕ :=
  { elsewhereSpent with
    drawn := [4, 3, 2, 1]
    tickets := elsewhereSpent.tickets ++ [{ pollsElsewhere with
      ticketHash := 4, expiresAt := ticketLifetime, identityHasAClient := by decide }] }

def pushingElsewhere : Trace (Op ℕ) Res :=
  [⟨.redeem 3, some (some elsewhereTicket)⟩, ⟨.timeNow, (0 : ℤ)⟩,
    ⟨.partyRef "alice", some (some "alice@example.org")⟩,
    ⟨.decide "acme" ⟨"user", "alice@example.org", "document", "8", "read"⟩, some false⟩,
    ⟨.loadSettings "acme", some ⟨true, 5⟩⟩,
    ⟨.pendingFor "acme" "gallery" "alice" "storage", some (some (aliceRow 1 .pending))⟩,
    ⟨.mint pollsElsewhere, some 4⟩]

def askedElsewhere : String := "a resource owner has been asked to decide whether the " ++
  "requesting party may read document:8"

theorem elsewhere_submitted : Plays (Exec vouching) elsewhereTicketed
    (handle vouching (.grant gallery pushesElsewhere)) pushingElsewhere elsewhereSubmitted
    (.uma (submitted 4 5 askedElsewhere)) := by
  have hredeem : Exec vouching elsewhereTicketed (.redeem 3) (some (some elsewhereTicket))
      elsewhereSpent := .inr ⟨some elsewhereTicket, rfl, rfl⟩
  have hclock : Exec vouching elsewhereSpent .timeNow (0 : ℤ) elsewhereSpent := ⟨rfl, rfl⟩
  have href : Exec vouching elsewhereSpent (.partyRef "alice") (some (some "alice@example.org"))
      elsewhereSpent :=
    .inr ⟨_, congrArg (fun x => some (x, elsewhereSpent)) (by decide), rfl⟩
  have hdecide : Exec vouching elsewhereSpent
      (.decide "acme" ⟨"user", "alice@example.org", "document", "8", "read"⟩) (some false)
      elsewhereSpent := ⟨false, .inl (by decide), .inr ⟨false, rfl, rfl⟩⟩
  have hload : Exec vouching elsewhereSpent (.loadSettings "acme") (some ⟨true, 5⟩)
      elsewhereSpent := .inr ⟨_, rfl, rfl⟩
  have hlook : Exec vouching elsewhereSpent (.pendingFor "acme" "gallery" "alice" "storage")
      (some (some (aliceRow 1 .pending))) elsewhereSpent :=
    .inr ⟨_, congrArg (fun x => some (x, elsewhereSpent)) (by decide), rfl⟩
  have hmint : Exec vouching elsewhereSpent (.mint pollsElsewhere) (some 4) elsewhereSubmitted :=
    ⟨4, by decide, .inr ⟨4, rfl, rfl⟩⟩
  exact .stmt hredeem (.stmt hclock (.stmt href (.stmt hdecide (.stmt hload (.stmt hlook
    (.stmt hmint .ret))))))

def elsewhereRun : List (Ev ℕ) :=
  alone 0 (Call.permission askTicket) asking (Answer.created 1) ++
    alone 1 (Call.grant gallery galleryPushes) pushing (Answer.uma (submitted 2 5 askedOwner)) ++
    alone 2 (Call.permission askElsewhere) askingElsewhere (Answer.created 3) ++
    alone 3 (Call.grant gallery pushesElsewhere) pushingElsewhere
      (Answer.uma (submitted 4 5 askedElsewhere))

theorem elsewhere_run :
    ∃ w, UmaRun vouching guarded elsewhereRun w ∧ w.state = elsewhereSubmitted := by
  have hstart : UmaRun vouching guarded [] (Pool.start guarded) := .nil
  obtain ⟨_, hrun⟩ := Plays.serve hstart guarded_asked
  obtain ⟨_, hrun⟩ := Plays.serve hrun guarded_submitted
  obtain ⟨_, hrun⟩ := Plays.serve hrun elsewhere_asked
  obtain ⟨_, hrun⟩ := Plays.serve hrun elsewhere_submitted
  exact ⟨_, hrun, rfl⟩

theorem elsewhere_referred : Asked elsewhereRun 3 gallery elsewhereTicket 4 1 where
  began := ⟨pushesElsewhere, mem_of_getElem? (show elsewhereRun[18]? = some _ from rfl)⟩
  redeemed := ⟨3, mem_of_getElem? (show elsewhereRun[19]? = some _ from rfl)⟩
  minted := ⟨pollsElsewhere, mem_of_getElem? (show elsewhereRun[25]? = some _ from rfl), rfl⟩
  answered := ⟨5, askedElsewhere, mem_of_getElem? (show elsewhereRun[26]? = some _ from rfl)⟩

/-- The second answer refers to the request about the first document. -/
theorem asked_not_recorded : ∃ (es : List (Ev ℕ)) (w : World ℕ), UmaRun vouching guarded es w ∧
    (∀ e, .env e ∉ es) ∧ ¬ (RecordsAsked vouching guarded es ∧
      ApprovalHonoured vouching guarded es) := by
  obtain ⟨w, hrun, hstate⟩ := elsewhere_run
  refine ⟨elsewhereRun, w, hrun, fun e hmem => ?_, fun ⟨hrecords, _⟩ => ?_⟩
  · simp [elsewhereRun, alone, asking, pushing, askingElsewhere, pushingElsewhere] at hmem
  · have hrow : aliceRow 1 .pending ∈ w.state.pending := by
      rw [hstate]
      exact mem_singleton_self _
    have hperm := hrecords 3 gallery elsewhereTicket 4 1 elsewhere_referred _ []
      w (append_nil _).symm hrun _ hrow rfl
    exact absurd hperm (by decide)

theorem asked_recorded_iff_elsewhere : ∃ w, UmaRun vouching guarded elsewhereRun w ∧
    (RecordsAsked vouching guarded elsewhereRun ∧ ApprovalHonoured vouching guarded elsewhereRun ↔
      AskedAlone vouching guarded elsewhereRun) := by
  obtain ⟨w, hrun, -⟩ := elsewhere_run
  exact ⟨w, hrun, asked_recorded_iff ⟨rfl, rfl, rfl⟩ hrun⟩

end Signari.UmaApprovals
