import Signari.UmaProvenance

/-!
# Whether a refusal by the resource owner is final

A grant that policy refuses submits a request when the organisation has owner intervention on, and
is answered `request_denied` when it has not. Nothing on that way reads the request that the ticket
polls: once the owner has denied it, the next poll finds no undecided request and submits another.
`refusal_final_iff` says exactly when a denial holds: at every later presentation that policy
refuses, owner intervention has been turned off.

Tickets after the first submission carry a person, since an identity is never dropped along the
chain; so the answers that an unidentified client gets do not arise.
-/
namespace Signari.UmaRefusals
open UmaTables UmaHandlers UmaTraces UmaProvenance StatementPrograms List
open Prog

section

variable {D : Type} {E : Platform D} {c : Client} {form : GrantForm D}
  {expect : (o : Op D) → Res o → Prop}

/-- What a refusal by policy shows: the settings were read once, and they tell the answer. -/
def Refuses (c : Client) (xs : Trace (Op D) Res) (a : Answer D) (settings : UMASettings) : Prop :=
  (⟨.loadSettings c.orgID, some settings⟩ : Entry D) ∈ xs ∧
    (∀ org x, (⟨.loadSettings org, x⟩ : Entry D) ∈ xs → org = c.orgID ∧ x = some settings) ∧
    (settings.ownerIntervention = false → (∃ what, a = .uma (denied what)) ∧
      ∀ r id, (⟨.insertPending r, id⟩ : Entry D) ∉ xs) ∧
    (settings.ownerIntervention = true → ∃ next n desc, a = .uma (submitted next n desc))

/-- Policy refuses a ticket that carries a person, and nothing fails. -/
def RefusedByPolicy (c : Client) (xs : Trace (Op D) Res) (a : Answer D) : Prop :=
  ∀ d t, (⟨.redeem d, some (some t)⟩ : Entry D) ∈ xs → t.requestingParty ≠ "" →
    (∃ org req, (⟨.decide org req, some false⟩ : Entry D) ∈ xs) → a ≠ unavailable →
    ∃ settings, Refuses c xs a settings

theorem redeemed_eq {S : List Stage} {xs : Trace (Op D) Res} {d d' : D} {t t' : TicketRow D}
    (hadds : Adds S [⟨.redeem d, some (some t)⟩] xs) (hS : .redeeming ∉ S)
    (hmem : (⟨.redeem d', some (some t')⟩ : Entry D) ∈ xs) : t' = t := by
  cases mem_singleton.1 (hadds.mem hmem hS)
  rfl

theorem undecided {S : List Stage} {xs : Trace (Op D) Res} {d : D}
    {r : Option (Option (TicketRow D))} {org : String} {req : Request} {b : Option Bool}
    (hadds : Adds S [⟨.redeem d, r⟩] xs) (hS : .deciding ∉ S) :
    (⟨.decide org req, b⟩ : Entry D) ∉ xs :=
  fun hmem => nomatch mem_singleton.1 (hadds.mem hmem hS)

theorem grant_refused :
    Holds expect (Minting fun _ _ => True) (RefusedByPolicy c) [] (handleUMAGrant E c form) := by
  refine handleUMAGrant_holds (fun e _ d t h => absurd h not_mem_nil)
    (fun d _ d' t _ _ _ ha => absurd rfl ha)
    (fun d e _ _ d' t h => by cases mem_singleton.1 h) ?_
  intro d t _ _
  have hlost : ∀ ys, RefusedByPolicy c ys (unavailable : Answer D) :=
    fun ys d' t' _ _ _ ha => absurd rfl ha
  refine grantRedeemed_holds (fun _ _ _ _ => trivial) ?_ (fun ys _ => hlost ys) ?_ ?_
  · rintro ys e hadds - d' t' - - ⟨org, req, hdecide⟩
    exact absurd hdecide (undecided hadds (by simp))
  · intro ys party p scope _ hev
    have hparty : ∀ {S zs d' t'}, Adds S ys zs → .redeeming ∉ S →
        (⟨.redeem d', some (some t')⟩ : Entry D) ∈ zs → t'.requestingParty ≠ "" →
        party.userID ≠ "" := by
      intro S zs d' t' hzs hS hmem hparty
      obtain rfl := redeemed_eq hev.adds (by simp) (hzs.mem hmem hS)
      rwa [hev.established.kept hparty]
    have hold : ∀ org x, (⟨.loadSettings org, x⟩ : Entry D) ∉ ys := fun org x hmem =>
      by cases mem_singleton.1 (hev.adds.mem hmem (by simp [stage]))
    have hquiet : ∀ r id, (⟨.insertPending r, id⟩ : Entry D) ∉ ys := fun r id hmem =>
      by cases mem_singleton.1 (hev.adds.mem hmem (by simp [stage]))
    refine refuseUMA_holds (fun _ => trivial) (fun _ _ _ _ => trivial) ?_
      (fun _ zs _ => hlost zs) ?_ ?_
    · intro hnone zs hzs
      refine ⟨hlost zs, fun e _ d' t' hmem hcarried => ?_⟩
      exact absurd hnone (hparty hzs (by simp) hmem hcarried)
    · intro _ settings hoff d' t' _ _ _ _
      refine ⟨settings, by simp, fun org x hmem => ?_, fun _ => ⟨⟨_, rfl⟩, fun r id hmem => ?_⟩,
        fun hon => by cases hoff.symm.trans hon⟩
      · rcases mem_append.1 hmem with hmem | hmem
        · exact absurd hmem (hold org x)
        · cases mem_singleton.1 hmem
          exact ⟨rfl, rfl⟩
      · rcases mem_append.1 hmem with hmem | hmem
        · exact hquiet r id hmem
        · cases mem_singleton.1 hmem
    · intro _ settings zs id next desc hon hzs d' t' _ _ _ _
      refine ⟨settings, by simp, fun org x hmem => ?_,
        (fun hoff => by cases hoff.symm.trans hon), fun _ => ⟨next, _, desc, rfl⟩⟩
      rw [List.append_assoc, List.append_assoc, mem_append, singleton_append,
        mem_cons, mem_append] at hmem
      rcases hmem with hmem | hmem | hmem | hmem
      · exact absurd hmem (hold org x)
      · cases hmem
        exact ⟨rfl, rfl⟩
      · cases hzs <;> simp at hmem
      · cases mem_singleton.1 hmem
  · intro ys party _ hev _ hno
    refine issueRPT_holds (fun zs _ => hlost zs) ?_
    rintro zs rpt hzs - d' t' - - ⟨org, req, hdecide⟩ -
    cases mem_singleton.1 (hno org req (hzs.mem hdecide (by simp [stage])))

end

section

variable {D : Type} [DecidableEq D] {E : Platform D}

/-- A ticket is what was minted under its digest. A handler redeems one ticket before it mints, and
a person who is on the one is not dropped from the other. -/
structure Chain (h : List (Ev D)) (s : Tables D) : Prop where
  minted : ∀ k o d, .ran k (.mint o) (some d) ∈ h → d ∈ s.drawn
  rows : ∀ t ∈ s.tickets, ∀ k o, .ran k (.mint o) (some t.ticketHash) ∈ h → t.toTicketOrigin = o
  redeemed : ∀ k d t, .ran k (.redeem d) (some (some t)) ∈ h →
    ∀ j o, .ran j (.mint o) (some d) ∈ h → t.toTicketOrigin = o
  single : ∀ k d r d' r', .ran k (.redeem d) r ∈ h → .ran k (.redeem d') r' ∈ h →
    (⟨.redeem d, r⟩ : Entry D) = ⟨.redeem d', r'⟩
  parent : ∀ k o d, .ran k (.mint o) (some d) ∈ h → ∃ a t, .ran k (.redeem a) (some (some t)) ∈ h
  carried : ∀ k a t o d, .ran k (.redeem a) (some (some t)) ∈ h → .ran k (.mint o) (some d) ∈ h →
    o.permissions = t.permissions ∧ (t.requestingParty ≠ "" → o.requestingParty ≠ "")
  pending : ∀ k o d, .ran k (.mint o) (some d) ∈ h →
    o.pendingRequest = none ∨ o.requestingParty ≠ ""

variable {h : List (Ev D)} {s s' : Tables D} {k : ℕ} {o : Op D} {r : Res o}

omit [DecidableEq D] in
theorem chain_untouched (hs : Untouched s) : Chain [] s := by
  refine ⟨?_, ?_, ?_, ?_, ?_, ?_, ?_⟩ <;> simp [hs.1]

omit [DecidableEq D] in
/-- An event that neither mints nor redeems. -/
theorem Chain.same {e : Ev D} (hchain : Chain h s)
    (hmint : ∀ k o r, e ≠ .ran k (.mint o) (some r)) (hredeem : ∀ k d r, e ≠ .ran k (.redeem d) r)
    (hrows : ∀ t ∈ s'.tickets, t ∈ s.tickets ∨ ∀ k o, .ran k (.mint o) (some t.ticketHash) ∉ h)
    (hdrawn : s.drawn ⊆ s'.drawn) : Chain (h ++ [e]) s' := by
  have hm : ∀ {k o d}, (.ran k (.mint o) (some d) : Ev D) ∈ h ++ [e] →
      .ran k (.mint o) (some d) ∈ h := fun hmem =>
    mem_before hmem (Ne.symm (hmint _ _ _))
  have hr : ∀ {k d r}, (.ran k (.redeem d) r : Ev D) ∈ h ++ [e] → .ran k (.redeem d) r ∈ h :=
    fun hmem => mem_before hmem (Ne.symm (hredeem _ _ _))
  refine ⟨fun k o d hd => hdrawn (hchain.minted k o d (hm hd)), fun t ht k o hd => ?_,
    fun k d t hd j o hj => hchain.redeemed k d t (hr hd) j o (hm hj),
    fun k d r d' r' hd hd' => hchain.single k d r d' r' (hr hd) (hr hd'),
    fun k o d hd => ?_, fun k a t o d ha hd => hchain.carried k a t o d (hr ha) (hm hd),
    fun k o d hd => hchain.pending k o d (hm hd)⟩
  · rcases hrows t ht with ht | hnone
    · exact hchain.rows t ht k o (hm hd)
    · exact absurd (hm hd) (hnone k o)
  · obtain ⟨a, t, ha⟩ := hchain.parent k o d (hm hd)
    exact ⟨a, t, mem_append_left _ ha⟩

theorem Chain.redeem {d : D} {x : Option (Option (TicketRow D))} (hchain : Chain h s)
    (honce : ∀ d r, (⟨.redeem d, r⟩ : Entry D) ∉ own k h)
    (hx : ∀ t, x = some (some t) → inspectPermissionTicket s d = some t)
    (hs' : s' = s ∨ s' = (redeemPermissionTicket s d).2) :
    Chain (h ++ [Event.ran k (Op.redeem d) x]) s' := by
  have hm : ∀ {j o d'}, (.ran j (.mint o) (some d') : Ev D) ∈ h ++ [Event.ran k (Op.redeem d) x] →
      .ran j (.mint o) (some d') ∈ h := fun hmem =>
    mem_before hmem nofun
  have hnone : ∀ {d r}, (.ran k (.redeem d) r : Ev D) ∉ h := fun hmem => honce _ _ (mem_own.2 hmem)
  have hminter : ∀ {o d'}, (.ran k (.mint o) (some d') : Ev D) ∉ h := fun hmem => by
    obtain ⟨a, t, ha⟩ := hchain.parent k _ _ hmem
    exact hnone ha
  have hr : ∀ {j d' r}, (.ran j (.redeem d') r : Ev D) ∈ h ++ [Event.ran k (Op.redeem d) x] →
      .ran j (.redeem d') r ∈ h ∨ j = k ∧ (⟨.redeem d', r⟩ : Entry D) = ⟨.redeem d, x⟩ := by
    intro j d' r hmem
    rcases mem_append.1 hmem with hmem | hmem
    · exact .inl hmem
    · cases mem_singleton.1 hmem
      exact .inr ⟨rfl, rfl⟩
  have hdrawn : s'.drawn = s.drawn := by rcases hs' with rfl | rfl <;> rfl
  refine ⟨fun j o d' hd => hdrawn ▸ hchain.minted j o d' (hm hd), fun t ht j o hd => ?_,
    fun j d' t hd i o hi => ?_, fun j d₁ r₁ d₂ r₂ h₁ h₂ => ?_, fun j o d' hd => ?_,
    fun j a t o d' ha hd => ?_, fun j o d' hd => hchain.pending j o d' (hm hd)⟩
  · rcases hs' with rfl | rfl
    · exact hchain.rows t ht j o (hm hd)
    · obtain ⟨u, hu, rfl⟩ := mem_map.1 ht
      rw [redeem_ticketHash] at hd
      rw [redeem_toTicketOrigin]
      exact hchain.rows u hu j o (hm hd)
  · rcases hr hd with hd | ⟨rfl, heq⟩
    · exact hchain.redeemed j d' t hd i o (hm hi)
    · cases heq
      obtain ⟨ht, rfl, -⟩ := inspectPermissionTicket_eq_some (hx t rfl)
      exact hchain.rows t ht i o (hm hi)
  · rcases hr h₁ with hold₁ | ⟨rfl, heq₁⟩ <;> rcases hr h₂ with hold₂ | ⟨hj, heq₂⟩
    · exact hchain.single j d₁ r₁ d₂ r₂ hold₁ hold₂
    · exact absurd (hj ▸ hold₁) hnone
    · exact absurd hold₂ hnone
    · exact heq₁.trans heq₂.symm
  · obtain ⟨a, t, ha⟩ := hchain.parent j o d' (hm hd)
    exact ⟨a, t, mem_append_left _ ha⟩
  · rcases hr ha with ha | ⟨rfl, -⟩
    · exact hchain.carried j a t o d' ha (hm hd)
    · exact absurd (hm hd) hminter

omit [DecidableEq D] in
/-- A successor, for a handler that has redeemed the ticket before it. -/
theorem Chain.mint (row : TicketRow D) {a : D} {t : TicketRow D} (hchain : Chain h s)
    (hfresh : row.ticketHash ∉ s.drawn) (hdrawn : ∀ u ∈ s.tickets, u.ticketHash ∈ s.drawn)
    (hspent : ∀ d ∈ redemptions h, d ∈ s.drawn)
    (ha : .ran k (.redeem a) (some (some t)) ∈ h) (hperm : row.permissions = t.permissions)
    (hcarried : t.requestingParty ≠ "" → row.requestingParty ≠ "")
    (hpending : row.pendingRequest = none ∨ row.requestingParty ≠ "") :
    Chain (h ++ [Event.ran k (Op.mint row.toTicketOrigin) (some row.ticketHash)])
      { s with drawn := row.ticketHash :: s.drawn, tickets := s.tickets ++ [row] } := by
  have hm : ∀ {j o d}, (.ran j (.mint o) (some d) : Ev D) ∈
      h ++ [Event.ran k (Op.mint row.toTicketOrigin) (some row.ticketHash)] →
      .ran j (.mint o) (some d) ∈ h ∨ j = k ∧ o = row.toTicketOrigin ∧ d = row.ticketHash := by
    intro j o d hmem
    rcases mem_append.1 hmem with hmem | hmem
    · exact .inl hmem
    · cases mem_singleton.1 hmem
      exact .inr ⟨rfl, rfl, rfl⟩
  have hr : ∀ {j d r}, (.ran j (.redeem d) r : Ev D) ∈
      h ++ [Event.ran k (Op.mint row.toTicketOrigin) (some row.ticketHash)] → .ran j (.redeem d) r ∈ h :=
    fun hmem => mem_before hmem nofun
  have hnew : ∀ {j o}, (.ran j (.mint o) (some row.ticketHash) : Ev D) ∉ h := fun hmem =>
    hfresh (hchain.minted _ _ _ hmem)
  refine ⟨fun j o d hd => ?_, fun u hu j o hd => ?_, fun j d u hd i o hi => ?_,
    fun j d r d' r' hd hd' => hchain.single j d r d' r' (hr hd) (hr hd'), fun j o d hd => ?_,
    fun j b u o d hb hd => ?_, fun j o d hd => ?_⟩
  · rcases hm hd with hd | ⟨-, -, rfl⟩
    · exact mem_cons_of_mem _ (hchain.minted j o d hd)
    · exact mem_cons_self
  · rcases mem_append.1 hu with hu | hu
    · rcases hm hd with hd | ⟨-, -, heq⟩
      · exact hchain.rows u hu j o hd
      · exact absurd (heq ▸ hdrawn u hu) hfresh
    · obtain rfl := mem_singleton.1 hu
      rcases hm hd with hd | ⟨-, rfl, -⟩
      · exact absurd hd hnew
      · rfl
  · rcases hm hi with hi | ⟨-, -, rfl⟩
    · exact hchain.redeemed j d u (hr hd) i o hi
    · exact absurd (hspent _ (mem_redemptions (hr hd))) hfresh
  · rcases hm hd with hd | ⟨rfl, -, -⟩
    · obtain ⟨b, u, hb⟩ := hchain.parent j o d hd
      exact ⟨b, u, mem_append_left _ hb⟩
    · exact ⟨a, t, mem_append_left _ ha⟩
  · rcases hm hd with hd | ⟨rfl, rfl, -⟩
    · exact hchain.carried j b u o d (hr hb) hd
    · obtain rfl : t = u := by
        cases hchain.single _ _ _ _ _ ha (hr hb)
        rfl
      exact ⟨hperm, hcarried⟩
  · rcases hm hd with hd | ⟨-, rfl, -⟩
    · exact hchain.pending j o d hd
    · exact hpending

omit [DecidableEq D] in
/-- What a mint has behind it: the redemption of its predecessor. -/
theorem mints_parent {call : Call D} (row : TicketRow D) (hinv : Inv E h s)
    (hmint : Mints E (own k h) row.toTicketOrigin call) : ∃ a t,
      .ran k (.redeem a) (some (some t)) ∈ h ∧ row.permissions = t.permissions ∧
      (t.requestingParty ≠ "" → row.requestingParty ≠ "") ∧
      (row.pendingRequest = none ∨ row.requestingParty ≠ "") := by
  cases call with
  | grant c form =>
    obtain ⟨a, t, -, hredeem, hperm, hcarried, hpending, -⟩ := hmint
    exact ⟨a, t, mem_own.1 hredeem, hperm, hcarried, hpending⟩
  | confirm form =>
    obtain ⟨handle, org, i, t, -, -, -, hconsume, hredeem, hperm, hbound, hpending⟩ := hmint
    refine ⟨i.ticketHash, t, mem_own.1 hredeem, hperm, fun _ hnone => ?_, .inl hpending⟩
    obtain ⟨-, -, hclient, -⟩ := hinv.learned _ _ _ (mem_own.1 hconsume) i rfl
    exact hclient (hbound.symm.trans (row.identityHasAClient.1 hnone))
  | _ => exact hmint.elim

theorem Chain.ran {next : Res o → Prog (Op D) Res (Answer D)} (hinv : Inv E h s)
    (hchain : Chain h s) (hbegun : Begun (handle E) h k (.stmt o next))
    (hexec : Exec E s o r s') : Chain (h ++ [Event.ran k o r]) s' := by
  obtain ⟨call, hbegan, hbefore⟩ := begun_before hbegun
  cases o with
  | redeem d =>
    refine hchain.redeem hbefore ?_ ?_
    · rintro t rfl
      rcases Replies.cases hexec with ⟨hr, -⟩ | ⟨hr, -⟩
      · cases hr
      · exact (Option.some.inj hr).symm
    · rcases Replies.cases hexec with ⟨-, hs⟩ | ⟨-, hs⟩
      · exact .inl hs
      · exact .inr hs
  | mint o =>
    obtain ⟨d, hfresh, ⟨rfl, rfl⟩ | ⟨x, heffect, rfl⟩⟩ := hexec
    · exact hchain.same (fun _ _ _ h => by cases h) (fun _ _ _ h => by cases h)
        (fun t ht => .inl ht) (Subset.refl _)
    · obtain ⟨t, hmint, heq⟩ := Option.map_eq_some_iff.1 heffect
      cases heq
      unfold mintSuccessorTicket at hmint
      split at hmint
      · rename_i hidentity
        cases hmint
        let row : TicketRow D :=
          { o with
            ticketHash := d, expiresAt := s.now.instant + ticketLifetime,
            identityHasAClient := hidentity }
        obtain ⟨a, t, ha, hperm, hcarried, hpending⟩ := mints_parent row hinv hbefore
        exact Chain.mint row hchain hfresh hinv.drawn hinv.spentDrawn ha hperm hcarried hpending
      · cases hmint
  | createTicket orgID rs permissions =>
    obtain ⟨d, hfresh, ⟨rfl, rfl⟩ | ⟨x, heffect, rfl⟩⟩ := hexec
    · exact hchain.same (fun _ _ _ h => by cases h) (fun _ _ _ h => by cases h)
        (fun t ht => .inl ht) (Subset.refl _)
    · obtain ⟨t, hcreate, heq⟩ := Option.map_eq_some_iff.1 heffect
      cases heq
      unfold createPermissionTicket mintSuccessorTicket at hcreate
      split at hcreate
      · cases hcreate
        refine hchain.same (fun _ _ _ h => by cases h) (fun _ _ _ h => by cases h)
          (fun t ht => ?_) (fun _ => mem_cons_of_mem _)
        refine (mem_append.1 ht).imp_right fun ht j o hmem => ?_
        rw [mem_singleton.1 ht] at hmem
        exact hfresh (hchain.minted j o _ hmem)
      · cases hcreate
  | beginInteraction i =>
    obtain ⟨d, hfresh, hrep⟩ := hexec
    refine hchain.same (fun _ _ _ h => by cases h) (fun _ _ _ h => by cases h) (fun t ht => ?_) ?_
    · rcases hrep.cases with ⟨-, rfl⟩ | ⟨-, rfl⟩ <;> exact .inl ht
    · rcases hrep.cases with ⟨-, rfl⟩ | ⟨-, rfl⟩
      · exact Subset.refl _
      · exact fun _ => mem_cons_of_mem _
  | consume d party =>
    refine hchain.same (fun _ _ _ h => by cases h) (fun _ _ _ h => by cases h) (fun t ht => ?_) ?_
    · rcases Replies.cases hexec with ⟨-, rfl⟩ | ⟨-, rfl⟩ <;> exact .inl ht
    · rcases Replies.cases hexec with ⟨-, rfl⟩ | ⟨-, rfl⟩ <;> exact Subset.refl _
  | _ =>
    have hsame := exec_sameTickets hexec rfl
    exact hchain.same (fun _ _ _ h => by cases h) (fun _ _ _ h => by cases h)
      (fun t ht => .inl (hsame.tickets ▸ ht)) (hsame.drawn ▸ Subset.refl _)

/-- Both invariants at once, since the second rests on the first. -/
def Tracked (E : Platform D) (h : List (Ev D)) (s : Tables D) : Prop := Inv E h s ∧ Chain h s

theorem run_tracked {es : List (Ev D)} {w : World D} (hs : Untouched s)
    (hrun : UmaRun E s es w) : Tracked E es w.state := by
  refine Run.tables hrun ⟨inv_untouched hs, chain_untouched hs⟩ ?_ ?_ ?_ ?_
  · rintro hs t k c ⟨hinv, hchain⟩
    exact ⟨hinv.sameTickets (.refl _) rfl (fun _ _ _ h => nomatch h),
      hchain.same (fun _ _ _ h => nomatch h) (fun _ _ _ h => nomatch h) (fun _ => .inl)
        (Subset.refl _)⟩
  · rintro hs t t' k o r next ⟨hinv, hchain⟩ hbegun hexec
    exact ⟨hinv.ran hbegun hexec, hchain.ran hinv hbegun hexec⟩
  · rintro hs t k a ⟨hinv, hchain⟩
    exact ⟨hinv.sameTickets (.refl _) rfl (fun _ _ _ h => nomatch h),
      hchain.same (fun _ _ _ h => nomatch h) (fun _ _ _ h => nomatch h) (fun _ => .inl)
        (Subset.refl _)⟩
  · rintro hs t t' e ⟨hinv, hchain⟩ hchange
    obtain ⟨htickets, hinteractions, hdrawn⟩ := changes_sublist hchange
    exact ⟨hinv.same rfl htickets hinteractions.subset (hdrawn ▸ Subset.refl _)
        (fun _ _ _ h => nomatch h),
      hchain.same (fun _ _ _ h => nomatch h) (fun _ _ _ h => nomatch h)
        (fun _ ht => .inl (htickets.subset ht)) (hdrawn ▸ Subset.refl _)⟩

omit [DecidableEq D] in
/-- Nobody who is on a ticket is missing on one that descends from it. -/
theorem Chain.carries (hchain : Chain h s) {j : ℕ} {o : TicketOrigin} {d d' : D}
    (hmint : .ran j (.mint o) (some d) ∈ h) (hparty : o.requestingParty ≠ "")
    (hwithin : Within h d d') :
    ∃ i o', .ran i (.mint o') (some d') ∈ h ∧ o'.requestingParty ≠ "" := by
  induction hwithin with
  | refl => exact ⟨j, o, hmint, hparty⟩
  | tail _ hsucc ih =>
    obtain ⟨i, o', hmint', hparty'⟩ := ih
    obtain ⟨l, t, o'', hredeem, hnext⟩ := hsucc
    refine ⟨l, o'', hnext, (hchain.carried l _ t o'' _ hredeem hnext).2 ?_⟩
    rwa [← hchain.redeemed l _ t hredeem i o' hmint'] at hparty'

end

section

variable {D : Type} [DecidableEq D] (E : Platform D) (s : Tables D) (es : List (Ev D))

/-- After the owner has denied a request, a client presents a ticket that descends from the one it
was answered with when the request was submitted; policy refuses it, and nothing fails. -/
def LaterRefusal (k : ℕ) (c : Client) (a : Answer D) : Prop :=
  ∃ q j pre post, es = pre ++ .ran j (.deny q) (some true) :: post ∧
    (∃ i o d n desc d' t, .ran i (.mint o) (some d) ∈ es ∧ o.pendingRequest = some q ∧
      .answered i (.uma (submitted d n desc)) ∈ es ∧ Within es d d' ∧
      .ran k (.redeem d') (some (some t)) ∈ post) ∧
    (∃ form, .began k (.grant c form) ∈ es) ∧
    (∃ org req, .ran k (.decide org req) (some false) ∈ es) ∧ .answered k a ∈ es ∧ a ≠ unavailable

/-- The presentation is answered `request_denied`, and it records no request. -/
def Denied (k : ℕ) (a : Answer D) : Prop :=
  (∃ what, a = .uma (denied what)) ∧ ∀ r id, .ran k (.insertPending r) (some id) ∉ es

def RefusalFinal : Prop := ∀ k c a, LaterRefusal es k c a → Denied es k a

def ReadsOff (k : ℕ) (orgID : String) : Prop :=
  ∃ hs ts x u v, es = hs ++ .ran k (.loadSettings orgID) x :: ts ∧ UmaRun E s hs u ∧
    Step (handle E) (Exec E) Changes u (.ran k (.loadSettings orgID) x) v ∧
    (loadUMASettings u.state orgID).ownerIntervention = false

variable {E s es} {w : World D} {k : ℕ} {c : Client} {a : Answer D}

theorem LaterRefusal.refuses (hs : Untouched s) (hrun : UmaRun E s es w)
    (hlater : LaterRefusal es k c a) : ∃ settings, Refuses c (own k es) a settings := by
  obtain ⟨q, j, pre, post, hes, ⟨i, o, d, n, desc, d', t, hmint, hpending, -, hwithin, hredeem⟩,
    ⟨form, hbegan⟩, ⟨org, req, hdecide⟩, hanswered, ha⟩ := hlater
  have hredeem : .ran k (.redeem d') (some (some t)) ∈ es := by
    rw [hes]
    exact mem_append_right _ (mem_cons_of_mem _ hredeem)
  obtain ⟨-, hchain⟩ := run_tracked hs hrun
  have hparty : o.requestingParty ≠ "" :=
    (hchain.pending i o d hmint).resolve_left fun hnone => nomatch hnone.symm.trans hpending
  obtain ⟨l, o', hmint', hparty'⟩ := hchain.carries hmint hparty hwithin
  rw [← hchain.redeemed k d' t hredeem l o' hmint'] at hparty'
  obtain ⟨call, hcall, hreach⟩ := Run.answered hrun hanswered
  obtain rfl := (Run.booked hrun).once k _ _ hbegan hcall
  have hrefused : Holds (fun _ _ => True) (Minting fun _ _ => True) (RefusedByPolicy c)
      (own k es) (.ret a) := grant_refused.reaches hreach fun _ _ => trivial
  exact hrefused d' t (mem_own.2 hredeem) hparty' ⟨org, req, mem_own.2 hdecide⟩ ha

theorem LaterRefusal.denied_iff (hs : Untouched s) (hrun : UmaRun E s es w)
    (hlater : LaterRefusal es k c a) : Denied es k a ↔ ReadsOff E s es k c.orgID := by
  obtain ⟨settings, hread, honly, hoff, hon⟩ := hlater.refuses hs hrun
  have hloads : ∀ {u v : World D} {x : Option UMASettings},
      Step (handle E) (Exec E) Changes u (.ran k (.loadSettings c.orgID) x) v →
      x = some settings → loadUMASettings u.state c.orgID = settings := by
    rintro u v x hstep rfl
    cases hstep with
    | ran _ hexec =>
      rcases (Replies.reads hexec).2 with hnone | hsome
      · cases hnone
      · exact (Option.some.inj hsome).symm
  constructor
  · rintro ⟨⟨what, rfl⟩, -⟩
    obtain ⟨hs', ts, u, v, hes, hpre, hstep, -⟩ := Run.executed hrun (mem_own.1 hread)
    refine ⟨hs', ts, _, u, v, hes, hpre, hstep, ?_⟩
    rw [hloads hstep rfl]
    by_contra hset
    obtain ⟨next, n, desc, ha⟩ := hon (Bool.eq_true_of_not_eq_false hset)
    have hcode := congrArg UmaError.code (Answer.uma.inj ha)
    simp [denied, submitted] at hcode
  · rintro ⟨hs', ts, x, u, v, hes, -, hstep, hset⟩
    have hmem : .ran k (.loadSettings c.orgID) x ∈ es := hes ▸ mem_append_right _ (by simp)
    rw [hloads hstep (honly _ _ (mem_own.2 hmem)).2] at hset
    obtain ⟨hdenied, hquiet⟩ := hoff hset
    exact ⟨hdenied, fun r id hran => hquiet r _ (mem_own.2 hran)⟩

def InterventionOn (E : Platform D) (s : Tables D) (es : List (Ev D)) (orgID : String) : Prop :=
  ∀ hs ts u, es = hs ++ ts → UmaRun E s hs u →
    (loadUMASettings u.state orgID).ownerIntervention = true

/-- A refusal is final exactly when owner intervention is off whenever a later presentation reads
it. While it stays on, no later presentation that policy refuses is answered with the refusal. -/
theorem refusal_final_iff (hs : Untouched s) (hrun : UmaRun E s es w) :
    (RefusalFinal es ↔ ∀ k c a, LaterRefusal es k c a → ReadsOff E s es k c.orgID) ∧
      ∀ k c a, LaterRefusal es k c a → InterventionOn E s es c.orgID → ¬ Denied es k a := by
  constructor
  · refine forall_congr' fun k => forall_congr' fun c => forall_congr' fun a => ?_
    exact imp_congr_right fun hlater => hlater.denied_iff hs hrun
  · intro k c a hlater hon hdenied
    obtain ⟨hs', ts, x, u, v, hes, hpre, -, hoff⟩ := (hlater.denied_iff hs hrun).1 hdenied
    exact Bool.false_ne_true (hoff.symm.trans (hon hs' _ u hes hpre))

end

def vouching : Platform ℕ := { platform with idToken := fun _ => some ("gallery", "alice", 1) }

def guarded : Tables ℕ := { shared with relations := [], settings := fun _ => some ⟨true, 5⟩ }

def guardedTicketed : Tables ℕ := { guarded with tickets := [firstTicket], drawn := [1] }

theorem guarded_asked : Plays (Exec vouching) guarded (handle vouching (.permission askTicket))
    asking guardedTicketed (.created 1) := by
  have hlookup : Exec vouching guarded (.lookupClient "storage") (some (some storage)) guarded :=
    .inr ⟨some storage, congrArg (fun x => some (x, guarded)) (by decide), rfl⟩
  have hcreate : Exec vouching guarded (.createTicket "acme" "storage" [readDocument]) (some 1)
      guardedTicketed := ⟨1, by decide, .inr ⟨1, rfl, rfl⟩⟩
  exact .stmt hlookup (.stmt hcreate .ret)

def aliceAsks : PendingRequest := ⟨"acme", "storage", "gallery", "alice", [readDocument]⟩

def polls (request : ℕ) : TicketOrigin :=
  ⟨"acme", "storage", [readDocument], "alice", "gallery", some request⟩

def pollTicket (request ticketHash : ℕ) : TicketRow ℕ :=
  { polls request with ticketHash, expiresAt := ticketLifetime, identityHasAClient := by simp [polls] }

def aliceRow (id : ℕ) (state : PendingState) : PendingRow :=
  { aliceAsks with id, state, expiresAt := pendingRequestLifetime }

def guardedSpent : Tables ℕ :=
  { guarded with tickets := [{ firstTicket with redeemed := true }], drawn := [1] }

def guardedPending : Tables ℕ :=
  { guardedSpent with pending := [aliceRow 1 .pending], lastRequest := 1 }

def guardedSubmitted : Tables ℕ :=
  { guardedPending with
    tickets := [{ firstTicket with redeemed := true }, pollTicket 1 2], drawn := [2, 1] }

def askedOwner : String := "a resource owner has been asked to decide whether the requesting " ++
  "party may read document:7"

def pushing : Trace (Op ℕ) Res :=
  [⟨.redeem 1, some (some firstTicket)⟩, ⟨.timeNow, (0 : ℤ)⟩,
    ⟨.partyRef "alice", some (some "alice@example.org")⟩,
    ⟨.decide "acme" mayAliceRead, some false⟩, ⟨.loadSettings "acme", some ⟨true, 5⟩⟩,
    ⟨.pendingFor "acme" "gallery" "alice" "storage", some none⟩,
    ⟨.insertPending aliceAsks, some 1⟩, ⟨.mint (polls 1), some 2⟩]

theorem guarded_submitted : Plays (Exec vouching) guardedTicketed
    (handle vouching (.grant gallery galleryPushes)) pushing guardedSubmitted
    (.uma (submitted 2 5 askedOwner)) := by
  have hredeem : Exec vouching guardedTicketed (.redeem 1) (some (some firstTicket)) guardedSpent :=
    .inr ⟨some firstTicket, rfl, rfl⟩
  have hclock : Exec vouching guardedSpent .timeNow (0 : ℤ) guardedSpent := ⟨rfl, rfl⟩
  have href : Exec vouching guardedSpent (.partyRef "alice") (some (some "alice@example.org"))
      guardedSpent :=
    .inr ⟨_, congrArg (fun x => some (x, guardedSpent)) (by decide), rfl⟩
  have hdecide : Exec vouching guardedSpent (.decide "acme" mayAliceRead) (some false)
      guardedSpent := ⟨false, .inl (by decide), .inr ⟨false, rfl, rfl⟩⟩
  have hload : Exec vouching guardedSpent (.loadSettings "acme") (some ⟨true, 5⟩) guardedSpent :=
    .inr ⟨_, rfl, rfl⟩
  have hlook : Exec vouching guardedSpent (.pendingFor "acme" "gallery" "alice" "storage")
      (some none) guardedSpent := .inr ⟨none, rfl, rfl⟩
  have hinsert : Exec vouching guardedSpent (.insertPending aliceAsks) (some 1) guardedPending :=
    .inr ⟨1, rfl, rfl⟩
  have hmint : Exec vouching guardedPending (.mint (polls 1)) (some 2) guardedSubmitted :=
    ⟨2, by decide, .inr ⟨2, rfl, rfl⟩⟩
  exact .stmt hredeem (.stmt hclock (.stmt href (.stmt hdecide (.stmt hload (.stmt hlook
    (.stmt hinsert (.stmt hmint .ret)))))))

def guardedDenied : Tables ℕ := { guardedSubmitted with pending := [aliceRow 1 .denied] }

theorem guarded_denied : Plays (Exec vouching) guardedSubmitted (handle vouching (.deny (some 1)))
    [⟨.deny 1, some true⟩] guardedDenied (.done "denied") := by
  have hdeny : Exec vouching guardedSubmitted (.deny 1) (some true) guardedDenied :=
    .inr ⟨true, rfl, rfl⟩
  exact .stmt hdeny .ret

def galleryPolls : GrantForm ℕ := { ticket := some 2 }

def guardedPolled : Tables ℕ :=
  { guardedDenied with
    tickets := [{ firstTicket with redeemed := true }, { pollTicket 1 2 with redeemed := true }] }

def guardedAgain : Tables ℕ :=
  { guardedPolled with
    pending := [aliceRow 1 .denied, aliceRow 2 .pending], lastRequest := 2 }

def guardedResubmitted : Tables ℕ :=
  { guardedAgain with
    tickets := guardedAgain.tickets ++ [pollTicket 2 3], drawn := [3, 2, 1] }

def polling : Trace (Op ℕ) Res :=
  [⟨.redeem 2, some (some (pollTicket 1 2))⟩, ⟨.partyRef "alice", some (some "alice@example.org")⟩,
    ⟨.decide "acme" mayAliceRead, some false⟩, ⟨.loadSettings "acme", some ⟨true, 5⟩⟩,
    ⟨.pendingFor "acme" "gallery" "alice" "storage", some none⟩,
    ⟨.insertPending aliceAsks, some 2⟩, ⟨.mint (polls 2), some 3⟩]

theorem guarded_polled : Plays (Exec vouching) guardedDenied
    (handle vouching (.grant gallery galleryPolls)) polling guardedResubmitted
    (.uma (submitted 3 5 askedOwner)) := by
  have hredeem : Exec vouching guardedDenied (.redeem 2) (some (some (pollTicket 1 2)))
      guardedPolled := .inr ⟨some (pollTicket 1 2), rfl, rfl⟩
  have href : Exec vouching guardedPolled (.partyRef "alice") (some (some "alice@example.org"))
      guardedPolled :=
    .inr ⟨_, congrArg (fun x => some (x, guardedPolled)) (by decide), rfl⟩
  have hdecide : Exec vouching guardedPolled (.decide "acme" mayAliceRead) (some false)
      guardedPolled := ⟨false, .inl (by decide), .inr ⟨false, rfl, rfl⟩⟩
  have hload : Exec vouching guardedPolled (.loadSettings "acme") (some ⟨true, 5⟩) guardedPolled :=
    .inr ⟨_, rfl, rfl⟩
  have hlook : Exec vouching guardedPolled (.pendingFor "acme" "gallery" "alice" "storage")
      (some none) guardedPolled := .inr ⟨none, rfl, rfl⟩
  have hinsert : Exec vouching guardedPolled (.insertPending aliceAsks) (some 2) guardedAgain :=
    .inr ⟨2, rfl, rfl⟩
  have hmint : Exec vouching guardedAgain (.mint (polls 2)) (some 3) guardedResubmitted :=
    ⟨3, by decide, .inr ⟨3, rfl, rfl⟩⟩
  exact .stmt hredeem (.stmt href (.stmt hdecide (.stmt hload (.stmt hlook (.stmt hinsert
    (.stmt hmint .ret))))))

def pollRun : List (Ev ℕ) :=
  alone 0 (Call.permission askTicket) asking (Answer.created 1) ++
    alone 1 (Call.grant gallery galleryPushes) pushing (Answer.uma (submitted 2 5 askedOwner)) ++
    alone 2 (Call.deny (some 1)) ([⟨.deny 1, some true⟩] : Trace (Op ℕ) Res)
      (Answer.done "denied") ++
    alone 3 (Call.grant gallery galleryPolls) polling (Answer.uma (submitted 3 5 askedOwner))

theorem poll_run : ∃ w, UmaRun vouching guarded pollRun w := by
  have hstart : UmaRun vouching guarded [] (Pool.start guarded) := .nil
  obtain ⟨_, hrun⟩ := Plays.serve hstart guarded_asked
  obtain ⟨_, hrun⟩ := Plays.serve hrun guarded_submitted
  obtain ⟨_, hrun⟩ := Plays.serve hrun guarded_denied
  obtain ⟨_, hrun⟩ := Plays.serve hrun guarded_polled
  exact ⟨_, hrun⟩

theorem poll_later : LaterRefusal pollRun 3 gallery (.uma (submitted 3 5 askedOwner)) := by
  refine ⟨1, 2, pollRun.take 15, pollRun.drop 16, rfl, ?_, ?_, ?_, ?_, ?_⟩
  · refine ⟨1, polls 1, 2, 5, askedOwner, 2, pollTicket 1 2, ?_, rfl, ?_, .refl, ?_⟩
    · exact mem_of_getElem? (show pollRun[12]? = some _ from rfl)
    · exact mem_of_getElem? (show pollRun[13]? = some _ from rfl)
    · exact mem_of_getElem? (show (pollRun.drop 16)[2]? = some _ from rfl)
  · exact ⟨galleryPolls, mem_of_getElem? (show pollRun[17]? = some _ from rfl)⟩
  · exact ⟨"acme", mayAliceRead, mem_of_getElem? (show pollRun[20]? = some _ from rfl)⟩
  · exact mem_of_getElem? (show pollRun[25]? = some _ from rfl)
  · exact fun h => nomatch h

/-- Owner intervention is on and nothing is changed from elsewhere; the poll after the denial is
answered `request_submitted` again, with a new request. -/
theorem refusal_not_final : (loadUMASettings guarded "acme").ownerIntervention = true ∧
    ∃ (es : List (Ev ℕ)) (w : World ℕ), UmaRun vouching guarded es w ∧ (∀ e, .env e ∉ es) ∧
      .ran 3 (.insertPending aliceAsks) (some 2) ∈ es ∧ ¬ RefusalFinal es := by
  obtain ⟨w, hrun⟩ := poll_run
  refine ⟨rfl, pollRun, w, hrun, fun e hmem => ?_,
    mem_of_getElem? (show pollRun[23]? = some _ from rfl), fun hfinal => ?_⟩
  · simp [pollRun, alone, asking, pushing, polling] at hmem
  · obtain ⟨⟨what, ha⟩, -⟩ := hfinal 3 gallery _ poll_later
    have hcode := congrArg UmaError.code (Answer.uma.inj ha)
    simp [denied, submitted] at hcode

/-- The same run. -/
theorem refusal_final_iff_poll : ∃ w, UmaRun vouching guarded pollRun w ∧
    (RefusalFinal pollRun ↔ ∀ k c a, LaterRefusal pollRun k c a →
      ReadsOff vouching guarded pollRun k c.orgID) ∧
    ∀ k c a, LaterRefusal pollRun k c a → InterventionOn vouching guarded pollRun c.orgID →
      ¬ Denied pollRun k a := by
  obtain ⟨w, hrun⟩ := poll_run
  exact ⟨w, hrun, refusal_final_iff ⟨rfl, rfl, rfl⟩ hrun⟩

end Signari.UmaRefusals
