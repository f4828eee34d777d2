import Signari.UmaTraces

/-!
# Where the person of a UMA token comes from

Over every run of the service, with any number of handlers under way at once: a token with a person
as its subject goes back to that person, who has confirmed an interaction of the same client on an
earlier ticket of the chain, or to an ID token that the client has pushed. What the ticket asks for
was permitted to that person as long as her account is where the client's organisation looks for
her (`person_of_token_vouched`).

The invariant ties every ticket that carries a person to the one ticket of its chain where that
person came in, and it counts redemptions, since a ticket is looked up and spent by one statement.
-/
namespace Signari.UmaProvenance
open UmaTables UmaHandlers UmaTraces StatementPrograms List
open Prog AuthzModel

section

variable {D : Type} (E : Platform D)

/-- One handler has redeemed the first ticket and minted the second. -/
def Succeeds (h : List (Ev D)) (a d : D) : Prop :=
  ∃ k t o, .ran k (.redeem a) (some (some t)) ∈ h ∧ .ran k (.mint o) (some d) ∈ h

/-- An ancestor, or the ticket itself. -/
abbrev Within (h : List (Ev D)) : D → D → Prop := Relation.ReflTransGen (Succeeds h)

abbrev Ancestor (h : List (Ev D)) : D → D → Prop := Relation.TransGen (Succeeds h)

/-- The tickets that were redeemed, in order. -/
def redemptions (h : List (Ev D)) : List D :=
  h.filterMap fun
    | .ran _ (.redeem d) (some (some _)) => some d
    | _ => none

/-- An interaction that a query of its client has opened, on a ticket of that query, with who was
signed in. -/
def Opened (h : List (Ev D)) (i : InteractionRow D) : Prop :=
  i.clientID ≠ "" ∧ ∃ g q org, .began g (.claims q) ∈ h ∧ q.ticket = some i.ticketHash ∧
    q.clientID = i.clientID ∧ q.session = some (i.requestingParty, org) ∧
    .ran g (.beginInteraction i.toInteraction) (some i.handleHash) ∈ h

/-- The person has confirmed an interaction on this ticket, signed in and with the CSRF token, and
the ticket was spent on it. -/
def Confirmed (h : List (Ev D)) (a : D) (permissions : List Permission)
    (clientID party : String) : Prop :=
  ∃ i j form org t, Opened h i ∧ i.ticketHash = a ∧ i.clientID = clientID ∧
    i.requestingParty = party ∧ .began j (.confirm form) ∈ h ∧ form.csrf = true ∧
    form.session = some (party, org) ∧ form.handle = some i.handleHash ∧
    .ran j (.consume i.handleHash party) (some (some i)) ∈ h ∧
    .ran j (.redeem a) (some (some t)) ∈ h ∧ t.permissions = permissions

/-- The client has pushed an ID token of this issuer together with this ticket, for itself and the
person, and it had not expired. -/
def Pushed (h : List (Ev D)) (a : D) (clientID party : String) : Prop :=
  ∃ k c form t raw expiry now, .began k (.grant c form) ∈ h ∧ c.clientID = clientID ∧
    form.ticket = some a ∧ .ran k (.redeem a) (some (some t)) ∈ h ∧
    decodeClaimToken form.claimToken = .ok (some raw) ∧
    E.idToken raw = some (clientID, party, expiry) ∧ .ran k .timeNow now ∈ h ∧
    now ≤ expiry * second

/-- What vouches for a person at a ticket. -/
def Vouched (h : List (Ev D)) (a : D) (permissions : List Permission)
    (clientID party : String) : Prop :=
  Confirmed h a permissions clientID party ∨ Pushed E h a clientID party

def Backed (h : List (Ev D)) (t : TicketRow D) : Prop :=
  t.requestingParty ≠ "" → ∃ a, Ancestor h a t.ticketHash ∧
    Vouched E h a t.permissions t.boundClient t.requestingParty

variable {E} {h h' : List (Ev D)} {a d : D} {permissions : List Permission}
  {clientID party : String}

theorem Succeeds.mono (hsub : h ⊆ h') (hs : Succeeds h a d) : Succeeds h' a d := by
  obtain ⟨k, t, o, hredeem, hmint⟩ := hs
  exact ⟨k, t, o, hsub hredeem, hsub hmint⟩

theorem Within.mono (hsub : h ⊆ h') (hw : Within h a d) : Within h' a d :=
  Relation.ReflTransGen.mono (fun _ _ hs => Succeeds.mono hsub hs) _ _ hw

theorem Ancestor.mono (hsub : h ⊆ h') (hw : Ancestor h a d) : Ancestor h' a d :=
  Relation.TransGen.mono (fun _ _ hs => Succeeds.mono hsub hs) _ _ hw

theorem Opened.mono {i : InteractionRow D} (hsub : h ⊆ h') (hi : Opened h i) : Opened h' i := by
  obtain ⟨hclient, g, q, org, hbegan, hticket, hid, hsession, hran⟩ := hi
  exact ⟨hclient, g, q, org, hsub hbegan, hticket, hid, hsession, hsub hran⟩

theorem Confirmed.mono (hsub : h ⊆ h') (hc : Confirmed h a permissions clientID party) :
    Confirmed h' a permissions clientID party := by
  obtain ⟨i, j, form, org, t, hi, hticket, hid, hparty, hbegan, hcsrf, hsession, hhandle, hconsume,
    hredeem, hperm⟩ := hc
  exact ⟨i, j, form, org, t, hi.mono hsub, hticket, hid, hparty, hsub hbegan, hcsrf, hsession,
    hhandle, hsub hconsume, hsub hredeem, hperm⟩

theorem Pushed.mono (hsub : h ⊆ h') (hp : Pushed E h a clientID party) :
    Pushed E h' a clientID party := by
  obtain ⟨k, c, form, t, raw, expiry, now, hbegan, hid, hticket, hredeem, hdecode, htoken, hread,
    hnow⟩ := hp
  exact ⟨k, c, form, t, raw, expiry, now, hsub hbegan, hid, hticket, hsub hredeem, hdecode, htoken,
    hsub hread, hnow⟩

theorem Vouched.mono (hsub : h ⊆ h') (hv : Vouched E h a permissions clientID party) :
    Vouched E h' a permissions clientID party :=
  hv.imp (Confirmed.mono hsub) (Pushed.mono hsub)

theorem Backed.mono {t : TicketRow D} (hsub : h ⊆ h') (hb : Backed E h t) : Backed E h' t := by
  intro hparty
  obtain ⟨a, hanc, hv⟩ := hb hparty
  exact ⟨a, hanc.mono hsub, hv.mono hsub⟩

@[simp] theorem redemptions_append : redemptions (h ++ h') = redemptions h ++ redemptions h' :=
  filterMap_append

theorem mem_redemptions {k : ℕ} {t : TicketRow D} (hran : .ran k (.redeem d) (some (some t)) ∈ h) :
    d ∈ redemptions h :=
  mem_filterMap.2 ⟨_, hran, rfl⟩

end

section

variable {D : Type} (E : Platform D)

/-- What a grant mints: for the permissions of the ticket it has redeemed, for a person only
together with the client, and for a person whenever a request is pending. -/
def GrantMint (c : Client) (form : GrantForm D) (xs : Trace (Op D) Res) (o : TicketOrigin) : Prop :=
  ∃ d t, form.ticket = some d ∧ (⟨.redeem d, some (some t)⟩ : Entry D) ∈ xs ∧
    o.permissions = t.permissions ∧ (t.requestingParty ≠ "" → o.requestingParty ≠ "") ∧
    (o.pendingRequest = none ∨ o.requestingParty ≠ "") ∧
    (o.requestingParty ≠ "" → o.boundClient = c.clientID ∧
      Identified E c form t xs o.requestingParty)

def GrantToken (c : Client) (form : GrantForm D) (xs : Trace (Op D) Res) (a : Answer D) : Prop :=
  ∀ rpt ttl party, a = .granted rpt ttl party → ∃ d t ref, form.ticket = some d ∧
    (⟨.redeem d, some (some t)⟩ : Entry D) ∈ xs ∧ IssuedTo c t party rpt ∧
    (party ≠ "" → Identified E c form t xs party ∧
      (⟨.partyRef party, some (some ref)⟩ : Entry D) ∈ xs) ∧
    ∀ x ∈ asks t.permissions, decided c.orgID
      (if party = "" then ("client", c.clientID) else ("user", ref)) x true ∈ xs

def Mints (xs : Trace (Op D) Res) (o : TicketOrigin) : Call D → Prop
  | .grant c form => GrantMint E c form xs o
  | .confirm form => Confirms form xs o
  | _ => False

/-- What may be expected of a call when it comes to a statement. -/
def Before (call : Call D) (xs : Trace (Op D) Res) : Op D → Prop
  | .mint o => Mints E xs o call
  | .redeem _ => ∀ d r, (⟨.redeem d, r⟩ : Entry D) ∉ xs
  | .beginInteraction i => ∃ q, call = .claims q ∧ Opens q xs i
  | _ => True

def After (xs : Trace (Op D) Res) (a : Answer D) : Call D → Prop
  | .grant c form => GrantToken E c form xs a
  | _ => NoToken a

variable {E} {c : Client} {form : GrantForm D} {expect : (o : Op D) → Res o → Prop}

theorem grantToken_of {xs : Trace (Op D) Res} {a : Answer D} (h : NoToken a) :
    GrantToken E c form xs a :=
  fun rpt ttl party ha => absurd ha (h rpt ttl party)

theorem noToken_uma (e : UmaError D) : NoToken (.uma e) := fun _ _ _ h => nomatch h

theorem noToken_unavailable : NoToken (unavailable : Answer D) := fun _ _ _ h => nomatch h

theorem grant_holds :
    Holds expect (Minting (GrantMint E c form)) (GrantToken E c form) []
      (handleUMAGrant E c form) := by
  refine handleUMAGrant_holds (fun e _ => grantToken_of (noToken_uma e))
    (fun d _ => grantToken_of noToken_unavailable) (fun d e _ _ => grantToken_of (noToken_uma e)) ?_
  intro d t hd _
  -- Everything that comes after the redemption keeps it in the trace.
  have hnone : t.requestingParty = "" → ∀ {S ys}, Adds S [⟨.redeem d, some (some t)⟩] ys →
      GrantMint E c form ys ⟨t.orgID, t.resourceServer, t.permissions, "", "", none⟩ :=
    fun h _ _ hys => ⟨d, t, hd, hys.subset (by simp), rfl, fun h' => absurd h h', .inl rfl,
      fun h' => absurd rfl h'⟩
  refine grantRedeemed_holds (fun h _ _ hys => hnone h hys)
    (fun ys e _ _ => grantToken_of (noToken_uma e)) (fun ys _ => grantToken_of noToken_unavailable)
    ?_ ?_
  · intro ys party p scope _ hev
    have hempty : party.userID = "" → t.requestingParty = "" := fun h =>
      by_contra fun h' => h' ((hev.established.kept h').symm.trans h)
    refine refuseUMA_holds (fun h => hnone (hempty h) hev.adds) (fun h zs id hzs => ?_)
      (fun _ zs _ => ⟨grantToken_of noToken_unavailable, fun e _ => grantToken_of (noToken_uma e)⟩)
      (fun _ _ _ => grantToken_of noToken_unavailable) (fun _ _ _ => grantToken_of (noToken_uma _))
      (fun _ _ _ _ _ _ _ _ => grantToken_of (noToken_uma _))
    refine ⟨d, t, hd, hzs.subset (hev.adds.subset (by simp)), rfl, fun _ => h, .inr h,
      fun _ => ⟨rfl, ?_⟩⟩
    exact (hev.established.identified h).mono hzs.subset
  · intro ys party _ hev hall _
    refine issueRPT_holds (fun _ _ => grantToken_of noToken_unavailable) fun zs rpt hzs hrpt => ?_
    rintro rpt' ttl party' hgranted
    cases hgranted
    refine ⟨d, t, party.ref, hd, hzs.subset (hev.adds.subset (by simp)), hrpt, fun h => ?_,
      fun x hx => hzs.subset (hall x hx)⟩
    exact ⟨(hev.established.identified h).mono hzs.subset, hzs.subset (hev.established.referred h)⟩

theorem handle_holds (call : Call D) :
    Holds expect (Before E call) (fun xs a => After E xs a call) [] (handle E call) := by
  cases call with
  | permission r =>
    refine handleUMAPermission_holds.weaken fun xs o ho => ?_
    cases o <;> first | exact ho.elim | trivial
  | grant c form =>
    refine grant_holds.weaken fun xs o ho => ?_
    cases o <;> first | exact ho | exact ho.elim
  | claims q =>
    refine beginUMAClaims_holds.weaken fun xs o ho => ?_
    cases o <;> first | exact ⟨q, rfl, ho⟩ | exact ho.elim | trivial
  | confirm form =>
    refine finishUMAClaims_holds.weaken fun xs o ho => ?_
    cases o <;> first | exact ho | exact ho.elim
  | approve id relation =>
    refine umaApprove_holds.weaken fun xs o ho => ?_
    have hplain := ho.plain
    cases o <;> first | exact hplain.elim | trivial
  | deny id =>
    refine umaDeny_holds.weaken fun xs o ho => ?_
    cases o <;> first | exact ho.elim | trivial

end

section

variable {D : Type} (E : Platform D)

/-- What the response to a statement says about the past. -/
def Learned (h : List (Ev D)) : (o : Op D) → Res o → Prop
  | .lookupClient id, r => ∀ c, r = some (some c) → c.clientID = id ∧ id ≠ ""
  | .redeem d, r => ∀ t, r = some (some t) → t.ticketHash = d ∧ Backed E h t
  | .consume d party, r => ∀ i, r = some (some i) →
      i.handleHash = d ∧ i.requestingParty = party ∧ Opened h i
  | _, _ => True

/-- Tickets are drawn before they are there, and spent once. Whoever a ticket carries was vouched
for, and an interaction was opened by a query of its client. -/
structure Inv (h : List (Ev D)) (s : Tables D) : Prop where
  drawn : ∀ t ∈ s.tickets, t.ticketHash ∈ s.drawn
  spentDrawn : ∀ d ∈ redemptions h, d ∈ s.drawn
  unique : (s.tickets.map TicketRow.ticketHash).Nodup
  unspent : ∀ t ∈ s.tickets, t.redeemed = false → t.ticketHash ∉ redemptions h
  once : (redemptions h).Nodup
  backed : ∀ t ∈ s.tickets, Backed E h t
  opened : ∀ i ∈ s.interactions, Opened h i
  learned : ∀ k o r, .ran k o r ∈ h → Learned E h o r

variable {E} {h h' : List (Ev D)} {s s' : Tables D} {k : ℕ} {o : Op D} {r : Res o} {e : Ev D}

theorem Learned.mono (hsub : h ⊆ h') (hl : Learned E h o r) : Learned E h' o r := by
  cases o with
  | redeem d => exact fun t ht => ⟨(hl t ht).1, (hl t ht).2.mono hsub⟩
  | consume d party => exact fun i hi => ⟨(hl i hi).1, (hl i hi).2.1, (hl i hi).2.2.mono hsub⟩
  | _ => exact hl

theorem inv_untouched (hs : Untouched s) : Inv E [] s := by
  obtain ⟨htickets, hinteractions, -⟩ := hs
  refine ⟨?_, ?_, ?_, ?_, nodup_nil, ?_, ?_, ?_⟩ <;> simp [htickets, hinteractions, redemptions]

theorem Inv.same (hinv : Inv E h s) (hnone : redemptions [e] = [])
    (htickets : s'.tickets.Sublist s.tickets) (hinteractions : s'.interactions ⊆ s.interactions)
    (hdrawn : s.drawn ⊆ s'.drawn)
    (hlearned : ∀ k o r, e = .ran k o r → Learned E (h ++ [e]) o r) : Inv E (h ++ [e]) s' := by
  have hsub : h ⊆ h ++ [e] := subset_append_left _ _
  have hred : redemptions (h ++ [e]) = redemptions h := by
    rw [redemptions_append, hnone, append_nil]
  refine ⟨fun t ht => hdrawn (hinv.drawn t (htickets.subset ht)), fun d hd => ?_,
    hinv.unique.sublist (htickets.map _), fun t ht hlive => ?_, hred ▸ hinv.once,
    fun t ht => (hinv.backed t (htickets.subset ht)).mono hsub,
    fun i hi => (hinv.opened i (hinteractions hi)).mono hsub, fun k o r hran => ?_⟩
  · exact hdrawn (hinv.spentDrawn d (hred ▸ hd))
  · rw [hred]
    exact hinv.unspent t (htickets.subset ht) hlive
  · rcases mem_append.1 hran with hran | hran
    · exact (hinv.learned k o r hran).mono hsub
    · exact hlearned k o r (mem_singleton.1 hran).symm

theorem Inv.insert {row : TicketRow D} (hinv : Inv E h s) (hnone : redemptions [e] = [])
    (hfresh : row.ticketHash ∉ s.drawn) (hbacked : Backed E (h ++ [e]) row)
    (hlearned : ∀ k o r, e = .ran k o r → Learned E (h ++ [e]) o r) :
    Inv E (h ++ [e])
      { s with drawn := row.ticketHash :: s.drawn, tickets := s.tickets ++ [row] } := by
  have hsub : h ⊆ h ++ [e] := subset_append_left _ _
  have hred : redemptions (h ++ [e]) = redemptions h := by
    rw [redemptions_append, hnone, append_nil]
  refine ⟨fun t ht => ?_, fun d hd => ?_, ?_, fun t ht hlive => ?_, hred ▸ hinv.once,
    fun t ht => ?_, fun i hi => (hinv.opened i hi).mono hsub, fun k o r hran => ?_⟩
  · rcases mem_append.1 ht with ht | ht
    · exact mem_cons_of_mem _ (hinv.drawn t ht)
    · rw [mem_singleton.1 ht]
      exact mem_cons_self
  · exact mem_cons_of_mem _ (hinv.spentDrawn d (hred ▸ hd))
  · rw [map_append, map_singleton, List.nodup_append]
    refine ⟨hinv.unique, nodup_singleton _, ?_⟩
    rintro a ha b hb rfl
    obtain ⟨t, ht, rfl⟩ := mem_map.1 ha
    exact hfresh (mem_singleton.1 hb ▸ hinv.drawn t ht)
  · rw [hred]
    rcases mem_append.1 ht with ht | ht
    · exact hinv.unspent t ht hlive
    · rw [mem_singleton.1 ht]
      exact fun hspent => hfresh (hinv.spentDrawn _ hspent)
  · rcases mem_append.1 ht with ht | ht
    · exact (hinv.backed t ht).mono hsub
    · rw [mem_singleton.1 ht]
      exact hbacked
  · rcases mem_append.1 hran with hran | hran
    · exact (hinv.learned k o r hran).mono hsub
    · exact hlearned k o r (mem_singleton.1 hran).symm

theorem GrantMint.vouched {c : Client} {form : GrantForm D} {o : TicketOrigin}
    (hinv : Inv E h s) (hbegan : .began k (.grant c form) ∈ h)
    (hmint : GrantMint E c form (own k h) o) : ∃ d t, .ran k (.redeem d) (some (some t)) ∈ h ∧
      (o.requestingParty ≠ "" → ∃ a, Within h a d ∧
        Vouched E h a o.permissions o.boundClient o.requestingParty) := by
  obtain ⟨d, t, hd, hredeem, hperm, -, -, hproven⟩ := hmint
  rw [mem_own] at hredeem
  refine ⟨d, t, hredeem, fun hparty => ?_⟩
  obtain ⟨hbound, hid⟩ := hproven hparty
  obtain ⟨rfl, hbacked⟩ := hinv.learned _ _ _ hredeem t rfl
  rcases hid with ⟨hsame, hclient⟩ | ⟨-, raw, expiry, now, hdecode, htoken, -, hnow, hread⟩
  · obtain ⟨a, hanc, hv⟩ := hbacked (hsame ▸ hparty)
    refine ⟨a, hanc.to_reflTransGen, ?_⟩
    rwa [hperm, hbound, ← hclient, ← hsame]
  · refine ⟨t.ticketHash, .refl, .inr ?_⟩
    rw [hbound]
    exact ⟨k, c, form, t, raw, expiry, now, hbegan, rfl, hd, hredeem, hdecode, htoken,
      mem_own.1 hread, hnow⟩

theorem confirms_vouched {form : ClaimsForm D} {o : TicketOrigin} (hinv : Inv E h s)
    (hbegan : .began k (.confirm form) ∈ h) (hmint : Confirms form (own k h) o) :
    ∃ d t, .ran k (.redeem d) (some (some t)) ∈ h ∧
      (o.requestingParty ≠ "" → ∃ a, Within h a d ∧
        Vouched E h a o.permissions o.boundClient o.requestingParty) := by
  obtain ⟨handle, org, i, t, hcsrf, hsession, hhandle, hconsume, hredeem, hperm, hbound, -⟩ := hmint
  rw [mem_own] at hconsume hredeem
  obtain ⟨rfl, hparty, hopened⟩ := hinv.learned _ _ _ hconsume i rfl
  refine ⟨i.ticketHash, t, hredeem, fun _ => ⟨i.ticketHash, .refl, .inl ?_⟩⟩
  rw [hperm, hbound]
  exact ⟨i, k, form, org, t, hopened, rfl, rfl, hparty, hbegan, hcsrf, hsession, hhandle, hconsume,
    hredeem, rfl⟩

theorem Mints.backed {call : Call D} {row : TicketRow D} (hinv : Inv E h s)
    (hbegan : .began k call ∈ h) (hmint : Mints E (own k h) row.toTicketOrigin call) :
    Backed E (h ++ [Event.ran k (Op.mint row.toTicketOrigin) (some row.ticketHash)]) row := by
  have hvouched : ∃ d t, .ran k (.redeem d) (some (some t)) ∈ h ∧
      (row.requestingParty ≠ "" → ∃ a, Within h a d ∧
        Vouched E h a row.permissions row.boundClient row.requestingParty) := by
    cases call with
    | grant c form => exact GrantMint.vouched hinv hbegan hmint
    | confirm form => exact confirms_vouched hinv hbegan hmint
    | _ => exact hmint.elim
  obtain ⟨d, t, hredeem, hproven⟩ := hvouched
  have hsub := subset_append_left h
    [(.ran k (.mint row.toTicketOrigin) (some row.ticketHash) : Ev D)]
  intro hparty
  obtain ⟨a, hwithin, hv⟩ := hproven hparty
  exact ⟨a, .tail' (hwithin.mono hsub) ⟨k, t, row.toTicketOrigin, hsub hredeem, by simp⟩,
    hv.mono hsub⟩

theorem begun_before {next : Res o → Prog (Op D) Res (Answer D)}
    (hbegun : Begun (handle E) h k (.stmt o next)) :
    ∃ call, .began k call ∈ h ∧ Before E call (own k h) o := by
  obtain ⟨call, hbegan, hreach⟩ := hbegun
  have hholds : Holds (fun _ _ => True) (Before E call) (fun xs a => After E xs a call)
      (own k h) (.stmt o next) := (handle_holds call).reaches hreach fun _ _ => trivial
  exact ⟨call, hbegan, hholds.1⟩

end

section

variable {D : Type} [DecidableEq D] {E : Platform D} {h : List (Ev D)} {s s' : Tables D} {k : ℕ}
  {o : Op D} {r : Res o}

theorem Inv.redeem {d : D} {t : TicketRow D} (hinv : Inv E h s)
    (hfind : inspectPermissionTicket s d = some t) :
    Inv E (h ++ [Event.ran k (Op.redeem d) (some (some t))]) (redeemPermissionTicket s d).2 := by
  obtain ⟨ht, rfl, hlive⟩ := inspectPermissionTicket_eq_some hfind
  have hsub : h ⊆ h ++ [Event.ran k (Op.redeem t.ticketHash) (some (some t))] :=
    subset_append_left _ _
  have hred : redemptions (h ++ [Event.ran k (Op.redeem t.ticketHash) (some (some t))]) =
      redemptions h ++ [t.ticketHash] := redemptions_append
  have hopen : t.redeemed = false := by
    unfold TicketRow.live at hlive
    simpa using (Bool.and_eq_true_iff.1 hlive).1
  have hback : ∀ u ∈ (redeemPermissionTicket s t.ticketHash).2.tickets,
      ∃ v ∈ s.tickets, u = v.redeem t.ticketHash s.now.instant := fun u hu => by
    obtain ⟨v, hv, rfl⟩ := mem_map.1 hu
    exact ⟨v, hv, rfl⟩
  refine ⟨fun u hu => ?_, fun d hd => ?_, ?_, fun u hu hopen' => ?_, ?_, fun u hu => ?_,
    fun i hi => (hinv.opened i hi).mono hsub, fun j o r hran => ?_⟩
  · obtain ⟨v, hv, rfl⟩ := hback u hu
    rw [redeem_ticketHash]
    exact hinv.drawn v hv
  · rw [hred] at hd
    rcases mem_append.1 hd with hd | hd
    · exact hinv.spentDrawn d hd
    · rw [mem_singleton.1 hd]
      exact hinv.drawn t ht
  · have hmap : ((redeemPermissionTicket s t.ticketHash).2.tickets.map TicketRow.ticketHash) =
        s.tickets.map TicketRow.ticketHash := by
      simp only [redeemPermissionTicket, map_map]
      exact map_congr_left fun v _ => redeem_ticketHash v _ _
    rw [hmap]
    exact hinv.unique
  · obtain ⟨v, hv, rfl⟩ := hback u hu
    obtain ⟨hvopen, hother⟩ := redeem_open hopen'
    rw [redeem_ticketHash, hred, mem_append, mem_singleton, not_or]
    refine ⟨hinv.unspent v hv hvopen, fun heq => hother ⟨heq, ?_⟩⟩
    rwa [inj_on_of_nodup_map hinv.unique hv ht heq]
  · rw [hred, List.nodup_append]
    refine ⟨hinv.once, nodup_singleton _, ?_⟩
    rintro a ha b hb rfl
    exact hinv.unspent t ht hopen (mem_singleton.1 hb ▸ ha)
  · obtain ⟨v, hv, rfl⟩ := hback u hu
    have hb := (hinv.backed v hv).mono hsub
    unfold Backed at hb ⊢
    rwa [redeem_toTicketOrigin, redeem_ticketHash]
  · rcases mem_append.1 hran with hran | hran
    · exact (hinv.learned j o r hran).mono hsub
    · cases mem_singleton.1 hran
      rintro u hu
      cases hu
      exact ⟨rfl, (hinv.backed t ht).mono hsub⟩

def touches : Op D → Bool
  | .createTicket .. | .redeem _ | .mint _ | .beginInteraction _ | .consume .. => true
  | _ => false

theorem exec_sameTickets (hexec : Exec E s o r s') (ho : touches o = false) : SameTickets s s' := by
  cases o with
  | createTicket | redeem | mint | beginInteraction | consume => cases ho
  | lookupClient | inspect | partyRef | loadSettings | pendingFor | pendingByID | loadModel =>
    rw [(Replies.reads hexec).1]
    exact .refl s
  | decide =>
    obtain ⟨b, -, hrep⟩ := hexec
    rw [hrep.reads.1]
    exact .refl s
  | timeNow =>
    rw [hexec.2]
    exact .refl s
  | newSID | activeKey | signJSON | csrfToken =>
    rw [show s' = s from hexec]
    exact .refl s
  | insertPending q =>
    rcases hexec with ⟨-, rfl⟩ | ⟨id, heffect, -⟩
    · exact .refl _
    · exact insertPendingRequest_sameTickets heffect
  | approve p who relation =>
    rcases hexec with ⟨-, rfl⟩ | ⟨x, heffect, -⟩
    · exact .refl _
    · obtain ⟨t, happrove, heq⟩ := Option.map_eq_some_iff.1 heffect
      cases heq
      exact approveTransaction_sameTickets happrove
  | deny id =>
    rcases hexec with ⟨-, rfl⟩ | ⟨x, heffect, -⟩
    · exact .refl _
    · split at heffect
      · cases heffect
        exact .refl _
      · rename_i t hdeny
        cases heffect
        exact decidePendingRequest_sameTickets hdeny

theorem exec_directory (hexec : Exec E s o r s') : s'.directory = s.directory := by
  cases o with
  | redeem | consume => rcases Replies.cases hexec with ⟨-, rfl⟩ | ⟨-, rfl⟩ <;> rfl
  | beginInteraction =>
    obtain ⟨d, -, hrep⟩ := hexec
    rcases hrep.cases with ⟨-, rfl⟩ | ⟨-, rfl⟩ <;> rfl
  | createTicket | mint =>
    obtain ⟨d, -, ⟨-, rfl⟩ | ⟨x, heffect, -⟩⟩ := hexec
    · rfl
    · obtain ⟨t, hmint, heq⟩ := Option.map_eq_some_iff.1 heffect
      cases heq
      exact mintSuccessorTicket_directory hmint
  | _ => exact (exec_sameTickets hexec rfl).directory

/-- Nobody's account changes unless it is changed from elsewhere. -/
theorem quiet_directory {es : List (Ev D)} {w : World D} (hrun : UmaRun E s es w)
    (hquiet : ∀ e, .env e ∉ es) : w.state.directory = s.directory := by
  refine hrun.invariant (I := fun hs a => (∀ e, .env e ∉ hs) → a.state.directory = s.directory)
    (fun _ => rfl) (fun ih hstep hquiet => ?_) hquiet
  have hbefore := ih fun e he => hquiet e (mem_append_left _ he)
  cases hstep with
  | ran _ hexec => exact (exec_directory hexec).trans hbefore
  | env _ => exact absurd (mem_append_right _ mem_cons_self) (hquiet _)
  | _ => exact hbefore

omit [DecidableEq D] in
theorem Inv.sameTickets {e : Ev D} (hinv : Inv E h s) (hsame : SameTickets s s')
    (hnone : redemptions [e] = [])
    (hlearned : ∀ k o r, e = .ran k o r → Learned E (h ++ [e]) o r) : Inv E (h ++ [e]) s' :=
  hinv.same hnone (hsame.tickets ▸ Sublist.refl _)
    (hsame.interactions ▸ Subset.refl _) (hsame.drawn ▸ Subset.refl _) hlearned

omit [DecidableEq D] in
/-- An interaction opened by a query of its client. -/
theorem Inv.begin {i : Interaction D} {d : D} {call : Call D} (hinv : Inv E h s)
    (hbegan : .began k call ∈ h) (hbefore : ∃ q, call = .claims q ∧ Opens q (own k h) i) :
    Inv E (h ++ [Event.ran k (Op.beginInteraction i) (some d)]) (beginInteraction s i d) := by
  obtain ⟨q, rfl, c, t, org, hticket, hlookup, hclient, -, hsession⟩ := hbefore
  have hsub : h ⊆ h ++ [Event.ran k (Op.beginInteraction i) (some d)] := subset_append_left _ _
  obtain ⟨hid, hne⟩ := hinv.learned _ _ _ (mem_own.1 hlookup) c rfl
  have hprev : Inv E (h ++ [Event.ran k (Op.beginInteraction i) (some d)])
      { beginInteraction s i d with interactions := s.interactions } :=
    hinv.same rfl (Sublist.refl _) (Subset.refl _) (fun _ => mem_cons_of_mem _)
      (by rintro _ _ _ ⟨⟩; trivial)
  refine { hprev with opened := fun j hj => ?_ }
  rcases mem_append.1 hj with hj | hj
  · exact (hinv.opened j hj).mono hsub
  · rw [mem_singleton.1 hj]
    refine ⟨hclient ▸ hid ▸ hne, k, q, org, hsub hbegan, hticket, ?_, hsession, by simp⟩
    exact hid.symm.trans hclient.symm

theorem Inv.consume {d : D} {party : String} {r : Option (InteractionRow D)} (hinv : Inv E h s)
    (hr : r = (consumeInteraction s d party).1) :
    Inv E (h ++ [Event.ran k (Op.consume d party) (some r)]) (consumeInteraction s d party).2 := by
  have hsub : h ⊆ h ++ [Event.ran k (Op.consume d party) (some r)] := subset_append_left _ _
  have hprev : Inv E (h ++ [Event.ran k (Op.consume d party) (some r)]) s := by
    refine hinv.same rfl (Sublist.refl _) (Subset.refl _) (Subset.refl _) ?_
    rintro _ _ _ ⟨⟩ i hi
    obtain ⟨hmem, hhandle, hparty⟩ := consumeInteraction_eq_some (hr ▸ Option.some.inj hi)
    exact ⟨hhandle, hparty, (hinv.opened i hmem).mono hsub⟩
  refine { hprev with opened := fun i hi => ?_ }
  obtain ⟨j, hj, hsame, hhandle⟩ := consumeInteraction_mem hi
  obtain ⟨hclient, hrest⟩ := hprev.opened j hj
  rw [hsame, hhandle] at hrest
  exact ⟨hsame ▸ hclient, hrest⟩

/-- A statement keeps the invariant. -/
theorem Inv.ran {next : Res o → Prog (Op D) Res (Answer D)} (hinv : Inv E h s)
    (hbegun : Begun (handle E) h k (.stmt o next)) (hexec : Exec E s o r s') :
    Inv E (h ++ [Event.ran k o r]) s' := by
  obtain ⟨call, hbegan, hbefore⟩ := begun_before hbegun
  cases o with
  | redeem d =>
    have hnone : ∀ {r : Option (Option (TicketRow D))}, (∀ t, r ≠ some (some t)) →
        Inv E (h ++ [Event.ran k (Op.redeem d) r]) s := fun {r} hr => by
      refine hinv.sameTickets (.refl s) ?_ ?_
      · rcases r with _ | _ | t
        · rfl
        · rfl
        · exact absurd rfl (hr t)
      · rintro _ _ _ ⟨⟩ t ht
        exact absurd ht (hr t)
    rcases Replies.cases hexec with ⟨rfl, rfl⟩ | ⟨rfl, rfl⟩
    · exact hnone fun _ h => nomatch h
    · cases hfind : inspectPermissionTicket s d with
      | none =>
        change Inv E _ (redeemPermissionTicket s d).2
        rw [redeemPermissionTicket_none hfind]
        exact hnone fun _ h => nomatch h
      | some t => exact hinv.redeem hfind
  | mint o =>
    obtain ⟨d, hfresh, ⟨rfl, rfl⟩ | ⟨x, heffect, rfl⟩⟩ := hexec
    · exact hinv.sameTickets (.refl _) rfl (by rintro _ _ _ ⟨⟩; trivial)
    · obtain ⟨t, hmint, heq⟩ := Option.map_eq_some_iff.1 heffect
      cases heq
      unfold mintSuccessorTicket at hmint
      split at hmint
      · cases hmint
        exact hinv.insert rfl hfresh (Mints.backed hinv hbegan hbefore)
          (by rintro _ _ _ ⟨⟩; trivial)
      · cases hmint
  | createTicket orgID rs permissions =>
    obtain ⟨d, hfresh, ⟨rfl, rfl⟩ | ⟨x, heffect, rfl⟩⟩ := hexec
    · exact hinv.sameTickets (.refl _) rfl (by rintro _ _ _ ⟨⟩; trivial)
    · obtain ⟨t, hcreate, heq⟩ := Option.map_eq_some_iff.1 heffect
      cases heq
      unfold createPermissionTicket mintSuccessorTicket at hcreate
      split at hcreate
      · cases hcreate
        exact hinv.insert rfl hfresh (fun hparty => absurd rfl hparty) (by rintro _ _ _ ⟨⟩; trivial)
      · cases hcreate
  | beginInteraction i =>
    obtain ⟨d, hfresh, hrep⟩ := hexec
    rcases hrep.cases with ⟨rfl, rfl⟩ | ⟨rfl, rfl⟩
    · exact hinv.sameTickets (.refl _) rfl (by rintro _ _ _ ⟨⟩; trivial)
    · exact hinv.begin hbegan hbefore
  | consume d party =>
    rcases Replies.cases hexec with ⟨rfl, rfl⟩ | ⟨rfl, rfl⟩
    · exact hinv.sameTickets (.refl _) rfl (by rintro _ _ _ ⟨⟩ i hi; cases hi)
    · exact hinv.consume rfl
  | lookupClient id =>
    obtain ⟨rfl, hr⟩ := Replies.reads hexec
    refine hinv.sameTickets (.refl _) rfl ?_
    rintro _ _ _ ⟨⟩ c hc
    rcases hr with rfl | rfl
    · cases hc
    · simpa using find?_some (Option.some.inj hc)
  | _ => exact hinv.sameTickets (exec_sameTickets hexec rfl) rfl (by rintro _ _ _ ⟨⟩; trivial)

omit [DecidableEq D] in
theorem changes_sublist {c : Change D} (hchange : Changes s c s') :
    s'.tickets.Sublist s.tickets ∧ s'.interactions.Sublist s.interactions ∧ s'.drawn = s.drawn := by
  obtain ⟨hallowed, rfl⟩ := hchange
  cases c with
  | deleted tickets interactions pending => exact ⟨hallowed.1, hallowed.2.1, rfl⟩
  | _ => exact ⟨Sublist.refl _, Sublist.refl _, rfl⟩

theorem run_inv {es : List (Ev D)} {w : World D} (hs : Untouched s) (hrun : UmaRun E s es w) :
    Inv E es w.state := by
  refine Run.tables hrun (inv_untouched hs) ?_ (fun hinv hbegun hexec => hinv.ran hbegun hexec)
    ?_ ?_
  · intro hs t k c hinv
    exact hinv.sameTickets (.refl _) rfl fun _ _ _ h => nomatch h
  · intro hs t k a hinv
    exact hinv.sameTickets (.refl _) rfl fun _ _ _ h => nomatch h
  · intro hs t t' e hinv hchange
    obtain ⟨htickets, hinteractions, hdrawn⟩ := changes_sublist hchange
    exact hinv.same rfl htickets hinteractions.subset (hdrawn ▸ Subset.refl _)
      fun _ _ _ h => nomatch h

/-- The account is in this organisation and goes by this reference, to which no other account
there answers. -/
def Home (E : Platform D) (s : Tables D) (orgID party ref : String) : Prop :=
  (∃ u ∈ s.directory.users, u.id = party ∧ u.orgID = orgID ∧
    ref = if u.email = "" then party else u.email) ∧
  ∀ v ∈ s.directory.users, v.orgID = orgID →
    (v.id = ref ∨ v.email ≠ "" ∧ E.lower v.email = E.lower ref) → v.id = party

/-- Whenever a decision is asked for a person, she is at home where it is asked. -/
def AtHome (E : Platform D) (s : Tables D) (es : List (Ev D)) : Prop :=
  ∀ hs ts k orgID req r party w, es = hs ++ .ran k (.decide orgID req) r :: ts →
    .ran k (.partyRef party) (some (some req.subjectID)) ∈ es → UmaRun E s hs w →
    Home E w.state orgID party req.subjectID

/-- The decision was made, and its subject was this person. -/
def Permitted (E : Platform D) (s : Tables D) (es : List (Ev D)) (k : ℕ) (party orgID : String)
    (req : Request) : Prop :=
  ∃ hs ts w, es = hs ++ .ran k (.decide orgID req) (some true) :: ts ∧ UmaRun E s hs w ∧
    decideLocally E w.state orgID req = true ∧
    resolveSubject E w.state orgID req.subjectID = party

omit [DecidableEq D] in
theorem Home.resolves {orgID party ref : String} (h : Home E s orgID party ref) :
    resolveSubject E s orgID ref = party := by
  obtain ⟨⟨u, hu, hid, horg, href⟩, honly⟩ := h
  have hanswers : u.id = ref ∨ u.email ≠ "" ∧ E.lower u.email = E.lower ref := by
    by_cases hmail : u.email = ""
    · exact .inl (hid.trans (href.trans (if_pos hmail)).symm)
    · exact .inr ⟨hmail, congrArg E.lower (href.trans (if_neg hmail)).symm⟩
  unfold resolveSubject
  rcases hfind : s.directory.users.find? _ with _ | v
  · exact absurd (decide_eq_true ⟨horg, hanswers⟩) (find?_eq_none.1 hfind u hu)
  · have hmatch := find?_some hfind
    obtain ⟨hvorg, hvref⟩ := of_decide_eq_true hmatch
    exact honly v (mem_of_find?_eq_some hfind) hvorg hvref

theorem run_permitted {es : List (Ev D)} {w : World D} (hrun : UmaRun E s es w)
    (hhome : AtHome E s es) {party orgID : String} {req : Request}
    (href : .ran k (.partyRef party) (some (some req.subjectID)) ∈ es)
    (hran : .ran k (.decide orgID req) (some true) ∈ es) :
    Permitted E s es k party orgID req := by
  obtain ⟨hs, ts, a, b, hes, hpre, -, c, hdecides, hrep⟩ := Run.executed hrun hran
  refine ⟨hs, ts, a, hes, hpre, ?_, (hhome _ _ _ _ _ _ _ _ hes href hpre).resolves⟩
  rcases hrep.cases with ⟨hnone, -⟩ | ⟨hsome, -⟩
  · cases hnone
  · obtain rfl := Option.some.inj hsome
    rcases hdecides with hlocal | ⟨-, -, hfalse⟩
    · exact hlocal.symm
    · cases hfalse

/-- Where a token for this person comes from: the person has confirmed an interaction that the same
client started on an earlier ticket of the chain, with the same permissions, or the client has
pushed an ID token of this issuer for the two; no ticket was redeemed twice; and every resource and
scope of the ticket was permitted to the person while the token was being granted. -/
def Provenance (E : Platform D) (s : Tables D) (es : List (Ev D)) (k : ℕ)
    (rpt : AccessTokenClaims) (party : String) : Prop :=
  ∃ c form d t ref, .began k (.grant c form) ∈ es ∧ form.ticket = some d ∧
    .ran k (.redeem d) (some (some t)) ∈ es ∧ rpt.subject = party ∧ IssuedTo c t party rpt ∧
    ((∃ a, Ancestor es a d ∧ Confirmed es a t.permissions c.clientID party) ∨
      ∃ a, Within es a d ∧ Pushed E es a c.clientID party) ∧
    (redemptions es).Nodup ∧
    .ran k (.partyRef party) (some (some ref)) ∈ es ∧
    ∀ x ∈ asks t.permissions, Permitted E s es k party c.orgID
      ⟨"user", ref, x.1.resourceType, x.1.resourceID, x.2⟩

/-- The permits of a token are its person's when she is at home. -/
theorem person_of_token_vouched {es : List (Ev D)} {w : World D} (hs : Untouched s)
    (hrun : UmaRun E s es w) (hhome : AtHome E s es) {rpt : AccessTokenClaims} {ttl : ℕ}
    {party : String} (hgranted : .answered k (.granted rpt ttl party) ∈ es) (hparty : party ≠ "") :
    Provenance E s es k rpt party := by
  have hinv := run_inv hs hrun
  obtain ⟨call, hbegan, hreach⟩ := Run.answered hrun hgranted
  have hafter : Holds (fun _ _ => True) (Before E call) (fun xs a => After E xs a call)
      (own k es) (.ret (.granted rpt ttl party)) := (handle_holds call).reaches hreach fun _ _ => trivial
  cases call with
  | grant c form =>
    obtain ⟨d, t, ref, hd, hredeem, hissued, hid, hall⟩ := hafter rpt ttl party rfl
    obtain ⟨hidentified, href⟩ := hid hparty
    rw [mem_own] at hredeem href
    refine ⟨c, form, d, t, ref, hbegan, hd, hredeem, ?_, hissued, ?_, hinv.once, href,
      fun x hx => ?_⟩
    · rw [hissued.subject, if_neg hparty]
    · obtain ⟨rfl, hbacked⟩ := hinv.learned _ _ _ hredeem t rfl
      rcases hidentified with ⟨hsame, hclient⟩ |
        ⟨-, raw, expiry, now, hdecode, htoken, -, hnow, hread⟩
      · obtain ⟨a, hanc, hv⟩ := hbacked (hsame ▸ hparty)
        rw [hsame, hclient] at hv
        rcases hv with hv | hv
        · exact .inl ⟨a, hanc, hv⟩
        · exact .inr ⟨a, hanc.to_reflTransGen, hv⟩
      · exact .inr ⟨t.ticketHash, .refl, k, c, form, t, raw, expiry, now, hbegan, rfl, hd, hredeem,
          hdecode, htoken, mem_own.1 hread, hnow⟩
    · have hpermit := hall x hx
      rw [if_neg hparty] at hpermit
      exact run_permitted hrun hhome href (mem_own.1 hpermit)
  | _ => exact absurd rfl (hafter rpt ttl party)

end

def sharing : Model where
  types := AList.singleton "document"
    { relations := AList.singleton "viewer" []
      permissions := AList.singleton "read" ["viewer"]
      require := ∅ }

def platform : Platform ℕ where
  library := utcLibrary
  lower := id
  issuer := "https://op.example"
  idToken := fun _ => some ("gallery", "bob", 1)
  appendQuery := fun uri _ _ => some uri

def gallery : Client where
  clientID := "gallery"
  orgID := "acme"
  confidential := true
  claimsRedirectURIs := ["https://gallery.example/cb"]

def storage : Client where
  clientID := "storage"
  orgID := "acme"
  confidential := true

def aliceViews : RelationRow where
  orgID := "acme"
  subjectType := "user"
  subjectID := "alice@example.org"
  relation := "viewer"
  objectType := "document"
  objectID := "7"
  expiresAt := none
  checked := by decide

/-- Bob of another organisation has Alice's address there. -/
def shared : Tables ℕ where
  relations := [aliceViews]
  models := fun _ => some sharing
  directory := ⟨[], [⟨"alice", "acme", "alice@example.org", true, true⟩,
    ⟨"bob", "globex", "alice@example.org", true, true⟩], []⟩
  clients := [gallery, storage]
  now := ⟨0, ⟨"Thu", 0, 0⟩⟩

def readDocument : Permission := ⟨"document", "7", ["read"]⟩

def askTicket : PermissionRequest := ⟨.ok "storage", true, .decoded [readDocument]⟩

def sendAlice : ClaimsQuery ℕ :=
  ⟨"gallery", some 1, "", none, "client_id=gallery", some ("alice", "acme")⟩

def aliceConfirms : ClaimsForm ℕ := ⟨true, true, some ("alice", "acme"), some 2⟩

def galleryAsks : GrantForm ℕ := { ticket := some 3 }

def galleryPushes : GrantForm ℕ :=
  { ticket := some 1, claimToken := "a.b", claimTokenFormat := claimTokenFormatIDToken }

def firstTicket : TicketRow ℕ where
  orgID := "acme"
  resourceServer := "storage"
  permissions := [readDocument]
  ticketHash := 1
  expiresAt := ticketLifetime
  identityHasAClient := ⟨fun _ => rfl, fun _ => rfl⟩

def ticketed : Tables ℕ := { shared with tickets := [firstTicket], drawn := [1] }

def asking : Trace (Op ℕ) Res :=
  [⟨.lookupClient "storage", some (some storage)⟩,
    ⟨.createTicket "acme" "storage" [readDocument], some 1⟩]

theorem ticket_asked : Plays (Exec platform) shared (handle platform (.permission askTicket))
    asking ticketed (.created 1) := by
  have hlookup : Exec platform shared (.lookupClient "storage") (some (some storage)) shared :=
    .inr ⟨some storage, congrArg (fun x => some (x, shared)) (by decide), rfl⟩
  have hcreate : Exec platform shared (.createTicket "acme" "storage" [readDocument]) (some 1)
      ticketed := ⟨1, by decide, .inr ⟨1, rfl, rfl⟩⟩
  exact .stmt hlookup (.stmt hcreate .ret)

def visit : Interaction ℕ := ⟨"acme", "gallery", 1, "https://gallery.example/cb", none, "alice"⟩

def visitRow : InteractionRow ℕ := { visit with handleHash := 2, expiresAt := interactionLifetime }

def visited : Tables ℕ := beginInteraction ticketed visit 2

theorem alice_sent : Plays (Exec platform) ticketed (handle platform (.claims sendAlice))
    [⟨.lookupClient "gallery", some (some gallery)⟩, ⟨.inspect 1, some (some firstTicket)⟩,
      ⟨.beginInteraction visit, some 2⟩, ⟨.csrfToken, some "token"⟩] visited
    (.confirmation "" "storage" [("document 7", "read")] 2 "token") := by
  have hlookup : Exec platform ticketed (.lookupClient "gallery") (some (some gallery)) ticketed :=
    .inr ⟨some gallery, congrArg (fun x => some (x, ticketed)) (by decide), rfl⟩
  have hinspect : Exec platform ticketed (.inspect 1) (some (some firstTicket)) ticketed :=
    .inr ⟨some firstTicket, rfl, rfl⟩
  have hbegin : Exec platform ticketed (.beginInteraction visit) (some 2) visited :=
    ⟨2, by decide, .inr ⟨2, rfl, rfl⟩⟩
  have hcsrf : Exec platform visited .csrfToken (some "token") visited := rfl
  exact .stmt hlookup (.stmt hinspect (.stmt hbegin (.stmt hcsrf .ret)))

def bound : TicketOrigin := ⟨"acme", "storage", [readDocument], "alice", "gallery", none⟩

def secondTicket : TicketRow ℕ :=
  { bound with
    ticketHash := 3, expiresAt := ticketLifetime, identityHasAClient := by decide }

def consumed : Tables ℕ := { visited with interactions := [{ visitRow with consumed := true }] }

def spent : Tables ℕ := { consumed with tickets := [{ firstTicket with redeemed := true }] }

def confirmed : Tables ℕ :=
  { spent with
    drawn := 3 :: spent.drawn, tickets := [{ firstTicket with redeemed := true }, secondTicket] }

theorem alice_confirmed : Plays (Exec platform) visited (handle platform (.confirm aliceConfirms))
    [⟨.consume 2 "alice", some (some visitRow)⟩, ⟨.redeem 1, some (some firstTicket)⟩,
      ⟨.mint bound, some 3⟩] confirmed (.redirect "https://gallery.example/cb") := by
  have hconsume : Exec platform visited (.consume 2 "alice") (some (some visitRow)) consumed :=
    .inr ⟨some visitRow, rfl, rfl⟩
  have hredeem : Exec platform consumed (.redeem 1) (some (some firstTicket)) spent :=
    .inr ⟨some firstTicket, rfl, rfl⟩
  have hmint : Exec platform spent (.mint bound) (some 3) confirmed :=
    ⟨3, by decide, .inr ⟨3, rfl, rfl⟩⟩
  exact .stmt hconsume (.stmt hredeem (.stmt hmint .ret))

def mayAliceRead : Request := ⟨"user", "alice@example.org", "document", "7", "read"⟩

def aliceToken : AccessTokenClaims where
  issuer := "https://op.example"
  subject := "alice"
  audience := ["storage"]
  expiry := (0 + defaultAccessTokenTTL * second) / second
  issuedAt := 0 / second
  jti := "jti"
  clientID := "gallery"
  scope := GoStrings.join (scopes [readDocument]) " "

def granted : Tables ℕ :=
  { confirmed with
    tickets := [{ firstTicket with redeemed := true }, { secondTicket with redeemed := true }] }

theorem gallery_granted : Plays (Exec platform) confirmed
    (handle platform (.grant gallery galleryAsks))
    [⟨.redeem 3, some (some secondTicket)⟩, ⟨.partyRef "alice", some (some "alice@example.org")⟩,
      ⟨.decide "acme" mayAliceRead, some true⟩, ⟨.activeKey, some ()⟩, ⟨.timeNow, (0 : ℤ)⟩,
      ⟨.newSID, some "jti"⟩, ⟨.signJSON aliceToken, some ()⟩] granted
    (.granted aliceToken 300 "alice") := by
  have hredeem : Exec platform confirmed (.redeem 3) (some (some secondTicket)) granted :=
    .inr ⟨some secondTicket, rfl, rfl⟩
  have href : Exec platform granted (.partyRef "alice") (some (some "alice@example.org")) granted :=
    .inr ⟨_, congrArg (fun x => some (x, granted)) (by decide), rfl⟩
  have hdecide : Exec platform granted (.decide "acme" mayAliceRead) (some true) granted :=
    ⟨true, .inl (by decide +kernel), .inr ⟨true, rfl, rfl⟩⟩
  have hkey : Exec platform granted .activeKey (some ()) granted := rfl
  have hclock : Exec platform granted .timeNow (0 : ℤ) granted := ⟨rfl, rfl⟩
  have hsid : Exec platform granted .newSID (some "jti") granted := rfl
  have hsign : Exec platform granted (.signJSON aliceToken) (some ()) granted := rfl
  exact .stmt hredeem (.stmt href (.stmt hdecide (.stmt hkey (.stmt hclock (.stmt hsid
    (.stmt hsign .ret))))))

/-- A ticket of the storage, on which Alice confirms and with which the gallery is then granted a
token for her. -/
theorem person_of_token_vouched_alice : ∃ (es : List (Ev ℕ)) (w : World ℕ),
    UmaRun platform shared es w ∧ .answered 3 (.granted aliceToken 300 "alice") ∈ es ∧
    Provenance platform shared es 3 aliceToken "alice" := by
  have hstart : UmaRun platform shared [] (Pool.start shared) := .nil
  obtain ⟨_, hrun⟩ := Plays.serve hstart ticket_asked
  obtain ⟨_, hrun⟩ := Plays.serve hrun alice_sent
  obtain ⟨_, hrun⟩ := Plays.serve hrun alice_confirmed
  obtain ⟨_, hrun⟩ := Plays.serve hrun gallery_granted
  refine ⟨_, _, hrun, mem_alone,
    person_of_token_vouched ⟨rfl, rfl, rfl⟩ hrun ?_ mem_alone (by decide)⟩
  intro hs ts k orgID req r party v hes href hpre
  have hasked : Event.ran k (Op.decide orgID req) r ∈
      hs ++ Event.ran k (Op.decide orgID req) r :: ts := by simp
  rw [← hes] at hasked
  have hquiet : ∀ e, .env e ∉ hs := fun e he => by
    have hmem := mem_append_left (Event.ran k (Op.decide orgID req) r :: ts) he
    rw [← hes] at hmem
    simp [alone, asking] at hmem
  simp [alone, asking] at hasked href
  obtain ⟨-, ⟨rfl, rfl⟩, -⟩ := hasked
  obtain ⟨-, rfl, -⟩ := href
  rw [Home, quiet_directory hpre hquiet]
  decide

def bobToken : AccessTokenClaims := { aliceToken with subject := "bob" }

def pushed : Tables ℕ := { ticketed with tickets := [{ firstTicket with redeemed := true }] }

def pushingBob : Trace (Op ℕ) Res :=
  [⟨.redeem 1, some (some firstTicket)⟩, ⟨.timeNow, (0 : ℤ)⟩,
    ⟨.partyRef "bob", some (some "alice@example.org")⟩, ⟨.decide "acme" mayAliceRead, some true⟩,
    ⟨.activeKey, some ()⟩, ⟨.timeNow, (0 : ℤ)⟩, ⟨.newSID, some "jti"⟩,
    ⟨.signJSON bobToken, some ()⟩]

theorem bob_granted : Plays (Exec platform) ticketed
    (handle platform (.grant gallery galleryPushes)) pushingBob pushed
    (.granted bobToken 300 "bob") := by
  have hredeem : Exec platform ticketed (.redeem 1) (some (some firstTicket)) pushed :=
    .inr ⟨some firstTicket, rfl, rfl⟩
  have hclock : Exec platform pushed .timeNow (0 : ℤ) pushed := ⟨rfl, rfl⟩
  have href : Exec platform pushed (.partyRef "bob") (some (some "alice@example.org")) pushed :=
    .inr ⟨_, congrArg (fun x => some (x, pushed)) (by decide), rfl⟩
  have hdecide : Exec platform pushed (.decide "acme" mayAliceRead) (some true) pushed :=
    ⟨true, .inl (by decide +kernel), .inr ⟨true, rfl, rfl⟩⟩
  have hkey : Exec platform pushed .activeKey (some ()) pushed := rfl
  have hsid : Exec platform pushed .newSID (some "jti") pushed := rfl
  have hsign : Exec platform pushed (.signJSON bobToken) (some ()) pushed := rfl
  exact .stmt hredeem (.stmt hclock (.stmt href (.stmt hdecide (.stmt hkey (.stmt hclock
    (.stmt hsid (.stmt hsign .ret)))))))

/-- The gallery pushes an ID token of Bob's. The token it gets is Bob's, and the permits are
Alice's. -/
theorem permitted_for_another : ∃ (es : List (Ev ℕ)) (w : World ℕ), UmaRun platform shared es w ∧
    .answered 1 (.granted bobToken 300 "bob") ∈ es ∧
    ¬ Provenance platform shared es 1 bobToken "bob" := by
  have hstart : UmaRun platform shared [] (Pool.start shared) := .nil
  obtain ⟨_, hrun⟩ := Plays.serve hstart ticket_asked
  obtain ⟨_, hrun⟩ := Plays.serve hrun bob_granted
  refine ⟨_, _, hrun, mem_alone, ?_⟩
  rintro ⟨c, form, d, t, ref, hbegan, -, hredeem, -, -, -, -, href, hall⟩
  simp [alone, asking, pushingBob] at hbegan hredeem href
  obtain ⟨-, rfl, rfl⟩ := hbegan
  obtain ⟨-, rfl, rfl⟩ := hredeem
  obtain ⟨-, rfl⟩ := href
  obtain ⟨hs, ts, v, hes, hpre, -, hres⟩ := hall (readDocument, "read") (by decide)
  have hquiet : ∀ e, .env e ∉ hs := fun e he => by
    have hmem := hes ▸ mem_append_left _ he
    simp [alone, asking, pushingBob] at hmem
  rw [resolveSubject, quiet_directory hpre hquiet] at hres
  exact absurd hres (by decide)

end Signari.UmaProvenance
