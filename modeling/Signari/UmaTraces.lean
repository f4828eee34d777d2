import Mathlib
import Signari.UmaHandlers

/-!
# What a UMA handler does

For each endpoint of `UmaHandlers`, what its trace shows when it comes to mint a ticket, to open a
claims interaction or to answer, whatever the responses were.

A grant goes through stages, and every statement belongs to one. What a stage adds to the trace is
therefore told apart from what was there before (`Adds`).
-/
namespace Signari.UmaTraces
open UmaTables UmaHandlers StatementPrograms List
open Prog

/-- A statement with its response. -/
abbrev Entry (D : Type) := (o : Op D) × Res o

inductive Stage where
  | redeeming | identifying | deciding | settling | submitting | minting | issuing | other

def stage {D : Type} : Op D → Stage
  | .redeem _ => .redeeming
  | .partyRef _ | .timeNow => .identifying
  | .decide .. => .deciding
  | .loadSettings _ => .settling
  | .pendingFor .. | .insertPending _ => .submitting
  | .mint _ => .minting
  | .newSID | .activeKey | .signJSON _ => .issuing
  | _ => .other

section

variable {D : Type} {xs ys zs : Trace (Op D) Res} {S T : List Stage}

def Adds (S : List Stage) (xs ys : Trace (Op D) Res) : Prop :=
  ∃ zs, ys = xs ++ zs ∧ ∀ x ∈ zs, stage x.1 ∈ S

theorem Adds.refl : Adds S xs xs := ⟨[], (append_nil _).symm, fun _ h => absurd h not_mem_nil⟩

theorem Adds.trans (h : Adds S xs ys) (h' : Adds S ys zs) : Adds S xs zs := by
  obtain ⟨us, rfl, hus⟩ := h
  obtain ⟨vs, rfl, hvs⟩ := h'
  refine ⟨us ++ vs, List.append_assoc _ _ _, fun x hx => ?_⟩
  rcases mem_append.1 hx with hx | hx
  · exact hus x hx
  · exact hvs x hx

theorem Adds.mono (h : Adds S xs ys) (hST : S ⊆ T) : Adds T xs ys := by
  obtain ⟨us, rfl, hus⟩ := h
  exact ⟨us, rfl, fun x hx => hST (hus x hx)⟩

theorem Adds.one {x : Entry D} (hx : stage x.1 ∈ S) : Adds S xs (xs ++ [x]) :=
  ⟨[x], rfl, fun _ h => mem_singleton.1 h ▸ hx⟩

theorem Adds.subset (h : Adds S xs ys) : xs ⊆ ys := by
  obtain ⟨us, rfl, -⟩ := h
  exact subset_append_left _ _

/-- A statement of another stage was there before. -/
theorem Adds.mem {x : Entry D} (h : Adds S xs ys) (hx : x ∈ ys) (hS : stage x.1 ∉ S) : x ∈ xs := by
  obtain ⟨us, rfl, hus⟩ := h
  exact (mem_append.1 hx).resolve_right fun hx => hS (hus x hx)

end

variable {D : Type} {E : Platform D} {c : Client} {form : GrantForm D} {t : TicketRow D}
  {xs ys : Trace (Op D) Res}

/-- How a grant knows on whose behalf it is made: from the ticket, or from a token that the client
has pushed. -/
def Identified (E : Platform D) (c : Client) (form : GrantForm D) (t : TicketRow D)
    (xs : Trace (Op D) Res) (party : String) : Prop :=
  (t.requestingParty = party ∧ t.boundClient = c.clientID) ∨
    (t.requestingParty = "" ∧ ∃ raw expiry now, decodeClaimToken form.claimToken = .ok (some raw) ∧
      E.idToken raw = some (c.clientID, party, expiry) ∧ expiry ≠ 0 ∧ now ≤ expiry * second ∧
      (⟨.timeNow, now⟩ : Entry D) ∈ xs)

theorem Identified.mono {party : String} (h : Identified E c form t xs party) (hxs : xs ⊆ ys) :
    Identified E c form t ys party := by
  refine h.imp_right ?_
  rintro ⟨hnone, raw, expiry, now, hdecode, htoken, hzero, hnow, hread⟩
  exact ⟨hnone, raw, expiry, now, hdecode, htoken, hzero, hnow, hxs hread⟩

/-- What a grant knows when it has established who is asking. -/
structure Established (E : Platform D) (c : Client) (form : GrantForm D) (t : TicketRow D)
    (xs : Trace (Op D) Res) (party : RequestingParty) : Prop where
  kept : t.requestingParty ≠ "" → party.userID = t.requestingParty
  identified : party.userID ≠ "" → Identified E c form t xs party.userID
  referred : party.userID ≠ "" → (⟨.partyRef party.userID, some (some party.ref)⟩ : Entry D) ∈ xs

theorem Established.mono {party : RequestingParty} (h : Established E c form t xs party)
    (hxs : xs ⊆ ys) : Established E c form t ys party where
  kept := h.kept
  identified hparty := (h.identified hparty).mono hxs
  referred hparty := hxs (h.referred hparty)

def Presents (c : Client) (t : TicketRow D) : Prop :=
  t.orgID = c.orgID ∧ (t.boundClient = "" ∨ t.boundClient = c.clientID)

theorem Presents.bound (h : Presents c t) (hparty : t.requestingParty ≠ "") :
    t.boundClient = c.clientID :=
  h.2.resolve_left fun hnone => hparty (t.identityHasAClient.2 hnone)

/-- Of the statements of a grant, only what it mints is of interest, and that it redeems one
ticket. -/
def Minting (P : Trace (Op D) Res → TicketOrigin → Prop) (xs : Trace (Op D) Res) : Op D → Prop
  | .mint o => P xs o
  | .redeem _ => ∀ d r, (⟨.redeem d, r⟩ : Entry D) ∉ xs
  | .createTicket .. | .beginInteraction _ => False
  | _ => True

variable {P : Trace (Op D) Res → TicketOrigin → Prop}
  {Q : Trace (Op D) Res → Answer D → Prop} {expect : (o : Op D) → Res o → Prop}

theorem claimTokenNeedInfo_holds {why : String}
    (hmint : ∀ ys, Adds [.identifying] xs ys →
      P ys ⟨t.orgID, t.resourceServer, t.permissions, "", "", none⟩) :
    Holds expect (Minting P) (fun ys _ => Adds [.identifying, .minting] xs ys) xs
      (claimTokenNeedInfo E t why) := by
  refine holds_call.2 ⟨hmint xs .refl, fun r _ => ?_⟩
  cases r with
  | none => exact Adds.one (by simp [stage])
  | some next => exact Adds.one (by simp [stage])

theorem needInfo_refused {why : String} {α : Type} {R : Trace (Op D) Res → α → Prop}
    (hmint : ∀ ys, Adds [.identifying] xs ys →
      P ys ⟨t.orgID, t.resourceServer, t.permissions, "", "", none⟩) :
    Holds expect (Minting P)
      (fun ys r => Adds [.identifying, .minting] xs ys ∧ ∀ a, r = .ok a → R ys a) xs
      (claimTokenNeedInfo E t why >>= fun e => pure (.error e : Except (UmaError D) α)) :=
  holds_bind.2 ((claimTokenNeedInfo_holds hmint).mono fun _ _ hys => ⟨hys, fun _ h => nomatch h⟩)

theorem pushedParty_holds {raw subject audience : String} {expiry : ℤ}
    (hnone : t.requestingParty = "") (hdecode : decodeClaimToken form.claimToken = .ok (some raw))
    (htoken : E.idToken raw = some (audience, subject, expiry))
    (hmint : ∀ ys, Adds [.identifying] xs ys →
      P ys ⟨t.orgID, t.resourceServer, t.permissions, "", "", none⟩) :
    Holds expect (Minting P) (fun ys r => Adds [.identifying, .minting] xs ys ∧
        ∀ party, r = .ok party → Established E c form t ys party) xs
      (pushedParty E c t audience subject expiry) := by
  unfold pushedParty
  split
  · exact ⟨.refl, fun _ h => nomatch h⟩
  · rename_i haud
    refine holds_call.2 ⟨trivial, fun now _ => ?_⟩
    have hclock : Adds [.identifying] xs (xs ++ [⟨.timeNow, now⟩]) := .one (by simp [stage])
    have hclock' : Adds [.identifying, .minting] xs (xs ++ [⟨.timeNow, now⟩]) :=
      hclock.mono (by simp)
    split
    · refine (needInfo_refused (R := Established E c form t)
        fun ys hys => hmint ys (hclock.trans hys)).mono fun ys r h => ?_
      exact ⟨hclock'.trans h.1, h.2⟩
    · rename_i hexpiry
      obtain ⟨hzero, hnow⟩ := not_or.1 hexpiry
      refine holds_call.2 ⟨trivial, fun r _ => ?_⟩
      have hread : Adds [.identifying, .minting] xs
          (xs ++ [⟨.timeNow, now⟩] ++ [⟨.partyRef subject, r⟩]) :=
        hclock'.trans (.one (by simp [stage]))
      match r with
      | none | some none => exact ⟨hread, fun _ h => nomatch h⟩
      | some (some ref) =>
        refine ⟨hread, fun party hparty => ?_⟩
        obtain rfl := Except.ok.inj hparty
        refine ⟨fun h => absurd hnone h, fun _ => .inr ⟨hnone, raw, expiry, now, hdecode, ?_,
          hzero, not_lt.1 hnow, by simp⟩, fun _ => by simp⟩
        rw [htoken, not_not.1 haud]

theorem requestingParty_holds (hpresents : Presents c t)
    (hmint : t.requestingParty = "" → ∀ ys, Adds [.identifying] xs ys →
      P ys ⟨t.orgID, t.resourceServer, t.permissions, "", "", none⟩) :
    Holds expect (Minting P) (fun ys r => Adds [.identifying, .minting] xs ys ∧
        ∀ party, r = .ok party → Established E c form t ys party) xs
      (requestingParty E c form t) := by
  unfold requestingParty
  dsimp only
  split
  · exact ⟨.refl, fun _ h => nomatch h⟩
  split
  · rename_i hbound
    split
    · exact ⟨.refl, fun _ h => nomatch h⟩
    refine holds_call.2 ⟨trivial, fun r _ => ?_⟩
    have hread : Adds [.identifying, .minting] xs (xs ++ [⟨.partyRef t.requestingParty, r⟩]) :=
      .one (by simp [stage])
    match r with
    | none | some none => exact ⟨hread, fun _ h => nomatch h⟩
    | some (some ref) =>
      refine ⟨hread, fun party hparty => ?_⟩
      obtain rfl := Except.ok.inj hparty
      exact ⟨fun _ => rfl, fun _ => .inl ⟨rfl, hpresents.bound hbound⟩, fun _ => by simp⟩
  · rename_i hnone
    rw [not_not] at hnone
    split
    · refine ⟨.refl, fun party hparty => ?_⟩
      obtain rfl := Except.ok.inj hparty
      exact ⟨fun h => absurd hnone h, fun h => absurd rfl h, fun h => absurd rfl h⟩
    split
    · exact needInfo_refused (hmint hnone)
    split
    · exact needInfo_refused (hmint hnone)
    · rename_i raw hdecode
      split
      · exact ⟨.refl, fun _ h => nomatch h⟩
      · rename_i audience subject expiry htoken
        obtain ⟨raw, rfl, htoken⟩ := Option.bind_eq_some_iff.1 htoken
        exact pushedParty_holds hnone hdecode htoken (hmint hnone)

def Unsubmitted (e : UmaError D) : Prop := e.code ≠ "request_submitted"

theorem invalidRequest_unsubmitted (why : String) : Unsubmitted (invalidRequest why : UmaError D) :=
  (by decide : "invalid_request" ≠ "request_submitted")

theorem invalidGrant_unsubmitted (why : String) : Unsubmitted (invalidGrant why : UmaError D) :=
  (by decide : "invalid_grant" ≠ "request_submitted")

theorem claimTokenNeedInfo_unsubmitted {why : String} {α : Type} :
    Holds expect (fun _ _ => True) (fun _ r => ∀ e, r = .error e → Unsubmitted e) xs
      (claimTokenNeedInfo E t why >>= fun e => pure (.error e : Except (UmaError D) α)) := by
  refine holds_bind.2 (holds_call.2 ⟨trivial, fun r _ => ?_⟩)
  cases r with
  | none =>
    intro e he
    cases he
    exact invalidGrant_unsubmitted why
  | some next =>
    intro e he
    cases he
    exact (by decide : "need_info" ≠ "request_submitted")

theorem pushedParty_unsubmitted {audience subject : String} {expiry : ℤ} :
    Holds expect (fun _ _ => True) (fun _ r => ∀ e, r = .error e → Unsubmitted e) xs
      (pushedParty E c t audience subject expiry) := by
  have hgrant : ∀ {why : String} {e : UmaError D},
      (.error (invalidGrant why) : Except (UmaError D) RequestingParty) = .error e →
        Unsubmitted e := by
    rintro why e ⟨⟩
    exact invalidGrant_unsubmitted why
  unfold pushedParty
  split
  · exact fun e => hgrant
  · refine holds_call.2 ⟨trivial, fun now _ => ?_⟩
    split
    · exact claimTokenNeedInfo_unsubmitted
    · refine holds_call.2 ⟨trivial, fun r _ => ?_⟩
      rcases r with _ | _ | ref
      · exact fun e => hgrant
      · exact fun e => hgrant
      · exact fun e he => nomatch he

theorem requestingParty_unsubmitted :
    Holds expect (fun _ _ => True) (fun _ r => ∀ e, r = .error e → Unsubmitted e) xs
      (requestingParty E c form t) := by
  have hrequest : ∀ {why : String} {e : UmaError D},
      (.error (invalidRequest why) : Except (UmaError D) RequestingParty) = .error e →
        Unsubmitted e := by
    rintro why e ⟨⟩
    exact invalidRequest_unsubmitted why
  have hgrant : ∀ {why : String} {e : UmaError D},
      (.error (invalidGrant why) : Except (UmaError D) RequestingParty) = .error e →
        Unsubmitted e := by
    rintro why e ⟨⟩
    exact invalidGrant_unsubmitted why
  unfold requestingParty
  dsimp only
  split
  · exact fun e => hrequest
  split
  · split
    · exact fun e => hrequest
    refine holds_call.2 ⟨trivial, fun r _ => ?_⟩
    rcases r with _ | _ | ref
    · exact fun e => hgrant
    · exact fun e => hgrant
    · exact fun e he => nomatch he
  split
  · exact fun e he => nomatch he
  split
  · exact claimTokenNeedInfo_unsubmitted
  split
  · exact claimTokenNeedInfo_unsubmitted
  split
  · exact fun e => hgrant
  · exact pushedParty_unsubmitted

def decided (orgID : String) (subject : String × String) (a : Permission × String) (b : Bool) :
    Entry D :=
  ⟨.decide orgID ⟨subject.1, subject.2, a.1.resourceType, a.1.resourceID, a.2⟩, some b⟩

theorem evaluate_holds {orgID subjectType subjectID : String} (l : List (Permission × String)) :
    Holds expect (Minting P) (fun ys r => Adds [.deciding] xs ys ∧
        (r = some none → ∀ a ∈ l, decided orgID (subjectType, subjectID) a true ∈ ys) ∧
        ∀ o req, (⟨.decide o req, some false⟩ : Entry D) ∈ ys →
          (⟨.decide o req, some false⟩ : Entry D) ∈ xs ∨ ∃ a, r = some (some a))
      xs (evaluate orgID subjectType subjectID l) := by
  induction l generalizing xs with
  | nil => exact ⟨.refl, fun _ a ha => absurd ha not_mem_nil, fun _ _ h => .inl h⟩
  | cons a rest ih =>
    obtain ⟨p, scope⟩ := a
    refine holds_call.2 ⟨trivial, fun r _ => ?_⟩
    have hone : Adds [.deciding] xs (xs ++ [⟨.decide orgID
        ⟨subjectType, subjectID, p.resourceType, p.resourceID, scope⟩, r⟩]) :=
      .one (by simp [stage])
    have hold : ∀ o req, (⟨.decide o req, some false⟩ : Entry D) ∈ xs ++ [⟨.decide orgID
        ⟨subjectType, subjectID, p.resourceType, p.resourceID, scope⟩, r⟩] → r ≠ some false →
        (⟨.decide o req, some false⟩ : Entry D) ∈ xs := by
      intro o req hmem hr
      rcases mem_append.1 hmem with hmem | hmem
      · exact hmem
      · cases mem_singleton.1 hmem
        exact absurd rfl hr
    rcases r with _ | _ | _
    · exact ⟨hone, (fun h => nomatch h), fun o req h => .inl (hold o req h (by simp))⟩
    · exact ⟨hone, (fun h => nomatch h), fun _ _ _ => .inr ⟨(p, scope), rfl⟩⟩
    · refine ih.mono fun ys r h => ⟨hone.trans h.1, fun hr a ha => ?_, fun o req hy => ?_⟩
      · rcases mem_cons.1 ha with rfl | ha
        · exact h.1.subset (by simp [decided])
        · exact h.2.1 hr a ha
      · exact (h.2.2 o req hy).imp_left fun hmem => hold o req hmem (by simp)

/-- What a grant has done when it has asked for its decisions. -/
structure Evaluated (E : Platform D) (c : Client) (form : GrantForm D) (t : TicketRow D)
    (xs ys : Trace (Op D) Res) (party : RequestingParty) : Prop where
  adds : Adds [.identifying, .minting, .deciding] xs ys
  established : Established E c form t ys party

theorem grantRedeemed_holds
    (hmint : t.requestingParty = "" → Presents c t → ∀ ys, Adds [.identifying] xs ys →
      P ys ⟨t.orgID, t.resourceServer, t.permissions, "", "", none⟩)
    (herror : ∀ ys e, Adds [.identifying, .minting] xs ys → Unsubmitted e → Q ys (.uma e))
    (hunavailable : ∀ ys, Adds [.identifying, .minting, .deciding] xs ys → Q ys unavailable)
    (hrefuse : ∀ ys party p scope, Presents c t → Evaluated E c form t xs ys party →
      Holds expect (Minting P) Q ys (refuseUMA E c t party p scope))
    (hissue : ∀ ys party, Presents c t → Evaluated E c form t xs ys party →
      (∀ a ∈ asks t.permissions, decided c.orgID (if party.userID = "" then ("client", c.clientID)
        else ("user", party.ref)) a true ∈ ys) →
      (∀ o req, (⟨.decide o req, some false⟩ : Entry D) ∈ ys →
        (⟨.decide o req, some false⟩ : Entry D) ∈ xs) →
      Holds expect (Minting P) Q ys (issueRPT E c t party)) :
    Holds expect (Minting P) Q xs (grantRedeemed E c form t) := by
  unfold grantRedeemed
  split
  · exact herror xs _ .refl (invalidGrant_unsubmitted _)
  rename_i horg
  split
  · exact herror xs _ .refl (invalidGrant_unsubmitted _)
  rename_i hbound
  have hpresents : Presents c t := by
    refine ⟨not_not.1 horg, ?_⟩
    by_cases h : t.boundClient = ""
    · exact .inl h
    · exact .inr (by_contra fun h' => hbound ⟨h, h'⟩)
  refine holds_bind.2 (((requestingParty_holds hpresents fun h => hmint h hpresents).and
    requestingParty_unsubmitted).mono ?_)
  rintro ys r ⟨⟨hadds, hok⟩, hcode⟩
  match r with
  | .error e => exact herror ys e hadds (hcode e rfl)
  | .ok party =>
    have hadds' : Adds [.identifying, .minting, .deciding] xs ys := hadds.mono (by simp)
    have hparty := hok party rfl
    refine holds_bind.2 ((evaluate_holds (asks t.permissions)).mono ?_)
    rintro zs r ⟨hdecides, hall, hold⟩
    have hadds'' : Adds [.identifying, .minting, .deciding] xs zs :=
      hadds'.trans (hdecides.mono (by simp))
    have hevaluated : Evaluated E c form t xs zs party := ⟨hadds'', hparty.mono hdecides.subset⟩
    match r with
    | none => exact hunavailable zs hadds''
    | some (some (p, scope)) => exact hrefuse zs party p scope hpresents hevaluated
    | some none =>
      refine hissue zs party hpresents hevaluated (hall rfl) fun o req hreq => ?_
      have hbefore := (hold o req hreq).resolve_right fun ⟨_, h⟩ => nomatch h
      exact hadds.mem hbefore (by simp [stage])

theorem handleUMAGrant_holds (herror : ∀ e, Unsubmitted e → Q [] (.uma e))
    (hlost : ∀ d, form.ticket = some d → Q [⟨.redeem d, none⟩] unavailable)
    (hunknown : ∀ d e, form.ticket = some d → Unsubmitted e → Q [⟨.redeem d, some none⟩] (.uma e))
    (hredeemed : ∀ d t, form.ticket = some d → expect (.redeem d) (some (some t)) →
      Holds expect (Minting P) Q [⟨.redeem d, some (some t)⟩] (grantRedeemed E c form t)) :
    Holds expect (Minting P) Q [] (handleUMAGrant E c form) := by
  unfold handleUMAGrant
  split
  · exact herror _ (invalidRequest_unsubmitted _)
  split
  · exact herror _ (invalidRequest_unsubmitted _)
  split
  · exact herror _ (invalidRequest_unsubmitted _)
  · rename_i d hd
    refine holds_call.2 ⟨fun _ _ => not_mem_nil, fun r hr => ?_⟩
    match r with
    | none => exact hlost d hd
    | some none => exact hunknown d _ hd (invalidGrant_unsubmitted _)
    | some (some t) => exact hredeemed d t hd hr

/-- The three ways in which a request is submitted, with the request that is found or recorded. -/
inductive Submits (q : PendingRequest) : Trace (Op D) Res → ℕ → Prop
  | found (row : PendingRow) : Submits q
      [⟨.pendingFor q.orgID q.clientID q.requestingParty q.resourceServer, some (some row)⟩] row.id
  | recorded (id : ℕ) : Submits q
      [⟨.pendingFor q.orgID q.clientID q.requestingParty q.resourceServer, some none⟩,
        ⟨.insertPending q, some id⟩] id
  | lost (row : PendingRow) : Submits q
      [⟨.pendingFor q.orgID q.clientID q.requestingParty q.resourceServer, some none⟩,
        ⟨.insertPending q, none⟩,
        ⟨.pendingFor q.orgID q.clientID q.requestingParty q.resourceServer, some (some row)⟩] row.id

theorem submitRequest_holds {q : PendingRequest} :
    Holds expect (Minting P) (fun ys r => Adds [.submitting] xs ys ∧
        ∀ id, r = some id → ∃ zs, ys = xs ++ zs ∧ Submits q zs id)
      xs (submitRequest q) := by
  refine holds_call.2 ⟨trivial, fun r _ => ?_⟩
  have hlook : Adds [.submitting] xs (xs ++ [⟨.pendingFor q.orgID q.clientID q.requestingParty
      q.resourceServer, r⟩]) := .one (by simp [stage])
  rcases r with _ | _ | row
  · exact ⟨hlook, fun _ h => nomatch h⟩
  · refine holds_call.2 ⟨trivial, fun r _ => ?_⟩
    have hinsert := hlook.trans (Adds.one (x := ⟨.insertPending q, r⟩) (by simp [stage]))
    rcases r with _ | id
    · refine holds_call.2 ⟨trivial, fun r _ => ?_⟩
      have hagain := hinsert.trans (Adds.one (x := ⟨.pendingFor q.orgID q.clientID
        q.requestingParty q.resourceServer, r⟩) (by simp [stage]))
      rcases r with _ | _ | row
      · exact ⟨hagain, fun _ h => nomatch h⟩
      · exact ⟨hagain, fun _ h => nomatch h⟩
      · refine ⟨hagain, fun id h => ?_⟩
        obtain rfl := Option.some.inj h
        exact ⟨_, by simp only [List.append_assoc, cons_append, nil_append], .lost row⟩
    · refine ⟨hinsert, fun id' h => ?_⟩
      obtain rfl := Option.some.inj h
      exact ⟨_, by simp only [List.append_assoc, cons_append, nil_append], .recorded id⟩
  · refine ⟨hlook, fun id h => ?_⟩
    obtain rfl := Option.some.inj h
    exact ⟨_, rfl, .found row⟩

def submission (c : Client) (t : TicketRow D) (party : RequestingParty) : PendingRequest :=
  ⟨c.orgID, t.resourceServer, c.clientID, party.userID, t.permissions⟩

theorem refuseUMA_holds {party : RequestingParty} {p : Permission} {scope : String}
    (hmint : party.userID = "" → P xs ⟨t.orgID, t.resourceServer, t.permissions, "", "", none⟩)
    (hbind : party.userID ≠ "" → ∀ ys id, Adds [.settling, .submitting] xs ys →
      P ys ⟨t.orgID, t.resourceServer, t.permissions, party.userID, c.clientID, some id⟩)
    (hnobody : party.userID = "" → ∀ ys, Adds [.minting] xs ys →
      Q ys unavailable ∧ ∀ e, Unsubmitted e → Q ys (.uma e))
    (hlost : party.userID ≠ "" → ∀ ys, Adds [.settling, .submitting, .minting] xs ys →
      Q ys unavailable)
    (hoff : party.userID ≠ "" → ∀ settings, settings.ownerIntervention = false →
      Q (xs ++ [⟨.loadSettings c.orgID, some settings⟩])
        (.uma (denied ("the requesting party may not " ++ describe p scope))))
    (hon : party.userID ≠ "" → ∀ settings zs id next desc, settings.ownerIntervention = true →
      Submits (submission c t party) zs id →
      Q (xs ++ [⟨.loadSettings c.orgID, some settings⟩] ++ zs ++ [⟨.mint ⟨t.orgID,
          t.resourceServer, t.permissions, party.userID, c.clientID, some id⟩, some next⟩])
        (.uma (submitted next settings.pollInterval desc))) :
    Holds expect (Minting P) Q xs (refuseUMA E c t party p scope) := by
  unfold refuseUMA
  dsimp only
  split
  · rename_i hparty
    unfold refuseUnidentified
    split
    · exact (hnobody hparty xs .refl).2 _ (by decide : "request_denied" ≠ "request_submitted")
    · refine holds_call.2 ⟨hmint hparty, fun r _ => ?_⟩
      cases r with
      | none => exact (hnobody hparty _ (.one (by simp [stage]))).1
      | some next =>
        exact (hnobody hparty _ (.one (by simp [stage]))).2 _
          (by decide : "need_info" ≠ "request_submitted")
  · rename_i hparty
    refine holds_call.2 ⟨trivial, fun r _ => ?_⟩
    have hload : Adds [.settling, .submitting] xs (xs ++ [⟨.loadSettings c.orgID, r⟩]) :=
      .one (by simp [stage])
    rcases r with _ | settings
    · exact hlost hparty _ (hload.mono (by simp))
    · dsimp only
      split
      · rename_i hset
        exact hoff hparty settings (by simpa using hset)
      · rename_i hset
        refine holds_bind.2 (submitRequest_holds.mono ?_)
        rintro ys r ⟨hadds, hsub⟩
        have hys : Adds [.settling, .submitting] xs ys := hload.trans (hadds.mono (by simp))
        rcases r with _ | id
        · exact hlost hparty ys (hys.mono (by simp))
        · refine holds_call.2 ⟨hbind hparty ys id hys, fun r _ => ?_⟩
          obtain ⟨zs, rfl, hzs⟩ := hsub id rfl
          rcases r with _ | next
          · exact hlost hparty _ ((hys.mono (by simp)).trans (.one (by simp [stage])))
          · exact hon hparty settings zs id next _ (by simpa using hset) hzs

/-- A token for a ticket, on behalf of a party. -/
structure IssuedTo (c : Client) (t : TicketRow D) (party : String) (rpt : AccessTokenClaims) :
    Prop where
  subject : rpt.subject = if party = "" then c.clientID else party
  audience : rpt.audience = [t.resourceServer]
  clientID : rpt.clientID = c.clientID
  scope : rpt.scope = GoStrings.join (scopes t.permissions) " "

theorem issueRPT_holds {party : RequestingParty}
    (hunavailable : ∀ ys, Adds [.identifying, .issuing] xs ys → Q ys unavailable)
    (hgranted : ∀ ys rpt, Adds [.identifying, .issuing] xs ys → IssuedTo c t party.userID rpt →
      Q ys (.granted rpt defaultAccessTokenTTL party.userID)) :
    Holds expect (Minting P) Q xs (issueRPT E c t party) := by
  unfold issueRPT
  refine holds_call.2 ⟨trivial, fun r _ => ?_⟩
  have hkey : Adds [.identifying, .issuing] xs (xs ++ [⟨.activeKey, r⟩]) := .one (by simp [stage])
  cases r with
  | none => exact hunavailable _ hkey
  | some _ =>
    refine holds_call.2 ⟨trivial, fun now _ => holds_call.2 ⟨trivial, fun r _ => ?_⟩⟩
    have hsid := (hkey.trans (.one (x := ⟨.timeNow, now⟩) (by simp [stage]))).trans
      (.one (x := ⟨.newSID, r⟩) (by simp [stage]))
    cases r with
    | none => exact hunavailable _ hsid
    | some jti =>
      refine holds_call.2 ⟨trivial, fun r _ => ?_⟩
      have hsign := hsid.trans (.one (x := ⟨.signJSON _, r⟩) (by simp [stage]))
      cases r with
      | none => exact hunavailable _ hsign
      | some _ => exact hgranted _ _ hsign ⟨rfl, rfl, rfl, rfl⟩

def Opens (q : ClaimsQuery D) (xs : Trace (Op D) Res) (i : Interaction D) : Prop :=
  ∃ c t org, q.ticket = some i.ticketHash ∧
    (⟨.lookupClient q.clientID, some (some c)⟩ : Entry D) ∈ xs ∧ i.clientID = c.clientID ∧
    (⟨.inspect i.ticketHash, some (some t)⟩ : Entry D) ∈ xs ∧
    q.session = some (i.requestingParty, org)

/-- A confirmation mints for who is signed in, from the interaction that it spends. -/
def Confirms (form : ClaimsForm D) (xs : Trace (Op D) Res) (o : TicketOrigin) : Prop :=
  ∃ handle org i t, form.csrf = true ∧ form.session = some (o.requestingParty, org) ∧
    form.handle = some handle ∧
    (⟨.consume handle o.requestingParty, some (some i)⟩ : Entry D) ∈ xs ∧
    (⟨.redeem i.ticketHash, some (some t)⟩ : Entry D) ∈ xs ∧
    o.permissions = t.permissions ∧ o.boundClient = i.clientID ∧ o.pendingRequest = none

def NoToken (a : Answer D) : Prop := ∀ rpt ttl party, a ≠ .granted rpt ttl party

def Opening (q : ClaimsQuery D) (xs : Trace (Op D) Res) : Op D → Prop
  | .beginInteraction i => Opens q xs i
  | .mint _ | .redeem _ | .createTicket .. => False
  | _ => True

theorem beginUMAClaims_holds {q : ClaimsQuery D} :
    Holds expect (Opening q) (fun _ a => NoToken a) [] (beginUMAClaims q) := by
  have hno : ∀ title detail : String, NoToken (.claimsError title detail : Answer D) :=
    fun _ _ _ _ _ h => by cases h
  unfold beginUMAClaims
  split
  · exact hno _ _
  rename_i ticket hticket
  split
  · exact hno _ _
  refine holds_call.2 ⟨trivial, fun r _ => ?_⟩
  rcases r with _ | _ | c
  · exact hno _ _
  · exact hno _ _
  dsimp only
  split
  · exact hno _ _
  split
  · exact hno _ _
  refine holds_call.2 ⟨trivial, fun r _ => ?_⟩
  rcases r with _ | _ | t
  · exact hno _ _
  · exact hno _ _
  dsimp only
  split
  · exact hno _ _
  split
  · exact fun _ _ _ h => by cases h
  rename_i userID orgID hsession
  split
  · exact hno _ _
  refine holds_call.2 ⟨⟨c, t, orgID, hticket, by simp, rfl, by simp, hsession⟩, fun r _ => ?_⟩
  rcases r with _ | handle
  · exact hno _ _
  refine holds_call.2 ⟨trivial, fun r _ => ?_⟩
  rcases r with _ | csrf
  · exact hno _ _
  · exact fun _ _ _ h => by cases h

theorem finishUMAClaims_holds {form : ClaimsForm D} :
    Holds expect (Minting (Confirms form)) (fun _ a => NoToken a) [] (finishUMAClaims E form) := by
  have hno : ∀ title detail : String, NoToken (.claimsError title detail : Answer D) :=
    fun _ _ _ _ _ h => by cases h
  unfold finishUMAClaims
  split
  · exact hno _ _
  split
  · exact hno _ _
  rename_i hcsrf
  split
  · exact hno _ _
  rename_i userID org hsession
  split
  · exact hno _ _
  rename_i handle hhandle
  refine holds_call.2 ⟨trivial, fun r _ => ?_⟩
  rcases r with _ | _ | i
  · exact hno _ _
  · exact hno _ _
  refine holds_call.2 ⟨fun d r h => by simp at h, fun r _ => ?_⟩
  rcases r with _ | _ | t
  · exact hno _ _
  · exact hno _ _
  refine holds_call.2 ⟨⟨handle, org, i, t, by simpa using hcsrf, hsession, hhandle, by simp,
    by simp, rfl, rfl, rfl⟩, fun r _ => ?_⟩
  rcases r with _ | next
  · exact hno _ _
  dsimp only
  split
  · exact hno _ _
  · exact fun _ _ _ h => by cases h

/-- A statement that neither mints or redeems a ticket nor opens an interaction. -/
def Plain (_ : Trace (Op D) Res) : Op D → Prop
  | .mint _ | .redeem _ | .beginInteraction _ => False
  | _ => True

theorem handleUMAPermission_holds {r : PermissionRequest} :
    Holds expect (Plain (D := D)) (fun _ a => NoToken a) [] (handleUMAPermission r) := by
  unfold handleUMAPermission
  split
  · exact fun _ _ _ h => by cases h
  refine holds_call.2 ⟨trivial, fun r _ => ?_⟩
  rcases r with _ | _ | c
  · exact fun _ _ _ h => by cases h
  · exact fun _ _ _ h => by cases h
  dsimp only
  split
  · exact fun _ _ _ h => by cases h
  split
  · exact fun _ _ _ h => by cases h
  split
  · exact fun _ _ _ h => by cases h
  refine holds_call.2 ⟨trivial, fun r _ => ?_⟩
  rcases r with _ | ticket
  · exact fun _ _ _ h => by cases h
  · exact fun _ _ _ h => by cases h

/-- An approval grants a relation that the model has for every scope of the undecided request, to
its person. -/
def Approving (xs : Trace (Op D) Res) : Op D → Prop
  | .approve p who relation => ∃ id email model,
      (⟨.pendingByID id, some (some (p, email))⟩ : Entry D) ∈ xs ∧ p.state = .pending ∧
      (⟨.loadModel p.orgID, some (some model)⟩ : Entry D) ∈ xs ∧
      relation ∈ candidateRelations model p.permissions ∧
      who = if email = "" then p.requestingParty else email
  | o => Plain xs o

theorem Approving.plain {xs : Trace (Op D) Res} {o : Op D} (h : Approving xs o) : Plain xs o := by
  cases o with
  | approve => trivial
  | _ => exact h

theorem umaApprove_holds {requestID : Option ℕ} {relation : String} :
    Holds expect (Approving (D := D)) (fun _ a => NoToken a) []
      (umaApprove requestID relation) := by
  unfold umaApprove
  split
  · exact fun _ _ _ h => nomatch h
  refine holds_call.2 ⟨trivial, fun r _ => ?_⟩
  rcases r with _ | _ | ⟨p, email⟩
  · exact fun _ _ _ h => nomatch h
  · exact fun _ _ _ h => nomatch h
  dsimp only
  split
  · exact fun _ _ _ h => nomatch h
  rename_i hstate
  refine holds_call.2 ⟨trivial, fun r _ => ?_⟩
  rcases r with _ | _ | model
  · exact fun _ _ _ h => nomatch h
  · exact fun _ _ _ h => nomatch h
  unfold approveWith
  dsimp only
  split
  · split <;> exact fun _ _ _ h => nomatch h
  split
  · split <;> exact fun _ _ _ h => nomatch h
  rename_i hcontains
  refine holds_call.2 ⟨⟨_, email, model, by simp; rfl, not_not.1 hstate, by simp, ?_, rfl⟩,
    fun r _ => ?_⟩
  · simpa using hcontains
  · rcases r with _ | _ <;> exact fun _ _ _ h => nomatch h

theorem umaDeny_holds {requestID : Option ℕ} :
    Holds expect (Plain (D := D)) (fun _ a => NoToken a) [] (umaDeny requestID) := by
  unfold umaDeny
  split
  · exact fun _ _ _ h => nomatch h
  refine holds_call.2 ⟨trivial, fun r _ => ?_⟩
  rcases r with _ | _ | _ <;> exact fun _ _ _ h => nomatch h

end Signari.UmaTraces
