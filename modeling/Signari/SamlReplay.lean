import Signari.FederatedSignIn
import Signari.SamlConditions
import Signari.StatementPrograms

/-!
# Spent assertions and answered requests

`handleSAMLSourceStart` and `handleSAMLSourceACS` of `internal/httpapi/samlsource.go` as handlers
that run at once, with the statements of `internal/store/samlsource.go` they issue and the sweep
`PurgeSAMLSourceState`. Server and database read one clock, which never goes back; the database
keeps whole microseconds.

A response is accepted until its expiry and at most five minutes more, and it is recorded within 55
minutes of that. The sweep drops a record an hour after the same expiry, so that no accepted
response finds its own record gone: `spent_once`. The record is known by the identifier alone, and
an identifier may come back with a later expiry once the hour has passed.
-/
namespace Signari.SamlReplay
open FederatedSignIn GoStrings GoTime IndexedChecks LabelledRuns SamlInbound StatementPrograms List
open XmlTrees
open Prog

section

/-- How a statement ends: with its result, or with an error, whether it has taken effect or not. -/
inductive Outcome (α : Type) where
  | ok (a : α)
  | error (effect : Option α)

def Outcome.effect {α : Type} : Outcome α → Option α
  | .ok a => some a
  | .error effect => effect

/-- A row of `saml_source_requests`. The rows are numbered in the order in which they were inserted,
so that a request is told from a later one with the same identifier. -/
structure Request where
  number : ℕ
  id : String
  providerID : String
  relayState : String
  returnPath : String
  expiresAt : ℤ
  consumedAt : Option ℤ := none

inductive Op
  | loadSource (slug : String)
  | recordRequest (id providerID relayState returnPath : String)
  | consumeRequest (relayState : String)
  | now
  | recordAssertion (providerID assertionID : String) (expires : ℤ)

/-- What a statement leads to. An insertion leads to the number of the row, where there was no
conflict; that of an assertion to whether it was new, with the time of the insertion. -/
@[reducible] def Res : Op → Type
  | .loadSource _ => Option SamlSource
  | .recordRequest .. => Outcome (Option ℕ)
  | .consumeRequest _ => Outcome (Option Request)
  | .now => ℤ
  | .recordAssertion .. => Outcome (ℤ × Bool)

inductive Answer where
  | notFound
  | refused (reason : String)
  | redirected
  | completed (src : SamlSource) (assertion : InboundAssertion) (pending : Option Request)

abbrev Handler (α : Type) := Prog Op Res α

abbrev query (o : Op) : Handler (Res o) := call o

/-- A request to `/saml/source/{slug}/start`, with the identifier and the relay state that are drawn
for it, if drawing them does not fail. -/
structure StartRequest where
  slug : String
  returnPath : String := ""
  drawn : Option (String × String)

def recordAndRedirect (src : SamlSource) (returnPath id relay : String) : Handler Answer := do
  match ← query (.recordRequest id src.providerID relay returnPath) with
  | .ok (some _) => pure .redirected
  | _ => pure (.refused "Something went wrong. Please try again.")

def handleSAMLSourceStart (i : StartRequest) : Handler Answer := do
  match ← query (.loadSource i.slug) with
  | none => pure .notFound
  | some src =>
    match i.drawn with
    | none => pure (.refused "Something went wrong. Please try again.")
    | some (id, relay) =>
      if src.ssoURL = "" ∨ src.provider.spEntityID = "" ∨ src.acsURL = "" then
        pure (.refused "That sign-in method is not configured correctly.")
      else recordAndRedirect src i.returnPath id relay

/-- A post to `/saml/source/{slug}/acs`; `response` is the decoded form value. -/
structure AcsPost where
  slug : String
  response : Option (List UInt8)
  relayState : String

variable {Cert : Type} (L : Library Cert)

def spendAssertion (src : SamlSource) (pending : Option Request) (a : InboundAssertion) :
    Handler Answer :=
  if equalFold a.subjectFormat nameIDFormatTransient then
    pure (.refused "That sign-in method is not configured correctly.")
  else do
    match ← query (.recordAssertion src.providerID a.assertionID a.notOnOrAfter) with
    | .ok (_, true) => pure (.completed src a pending)
    | _ => pure (.refused "That sign-in could not be completed.")

/-- The handler once the outstanding request is claimed, or there is none to claim. -/
def finishACS (src : SamlSource) (raw : List UInt8) (pending : Option Request) :
    Handler Answer := do
  let now ← query .now
  match consumeResponse L raw src.provider
      ⟨(pending.map Request.id).getD "", src.acsURL, now⟩ with
  | .error _ => pure (.refused "That sign-in could not be completed.")
  | .ok a => spendAssertion src pending a

def claimRequest (src : SamlSource) (raw : List UInt8) (relayState : String) : Handler Answer := do
  match ← query (.consumeRequest relayState) with
  | .ok (some pending) =>
    if pending.providerID ≠ src.providerID then
      pure (.refused "That sign-in could not be completed.")
    else finishACS L src raw (some pending)
  | _ => pure (.refused "That sign-in has expired. Please try again.")

def handleSAMLSourceACS (i : AcsPost) : Handler Answer := do
  match ← query (.loadSource i.slug) with
  | none => pure .notFound
  | some src =>
    match i.response with
    | none => pure (.refused "That sign-in could not be completed.")
    | some raw =>
      if i.relayState = "" then finishACS L src raw none
      else claimRequest L src raw i.relayState

inductive Req where
  | start (i : StartRequest)
  | acs (i : AcsPost)

def handle : Req → Handler Answer
  | .start i => handleSAMLSourceStart i
  | .acs i => handleSAMLSourceACS L i

end

section

def requestTTL : ℤ := micros samlSourceRequestTTL

/-- The hour for which a record outlives its expiry. -/
def grace : ℤ := 3600 * 1000000

/-- A row of `saml_source_assertions`. -/
structure Spent where
  providerID : String
  assertionID : String
  expiresAt : ℤ

structure Tables where
  clock : ℤ
  inserted : ℕ := 0
  requests : List Request := []
  assertions : List Spent := []

namespace Tables

/-- The identifier is the primary key, and the relay state is unique. -/
def insertRequest (s : Tables) (now : ℤ) (id providerID relayState returnPath : String) :
    Option ℕ × Tables :=
  if s.requests.any fun r => r.id = id ∨ r.relayState = relayState then (none, s)
  else (some s.inserted, { s with
    inserted := s.inserted + 1
    requests := ⟨s.inserted, id, providerID, relayState, returnPath, now + requestTTL, none⟩ ::
      s.requests })

/-- What `WHERE` asks of a row for it to be claimed. -/
def Claimable (relayState : String) (now : ℤ) (r : Request) : Prop :=
  r.relayState = relayState ∧ r.consumedAt = none ∧ now < r.expiresAt

instance (relayState : String) (now : ℤ) : DecidablePred (Claimable relayState now) := fun _ =>
  inferInstanceAs (Decidable (_ ∧ _ ∧ _))

def consume (relayState : String) (now : ℤ) (r : Request) : Request :=
  if Claimable relayState now r then { r with consumedAt := some now } else r

def claim (s : Tables) (now : ℤ) (relayState : String) : Option Request × Tables :=
  (s.requests.find? fun r => Claimable relayState now r,
    { s with requests := s.requests.map (consume relayState now) })

/-- The provider and the identifier are the primary key; on a conflict nothing happens. -/
def spend (s : Tables) (providerID assertionID : String) (expires : ℤ) : Bool × Tables :=
  if s.assertions.any fun a => a.providerID = providerID ∧ a.assertionID = assertionID then
    (false, s)
  else (true, { s with assertions := ⟨providerID, assertionID, micros expires⟩ :: s.assertions })

/-- A sweep whose transaction began at `start` deletes what its statements have seen and what had
been over for an hour then. -/
def purge (s : Tables) (start : ℤ) (seen : Request → Bool) (seenSpent : Spent → Bool) : Tables :=
  { s with
    requests := s.requests.filter fun r => ¬ (r.expiresAt < micros start - grace ∧ seen r)
    assertions :=
      s.assertions.filter fun a => ¬ (a.expiresAt < micros start - grace ∧ seenSpent a) }

end Tables

/-- A statement that would lead to `a` and to other tables. -/
inductive Ends {α : Type} (a : α) (s s' : Tables) : Outcome α → Tables → Prop
  | ok : Ends a s s' (.ok a) s'
  | lost : Ends a s s' (.error (some a)) s'
  | failed : Ends a s s' (.error none) s

/-- What `now()` is in a statement is the time at which it began. -/
inductive Exec : Tables → (o : Op) → Res o → Tables → Prop
  | loadSource {s : Tables} {slug : String} (src : Option SamlSource) :
      Exec s (.loadSource slug) src s
  | recordRequest {s t : Tables} {id providerID relayState returnPath : String} {began : ℤ}
      {out : Outcome (Option ℕ)} : began ≤ s.clock →
      Ends (s.insertRequest (micros began) id providerID relayState returnPath).1 s
        (s.insertRequest (micros began) id providerID relayState returnPath).2 out t →
      Exec s (.recordRequest id providerID relayState returnPath) out t
  | consumeRequest {s t : Tables} {relayState : String} {began : ℤ}
      {out : Outcome (Option Request)} : began ≤ s.clock →
      Ends (s.claim (micros began) relayState).1 s (s.claim (micros began) relayState).2 out t →
      Exec s (.consumeRequest relayState) out t
  | now {s : Tables} : Exec s .now s.clock s
  | recordAssertion {s t : Tables} {providerID assertionID : String} {expires : ℤ}
      {out : Outcome (ℤ × Bool)} :
      Ends (s.clock, (s.spend providerID assertionID expires).1) s
        (s.spend providerID assertionID expires).2 out t →
      Exec s (.recordAssertion providerID assertionID expires) out t

inductive Env where
  | tick (later : ℤ)
  | purge (start : ℤ) (seen : Request → Bool) (seenSpent : Spent → Bool)

inductive Changes : Tables → Env → Tables → Prop
  | tick {s : Tables} {later : ℤ} : s.clock ≤ later →
      Changes s (.tick later) { s with clock := later }
  | purge {s : Tables} {start : ℤ} {seen : Request → Bool} {seenSpent : Spent → Bool} :
      start ≤ s.clock → Changes s (.purge start seen seenSpent) (s.purge start seen seenSpent)

abbrev Ev := Event Op Res Req Answer Env

abbrev World := Pool Op Res Answer Tables

variable {Cert : Type} (L : Library Cert)

abbrev SourceRun (start : ℤ) (es : List Ev) (w : World) : Prop :=
  Run (Step (handle L) Exec Changes) (Pool.start { clock := start }) es w

end

/-- The number and the provider of a request that a statement has inserted. -/
def issuedBy : Ev → Option (ℕ × String)
  | .ran _ (.recordRequest _ providerID _ _) out => out.effect.join.map (·, providerID)
  | _ => none

def claimedBy : Ev → Option (ℕ × Request)
  | .ran k (.consumeRequest _) out => out.effect.join.map (k, ·)
  | _ => none

/-- An assertion that was recorded, with the post that it came in and the time of recording. -/
structure Spending where
  post : ℕ
  providerID : String
  assertionID : String
  expires : ℤ
  recorded : ℤ

def spentBy : Ev → Option Spending
  | .ran k (.recordAssertion providerID assertionID expires) out =>
    out.effect.bind fun (recorded, new) =>
      if new then some ⟨k, providerID, assertionID, expires, recorded⟩ else none
  | _ => none

def issued (es : List Ev) : List (ℕ × String) := es.filterMap issuedBy

def claims (es : List Ev) : List (ℕ × Request) := es.filterMap claimedBy

def spendings (es : List Ev) : List Spending := es.filterMap spentBy

/-- A post records an assertion within 55 minutes of the check that accepted it. -/
def Prompt (es : List Ev) : Prop :=
  ∀ x ∈ spendings es, ∀ now, .ran x.post .now now ∈ es → x.recorded ≤ now + 55 * 60 * nanosPerSecond

/-- The second of two spendings comes more than an hour after the expiry of the first. -/
def Over (x y : Spending) : Prop :=
  micros x.expires + grace < micros y.recorded

/-- The spending of a sign-in. -/
structure SpentIn (es : List Ev) (k : ℕ) (src : SamlSource) (a : InboundAssertion)
    (x : Spending) : Prop where
  mem : x ∈ spendings es
  post : x.post = k
  providerID : x.providerID = src.providerID
  assertionID : x.assertionID = a.assertionID
  expires : x.expires = a.notOnOrAfter
  soon : ¬ Over x x

/-- An assertion identifier signs in again only when the assertion that it signed in with before has
been over for an hour, and no request signs in twice. A request signs in at the provider that it was
sent to. -/
structure SpentOnce (es : List Ev) : Prop where
  assertion : ∀ j k src src' a a' pending pending', .answered j (.completed src a pending) ∈ es →
    .answered k (.completed src' a' pending') ∈ es → src.providerID = src'.providerID →
    a.assertionID = a'.assertionID →
    ∃ x y, SpentIn es j src a x ∧ SpentIn es k src' a' y ∧ (j = k ∨ Over x y ∨ Over y x)
  request : ∀ j k src src' a a' r r', .answered j (.completed src a (some r)) ∈ es →
    .answered k (.completed src' a' (some r')) ∈ es → r.number = r'.number → j = k
  provider : ∀ k src a r, .answered k (.completed src a (some r)) ∈ es →
    (r.number, src.providerID) ∈ issued es ∧
      ∀ providerID, (r.number, providerID) ∈ issued es → providerID = src.providerID

section

variable {Cert : Type} {L : Library Cert} {raw : List UInt8} {p : InboundProvider}
  {opt : ConsumeOptions} {a : InboundAssertion}

theorem clampSkew_le (s : ℤ) : clampSkew s ≤ 5 * 60 * nanosPerSecond := by
  unfold clampSkew
  split_ifs with hs hlong
  · decide
  · exact le_rfl
  · exact not_lt.mp hlong

theorem adoptEmail_notOnOrAfter : (adoptEmail a).notOnOrAfter = a.notOnOrAfter := by
  unfold adoptEmail
  split_ifs <;> rfl

theorem consumeResponse_later (h : consumeResponse L raw p opt = .ok a) :
    opt.now < a.notOnOrAfter + 5 * 60 * nanosPerSecond := by
  simp only [consumeResponse, bind_ok, refuseIf_ok, mapError_ok, orError_ok, exists_and_left,
    exists_const] at h
  obtain ⟨-, -, -, doc, -, root, -, -, -, -, assertion, -, -, A, -, _, -, _, -, -, -, t,
    hconditions, hresult⟩ := h
  obtain ⟨cond, u, hchecked⟩ := SamlConditions.checkConditions_checked hconditions
  simp only [readAssertion, bind_ok, refuseIf_ok, exists_and_left, exists_const,
    Except.ok.injEq] at hresult
  obtain ⟨-, rfl⟩ := hresult
  have hsame : ((A.findAll ["AttributeStatement", "Attribute"]).foldl readAttribute
      (readSubject A (assertion.attrValue "ID") t)).notOnOrAfter = t :=
    (gathered (Inside.here (t := A))).notOnOrAfter
  have hlater := hchecked.later
  have hskew := clampSkew_le p.skewSeconds
  rw [adoptEmail_notOnOrAfter, hsame]
  omega

end

section

variable {s t : Tables} {es : List Ev} {e : Ev} {o : Op} {r : Res o} {k : ℕ}

/-- A recorded assertion is in the table, or it has been over for more than an hour. -/
def Kept (s : Tables) (x : Spending) : Prop :=
  ⟨x.providerID, x.assertionID, micros x.expires⟩ ∈ s.assertions ∨
    micros x.expires + grace < micros s.clock

/-- Of two spendings of one identifier the later one comes more than an hour after the expiry of the
earlier. -/
def Apart (x y : Spending) : Prop :=
  x.providerID = y.providerID → x.assertionID = y.assertionID → Over x y

structure Inv (es : List Ev) (s : Tables) : Prop where
  kept : ∀ x ∈ spendings es, Kept s x
  apart : (spendings es).Pairwise Apart
  numbered : (issued es).map Prod.fst = List.range s.inserted
  sent : ∀ r ∈ s.requests, (r.number, r.providerID) ∈ issued es
  unique : (s.requests.map Request.number).Nodup
  claimed : ∀ c ∈ claims es, (c.2.number, c.2.providerID) ∈ issued es ∧
    ∀ r ∈ s.requests, r.number = c.2.number → r.consumedAt ≠ none
  once : ((claims es).map fun c => c.2.number).Nodup

@[simp] theorem issued_snoc : issued (es ++ [e]) = issued es ++ (issuedBy e).toList := by
  cases h : issuedBy e <;> simp [issued, h]

@[simp] theorem claims_snoc : claims (es ++ [e]) = claims es ++ (claimedBy e).toList := by
  cases h : claimedBy e <;> simp [claims, h]

@[simp] theorem spendings_snoc : spendings (es ++ [e]) = spendings es ++ (spentBy e).toList := by
  cases h : spentBy e <;> simp [spendings, h]

theorem inv_start (clock : ℤ) : Inv [] { clock } where
  kept _ h := nomatch h
  apart := .nil
  numbered := rfl
  sent _ h := nomatch h
  unique := nodup_nil
  claimed _ h := nomatch h
  once := nodup_nil

/-- Time has passed, and what has left the table of assertions was over for an hour. -/
structure Ages (s t : Tables) : Prop where
  clock : s.clock ≤ t.clock
  rows : ∀ a ∈ s.assertions, a ∈ t.assertions ∨ a.expiresAt + grace < micros t.clock

theorem Ages.refl (s : Tables) : Ages s s := ⟨le_rfl, fun _ ha => .inl ha⟩

theorem Kept.ages {x : Spending} (h : Kept s x) (hages : Ages s t) : Kept t x := by
  rcases h with hrow | hover
  · exact hages.rows _ hrow
  · exact .inr (hover.trans_le (micros_mono hages.clock))

theorem Inv.quiet (h : Inv es s) (hages : Ages s t) (hrequests : t.requests.Sublist s.requests)
    (hinserted : t.inserted = s.inserted) (hissued : issuedBy e = none)
    (hclaimed : claimedBy e = none) (hspent : spentBy e = none) : Inv (es ++ [e]) t where
  kept x hx := by
    rw [spendings_snoc, hspent, Option.toList_none, append_nil] at hx
    exact (h.kept x hx).ages hages
  apart := by simpa [hspent] using h.apart
  numbered := by simpa [hissued, hinserted] using h.numbered
  sent r hr := by simpa [hissued] using h.sent r (hrequests.subset hr)
  unique := (hrequests.map _).nodup h.unique
  claimed c hc := by
    rw [claims_snoc, hclaimed, Option.toList_none, append_nil] at hc
    refine ⟨by simpa [hissued] using (h.claimed c hc).1, fun r hr => ?_⟩
    exact (h.claimed c hc).2 r (hrequests.subset hr)
  once := by simpa [hclaimed] using h.once

theorem Inv.below (h : Inv es s) {n : ℕ} {providerID : String}
    (hmem : (n, providerID) ∈ issued es) :
    n < s.inserted := by
  have hn : n ∈ (issued es).map Prod.fst := mem_map_of_mem hmem
  rw [h.numbered] at hn
  exact mem_range.mp hn

theorem Inv.issued_unique (h : Inv es s) {n : ℕ} {p q : String} (hp : (n, p) ∈ issued es)
    (hq : (n, q) ∈ issued es) : p = q := by
  have hnodup : ((issued es).map Prod.fst).Nodup := h.numbered ▸ nodup_range
  exact congrArg Prod.snd (inj_on_of_nodup_map hnodup hp hq rfl)

theorem Inv.insert (h : Inv es s) {row : Request} (hnumber : row.number = s.inserted)
    (hissued : issuedBy e = some (s.inserted, row.providerID)) (hclaimed : claimedBy e = none)
    (hspent : spentBy e = none) : Inv (es ++ [e])
      { s with inserted := s.inserted + 1, requests := row :: s.requests } where
  kept x hx := by
    rw [spendings_snoc, hspent, Option.toList_none, append_nil] at hx
    exact h.kept x hx
  apart := by simpa [hspent] using h.apart
  numbered := by simp [hissued, h.numbered, range_succ]
  sent r hr := by
    rw [issued_snoc, hissued]
    obtain rfl | hr := mem_cons.mp hr
    · exact mem_append_right _ (mem_singleton.mpr (by rw [hnumber]))
    · exact mem_append_left _ (h.sent r hr)
  unique := by
    refine nodup_cons.mpr ⟨fun hmem => ?_, h.unique⟩
    obtain ⟨r, hr, hsame⟩ := mem_map.mp hmem
    exact absurd (h.below (h.sent r hr)) (by omega)
  claimed c hc := by
    rw [claims_snoc, hclaimed, Option.toList_none, append_nil] at hc
    obtain ⟨hissued', hconsumed⟩ := h.claimed c hc
    refine ⟨by rw [issued_snoc]; exact mem_append_left _ hissued', fun r hr hsame => ?_⟩
    obtain rfl | hr := mem_cons.mp hr
    · exact absurd (h.below hissued') (by omega)
    · exact hconsumed r hr hsame
  once := by simpa [hclaimed] using h.once

@[simp] theorem number_consume {relayState : String} {now : ℤ} {r : Request} :
    (Tables.consume relayState now r).number = r.number := by
  unfold Tables.consume
  split_ifs <;> rfl

@[simp] theorem providerID_consume {relayState : String} {now : ℤ} {r : Request} :
    (Tables.consume relayState now r).providerID = r.providerID := by
  unfold Tables.consume
  split_ifs <;> rfl

theorem consumedAt_consume {relayState : String} {now : ℤ} {r : Request}
    (h : r.consumedAt ≠ none ∨ Tables.Claimable relayState now r) :
    (Tables.consume relayState now r).consumedAt ≠ none := by
  unfold Tables.consume
  split_ifs with hclaimable
  · exact Option.some_ne_none _
  · exact h.resolve_right hclaimable

theorem Inv.claim (h : Inv es s) {relayState : String} {now : ℤ} {found : Request}
    (hfound : (s.claim now relayState).1 = some found) (hissued : issuedBy e = none)
    (hclaimed : claimedBy e = some (k, found)) (hspent : spentBy e = none) :
    Inv (es ++ [e]) (s.claim now relayState).2 := by
  have hmem : found ∈ s.requests := mem_of_find?_eq_some hfound
  have hopen : Tables.Claimable relayState now found := by simpa using find?_some hfound
  have hfresh : ∀ c ∈ claims es, c.2.number ≠ found.number := fun c hc hsame =>
    (h.claimed c hc).2 found hmem hsame.symm hopen.2.1
  have hnumbers : (s.claim now relayState).2.requests.map Request.number =
      s.requests.map Request.number := by simp [Tables.claim]
  refine ⟨fun x hx => ?_, by simpa [hspent] using h.apart, ?_, fun r hr => ?_, hnumbers ▸ h.unique,
    fun c hc => ?_, ?_⟩
  · rw [spendings_snoc, hspent, Option.toList_none, append_nil] at hx
    exact h.kept x hx
  · change _ = List.range s.inserted
    simpa [hissued] using h.numbered
  · obtain ⟨q, hq, rfl⟩ := mem_map.mp hr
    simpa [hissued] using h.sent q hq
  · rw [claims_snoc, hclaimed] at hc
    rw [issued_snoc, hissued, Option.toList_none, append_nil]
    rcases mem_append.mp hc with hc | hc
    · refine ⟨(h.claimed c hc).1, fun r hr hsame => ?_⟩
      obtain ⟨q, hq, rfl⟩ := mem_map.mp hr
      rw [number_consume] at hsame
      exact consumedAt_consume (.inl ((h.claimed c hc).2 q hq hsame))
    · obtain rfl := mem_singleton.mp hc
      refine ⟨h.sent found hmem, fun r hr hsame => ?_⟩
      obtain ⟨q, hq, rfl⟩ := mem_map.mp hr
      rw [number_consume] at hsame
      obtain rfl := inj_on_of_nodup_map h.unique hq hmem hsame
      exact consumedAt_consume (.inr hopen)
  · rw [claims_snoc, hclaimed, map_append]
    refine List.nodup_append.mpr ⟨h.once, nodup_singleton _, ?_⟩
    rintro n hn m hm rfl
    obtain ⟨c, hc, rfl⟩ := mem_map.mp hn
    exact hfresh c hc (mem_singleton.mp hm)

theorem Inv.spend (h : Inv es s) {x : Spending} (hnow : x.recorded = s.clock)
    (hnew : (s.spend x.providerID x.assertionID x.expires).1 = true) (hissued : issuedBy e = none)
    (hclaimed : claimedBy e = none) (hspent : spentBy e = some x) :
    Inv (es ++ [e]) (s.spend x.providerID x.assertionID x.expires).2 := by
  unfold Tables.spend at hnew ⊢
  split_ifs at hnew ⊢ with hrow
  simp only [any_eq_true, decide_eq_true_eq, not_exists, not_and] at hrow
  refine ⟨fun y hy => ?_, ?_, by simpa [hissued] using h.numbered, fun r hr => ?_, h.unique,
    fun c hc => ?_, by simpa [hclaimed] using h.once⟩
  · rw [spendings_snoc, hspent] at hy
    rcases mem_append.mp hy with hy | hy
    · exact (h.kept y hy).ages ⟨le_rfl, fun a ha => .inl (mem_cons_of_mem _ ha)⟩
    · obtain rfl := mem_singleton.mp hy
      exact .inl mem_cons_self
  · rw [spendings_snoc, hspent]
    refine pairwise_append.mpr ⟨h.apart, pairwise_singleton _ _, ?_⟩
    intro y hy z hz hprovider hassertion
    obtain rfl := mem_singleton.mp hz
    rcases h.kept y hy with hkept | hover
    · exact absurd hassertion (hrow _ hkept hprovider)
    · rw [Over, hnow]
      exact hover
  · simpa [hissued] using h.sent r hr
  · rw [claims_snoc, hclaimed, Option.toList_none, append_nil] at hc
    simpa [hissued] using h.claimed c hc

theorem Ends.effect {α : Type} {a : α} {u : Tables} {out : Outcome α} (h : Ends a s t out u) :
    out.effect = some a ∧ u = t ∨ out.effect = none ∧ u = s := by
  cases h with
  | ok | lost => exact .inl ⟨rfl, rfl⟩
  | failed => exact .inr ⟨rfl, rfl⟩

theorem claim_none {relayState : String} {now : ℤ} (h : (s.claim now relayState).1 = none) :
    (s.claim now relayState).2 = s := by
  have hsame : s.requests.map (Tables.consume relayState now) = s.requests := by
    refine (map_congr_left fun r hr => ?_).trans s.requests.map_id
    have hr' := find?_eq_none.mp h r hr
    exact if_neg (by simpa using hr')
  change { s with requests := _ } = s
  rw [hsame]

theorem Inv.idle (h : Inv es s) (hissued : issuedBy e = none) (hclaimed : claimedBy e = none)
    (hspent : spentBy e = none) : Inv (es ++ [e]) s :=
  h.quiet (.refl s) (Sublist.refl _) rfl hissued hclaimed hspent

theorem Inv.ran (h : Inv es s) (hexec : Exec s o r t) : Inv (es ++ [Event.ran k o r]) t := by
  cases hexec with
  | loadSource src | now => exact h.idle rfl rfl rfl
  | @recordRequest _ id providerID relayState returnPath began _ _ hends =>
    rcases hends.effect with ⟨heffect, rfl⟩ | ⟨heffect, rfl⟩
    · by_cases hrow : s.requests.any fun r => r.id = id ∨ r.relayState = relayState
      · simp only [Tables.insertRequest, if_pos hrow] at heffect ⊢
        exact h.idle (by simp [issuedBy, heffect]) rfl rfl
      · simp only [Tables.insertRequest, if_neg hrow] at heffect ⊢
        exact h.insert rfl (by simp [issuedBy, heffect]) rfl rfl
    · exact h.idle (by simp [issuedBy, heffect]) rfl rfl
  | @consumeRequest _ relayState began _ _ hends =>
    rcases hends.effect with ⟨heffect, rfl⟩ | ⟨heffect, rfl⟩
    · cases hfound : (s.claim (micros began) relayState).1 with
      | none =>
        rw [claim_none hfound]
        exact h.idle rfl (by simp [claimedBy, heffect, hfound]) rfl
      | some found => exact h.claim (k := k) hfound rfl (by simp [claimedBy, heffect, hfound]) rfl
    · exact h.idle rfl (by simp [claimedBy, heffect]) rfl
  | @recordAssertion _ providerID assertionID expires _ hends =>
    rcases hends.effect with ⟨heffect, rfl⟩ | ⟨heffect, rfl⟩
    · cases hnew : (s.spend providerID assertionID expires).1 with
      | false =>
        have hsame : (s.spend providerID assertionID expires).2 = s := by
          unfold Tables.spend at hnew ⊢
          split_ifs at hnew ⊢
          rfl
        rw [hsame]
        exact h.idle rfl rfl (by simp [spentBy, heffect, hnew])
      | true =>
        exact h.spend (x := ⟨k, providerID, assertionID, expires, s.clock⟩) rfl hnew rfl rfl
          (by simp [spentBy, heffect, hnew])
    · exact h.idle rfl rfl (by simp [spentBy, heffect])

theorem Inv.env {c : Env} (h : Inv es s) (hchange : Changes s c t) : Inv (es ++ [Event.env c]) t := by
  cases hchange with
  | tick hle =>
    exact h.quiet ⟨hle, fun _ ha => .inl ha⟩ (Sublist.refl _) rfl rfl rfl rfl
  | @purge start seen seenSpent hle =>
    refine h.quiet ⟨le_rfl, fun a ha => ?_⟩ filter_sublist rfl rfl rfl rfl
    by_cases hover : a.expiresAt < micros start - grace
    · have hstart := micros_mono hle
      exact .inr (by change _ < micros s.clock; omega)
    · exact .inl (mem_filter.mpr ⟨ha, by simp [hover]⟩)

variable {Cert : Type} {L : Library Cert} {start : ℤ} {w : World}

theorem sourceRun_inv (hrun : SourceRun L start es w) : Inv es w.state :=
  Run.tables hrun (inv_start start) (fun h => h.idle rfl rfl rfl) (fun h _ => h.ran)
    (fun h => h.idle rfl rfl rfl) (fun h => h.env)

end

section

variable {Cert : Type} (L : Library Cert)

/-- What a post has done when it signs somebody in. -/
def Completes (xs : Trace Op Res) : Answer → Prop
  | .completed src a pending =>
    (∃ now recorded, ⟨.now, now⟩ ∈ xs ∧ now < a.notOnOrAfter + 5 * 60 * nanosPerSecond ∧
      ⟨.recordAssertion src.providerID a.assertionID a.notOnOrAfter, .ok (recorded, true)⟩ ∈ xs) ∧
    ∀ r, pending = some r → r.providerID = src.providerID ∧
      ∃ relayState, ⟨.consumeRequest relayState, .ok (some r)⟩ ∈ xs
  | _ => True

variable {L} {xs : Trace Op Res} {src : SamlSource} {raw : List UInt8} {pending : Option Request}

/-- A post whose responses are not known beforehand. -/
abbrev Leads (xs : Trace Op Res) (p : Handler Answer) : Prop :=
  Holds (fun _ _ => True) (fun _ _ => True) Completes xs p

def Claimed (xs : Trace Op Res) (src : SamlSource) (pending : Option Request) : Prop :=
  ∀ r, pending = some r → r.providerID = src.providerID ∧
    ∃ relayState, ⟨.consumeRequest relayState, .ok (some r)⟩ ∈ xs

theorem spendAssertion_leads {a : InboundAssertion} {now : ℤ} (hnow : ⟨.now, now⟩ ∈ xs)
    (hlater : now < a.notOnOrAfter + 5 * 60 * nanosPerSecond) (hpending : Claimed xs src pending) :
    Leads xs (spendAssertion src pending a) := by
  unfold spendAssertion
  split_ifs
  · exact trivial
  · refine holds_call.mpr ⟨trivial, fun r _ => ?_⟩
    match r with
    | .error _ => exact trivial
    | .ok (_, false) => exact trivial
    | .ok (recorded, true) =>
      refine ⟨⟨now, recorded, mem_append_left _ hnow, hlater,
        mem_append_right _ (mem_singleton_self _)⟩, fun q hq => ?_⟩
      obtain ⟨hprovider, relayState, hclaim⟩ := hpending q hq
      exact ⟨hprovider, relayState, mem_append_left _ hclaim⟩

theorem finishACS_leads (hpending : Claimed xs src pending) :
    Leads xs (finishACS L src raw pending) := by
  refine holds_call.mpr ⟨trivial, fun now _ => ?_⟩
  cases hresponse : consumeResponse L raw src.provider
      ⟨(pending.map Request.id).getD "", src.acsURL, now⟩ with
  | error _ => exact trivial
  | ok a =>
    refine spendAssertion_leads (mem_append_right _ (mem_singleton_self _))
      (consumeResponse_later hresponse) fun r hr => ?_
    obtain ⟨hprovider, relayState, hclaim⟩ := hpending r hr
    exact ⟨hprovider, relayState, mem_append_left _ hclaim⟩

theorem claimRequest_leads {relayState : String} :
    Leads xs (claimRequest L src raw relayState) := by
  refine holds_call.mpr ⟨trivial, fun r _ => ?_⟩
  match r with
  | .error _ => exact trivial
  | .ok none => exact trivial
  | .ok (some found) =>
    dsimp only
    split_ifs with hprovider
    · exact trivial
    · refine finishACS_leads fun q hq => ?_
      obtain rfl := Option.some.inj hq
      exact ⟨not_not.mp hprovider, relayState, mem_append_right _ (mem_singleton_self _)⟩

theorem recordAndRedirect_leads {returnPath id relay : String} :
    Leads xs (recordAndRedirect src returnPath id relay) := by
  refine holds_call.mpr ⟨trivial, fun r _ => ?_⟩
  match r with
  | .error _ => exact trivial
  | .ok none => exact trivial
  | .ok (some _) => exact trivial

theorem handle_leads (q : Req) : Leads [] (handle L q) := by
  cases q with
  | start i =>
    refine holds_call.mpr ⟨trivial, fun found _ => ?_⟩
    cases found with
    | none => exact trivial
    | some src =>
      cases i.drawn with
      | none => exact trivial
      | some drawn =>
        dsimp only
        split_ifs
        · exact trivial
        · exact recordAndRedirect_leads
  | acs i =>
    refine holds_call.mpr ⟨trivial, fun found _ => ?_⟩
    cases found with
    | none => exact trivial
    | some src =>
      cases i.response with
      | none => exact trivial
      | some raw =>
        dsimp only
        split_ifs
        · exact finishACS_leads fun r hr => nomatch hr
        · exact claimRequest_leads

end

section

variable {Cert : Type} {L : Library Cert} {start : ℤ} {es : List Ev} {w : World} {k : ℕ}
  {src : SamlSource} {a : InboundAssertion} {pending : Option Request} {r : Request}

theorem completes (hrun : SourceRun L start es w)
    (hmem : .answered k (.completed src a pending) ∈ es) :
    Completes (own k es) (.completed src a pending) := by
  obtain ⟨q, -, hreach⟩ := Run.answered hrun hmem
  exact (handle_leads q).reaches hreach fun _ _ => trivial

/-- A sign-in has its assertion recorded. In a prompt run that was at most an hour after the
expiry. -/
theorem spends (hrun : SourceRun L start es w) (hprompt : Prompt es)
    (hmem : .answered k (.completed src a pending) ∈ es) : ∃ x, SpentIn es k src a x := by
  obtain ⟨⟨now, recorded, hnow, hlater, hrecord⟩, -⟩ := completes hrun hmem
  have hx : (⟨k, src.providerID, a.assertionID, a.notOnOrAfter, recorded⟩ : Spending) ∈
      spendings es := mem_filterMap.mpr ⟨_, mem_own.mp hrecord, rfl⟩
  have hsoon := hprompt _ hx now (mem_own.mp hnow)
  refine ⟨_, hx, rfl, rfl, rfl, rfl, not_lt.mpr ?_⟩
  change recorded / 1000 ≤ a.notOnOrAfter / 1000 + 3600 * 1000000
  change recorded ≤ now + 55 * 60 * 1000000000 at hsoon
  change now < a.notOnOrAfter + 5 * 60 * 1000000000 at hlater
  omega

theorem claim_of_completed (hrun : SourceRun L start es w)
    (hmem : .answered k (.completed src a (some r)) ∈ es) :
    r.providerID = src.providerID ∧ (k, r) ∈ claims es := by
  obtain ⟨-, hclaimed⟩ := completes hrun hmem
  obtain ⟨hprovider, relayState, hclaim⟩ := hclaimed r rfl
  exact ⟨hprovider, mem_filterMap.mpr ⟨_, mem_own.mp hclaim, rfl⟩⟩

theorem Inv.over {s : Tables} (h : Inv es s) {x y : Spending} (hx : x ∈ spendings es)
    (hy : y ∈ spendings es) (hprovider : x.providerID = y.providerID)
    (hassertion : x.assertionID = y.assertionID) : x = y ∨ Over x y ∨ Over y x := by
  have hboth : (spendings es).Pairwise fun x y => Apart x y ∨ Apart y x :=
    h.apart.imp fun hxy => .inl hxy
  have hsymm : Std.Symm fun x y => Apart x y ∨ Apart y x := ⟨fun _ _ => Or.symm⟩
  refine or_iff_not_imp_left.mpr fun hne => ?_
  rcases hboth.forall hx hy hne with hapart | hapart
  · exact .inl (hapart hprovider hassertion)
  · exact .inr (hapart hprovider.symm hassertion.symm)

theorem spent_once (hrun : SourceRun L start es w) (hprompt : Prompt es) : SpentOnce es := by
  have hinv := sourceRun_inv hrun
  refine ⟨?_, ?_, ?_⟩
  · intro j k src src' a a' pending pending' hj hk hprovider hassertion
    obtain ⟨x, hx⟩ := spends hrun hprompt hj
    obtain ⟨y, hy⟩ := spends hrun hprompt hk
    have hover := hinv.over hx.mem hy.mem
      (hx.providerID.trans (hprovider.trans hy.providerID.symm))
      (hx.assertionID.trans (hassertion.trans hy.assertionID.symm))
    refine ⟨x, y, hx, hy, hover.imp_left fun hsame => ?_⟩
    rw [← hx.post, hsame, hy.post]
  · intro j k src src' a a' r r' hj hk hsame
    have hclaimj := (claim_of_completed hrun hj).2
    have hclaimk := (claim_of_completed hrun hk).2
    exact congrArg Prod.fst (inj_on_of_nodup_map hinv.once hclaimj hclaimk hsame)
  · intro k src a r hk
    obtain ⟨hprovider, hclaim⟩ := claim_of_completed hrun hk
    have hissued := (hinv.claimed _ hclaim).1
    rw [hprovider] at hissued
    exact ⟨hissued, fun q hq => hinv.issued_unique hq hissued⟩

end

section

def reissued (notOnOrAfter : String) : Node := responseWith [] "ana" [] notOnOrAfter []

def reissuingLibrary : Library Unit :=
  { sampleLibrary (reissued "") with
    parse raw := .ok [reissued (if raw = [1] then "1970-01-01T00:05:00Z" else "1970-01-01T03:00:00Z")]
    parseTime s := if s = "1970-01-01T00:05:00Z" then .ok (300 * nanosPerSecond)
      else if s = "1970-01-01T03:00:00Z" then .ok (10800 * nanosPerSecond) else .error s }

def portal : SamlSource where
  providerID := "p1"
  ssoURL := "sso"
  acsURL := "acs"
  provider := { entityID := "idp", certPEM := "cert", spEntityID := "sp", allowUnsolicited := true }

def ana (notOnOrAfter : ℤ) : InboundAssertion where
  assertionID := "a1"
  subject := "ana"
  notOnOrAfter

def posting (raw : List UInt8) : Req := .acs ⟨"idp", some raw, ""⟩

def signingIn (now expires : ℤ) : Trace Op Res :=
  [⟨.loadSource "idp", some portal⟩, ⟨.now, now⟩,
    ⟨.recordAssertion "p1" "a1" expires, .ok (now, true)⟩]

variable {s : Tables} {raw : List UInt8} {expires : ℤ}

theorem posting_plays (haccepted : consumeResponse reissuingLibrary raw portal.provider
      ⟨"", "acs", s.clock⟩ = .ok (ana expires)) (hnew : s.assertions = []) :
    Plays Exec s (handle reissuingLibrary (posting raw)) (signingIn s.clock expires)
      { s with assertions := [⟨"p1", "a1", micros expires⟩] }
      (.completed portal (ana expires) none) := by
  have hspend : s.spend "p1" "a1" expires =
      (true, { s with assertions := [⟨"p1", "a1", micros expires⟩] }) := by
    simp [Tables.spend, hnew]
  have hrecord : Exec s (.recordAssertion "p1" "a1" expires) (.ok (s.clock, true))
      { s with assertions := [⟨"p1", "a1", micros expires⟩] } := by
    have hends : Exec s (.recordAssertion "p1" "a1" expires)
        (.ok (s.clock, (s.spend "p1" "a1" expires).1)) (s.spend "p1" "a1" expires).2 :=
      .recordAssertion .ok
    rwa [hspend] at hends
  have hspending : Plays Exec s (spendAssertion portal none (ana expires))
      [⟨.recordAssertion "p1" "a1" expires, .ok (s.clock, true)⟩]
      { s with assertions := [⟨"p1", "a1", micros expires⟩] }
      (.completed portal (ana expires) none) := .stmt hrecord .ret
  refine .stmt (.loadSource (some portal)) (.stmt .now ?_)
  change Plays Exec s (match consumeResponse reissuingLibrary raw portal.provider
    ⟨"", "acs", s.clock⟩ with
    | .error _ => pure (.refused "That sign-in could not be completed.")
    | .ok a => spendAssertion portal none a) _ _ _
  rw [haccepted]
  exact hspending

theorem first_accepted : consumeResponse reissuingLibrary [1] portal.provider ⟨"", "acs", 0⟩ =
    .ok (ana (300 * nanosPerSecond)) := by
  decide

theorem second_accepted : consumeResponse reissuingLibrary [2] portal.provider
    ⟨"", "acs", 7200 * nanosPerSecond⟩ = .ok (ana (10800 * nanosPerSecond)) := by
  decide

def reissuedRun : List Ev :=
  alone 0 (posting [1]) (signingIn 0 (300 * nanosPerSecond))
      (Answer.completed portal (ana (300 * nanosPerSecond)) none) ++
    [Event.env (Env.tick (7200 * nanosPerSecond))] ++
    [Event.env (Env.purge (7200 * nanosPerSecond) (fun _ => true) fun _ => true)] ++
    alone 1 (posting [2]) (signingIn (7200 * nanosPerSecond) (10800 * nanosPerSecond))
      (Answer.completed portal (ana (10800 * nanosPerSecond)) none)

def recordedAt (clock : ℤ) : Tables where
  clock
  assertions := [⟨"p1", "a1", micros (300 * nanosPerSecond)⟩]

theorem reissuedRun_run : ∃ w, SourceRun reissuingLibrary 0 reissuedRun w := by
  have hfirst : Plays Exec { clock := 0 } (handle reissuingLibrary (posting [1]))
      (signingIn 0 (300 * nanosPerSecond)) (recordedAt 0)
      (.completed portal (ana (300 * nanosPerSecond)) none) := posting_plays first_accepted rfl
  have htick : Changes (recordedAt 0) (.tick (7200 * nanosPerSecond))
      (recordedAt (7200 * nanosPerSecond)) := .tick (by decide)
  have hpurge : Changes (recordedAt (7200 * nanosPerSecond))
      (.purge (7200 * nanosPerSecond) (fun _ => true) fun _ => true)
      { clock := 7200 * nanosPerSecond } := .purge le_rfl
  have hsecond : Plays Exec { clock := 7200 * nanosPerSecond }
      (handle reissuingLibrary (posting [2]))
      (signingIn (7200 * nanosPerSecond) (10800 * nanosPerSecond)) _
      (.completed portal (ana (10800 * nanosPerSecond)) none) := posting_plays second_accepted rfl
  have hidle : SourceRun reissuingLibrary 0 [] (Pool.start { clock := 0 }) := .nil
  obtain ⟨_, hrun⟩ := Plays.serve hidle hfirst
  obtain ⟨_, hrun⟩ := Plays.serve ((hrun.snoc (.env htick)).snoc (.env hpurge)) hsecond
  exact ⟨_, hrun⟩

theorem reissuedRun_prompt : Prompt reissuedRun := by
  intro x hx now hnow
  have hspent : spendings reissuedRun = [⟨0, "p1", "a1", 300 * nanosPerSecond, 0⟩,
    ⟨1, "p1", "a1", 10800 * nanosPerSecond, 7200 * nanosPerSecond⟩] := rfl
  rw [hspent] at hx
  simp only [mem_cons, not_mem_nil, or_false] at hx
  rcases hx with rfl | rfl
  · have hzero : now = 0 := by simpa [reissuedRun, alone, signingIn] using hnow
    rw [hzero]
    decide
  · have hlater : now = 7200 * nanosPerSecond := by
      simpa [reissuedRun, alone, signingIn] using hnow
    rw [hlater]
    decide

/-- One identifier signs in twice, with two expiries. -/
theorem reissued_signs_in_twice : ∃ es w, SourceRun reissuingLibrary 0 es w ∧ Prompt es ∧
    ¬ ∀ j k src src' a a' pending pending', .answered j (.completed src a pending) ∈ es →
      .answered k (.completed src' a' pending') ∈ es → src.providerID = src'.providerID →
      a.assertionID = a'.assertionID → j = k := by
  obtain ⟨w, hrun⟩ := reissuedRun_run
  refine ⟨reissuedRun, w, hrun, reissuedRun_prompt, fun hall => ?_⟩
  have hfirst : .answered 0 (.completed portal (ana (300 * nanosPerSecond)) none) ∈ reissuedRun :=
    mem_of_getElem? (show reissuedRun[4]? = some _ from rfl)
  have hsecond : .answered 1 (.completed portal (ana (10800 * nanosPerSecond)) none) ∈
      reissuedRun := mem_of_getElem? (show reissuedRun[11]? = some _ from rfl)
  exact absurd (hall 0 1 _ _ _ _ _ _ hfirst hsecond rfl rfl) (by decide)

theorem spent_once_reissued : ∃ w, SourceRun reissuingLibrary 0 reissuedRun w ∧
    Prompt reissuedRun ∧ SpentOnce reissuedRun := by
  obtain ⟨w, hrun⟩ := reissuedRun_run
  exact ⟨w, hrun, reissuedRun_prompt, spent_once hrun reissuedRun_prompt⟩

end

end Signari.SamlReplay
