import Signari.GoTime
import Signari.IndexedChecks
import Signari.JsonValues
import Signari.LabelledRuns

/-!
# Transaction tokens

`Replace` of `internal/txntoken`: a workload exchanges the token that it was called with for the
one that it calls on with. The clock, the lifetime and the wishes of the caller are arbitrary at
every hop.

What one hop keeps is `replace_ok`; `chain_keeps_history` says what remains of the first token at
the end of a chain, and compares the last token with every one before it.
-/
namespace Signari.TransactionTokens
open GoStrings GoTime IndexedChecks JsonValues LabelledRuns List

structure Claims where
  issuer : String := ""
  issuedAt : ℤ
  expiry : ℤ
  audience : String
  transaction : String
  subject : String
  requestingWorkload : String
  callChain : List String := []
  scope : String
  transactionContext : List (String × Json) := []
  requestContext : List (String × Json) := []

/-- The request of one hop, apart from the token that it replaces. -/
structure Hop where
  workload : String
  scope : List String := []
  requestContext : List (String × Json) := []
  issuer : String
  now : ℤ
  ttl : ℤ

inductive ReplaceError where
  | missing
  | chainTooLong
  | widen (scope : String)
  | noExpiry
  | expired

def maxCallChain : ℕ := 32

def defaultTTL : ℤ := 5 * 60 * nanosPerSecond

def maxTTL : ℤ := 15 * 60 * nanosPerSecond

def unix (t : ℤ) : ℤ := t / nanosPerSecond

def splitScope (s : String) : List String := (fields s).filter (· ≠ "")

/-- The chain a token carries; one that was minted without it has its own workload. -/
def existingChain (prev : Claims) : List String :=
  if prev.callChain = [] ∧ prev.requestingWorkload ≠ "" then [prev.requestingWorkload]
  else prev.callChain

def appendChain (prev : Claims) (next : String) : List String :=
  (if prev.callChain = [] ∧ prev.requestingWorkload ≠ "" then [prev.requestingWorkload]
    else prev.callChain) ++ [next]

/-- Asking for nothing means carrying what the token has. -/
def wanted (prev : Claims) (r : Hop) : List String :=
  if r.scope = [] then splitScope prev.scope else r.scope

def checkScope (had want : List String) : Except ReplaceError Unit :=
  match want.find? fun s => !had.contains s with
  | some s => .error (.widen s)
  | none => .ok ()

def ttlOf (r : Hop) : ℤ := if r.ttl ≤ 0 ∨ maxTTL < r.ttl then defaultTTL else r.ttl

/-- The replacement may not outlive the token it came from. -/
def expiryOf (prev : Claims) (r : Hop) : ℤ := min (unix (r.now + ttlOf r)) prev.expiry

def replace (prev : Claims) (r : Hop) : Except ReplaceError Claims := do
  refuseIf (prev.transaction = "" ∨ prev.subject = "") .missing
  refuseIf (maxCallChain ≤ (existingChain prev).length) .chainTooLong
  checkScope (splitScope prev.scope) (wanted prev r)
  refuseIf (prev.expiry ≤ 0) .noExpiry
  refuseIf (expiryOf prev r ≤ unix r.now) .expired
  .ok {
    issuer := r.issuer
    issuedAt := unix r.now
    expiry := expiryOf prev r
    audience := prev.audience
    transaction := prev.transaction
    subject := prev.subject
    requestingWorkload := r.workload
    callChain := appendChain prev r.workload
    scope := join (wanted prev r) (String.ofList [' '])
    transactionContext := prev.transactionContext
    requestContext := r.requestContext }

/-- Everybody who has requested a token of the transaction so far. -/
def history (c : Claims) : List String :=
  if c.callChain = [] then [c.requestingWorkload] else c.callChain

def Replaced (prev : Claims) (r : Hop) (next : Claims) : Prop := replace prev r = .ok next

/-- What one hop leaves of the token. -/
structure Keeps (prev next : Claims) : Prop where
  audience : next.audience = prev.audience
  transaction : next.transaction = prev.transaction
  subject : next.subject = prev.subject
  context : next.transactionContext = prev.transactionContext
  scope : ∀ s ∈ splitScope next.scope, s ∈ splitScope prev.scope
  expiry : next.expiry ≤ prev.expiry

variable {prev next first mid last : Claims} {r : Hop}

theorem Keeps.refl (c : Claims) : Keeps c c := ⟨rfl, rfl, rfl, rfl, fun _ hs => hs, le_rfl⟩

theorem Keeps.trans (h : Keeps first mid) (h' : Keeps mid last) : Keeps first last where
  audience := h'.audience.trans h.audience
  transaction := h'.transaction.trans h.transaction
  subject := h'.subject.trans h.subject
  context := h'.context.trans h.context
  scope := fun s hs => h.scope s (h'.scope s hs)
  expiry := h'.expiry.trans h.expiry

theorem splitScope_words {s w : String} (hw : w ∈ splitScope s) :
    w.toList ≠ [] ∧ ∀ c ∈ w.toList, isSpace c = false :=
  fieldsBy_mem (mem_filter.mp hw).1

theorem splitScope_join {ws : List String} (hws : ∀ w ∈ ws, ∃ s, w ∈ splitScope s) :
    splitScope (join ws (String.ofList [' '])) = ws := by
  have hwords : ∀ w ∈ ws, w.toList ≠ [] ∧ ∀ c ∈ w.toList, isSpace c = false := by
    intro w hw
    obtain ⟨s, hs⟩ := hws w hw
    exact splitScope_words hs
  rw [splitScope, fields, fieldsBy_join (by decide) ws hwords, filter_eq_self]
  intro w hw
  refine decide_eq_true ?_
  rintro rfl
  exact (hwords "" hw).1 rfl

theorem checkScope_ok {had want : List String} (h : checkScope had want = .ok ()) :
    ∀ s ∈ want, s ∈ had := by
  unfold checkScope at h
  split at h
  · cases h
  · rename_i hnone
    intro s hs
    simpa using find?_eq_none.mp hnone s hs

/-- One hop: the rights and the transaction are kept, the history grows by the caller, and the
token is alive when it is issued. -/
theorem replace_ok (h : Replaced prev r next) :
    Keeps prev next ∧ next.issuedAt < next.expiry ∧
      next.callChain = existingChain prev ++ [r.workload] ∧
      (existingChain prev).length < maxCallChain := by
  simp only [Replaced, replace, seq_ok, refuseIf_ok, Except.ok.injEq] at h
  obtain ⟨_, hlong, hscope, _, hdead, rfl⟩ := h
  have hsub := checkScope_ok hscope
  refine ⟨⟨rfl, rfl, rfl, rfl, fun s hs => ?_, min_le_right _ _⟩, not_le.mp hdead, rfl,
    not_le.mp hlong⟩
  dsimp only at hs
  rw [splitScope_join fun w hw => ⟨prev.scope, hsub w hw⟩] at hs
  exact hsub s hs

theorem history_eq_existingChain (h : prev.requestingWorkload ≠ "") :
    history prev = existingChain prev := by
  simp [history, existingChain, h]

theorem history_of_callChain {chain : List String} {w : String} (h : next.callChain = chain ++ [w]) :
    history next = next.callChain ∧ existingChain next = next.callChain := by
  have hne : next.callChain ≠ [] := by simp [h]
  simp [history, existingChain, hne]

/-- Where no workload can be added, no token is issued. -/
theorem replace_full (h : maxCallChain ≤ (existingChain prev).length) : ¬Replaced prev r next :=
  fun hok => absurd (replace_ok hok).2.2.2 (not_lt.mpr h)

theorem run_keeps {hops : List Hop} (h : Run Replaced first hops last) : Keeps first last := by
  induction h with
  | nil => exact Keeps.refl _
  | snoc _ hstep ih => exact ih.trans (replace_ok hstep).1

theorem run_history {hops : List Hop} (hfirst : first.requestingWorkload ≠ "")
    (h : Run Replaced first hops last) :
    history last = history first ++ hops.map Hop.workload ∧ existingChain last = history last ∧
      (hops ≠ [] → last.callChain = history last ∧ last.callChain.length ≤ maxCallChain ∧
        last.issuedAt < last.expiry) := by
  induction h with
  | nil => exact ⟨by simp, (history_eq_existingChain hfirst).symm, fun hne => absurd rfl hne⟩
  | snoc hrun hstep ih =>
    obtain ⟨hhistory, hexisting, _⟩ := ih
    obtain ⟨_, halive, hchain, hlength⟩ := replace_ok hstep
    obtain ⟨hhist, hexist⟩ := history_of_callChain hchain
    refine ⟨?_, hexist.trans hhist.symm, fun _ => ⟨hhist.symm, ?_, halive⟩⟩
    · rw [hhist, hchain, hexisting, hhistory, map_append, List.append_assoc]
      rfl
    · rw [hchain, length_append]
      exact hlength

/-- A chain of replacements keeps what the transaction is about, only narrows what it may do,
never lives longer, and forgets nobody; where the record is full it ends. -/
theorem chain_keeps_history {before after : List Hop} (hworkload : first.requestingWorkload ≠ "")
    (hbefore : Run Replaced first before mid) (hafter : Run Replaced mid after last) :
    last.audience = first.audience ∧ last.transaction = first.transaction ∧
      last.subject = first.subject ∧ last.transactionContext = first.transactionContext ∧
      (∀ s ∈ splitScope last.scope, s ∈ splitScope mid.scope) ∧ last.expiry ≤ mid.expiry ∧
      (before ++ after ≠ [] → last.issuedAt < last.expiry ∧
        last.callChain = history first ++ (before ++ after).map Hop.workload ∧
        last.callChain.length ≤ maxCallChain) ∧
      ∀ r next, (Replaced last r next → next.callChain = history last ++ [r.workload]) ∧
        (maxCallChain ≤ (history last).length → ¬Replaced last r next) := by
  have hrun := hbefore.append hafter
  have hkeeps := run_keeps hrun
  have hlater := run_keeps hafter
  obtain ⟨hhistory, hexisting, hgrown⟩ := run_history hworkload hrun
  refine ⟨hkeeps.audience, hkeeps.transaction, hkeeps.subject, hkeeps.context, hlater.scope,
    hlater.expiry, fun hne => ?_, fun r next => ⟨fun hstep => ?_, fun hfull => ?_⟩⟩
  · obtain ⟨hchain, hlength, halive⟩ := hgrown hne
    exact ⟨halive, hchain.trans hhistory, hlength⟩
  · rw [(replace_ok hstep).2.2.1, hexisting]
  · rw [← hexisting] at hfull
    exact replace_full hfull

def edgeToken : Claims where
  issuedAt := 1000
  expiry := 1300
  audience := "shop"
  transaction := "t1"
  subject := "alice"
  requestingWorkload := "edge"
  scope := "read write"

def hopOf (workload : String) (scope : List String) : Hop where
  workload := workload
  scope := scope
  issuer := "https://tts"
  now := 1010 * nanosPerSecond
  ttl := 60 * nanosPerSecond

def ordersToken : Claims where
  issuer := "https://tts"
  issuedAt := 1010
  expiry := 1070
  audience := "shop"
  transaction := "t1"
  subject := "alice"
  requestingWorkload := "orders"
  callChain := ["edge", "orders"]
  scope := "read"

def billingToken : Claims :=
  { ordersToken with
    requestingWorkload := "billing", callChain := ["edge", "orders", "billing"] }

theorem chain_keeps_history_billing : billingToken.expiry ≤ ordersToken.expiry ∧
    billingToken.callChain = ["edge", "orders", "billing"] := by
  have horders : Replaced edgeToken (hopOf "orders" ["read"]) ordersToken := rfl
  have hbilling : Replaced ordersToken (hopOf "billing" ["read"]) billingToken := rfl
  have hchain := chain_keeps_history (by decide) (Run.nil.snoc horders) (Run.nil.snoc hbilling)
  exact ⟨hchain.2.2.2.2.2.1, (hchain.2.2.2.2.2.2.1 (by simp)).2.1⟩

end Signari.TransactionTokens
