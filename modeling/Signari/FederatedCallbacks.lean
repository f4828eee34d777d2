import Signari.FederatedSignIn
import Signari.StatementPrograms

/-!
# Callbacks of external sign-ins that run at once

`handleFederatedCallback` of `internal/httpapi/federation.go` and `ConsumeFederatedLogin` of
`internal/store/federation.go`, statement by statement. A deletion locks its row, and a second one
of the same row waits until the first is committed or taken back. `now()` is the instant at which a
transaction began.

A state is accepted when its deletion is committed and the code is exchanged. That happens once
(`accepted_once_and_burned`). A request that finds the row and is refused gives its transaction up,
which puts the row back, so only a request that brings the cookie to the right provider burns the
state.
-/
namespace Signari.FederatedCallbacks
open FederatedSignIn LabelledRuns StatementPrograms List Function
open Prog

section

variable {D : Type}

/-- A request to `/login/callback/{slug}`. -/
structure Callback where
  slug : String
  error : String := ""
  code : String
  state : String
  cookie : Option String

inductive Op (D : Type)
  | loadProvider (slug : String)
  | begin
  | consume (tx : ℕ) (stateHash : D)
  | rollback (tx : ℕ)
  | commit (tx : ℕ)
  | exchangeCode (providerID code verifier : String)
  | fetchIdentity (providerID tokens nonce : String)

/-- The response to a statement. Without one there is an error; what is shown of it is its text. -/
@[reducible] def Res : Op D → Type
  | .loadProvider _ => Option OidcProvider
  | .begin => Option ℕ
  | .consume .. => Except String (Option (LoginRow D))
  | .rollback _ => Unit
  | .commit _ => Bool
  | .exchangeCode .. => Option String
  | .fetchIdentity .. => Option ExternalIdentity

inductive Answer where
  | refused (reason : String)
  | completed (provider : OidcProvider) (pending : PendingLogin) (ext : ExternalIdentity)

abbrev Handler (D α : Type) := Prog (Op D) Res α

/-- A refusal while the transaction is open, which is then given up. -/
def refuse (tx : ℕ) (reason : String) : Handler D Answer := do
  let _ ← call (.rollback tx : Op D)
  pure (.refused reason)

/-- The rest of a callback, once its login is consumed. -/
def exchange (i : Callback) (p : OidcProvider) (pending : PendingLogin) : Handler D Answer := do
  match ← call (.exchangeCode p.id i.code pending.codeVerifier : Op D) with
  | none => pure (.refused "The provider would not complete the sign-in.")
  | some tokens =>
    match ← call (.fetchIdentity p.id tokens pending.nonce : Op D) with
    | none => pure (.refused "The provider's response could not be verified.")
    | some ext => pure (.completed p pending ext)

variable [DecidableEq D] (hash : String → D)

/-- What becomes of the row that a deletion returns. -/
def finishConsume (i : Callback) (cookie : String) (p : OidcProvider) (tx : ℕ) (r : LoginRow D) :
    Handler D Answer :=
  if r.bindingHash ≠ hash cookie then
    refuse tx "this sign-in was started in a different browser"
  else if r.pending.providerID ≠ p.id then
    refuse tx "That sign-in link does not match this provider."
  else do
    match ← call (.commit tx : Op D) with
    | false => refuse tx "Something went wrong. Please try again."
    | true => exchange i p r.pending

def consumeLogin (i : Callback) (cookie : String) (p : OidcProvider) : Handler D Answer := do
  match ← call (.begin : Op D) with
  | none => pure (.refused "Something went wrong. Please try again.")
  | some tx =>
    match ← call (.consume tx (hash i.state) : Op D) with
    | .error e => refuse tx e
    | .ok none => refuse tx "this sign-in link has already been used or has expired"
    | .ok (some r) => finishConsume hash i cookie p tx r

def handleFederatedCallback (i : Callback) : Handler D Answer :=
  if i.error ≠ "" then
    pure (.refused "The sign-in was cancelled or refused by the provider.")
  else if i.code = "" ∨ i.state = "" then pure (.refused "That sign-in link is incomplete.")
  else match i.cookie.filter (· ≠ "") with
    | none => pure (.refused ("This sign-in was started in a different browser, or the link is " ++
        "more than ten minutes old. Please try again."))
    | some cookie => do
      match ← call (.loadProvider i.slug : Op D) with
      | none => pure (.refused "That sign-in method is not available.")
      | some p => consumeLogin hash i cookie p

end

section

variable {D : Type}

/-- A transaction that is open, with the row it has deleted. -/
structure Txn (D : Type) where
  startedAt : ℤ
  claimed : Option D := none

/-- What is committed, and the transactions under way. `known` are the digests of the states that
were drawn or presented so far. -/
structure Store (D : Type) where
  logins : List (LoginRow D) := []
  providers : String → Option OidcProvider := fun _ => none
  now : ℤ
  txs : ℕ → Option (Txn D) := fun _ => none
  nextTx : ℕ := 0
  known : List D := []

def Store.close (s : Store D) (tx : ℕ) : Store D := { s with txs := update s.txs tx none }

def Store.begin (s : Store D) : Store D :=
  { s with txs := update s.txs s.nextTx (some ⟨s.now, none⟩), nextTx := s.nextTx + 1 }

/-- No transaction has deleted this row. -/
def Store.Free (s : Store D) (h : D) : Prop := ∀ tx t, s.txs tx = some t → t.claimed ≠ some h

def Store.learn (s : Store D) (h : D) : Store D := { s with known := h :: s.known }

def Store.claim (s : Store D) (tx : ℕ) (t : Txn D) (h : D) : Store D :=
  { s with txs := update s.txs tx (some { t with claimed := some h }) }

variable [DecidableEq D]

/-- `WHERE state_hash = $1 AND expires_at > now()`. -/
def Store.live (s : Store D) (t : Txn D) (h : D) : Option (LoginRow D) :=
  s.logins.find? fun r => decide (r.stateHash = h ∧ t.startedAt < r.expiresAt)

def Store.commit (s : Store D) (tx : ℕ) : Store D :=
  { s.close tx with
    logins := s.logins.filter fun r =>
      decide (((s.txs tx).bind Txn.claimed) ≠ some r.stateHash) }

/-- A deletion of a row that another transaction has deleted does not happen yet. A commit that
reports an error may have come to pass. -/
def Exec (s : Store D) : (o : Op D) → Res o → Store D → Prop
  | .loadProvider slug, r, s' => (r = none ∨ r = s.providers slug) ∧ s' = s
  | .begin, r, s' => (r = none ∧ s' = s) ∨ (r = some s.nextTx ∧ s' = s.begin)
  | .consume tx h, r, s' => (∃ e, r = .error e ∧ s' = s.learn h) ∨ ∃ t, s.txs tx = some t ∧
      ((s.live t h = none ∧ r = .ok none ∧ s' = s.learn h) ∨
        ∃ row, s.live t h = some row ∧ s.Free h ∧ r = .ok (some row) ∧
          s' = (s.learn h).claim tx t h)
  | .rollback tx, _, s' => s' = s.close tx
  | .commit tx, r, s' => (r = true ∧ (∃ t, s.txs tx = some t) ∧ s' = s.commit tx) ∨
      (r = false ∧ (s' = s.close tx ∨ s' = s.commit tx))
  | .exchangeCode .., _, s' | .fetchIdentity .., _, s' => s' = s

/-- What happens to the tables from elsewhere: a login is started, rows are swept, a transaction
loses its connection. -/
inductive Change (D : Type)
  | clock (now : ℤ)
  | started (row : LoginRow D)
  | deleted (logins : List (LoginRow D))
  | providers (p : String → Option OidcProvider)
  | lost (tx : ℕ)

/-- A state is drawn at random: it was not drawn before, and nobody has come up with it. -/
def Change.Allowed (s : Store D) : Change D → Prop
  | .clock now => s.now ≤ now
  | .started row => row.stateHash ∉ s.known
  | .deleted logins => logins.Sublist s.logins
  | _ => True

def Change.apply (s : Store D) : Change D → Store D
  | .clock now => { s with now := now }
  | .started row => { s with logins := row :: s.logins, known := row.stateHash :: s.known }
  | .deleted logins => { s with logins := logins }
  | .providers p => { s with providers := p }
  | .lost tx => s.close tx

def Changes (s : Store D) (e : Change D) (s' : Store D) : Prop := e.Allowed s ∧ s' = e.apply s

abbrev Ev (D : Type) := Event (Op D) Res Callback Answer (Change D)

abbrev World (D : Type) := Pool (Op D) Res Answer (Store D)

abbrev CallbackRun (hash : String → D) (now : ℤ) (es : List (Ev D)) (w : World D) : Prop :=
  Run (Step (handleFederatedCallback hash) Exec Changes) (Pool.start { now := now }) es w

end

section

variable {D : Type} (hash : String → D) (es : List (Ev D))

/-- The request has come to `ConsumeFederatedLogin`. -/
def Reaches (k : ℕ) (h : D) : Prop := ∃ tx r, .ran k (.consume tx h) r ∈ es

/-- The deletion of the row is committed, and the code is exchanged. -/
def Accepted (k : ℕ) : Prop := ∃ provider code verifier r,
  .ran k (.exchangeCode provider code verifier) r ∈ es

def AcceptedOnce : Prop := ∀ k k' i i', .began k i ∈ es → .began k' i' ∈ es → i.state = i'.state →
  Accepted es k → Accepted es k' → k = k'

def Burned : Prop := ∀ pre post k i a, es = pre ++ .answered k a :: post → .began k i ∈ es →
  Reaches es k (hash i.state) →
  ∀ k' i', .began k' i' ∈ post → i'.state = i.state → ¬ Accepted es k'

/-- A request that finds the row brings the cookie that the login was started with, to the provider
that it was started at, and neither its deletion nor its commit fails. -/
def Careful : Prop := ∀ k i, .began k i ∈ es →
  (∀ tx h e, .ran k (.consume tx h) (.error e) ∉ es) ∧ (∀ tx, .ran k (.commit tx) false ∉ es) ∧
  ∀ tx row p, .ran k (.loadProvider i.slug) (some p) ∈ es →
    .ran k (.consume tx (hash i.state)) (.ok (some row)) ∈ es →
    (∃ cookie, i.cookie = some cookie ∧ row.bindingHash = hash cookie) ∧
      row.pending.providerID = p.id

end

section

variable {D : Type} [DecidableEq D] {hash : String → D} {i : Callback}
  {expect : (o : Op D) → Res o → Prop}

abbrev Entry (D : Type) := (o : Op D) × Res o

def Before (hash : String → D) (i : Callback) (xs : Trace (Op D) Res) : Op D → Prop
  | .consume tx h => h = hash i.state ∧ (⟨.begin, some tx⟩ : Entry D) ∈ xs ∧
      ∀ tx' h' r, (⟨.consume tx' h', r⟩ : Entry D) ∉ xs
  | .commit tx => ∃ row, (⟨.consume tx (hash i.state), .ok (some row)⟩ : Entry D) ∈ xs
  | .exchangeCode .. => ∃ tx row,
      (⟨.consume tx (hash i.state), .ok (some row)⟩ : Entry D) ∈ xs ∧
        (⟨.commit tx, true⟩ : Entry D) ∈ xs
  | _ => True

/-- How a callback that has come to the deletion ends: it failed, or it found nothing, or the row
is not for it, or the deletion is committed. -/
def After (hash : String → D) (i : Callback) (xs : Trace (Op D) Res) : Prop :=
  ∀ tx h r, (⟨.consume tx h, r⟩ : Entry D) ∈ xs → (∃ e, r = .error e) ∨ r = .ok none ∨
    (⟨.commit tx, false⟩ : Entry D) ∈ xs ∨ ∃ row, r = .ok (some row) ∧
      ((⟨.commit tx, true⟩ : Entry D) ∈ xs ∨ ∃ p cookie,
        (⟨.loadProvider i.slug, some p⟩ : Entry D) ∈ xs ∧ i.cookie = some cookie ∧
        (row.bindingHash ≠ hash cookie ∨ row.pending.providerID ≠ p.id))

omit [DecidableEq D] in
theorem refuse_holds {before : Trace (Op D) Res → Op D → Prop} {tx : ℕ} {reason : String}
    {Q : Trace (Op D) Res → Prop} {xs : Trace (Op D) Res} (hbefore : before xs (.rollback tx))
    (hQ : Q (xs ++ [⟨.rollback tx, ()⟩])) :
    Holds expect before (fun ys _ => Q ys) xs (refuse tx reason) :=
  holds_call.2 ⟨hbefore, fun _ _ => hQ⟩

theorem handleFederatedCallback_holds : Holds expect (Before hash i) (fun xs _ => After hash i xs)
    [] (handleFederatedCallback hash i) := by
  have hnone : ∀ {xs : Trace (Op D) Res}, (∀ tx h r, (⟨.consume tx h, r⟩ : Entry D) ∉ xs) →
      After hash i xs := fun hno tx h r hmem => absurd hmem (hno tx h r)
  unfold handleFederatedCallback
  split
  · exact hnone fun _ _ _ => not_mem_nil
  split
  · exact hnone fun _ _ _ => not_mem_nil
  split
  · exact hnone fun _ _ _ => not_mem_nil
  rename_i cookie hcookie
  refine holds_call.2 ⟨trivial, fun r _ => ?_⟩
  rcases r with _ | p
  · exact hnone (by simp)
  unfold consumeLogin
  refine holds_call.2 ⟨trivial, fun r _ => ?_⟩
  rcases r with _ | tx
  · exact hnone (by simp)
  refine holds_call.2 ⟨⟨rfl, by simp, by simp⟩, fun r _ => ?_⟩
  -- The trace up to here has one deletion, and what follows it adds none.
  have honly : ∀ {zs : Trace (Op D) Res} {tx' h' r'},
      (∀ tx' h' r', (⟨.consume tx' h', r'⟩ : Entry D) ∉ zs) →
      (⟨.consume tx' h', r'⟩ : Entry D) ∈ [⟨.loadProvider i.slug, some p⟩, ⟨.begin, some tx⟩,
        ⟨.consume tx (hash i.state), r⟩] ++ zs →
      (⟨.consume tx' h', r'⟩ : Entry D) = ⟨.consume tx (hash i.state), r⟩ := by
    intro zs tx' h' r' hzs hmem
    rcases mem_append.1 hmem with hmem | hmem
    · simp only [mem_cons, not_mem_nil, or_false] at hmem
      rcases hmem with hmem | hmem | hmem
      · cases hmem
      · cases hmem
      · exact hmem
    · exact absurd hmem (hzs tx' h' r')
  rcases r with e | _ | row
  · refine refuse_holds trivial fun tx' h' r' hmem => .inl ?_
    cases honly (by simp) hmem
    exact ⟨e, rfl⟩
  · refine refuse_holds trivial fun tx' h' r' hmem => .inr (.inl ?_)
    cases honly (by simp) hmem
    rfl
  dsimp only
  unfold finishConsume
  split
  · rename_i hbinding
    refine refuse_holds trivial fun tx' h' r' hmem => .inr (.inr (.inr ?_))
    cases honly (by simp) hmem
    refine ⟨row, rfl, .inr ⟨p, cookie, by simp, ?_, .inl hbinding⟩⟩
    exact (Option.filter_eq_some_iff.1 hcookie).1
  split
  · rename_i hprovider
    refine refuse_holds trivial fun tx' h' r' hmem => .inr (.inr (.inr ?_))
    cases honly (by simp) hmem
    refine ⟨row, rfl, .inr ⟨p, cookie, by simp, ?_, .inr hprovider⟩⟩
    exact (Option.filter_eq_some_iff.1 hcookie).1
  refine holds_call.2 ⟨⟨row, by simp⟩, fun r _ => ?_⟩
  cases r with
  | false =>
    refine refuse_holds trivial fun tx' h' r' hmem => .inr (.inr (.inl ?_))
    cases honly (by simp) hmem
    simp
  | true =>
    have hafter : ∀ zs : Trace (Op D) Res, (∀ tx' h' r', (⟨.consume tx' h', r'⟩ : Entry D) ∉ zs) →
        After hash i ([⟨.loadProvider i.slug, some p⟩, ⟨.begin, some tx⟩,
          ⟨.consume tx (hash i.state), .ok (some row)⟩] ++ (⟨.commit tx, true⟩ :: zs)) := by
      intro zs hzs tx' h' r' hmem
      cases honly (by simpa using hzs) hmem
      exact .inr (.inr (.inr ⟨row, rfl, .inl (by simp)⟩))
    refine holds_call.2 ⟨⟨tx, row, by simp, by simp⟩, fun r _ => ?_⟩
    rcases r with _ | tokens
    · exact hafter [_] (by simp)
    refine holds_call.2 ⟨trivial, fun r _ => ?_⟩
    rcases r with _ | ext
    · exact hafter [_, _] (by simp)
    · exact hafter [_, _] (by simp)

end

section

variable {D : Type} {h : List (Ev D)} {s s' : Store D}

/-- A transaction is one handler's, and consumes once; no two have deleted the same row. -/
structure Inv (h : List (Ev D)) (s : Store D) : Prop where
  unused : ∀ tx, s.nextTx ≤ tx → s.txs tx = none
  numbered : ∀ k tx, .ran k .begin (some tx) ∈ h → tx < s.nextTx
  owner : ∀ k j tx, .ran k .begin (some tx) ∈ h → .ran j .begin (some tx) ∈ h → k = j
  started : ∀ tx t, s.txs tx = some t → t.startedAt ≤ s.now
  known : ∀ r ∈ s.logins, r.stateHash ∈ s.known
  presented : ∀ k tx d r, .ran k (.consume tx d) r ∈ h → d ∈ s.known ∧ .ran k .begin (some tx) ∈ h
  claim : ∀ k tx d row t, .ran k (.consume tx d) (.ok (some row)) ∈ h → s.txs tx = some t →
    t.claimed = some d
  exclusive : ∀ tx tx' t t' d, s.txs tx = some t → s.txs tx' = some t' → t.claimed = some d →
    t'.claimed = some d → tx = tx'
  ended : ∀ k tx, .ran k (.commit tx) true ∈ h → tx < s.nextTx ∧ s.txs tx = none
  gone : ∀ k j tx d row, .ran k (.consume tx d) (.ok (some row)) ∈ h → .ran j (.commit tx) true ∈ h →
    (∀ r ∈ s.logins, r.stateHash ≠ d) ∧ s.Free d
  missed : ∀ k tx d, .ran k (.consume tx d) (.ok none) ∈ h →
    ∀ r ∈ s.logins, r.stateHash = d → r.expiresAt ≤ s.now
  once : ∀ k j tx k' j' tx' d row row', .ran k (.consume tx d) (.ok (some row)) ∈ h →
    .ran j (.commit tx) true ∈ h → .ran k' (.consume tx' d) (.ok (some row')) ∈ h →
    .ran j' (.commit tx') true ∈ h → tx = tx'

theorem inv_start (now : ℤ) : Inv [] ({ now := now } : Store D) := by
  refine ⟨?_, ?_, ?_, ?_, ?_, ?_, ?_, ?_, ?_, ?_, ?_, ?_⟩ <;> simp

/-- Transactions end, rows go, time passes. -/
theorem Inv.shrink (hinv : Inv h s) (hnext : s'.nextTx = s.nextTx)
    (htxs : ∀ tx t, s'.txs tx = some t → s.txs tx = some t)
    (hlogins : s'.logins ⊆ s.logins) (hnow : s.now ≤ s'.now) (hknown : s.known ⊆ s'.known) :
    Inv h s' := by
  have hfree : ∀ {d}, s.Free d → s'.Free d := fun hf tx t ht => hf tx t (htxs tx t ht)
  have hclosed : ∀ {tx}, s.txs tx = none → s'.txs tx = none := by
    intro tx hnone
    cases ht : s'.txs tx with
    | none => rfl
    | some t => exact (htxs tx t ht).symm.trans hnone
  refine ⟨fun tx htx => hclosed (hinv.unused tx (hnext ▸ htx)),
    fun k tx hk => hnext ▸ hinv.numbered k tx hk, hinv.owner,
    fun tx t ht => (hinv.started tx t (htxs tx t ht)).trans hnow,
    fun r hr => hknown (hinv.known r (hlogins hr)),
    fun k tx d r hr => (hinv.presented k tx d r hr).imp_left fun hd => hknown hd,
    fun k tx d row t hk ht => hinv.claim k tx d row t hk (htxs tx t ht),
    fun tx tx' t t' d ht ht' => hinv.exclusive tx tx' t t' d (htxs tx t ht) (htxs tx' t' ht'),
    fun k tx hk => ⟨hnext ▸ (hinv.ended k tx hk).1, hclosed (hinv.ended k tx hk).2⟩,
    fun k j tx d row hk hj => ?_, fun k tx d hk r hr hd => ?_, hinv.once⟩
  · obtain ⟨hrows, hf⟩ := hinv.gone k j tx d row hk hj
    exact ⟨fun r hr => hrows r (hlogins hr), hfree hf⟩
  · exact (hinv.missed k tx d hk r (hlogins hr) hd).trans hnow

theorem Inv.event {e : Ev D} (hinv : Inv h s) (hbegin : ∀ k tx, e ≠ .ran k .begin (some tx))
    (hconsume : ∀ k tx d r, e ≠ .ran k (.consume tx d) r)
    (hcommit : ∀ k tx, e = .ran k (.commit tx) true → (tx < s.nextTx ∧ s.txs tx = none) ∧
      ∀ j d row, .ran j (.consume tx d) (.ok (some row)) ∈ h →
        ((∀ r ∈ s.logins, r.stateHash ≠ d) ∧ s.Free d) ∧
        ∀ l l' tx' row', .ran l (.consume tx' d) (.ok (some row')) ∈ h →
          .ran l' (.commit tx') true ∈ h → tx' = tx) : Inv (h ++ [e]) s := by
  have hb : ∀ {k tx}, (.ran k .begin (some tx) : Ev D) ∈ h ++ [e] → .ran k .begin (some tx) ∈ h :=
    fun hmem => mem_before hmem (Ne.symm (hbegin _ _))
  have hc : ∀ {k tx d r}, (.ran k (.consume tx d) r : Ev D) ∈ h ++ [e] →
      .ran k (.consume tx d) r ∈ h := fun hmem =>
    mem_before hmem (Ne.symm (hconsume _ _ _ _))
  have hd : ∀ {k tx}, (.ran k (.commit tx) true : Ev D) ∈ h ++ [e] →
      .ran k (.commit tx) true ∈ h ∨ e = .ran k (.commit tx) true := fun hmem =>
    (mem_append.1 hmem).imp_right fun heq => (mem_singleton.1 heq).symm
  refine ⟨hinv.unused, fun k tx hk => hinv.numbered k tx (hb hk),
    fun k j tx hk hj => hinv.owner k j tx (hb hk) (hb hj), hinv.started, hinv.known,
    fun k tx d r hr => (hinv.presented k tx d r (hc hr)).imp_right (mem_append_left _),
    fun k tx d row t hk => hinv.claim k tx d row t (hc hk), hinv.exclusive,
    fun k tx hk => ?_, fun k j tx d row hk hj => ?_,
    fun k tx d hk => hinv.missed k tx d (hc hk),
    fun k j tx k' j' tx' d row row' hk hj hk' hj' => ?_⟩
  · rcases hd hk with hold | hnew
    · exact hinv.ended k tx hold
    · exact (hcommit k tx hnew).1
  · rcases hd hj with hold | hnew
    · exact hinv.gone k j tx d row (hc hk) hold
    · exact ((hcommit j tx hnew).2 k d row (hc hk)).1
  · rcases hd hj with hold | hnew <;> rcases hd hj' with hold' | hnew'
    · exact hinv.once k j tx k' j' tx' d row row' (hc hk) hold (hc hk') hold'
    · exact ((hcommit j' tx' hnew').2 k' d row' (hc hk')).2 k j tx row (hc hk) hold
    · exact (((hcommit j tx hnew).2 k d row (hc hk)).2 k' j' tx' row' (hc hk') hold').symm
    · cases hnew.symm.trans hnew'
      rfl

theorem Inv.quiet {e : Ev D} (hinv : Inv h s) (hbegin : ∀ k tx, e ≠ .ran k .begin (some tx))
    (hconsume : ∀ k tx d r, e ≠ .ran k (.consume tx d) r)
    (hcommit : ∀ k tx, e ≠ .ran k (.commit tx) true) (hnext : s'.nextTx = s.nextTx)
    (htxs : ∀ tx t, s'.txs tx = some t → s.txs tx = some t)
    (hlogins : s'.logins ⊆ s.logins) (hnow : s.now ≤ s'.now) (hknown : s.known ⊆ s'.known) :
    Inv (h ++ [e]) s' :=
  (hinv.shrink hnext htxs hlogins hnow hknown).event hbegin hconsume
    fun k tx heq => absurd heq (hcommit k tx)

theorem close_txs {tx tx' : ℕ} {t : Txn D} (ht : (s.close tx).txs tx' = some t) :
    tx' ≠ tx ∧ s.txs tx' = some t := by
  have hne : tx' ≠ tx := by
    rintro rfl
    exact nomatch (update_self _ _ s.txs).symm.trans ht
  exact ⟨hne, (update_of_ne hne _ _).symm.trans ht⟩

theorem Inv.begin {k : ℕ} (hinv : Inv h s) : Inv (h ++ [Event.ran k Op.begin (some s.nextTx)]) s.begin := by
  have hold : ∀ {tx t}, s.begin.txs tx = some t → s.txs tx = some t ∨ t = ⟨s.now, none⟩ := by
    intro tx t ht
    by_cases htx : tx = s.nextTx
    · subst htx
      exact .inr (Option.some.inj ((update_self _ _ s.txs).symm.trans ht)).symm
    · exact .inl ((update_of_ne htx _ _).symm.trans ht)
  have hclaimed : ∀ {tx t d}, s.begin.txs tx = some t → t.claimed = some d → s.txs tx = some t := by
    intro tx t d ht hd
    refine (hold ht).resolve_right fun heq => ?_
    rw [heq] at hd
    cases hd
  have hb : ∀ {j tx}, (.ran j .begin (some tx) : Ev D) ∈ h ++ [Event.ran k Op.begin (some s.nextTx)] →
      .ran j .begin (some tx) ∈ h ∨ j = k ∧ tx = s.nextTx := by
    intro j tx hmem
    rcases mem_append.1 hmem with hmem | hmem
    · exact .inl hmem
    · cases mem_singleton.1 hmem
      exact .inr ⟨rfl, rfl⟩
  have hc : ∀ {j tx d r}, (.ran j (.consume tx d) r : Ev D) ∈ h ++ [Event.ran k Op.begin (some s.nextTx)] →
      .ran j (.consume tx d) r ∈ h := fun hmem =>
    mem_before hmem nofun
  have hd : ∀ {j tx}, (.ran j (.commit tx) true : Ev D) ∈ h ++ [Event.ran k Op.begin (some s.nextTx)] →
      .ran j (.commit tx) true ∈ h := fun hmem =>
    mem_before hmem nofun
  refine ⟨fun tx htx => ?_, fun j tx hj => ?_, fun j l tx hj hl => ?_, fun tx t ht => ?_,
    hinv.known, fun j tx d r hr => ?_, fun j tx d row t hj ht => ?_,
    fun tx tx' t t' d ht ht' hd hd' =>
      hinv.exclusive tx tx' t t' d (hclaimed ht hd) (hclaimed ht' hd') hd hd',
    fun j tx hj => ?_, fun j l tx d row hj hl => ?_, fun j tx d hj => hinv.missed j tx d (hc hj),
    fun j l tx j' l' tx' d row row' hj hl hj' hl' =>
      hinv.once j l tx j' l' tx' d row row' (hc hj) (hd hl) (hc hj') (hd hl')⟩
  · change s.nextTx + 1 ≤ tx at htx
    exact (update_of_ne (by omega) _ _).trans (hinv.unused tx (by omega))
  · change tx < s.nextTx + 1
    rcases hb hj with hj | ⟨-, rfl⟩
    · exact Nat.lt_succ_of_lt (hinv.numbered j tx hj)
    · exact Nat.lt_succ_self _
  · rcases hb hj with hold | ⟨hk, htx⟩ <;> rcases hb hl with hold' | ⟨hk', htx'⟩
    · exact hinv.owner j l tx hold hold'
    · exact absurd (hinv.numbered j tx hold) (by omega)
    · exact absurd (hinv.numbered l tx hold') (by omega)
    · exact hk.trans hk'.symm
  · rcases hold ht with ht | rfl
    · exact hinv.started tx t ht
    · exact le_refl _
  · obtain ⟨hd, hown⟩ := hinv.presented j tx d r (hc hr)
    exact ⟨hd, mem_append_left _ hown⟩
  · have hlt := hinv.numbered j tx (hinv.presented j tx d _ (hc hj)).2
    refine hinv.claim j tx d row t (hc hj) ((update_of_ne (by omega) _ _).symm.trans ht)
  · obtain ⟨hlt, hnone⟩ := hinv.ended j tx (hd hj)
    exact ⟨Nat.lt_succ_of_lt hlt, (update_of_ne (by omega) _ _).trans hnone⟩
  · obtain ⟨hrows, hfree⟩ := hinv.gone j l tx d row (hc hj) (hd hl)
    exact ⟨hrows, fun tx' t ht hclaim => hfree tx' t (hclaimed ht hclaim) hclaim⟩

theorem Inv.consumeNothing {k tx : ℕ} {d : D} {r : Except String (Option (LoginRow D))}
    (hinv : Inv h s) (hown : .ran k .begin (some tx) ∈ h) (hr : ∀ row, r ≠ .ok (some row))
    (hnone : r = .ok none → ∀ row ∈ s.logins, row.stateHash = d → row.expiresAt ≤ s.now) :
    Inv (h ++ [Event.ran k (Op.consume tx d) r]) (s.learn d) := by
  have hb : ∀ {j tx'}, (.ran j .begin (some tx') : Ev D) ∈ h ++ [Event.ran k (Op.consume tx d) r] →
      .ran j .begin (some tx') ∈ h := fun hmem =>
    mem_before hmem nofun
  have hc : ∀ {j tx' d' r'}, (.ran j (.consume tx' d') r' : Ev D) ∈
      h ++ [Event.ran k (Op.consume tx d) r] → .ran j (.consume tx' d') r' ∈ h ∨
        j = k ∧ tx' = tx ∧ d' = d ∧ r' = r := by
    intro j tx' d' r' hmem
    rcases mem_append.1 hmem with hmem | hmem
    · exact .inl hmem
    · cases mem_singleton.1 hmem
      exact .inr ⟨rfl, rfl, rfl, rfl⟩
  have hrow : ∀ {j tx' d' row}, (.ran j (.consume tx' d') (.ok (some row)) : Ev D) ∈
      h ++ [Event.ran k (Op.consume tx d) r] → .ran j (.consume tx' d') (.ok (some row)) ∈ h :=
    fun hmem => (hc hmem).resolve_right fun ⟨_, _, _, heq⟩ => hr _ heq.symm
  have hd : ∀ {j tx'}, (.ran j (.commit tx') true : Ev D) ∈ h ++ [Event.ran k (Op.consume tx d) r] →
      .ran j (.commit tx') true ∈ h := fun hmem =>
    mem_before hmem nofun
  refine ⟨hinv.unused, fun j tx' hj => hinv.numbered j tx' (hb hj),
    fun j l tx' hj hl => hinv.owner j l tx' (hb hj) (hb hl), hinv.started,
    fun r hr => mem_cons_of_mem _ (hinv.known r hr), fun j tx' d' r' hj => ?_,
    fun j tx' d' row t hj => hinv.claim j tx' d' row t (hrow hj), hinv.exclusive,
    fun j tx' hj => hinv.ended j tx' (hd hj), fun j l tx' d' row hj hl => hinv.gone j l tx' d' row (hrow hj) (hd hl),
    fun j tx' d' hj => ?_, fun j l tx' j' l' tx'' d' row row' hj hl hj' hl' =>
      hinv.once j l tx' j' l' tx'' d' row row' (hrow hj) (hd hl) (hrow hj') (hd hl')⟩
  · rcases hc hj with hj | ⟨rfl, rfl, rfl, rfl⟩
    · obtain ⟨hknown, hbegin⟩ := hinv.presented j tx' d' r' hj
      exact ⟨mem_cons_of_mem _ hknown, mem_append_left _ hbegin⟩
    · exact ⟨mem_cons_self, mem_append_left _ hown⟩
  · rcases hc hj with hj | ⟨rfl, rfl, rfl, heq⟩
    · exact hinv.missed j tx' d' hj
    · exact hnone heq.symm

theorem Inv.consumeRow {k tx : ℕ} {d : D} {row : LoginRow D} {t : Txn D} (hinv : Inv h s)
    (hown : .ran k .begin (some tx) ∈ h) (hfirst : ∀ j d r, .ran j (.consume tx d) r ∉ h)
    (ht : s.txs tx = some t) (hrow : row ∈ s.logins) (hhash : row.stateHash = d)
    (hfree : s.Free d) :
    Inv (h ++ [Event.ran k (Op.consume tx d) (.ok (some row))]) ((s.learn d).claim tx t d) := by
  have hb : ∀ {j tx'}, (.ran j .begin (some tx') : Ev D) ∈
      h ++ [Event.ran k (Op.consume tx d) (.ok (some row))] → .ran j .begin (some tx') ∈ h := fun hmem =>
    mem_before hmem nofun
  have hc : ∀ {j tx' d' r'}, (.ran j (.consume tx' d') r' : Ev D) ∈
      h ++ [Event.ran k (Op.consume tx d) (.ok (some row))] → .ran j (.consume tx' d') r' ∈ h ∨
        j = k ∧ tx' = tx ∧ d' = d ∧ r' = .ok (some row) := by
    intro j tx' d' r' hmem
    rcases mem_append.1 hmem with hmem | hmem
    · exact .inl hmem
    · cases mem_singleton.1 hmem
      exact .inr ⟨rfl, rfl, rfl, rfl⟩
  have hd : ∀ {j tx'}, (.ran j (.commit tx') true : Ev D) ∈
      h ++ [Event.ran k (Op.consume tx d) (.ok (some row))] → .ran j (.commit tx') true ∈ h := fun hmem =>
    mem_before hmem nofun
  have htxs : ∀ {tx' t'}, ((s.learn d).claim tx t d).txs tx' = some t' →
      (tx' = tx ∧ t' = { t with claimed := some d }) ∨ (tx' ≠ tx ∧ s.txs tx' = some t') := by
    intro tx' t' ht'
    by_cases htx : tx' = tx
    · subst htx
      exact .inl ⟨rfl, (Option.some.inj ((update_self _ _ s.txs).symm.trans ht')).symm⟩
    · exact .inr ⟨htx, (update_of_ne htx _ _).symm.trans ht'⟩
  have hkeep : ∀ {tx'}, s.txs tx' = none → ((s.learn d).claim tx t d).txs tx' = none := by
    intro tx' hnone
    have hne : tx' ≠ tx := by
      rintro rfl
      exact nomatch ht.symm.trans hnone
    exact (update_of_ne hne _ _).trans hnone
  -- What has been committed was consumed before, and it was another row.
  have hcommitted : ∀ {j l tx' d' row'}, (.ran j (.consume tx' d') (.ok (some row')) : Ev D) ∈
      h ++ [Event.ran k (Op.consume tx d) (.ok (some row))] → .ran l (.commit tx') true ∈ h →
      .ran j (.consume tx' d') (.ok (some row')) ∈ h ∧ d' ≠ d := by
    intro j l tx' d' row' hj hl
    rcases hc hj with hold | ⟨-, rfl, -, -⟩
    · refine ⟨hold, ?_⟩
      rintro rfl
      exact (hinv.gone j l tx' d' row' hold hl).1 row hrow hhash
    · exact nomatch ht.symm.trans (hinv.ended l tx' hl).2
  refine ⟨fun tx' htx' => hkeep (hinv.unused tx' htx'), fun j tx' hj => hinv.numbered j tx' (hb hj),
    fun j l tx' hj hl => hinv.owner j l tx' (hb hj) (hb hl), fun tx' t' ht' => ?_,
    fun r hr => mem_cons_of_mem _ (hinv.known r hr), fun j tx' d' r' hj => ?_,
    fun j tx' d' row' t' hj ht' => ?_, fun tx₁ tx₂ t₁ t₂ d' h₁ h₂ hd₁ hd₂ => ?_,
    fun j tx' hj => ⟨(hinv.ended j tx' (hd hj)).1, hkeep (hinv.ended j tx' (hd hj)).2⟩,
    fun j l tx' d' row' hj hl => ?_, fun j tx' d' hj => ?_,
    fun j l tx₁ j' l' tx₂ d' row₁ row₂ hj hl hj' hl' => ?_⟩
  · rcases htxs ht' with ⟨-, rfl⟩ | ⟨-, ht'⟩
    · exact hinv.started tx t ht
    · exact hinv.started tx' t' ht'
  · rcases hc hj with hold | ⟨rfl, rfl, rfl, rfl⟩
    · obtain ⟨hknown, hbegin⟩ := hinv.presented j tx' d' r' hold
      exact ⟨mem_cons_of_mem _ hknown, mem_append_left _ hbegin⟩
    · exact ⟨mem_cons_self, mem_append_left _ hown⟩
  · rcases hc hj with hold | ⟨-, rfl, rfl, -⟩
    · rcases htxs ht' with ⟨rfl, -⟩ | ⟨-, ht'⟩
      · exact absurd hold (hfirst j d' _)
      · exact hinv.claim j tx' d' row' t' hold ht'
    · rcases htxs ht' with ⟨-, rfl⟩ | ⟨hne, -⟩
      · rfl
      · exact absurd rfl hne
  · rcases htxs h₁ with ⟨htx₁, rfl⟩ | ⟨-, h₁⟩ <;> rcases htxs h₂ with ⟨htx₂, rfl⟩ | ⟨-, h₂⟩
    · exact htx₁.trans htx₂.symm
    · exact absurd (hd₂.trans hd₁.symm) (hfree tx₂ t₂ h₂)
    · exact absurd (hd₁.trans hd₂.symm) (hfree tx₁ t₁ h₁)
    · exact hinv.exclusive tx₁ tx₂ t₁ t₂ d' h₁ h₂ hd₁ hd₂
  · obtain ⟨hold, hne⟩ := hcommitted hj (hd hl)
    obtain ⟨hrows, hf⟩ := hinv.gone j l tx' d' row' hold (hd hl)
    refine ⟨hrows, fun tx₁ t₁ ht₁ hd₁ => ?_⟩
    rcases htxs ht₁ with ⟨-, rfl⟩ | ⟨-, ht₁⟩
    · exact hne (Option.some.inj hd₁).symm
    · exact hf tx₁ t₁ ht₁ hd₁
  · rcases hc hj with hold | ⟨-, -, -, hnone⟩
    · exact hinv.missed j tx' d' hold
    · cases hnone
  · exact hinv.once j l tx₁ j' l' tx₂ d' row₁ row₂ (hcommitted hj (hd hl)).1 (hd hl)
      (hcommitted hj' (hd hl')).1 (hd hl')

theorem Inv.startLogin {row : LoginRow D} {e : Change D} (hinv : Inv h s)
    (hfresh : row.stateHash ∉ s.known) : Inv (h ++ [Event.env e])
      { s with logins := row :: s.logins, known := row.stateHash :: s.known } := by
  have hprev : Inv (h ++ [Event.env e]) s :=
    hinv.quiet (fun _ _ h => nomatch h) (fun _ _ _ _ h => nomatch h) (fun _ _ h => nomatch h) rfl
      (fun _ _ ht => ht) (Subset.refl _) (le_refl _) (Subset.refl _)
  refine { hprev with
    known := fun r hr => ?_, presented := fun k tx d r hr => ?_, gone := fun k j tx d r hk hj => ?_,
    missed := fun k tx d hk r hr hd => ?_ }
  · rcases mem_cons.1 hr with rfl | hr
    · exact mem_cons_self
    · exact mem_cons_of_mem _ (hprev.known r hr)
  · obtain ⟨hd, hown⟩ := hprev.presented k tx d r hr
    exact ⟨mem_cons_of_mem _ hd, hown⟩
  · obtain ⟨hrows, hfree⟩ := hprev.gone k j tx d r hk hj
    refine ⟨fun r' hr' => ?_, hfree⟩
    rcases mem_cons.1 hr' with rfl | hr'
    · rintro rfl
      exact hfresh (hprev.presented k tx _ _ hk).1
    · exact hrows r' hr'
  · rcases mem_cons.1 hr with rfl | hr
    · exact absurd (hd ▸ (hprev.presented k tx d _ hk).1) hfresh
    · exact hprev.missed k tx d hk r hr hd

variable [DecidableEq D]

theorem live_eq_some {t : Txn D} {d : D} {row : LoginRow D} (hlive : s.live t d = some row) :
    row ∈ s.logins ∧ row.stateHash = d ∧ t.startedAt < row.expiresAt := by
  refine ⟨mem_of_find?_eq_some hlive, ?_⟩
  simpa using find?_some hlive

theorem commit_logins {tx : ℕ} {r : LoginRow D} : r ∈ (s.commit tx).logins ↔
    r ∈ s.logins ∧ (s.txs tx).bind Txn.claimed ≠ some r.stateHash := by
  unfold Store.commit
  rw [mem_filter, decide_eq_true_eq]

theorem Inv.commit {k tx : ℕ} {t : Txn D} (hinv : Inv h s) (ht : s.txs tx = some t) :
    Inv (h ++ [Event.ran k (Op.commit tx) true]) (s.commit tx) := by
  have hshrunk : Inv h (s.commit tx) :=
    hinv.shrink rfl (fun tx' t' ht' => (close_txs ht').2) (fun r hr => (commit_logins.1 hr).1)
      (le_refl _) (Subset.refl _)
  refine hshrunk.event (fun _ _ h => nomatch h) (fun _ _ _ _ h => nomatch h) ?_
  rintro j tx' ⟨⟩
  have hlt : tx < s.nextTx := not_le.1 fun hle => nomatch ht.symm.trans (hinv.unused tx hle)
  refine ⟨⟨hlt, update_self _ _ _⟩, fun j d row hj => ?_⟩
  have hclaim := hinv.claim j tx d row t hj ht
  refine ⟨⟨fun r hr heq => ?_, fun tx' t' ht' hd => ?_⟩, fun l l' tx' row' hl hl' => ?_⟩
  · refine (commit_logins.1 hr).2 ?_
    rw [ht, heq]
    exact hclaim
  · obtain ⟨hne, hopen⟩ := close_txs ht'
    exact hne (hinv.exclusive tx' tx t' t d hopen ht hd hclaim)
  · exact absurd hclaim ((hinv.gone l l' tx' d row' hl hl').2 tx t ht)

/-- A statement keeps the invariant. -/
theorem Inv.ran {hash : String → D} {k : ℕ} {o : Op D} {r : Res o}
    {next : Res o → Handler D Answer} (hinv : Inv h s)
    (hbegun : Begun (handleFederatedCallback hash) h k (.stmt o next)) (hexec : Exec s o r s') :
    Inv (h ++ [Event.ran k o r]) s' := by
  obtain ⟨i, -, hreach⟩ := hbegun
  have hholds : Holds (fun _ _ => True) (Before hash i) (fun xs _ => After hash i xs) (own k h)
      (.stmt o next) := handleFederatedCallback_holds.reaches hreach fun _ _ => trivial
  have hbefore := hholds.1
  cases o with
  | loadProvider slug =>
    obtain ⟨-, rfl⟩ := hexec
    exact hinv.event (fun _ _ h => nomatch h) (fun _ _ _ _ h => nomatch h) fun _ _ h => nomatch h
  | exchangeCode | fetchIdentity =>
    obtain rfl : s' = s := hexec
    exact hinv.event (fun _ _ h => nomatch h) (fun _ _ _ _ h => nomatch h) fun _ _ h => nomatch h
  | begin =>
    rcases hexec with ⟨rfl, rfl⟩ | ⟨rfl, rfl⟩
    · exact hinv.event (fun _ _ h => nomatch h) (fun _ _ _ _ h => nomatch h) fun _ _ h => nomatch h
    · exact hinv.begin
  | rollback tx =>
    obtain rfl : s' = s.close tx := hexec
    exact hinv.quiet (fun _ _ h => nomatch h) (fun _ _ _ _ h => nomatch h) (fun _ _ h => nomatch h)
      rfl (fun _ _ ht => (close_txs ht).2) (Subset.refl _) (le_refl _) (Subset.refl _)
  | commit tx =>
    rcases hexec with ⟨rfl, ⟨t, ht⟩, rfl⟩ | ⟨rfl, rfl | rfl⟩
    · exact hinv.commit ht
    · exact hinv.quiet (fun _ _ h => nomatch h) (fun _ _ _ _ h => nomatch h)
        (fun _ _ h => nomatch h) rfl (fun _ _ ht => (close_txs ht).2) (Subset.refl _)
        (le_refl _) (Subset.refl _)
    · exact hinv.quiet (fun _ _ h => nomatch h) (fun _ _ _ _ h => nomatch h)
        (fun _ _ h => nomatch h) rfl (fun _ _ ht => (close_txs ht).2)
        (fun r hr => (commit_logins.1 hr).1) (le_refl _) (Subset.refl _)
  | consume tx d =>
    obtain ⟨rfl, hbegin, hfirst⟩ := hbefore
    rw [mem_own] at hbegin
    rcases hexec with ⟨e, rfl, rfl⟩ | ⟨t, ht, ⟨hnone, rfl, rfl⟩ | ⟨row, hlive, hfree, rfl, rfl⟩⟩
    · exact hinv.consumeNothing hbegin (fun _ h => nomatch h) fun h => nomatch h
    · refine hinv.consumeNothing hbegin (fun _ h => nomatch h) fun _ r hr hhash => ?_
      have hdead := find?_eq_none.1 hnone r hr
      rw [decide_eq_true_eq, not_and] at hdead
      exact (not_lt.1 (hdead hhash)).trans (hinv.started tx t ht)
    · obtain ⟨hrow, hhash, -⟩ := live_eq_some hlive
      refine hinv.consumeRow hbegin (fun j d r hj => ?_) ht hrow hhash hfree
      obtain rfl := hinv.owner k j tx hbegin (hinv.presented j tx d r hj).2
      exact hfirst tx d r (mem_own.2 hj)

theorem run_inv {hash : String → D} {now : ℤ} {es : List (Ev D)} {w : World D}
    (hrun : CallbackRun hash now es w) : Inv es w.state := by
  refine Run.tables hrun (inv_start now) ?_ (fun hinv hbegun hexec => hinv.ran hbegun hexec) ?_ ?_
  · exact fun hinv => hinv.event (fun _ _ h => nomatch h) (fun _ _ _ _ h => nomatch h)
      fun _ _ h => nomatch h
  · exact fun hinv => hinv.event (fun _ _ h => nomatch h) (fun _ _ _ _ h => nomatch h)
      fun _ _ h => nomatch h
  · rintro h t t' e hinv ⟨hallowed, rfl⟩
    cases e with
    | started row => exact hinv.startLogin hallowed
    | clock now =>
      exact hinv.quiet (fun _ _ h => nomatch h) (fun _ _ _ _ h => nomatch h)
        (fun _ _ h => nomatch h) rfl (fun _ _ ht => ht) (Subset.refl _) hallowed
        (Subset.refl _)
    | deleted logins =>
      exact hinv.quiet (fun _ _ h => nomatch h) (fun _ _ _ _ h => nomatch h)
        (fun _ _ h => nomatch h) rfl (fun _ _ ht => ht) hallowed.subset (le_refl _)
        (Subset.refl _)
    | providers p =>
      exact hinv.quiet (fun _ _ h => nomatch h) (fun _ _ _ _ h => nomatch h)
        (fun _ _ h => nomatch h) rfl (fun _ _ ht => ht) (Subset.refl _) (le_refl _)
        (Subset.refl _)
    | lost tx =>
      exact hinv.quiet (fun _ _ h => nomatch h) (fun _ _ _ _ h => nomatch h)
        (fun _ _ h => nomatch h) rfl (fun _ _ ht => (close_txs ht).2) (Subset.refl _)
        (le_refl _) (Subset.refl _)

end

section

variable {D : Type} [DecidableEq D] {d : D} {T : ℤ} {N : ℕ} {xs : List (Ev D)} {s s' : Store D}

/-- After an instant: the rows of the state have expired by then, and every transaction from this
number on began no earlier. -/
structure Late (d : D) (T : ℤ) (N : ℕ) (xs : List (Ev D)) (s : Store D) : Prop where
  rows : ∀ r ∈ s.logins, r.stateHash = d → r.expiresAt ≤ T
  now : T ≤ s.now
  known : d ∈ s.known
  next : N ≤ s.nextTx
  begun : ∀ k tx, .ran k .begin (some tx) ∈ xs → N ≤ tx
  later : ∀ tx t, s.txs tx = some t → N ≤ tx → T ≤ t.startedAt

omit [DecidableEq D] in
/-- Rows go, time passes, and a transaction that is open began when it did, or just now. -/
theorem Late.step {e : Ev D} (hlate : Late d T N xs s)
    (hrows : ∀ r ∈ s'.logins, r ∈ s.logins ∨ r.stateHash ≠ d) (hnow : s.now ≤ s'.now)
    (hknown : s.known ⊆ s'.known) (hnext : s.nextTx ≤ s'.nextTx)
    (hbegin : ∀ k tx, e = .ran k .begin (some tx) → tx = s.nextTx)
    (htxs : ∀ tx t', s'.txs tx = some t' → t'.startedAt = s.now ∨
      ∃ t, s.txs tx = some t ∧ t.startedAt = t'.startedAt) : Late d T N (xs ++ [e]) s' where
  rows r hr hd := (hrows r hr).elim (fun hr => hlate.rows r hr hd) fun hne => absurd hd hne
  now := hlate.now.trans hnow
  known := hknown hlate.known
  next := hlate.next.trans hnext
  begun k tx hmem := by
    rcases mem_append.1 hmem with hmem | hmem
    · exact hlate.begun k tx hmem
    · exact hbegin k tx (mem_singleton.1 hmem).symm ▸ hlate.next
  later tx t' ht' htx := by
    rcases htxs tx t' ht' with heq | ⟨t, ht, heq⟩
    · exact heq ▸ hlate.now
    · exact heq ▸ hlate.later tx t ht htx

omit [DecidableEq D] in
theorem Late.same {e : Ev D} (hlate : Late d T N xs s)
    (hbegin : ∀ k tx, e ≠ .ran k .begin (some tx)) : Late d T N (xs ++ [e]) s :=
  hlate.step (fun _ hr => .inl hr) (le_refl _) (Subset.refl _) (le_refl _)
    (fun k tx heq => absurd heq (hbegin k tx)) fun _ t ht => .inr ⟨t, ht, rfl⟩

theorem Late.ran {k : ℕ} {o : Op D} {r : Res o} (hlate : Late d T N xs s) (hexec : Exec s o r s') :
    Late d T N (xs ++ [Event.ran k o r]) s' := by
  have hclose : ∀ {tx tx' t'}, (s.close tx).txs tx' = some t' → t'.startedAt = s.now ∨
      ∃ t, s.txs tx' = some t ∧ t.startedAt = t'.startedAt :=
    fun ht => .inr ⟨_, (close_txs ht).2, rfl⟩
  cases o with
  | loadProvider slug =>
    obtain ⟨-, rfl⟩ := hexec
    exact hlate.same fun _ _ h => nomatch h
  | exchangeCode | fetchIdentity =>
    obtain rfl : s' = s := hexec
    exact hlate.same fun _ _ h => nomatch h
  | begin =>
    rcases hexec with ⟨rfl, rfl⟩ | ⟨rfl, rfl⟩
    · exact hlate.same fun _ _ h => nomatch h
    · refine hlate.step (fun _ hr => .inl hr) (le_refl _) (Subset.refl _) (Nat.le_succ _)
        (by rintro _ _ ⟨⟩; rfl) fun tx t' ht' => ?_
      by_cases htx : tx = s.nextTx
      · subst htx
        rw [← Option.some.inj ((update_self _ _ s.txs).symm.trans ht')]
        exact .inl rfl
      · exact .inr ⟨t', (update_of_ne htx _ _).symm.trans ht', rfl⟩
  | rollback tx =>
    obtain rfl : s' = s.close tx := hexec
    exact hlate.step (fun _ hr => .inl hr) (le_refl _) (Subset.refl _) (le_refl _)
      (fun _ _ h => nomatch h) fun _ _ ht => hclose ht
  | commit tx =>
    have hs' : s' = s.close tx ∨ s' = s.commit tx := by
      rcases hexec with ⟨-, -, h⟩ | ⟨-, h⟩
      · exact .inr h
      · exact h
    rcases hs' with rfl | rfl
    · exact hlate.step (fun _ hr => .inl hr) (le_refl _) (Subset.refl _) (le_refl _)
        (fun _ _ h => nomatch h) fun _ _ ht => hclose ht
    · exact hlate.step (fun _ hr => .inl (commit_logins.1 hr).1) (le_refl _)
        (Subset.refl _) (le_refl _) (fun _ _ h => nomatch h) fun _ _ ht => hclose ht
  | consume tx d' =>
    have hlearn : Late d T N (xs ++ [Event.ran k (Op.consume tx d') r]) (s.learn d') :=
      hlate.step (fun _ hr => .inl hr) (le_refl _) (fun _ => mem_cons_of_mem _) (le_refl _)
        (fun _ _ h => nomatch h) fun _ t ht => .inr ⟨t, ht, rfl⟩
    rcases hexec with ⟨e, rfl, rfl⟩ | ⟨t, ht, ⟨-, rfl, rfl⟩ | ⟨row, -, -, rfl, rfl⟩⟩
    · exact hlearn
    · exact hlearn
    · refine { hlearn with later := fun tx' t' ht' htx' => ?_ }
      by_cases htx : tx' = tx
      · subst htx
        rw [← Option.some.inj ((update_self _ _ s.txs).symm.trans ht')]
        exact hlate.later tx' t ht htx'
      · exact hlate.later tx' t' ((update_of_ne htx _ _).symm.trans ht') htx'

theorem Late.run {hash : String → D} {p q : World D} {ys : List (Ev D)}
    (hlate : Late d T N [] p.state)
    (hrun : Run (Step (handleFederatedCallback hash) Exec Changes) p ys q) :
    Late d T N ys q.state := by
  refine hrun.invariant (I := fun xs q => Late d T N xs q.state) hlate ?_
  intro xs a b e hlate hstep
  cases hstep with
  | began | answered => exact hlate.same fun _ _ h => nomatch h
  | ran _ hexec => exact hlate.ran hexec
  | env hchange =>
    rename_i e s'
    obtain ⟨hallowed, hs'⟩ := hchange
    subst hs'
    cases e with
    | clock now =>
      exact hlate.step (fun _ hr => .inl hr) hallowed (Subset.refl _) (le_refl _)
        (fun _ _ h => nomatch h) fun _ t ht => .inr ⟨t, ht, rfl⟩
    | started row =>
      refine hlate.step (fun r hr => ?_) (le_refl _) (fun _ => mem_cons_of_mem _)
        (le_refl _) (fun _ _ h => nomatch h) fun _ t ht => .inr ⟨t, ht, rfl⟩
      rcases mem_cons.1 hr with rfl | hr
      · exact .inr fun heq => hallowed (heq ▸ hlate.known)
      · exact .inl hr
    | deleted logins =>
      exact hlate.step (fun _ hr => .inl (hallowed.subset hr)) (le_refl _)
        (Subset.refl _) (le_refl _) (fun _ _ h => nomatch h) fun _ t ht => .inr ⟨t, ht, rfl⟩
    | providers p =>
      exact hlate.step (fun _ hr => .inl hr) (le_refl _) (Subset.refl _) (le_refl _)
        (fun _ _ h => nomatch h) fun _ t ht => .inr ⟨t, ht, rfl⟩
    | lost tx =>
      exact hlate.step (fun _ hr => .inl hr) (le_refl _) (Subset.refl _) (le_refl _)
        (fun _ _ h => nomatch h) fun _ t ht => .inr ⟨t, (close_txs ht).2, rfl⟩

end

section

variable {D : Type} [DecidableEq D] {hash : String → D} {now : ℤ} {es : List (Ev D)} {w : World D}
  {k : ℕ} {i : Callback}

theorem accepted_consumed (hrun : CallbackRun hash now es w) (hbegan : .began k i ∈ es)
    (haccepted : Accepted es k) : ∃ tx row,
      .ran k (.consume tx (hash i.state)) (.ok (some row)) ∈ es ∧ .ran k (.commit tx) true ∈ es := by
  obtain ⟨provider, code, verifier, r, hmem⟩ := haccepted
  obtain ⟨hs, next, hsub, i', hbegan', hreach⟩ := Run.stated hrun hmem
  obtain rfl := (Run.booked hrun).once k _ _ hbegan (hsub hbegan')
  have hholds : Holds (fun _ _ => True) (Before hash i) (fun xs _ => After hash i xs) (own k hs)
      (.stmt (.exchangeCode provider code verifier) next) :=
    handleFederatedCallback_holds.reaches hreach fun _ _ => trivial
  obtain ⟨tx, row, hconsume, hcommit⟩ := hholds.1
  exact ⟨tx, row, hsub (mem_own.1 hconsume), hsub (mem_own.1 hcommit)⟩

theorem callback_accepted_once (hrun : CallbackRun hash now es w) : AcceptedOnce es := by
  intro k k' i i' hk hk' hstate ha ha'
  have hinv := run_inv hrun
  obtain ⟨tx, row, hconsume, hcommit⟩ := accepted_consumed hrun hk ha
  obtain ⟨tx', row', hconsume', hcommit'⟩ := accepted_consumed hrun hk' ha'
  rw [← hstate] at hconsume'
  obtain rfl := hinv.once k k tx k' k' tx' _ row row' hconsume hcommit hconsume' hcommit'
  exact hinv.owner k k' tx (hinv.presented k tx _ _ hconsume).2 (hinv.presented k' tx _ _ hconsume').2

/-- A careful callback that has come to the deletion has found nothing, or deleted the row for
good, by the time it answers. -/
theorem careful_burns {pre post : List (Ev D)} {a : Answer}
    (hrun : CallbackRun hash now (pre ++ Event.answered k a :: post) w)
    (hcareful : Careful hash (pre ++ Event.answered k a :: post))
    (hbegan : .began k i ∈ pre ++ Event.answered k a :: post)
    (hreached : Reaches (pre ++ Event.answered k a :: post) k (hash i.state)) :
    (∃ tx, .ran k (.consume tx (hash i.state)) (.ok none) ∈ pre) ∨ ∃ tx row,
      .ran k (.consume tx (hash i.state)) (.ok (some row)) ∈ pre ∧
        .ran k (.commit tx) true ∈ pre := by
  obtain ⟨tx, r, hreached⟩ := hreached
  obtain ⟨hfault, hlost, hright⟩ := hcareful k i hbegan
  obtain ⟨b, c, hpre, hstep, -⟩ := hrun.split
  have hsub : pre ⊆ pre ++ Event.answered k a :: post := subset_append_left _ _
  have hconsume : .ran k (.consume tx (hash i.state)) r ∈ pre := by
    refine (mem_append.1 hreached).resolve_right fun hmem => ?_
    rcases mem_cons.1 hmem with heq | hmem
    · cases heq
    · exact Run.silent hrun hmem
  cases hstep with
  | answered hk =>
    obtain ⟨i', hbegan', hreach⟩ := (Run.booked hpre).begun k _ hk
    obtain rfl := (Run.booked hrun).once k _ _ hbegan (hsub hbegan')
    have hafter : Holds (fun _ _ => True) (Before hash i) (fun xs _ => After hash i xs)
        (own k pre) (.ret a) := handleFederatedCallback_holds.reaches hreach fun _ _ => trivial
    rcases hafter tx _ r (mem_own.2 hconsume) with ⟨e, rfl⟩ | rfl | hcommit |
      ⟨row, rfl, hcommit | ⟨p, cookie, hload, hcookie, hwrong⟩⟩
    · exact absurd (hsub hconsume) (hfault tx _ e)
    · exact .inl ⟨tx, hconsume⟩
    · exact absurd (hsub (mem_own.1 hcommit)) (hlost tx)
    · exact .inr ⟨tx, row, hconsume, mem_own.1 hcommit⟩
    · obtain ⟨⟨cookie', hcookie', hbinding⟩, hprovider⟩ :=
        hright tx row p (hsub (mem_own.1 hload)) (hsub hconsume)
      obtain rfl := Option.some.inj (hcookie.symm.trans hcookie')
      exact hwrong.elim (absurd hbinding) (absurd hprovider)

/-- A state is accepted at most once; and in a run whose callbacks are careful, every presentation
burns it. -/
theorem accepted_once_and_burned (hrun : CallbackRun hash now es w) :
    AcceptedOnce es ∧ (Careful hash es → Burned hash es) := by
  refine ⟨callback_accepted_once hrun, ?_⟩
  rintro hcareful pre post k i a rfl hbegan hreached k' i' hbegan' hstate haccepted
  have hburned := careful_burns hrun hcareful hbegan hreached
  rw [← hstate] at hburned
  -- The later request finds the row in a state that is reached after the answer.
  obtain ⟨tx', row', hconsume', -⟩ := accepted_consumed hrun
    (mem_append_right _ (mem_cons_of_mem _ hbegan')) haccepted
  obtain ⟨hs, ts, u, v, hes, hu, hstep', hexec⟩ := Run.executed hrun hconsume'
  rw [append_cons] at hrun hes
  obtain ⟨mid, rfl, -⟩ := Run.later hrun hbegan' hes
  obtain ⟨t, ht, hlive⟩ : ∃ t, u.state.txs tx' = some t ∧
      u.state.live t (hash i'.state) = some row' := by
    rcases hexec with ⟨e, herr, -⟩ | ⟨t, ht, ⟨-, hnone, -⟩ | ⟨row, hlive, -, hrow, -⟩⟩
    · cases herr
    · cases hnone
    · cases hrow
      exact ⟨t, ht, hlive⟩
  obtain ⟨hrow, hhash, hbefore⟩ := live_eq_some hlive
  have hinv := run_inv hu
  have hbegin : .ran k' .begin (some tx') ∈ mid := by
    cases hstep' with
    | ran hk' _ =>
      obtain ⟨j, -, hreach⟩ := (Run.booked hu).begun k' _ hk'
      have hholds : Holds (fun _ _ => True) (Before hash j) (fun xs _ => After hash j xs)
          (own k' (pre ++ [Event.answered k a] ++ mid)) (.stmt (.consume tx' (hash i'.state)) _) :=
        handleFederatedCallback_holds.reaches hreach fun _ _ => trivial
      exact (mem_append.1 (mem_own.1 hholds.1.2.1)).resolve_left (Run.unstarted hrun hbegan')
  have hsub : pre ⊆ pre ++ [Event.answered k a] ++ mid := fun e he =>
    mem_append_left _ (mem_append_left _ he)
  rcases hburned with ⟨tx, hnone⟩ | ⟨tx, row, hconsume, hcommit⟩
  · rw [← append_cons] at hu
    obtain ⟨b, c, hb, hstep, hmid⟩ := hu.split
    have hc := run_inv (hb.snoc hstep)
    have hlate : Late (hash i'.state) c.state.now c.state.nextTx mid u.state := by
      refine Late.run ?_ hmid
      refine ⟨hc.missed k tx _ (mem_append_left _ hnone), le_refl _,
        (hc.presented k tx _ _ (mem_append_left _ hnone)).1, le_refl _,
        fun _ _ h => absurd h not_mem_nil, fun tx t ht htx => ?_⟩
      exact nomatch ht.symm.trans (hc.unused tx htx)
    have hlater := hlate.later tx' t ht (hlate.begun k' tx' hbegin)
    exact absurd (hlate.rows row' hrow hhash) (not_le.2 (hlater.trans_lt hbefore))
  · exact (hinv.gone k k tx _ row (hsub hconsume) (hsub hcommit)).1 row' hrow hhash

end

section

def aliceLogin : LoginRow String where
  stateHash := "state"
  pending := { providerID := "p1", orgID := "acme", nonce := "n", codeVerifier := "v" }
  bindingHash := "cookie"
  expiresAt := 600

def idp : OidcProvider := ⟨"p1", "acme"⟩

def callback (cookie : String) : Callback where
  slug := "idp"
  code := "code"
  state := "state"
  cookie := some cookie

def ready : Store String where
  logins := [aliceLogin]
  providers := fun _ => some idp
  now := 0
  known := ["state"]

def setup : List (Ev String) := [.env (.providers fun _ => some idp), .env (.started aliceLogin)]

theorem setup_run : CallbackRun id 0 setup ⟨ready, 0, fun _ => none⟩ := by
  have hproviders : Changes ({ now := 0 } : Store String) (.providers fun _ => some idp)
      { now := 0, providers := fun _ => some idp } := ⟨trivial, rfl⟩
  have hstart : Changes ({ now := 0, providers := fun _ => some idp } : Store String)
      (.started aliceLogin) ready := ⟨not_mem_nil, rfl⟩
  exact (Run.nil.snoc (.env hproviders)).snoc (.env hstart)

variable {s : Store String}

def deleting (s : Store String) : Store String :=
  (s.begin.learn "state").claim s.nextTx ⟨s.now, none⟩ "state"

theorem deleting_close (hidle : ∀ tx, s.txs tx = none) (tx : ℕ) :
    ((deleting s).close s.nextTx).txs tx = none := by
  by_cases htx : tx = s.nextTx
  · subst htx
    exact update_self _ _ _
  · change update (update (update _ _ _) _ _) _ _ _ = _
    rw [update_of_ne htx, update_of_ne htx, update_of_ne htx]
    exact hidle tx

/-- With no transaction under way, a callback finds the row and deletes it. -/
theorem deletes (hidle : ∀ tx, s.txs tx = none) (hrow : s.logins = [aliceLogin])
    (hnow : s.now = 0) : Exec s.begin (.consume s.nextTx "state") (.ok (some aliceLogin))
      (deleting s) := by
  refine .inr ⟨⟨s.now, none⟩, update_self _ _ _, .inr ⟨aliceLogin, ?_, ?_, rfl, rfl⟩⟩
  · change s.logins.find? _ = _
    rw [hrow, hnow]
    rfl
  · intro tx t ht hd
    by_cases htx : tx = s.nextTx
    · subst htx
      rw [← Option.some.inj ((update_self _ _ s.txs).symm.trans ht)] at hd
      cases hd
    · exact nomatch (hidle tx).symm.trans ((update_of_ne htx _ _).symm.trans ht)

def probing : Trace (Op String) Res :=
  [⟨.loadProvider "idp", some idp⟩, ⟨.begin, some 0⟩,
    ⟨.consume 0 "state", .ok (some aliceLogin)⟩, ⟨.rollback 0, ()⟩]

def probed : Store String := (deleting ready).close 0

theorem probe_plays : Plays Exec ready (handleFederatedCallback id (callback "guess")) probing
    probed (.refused "this sign-in was started in a different browser") := by
  have hload : Exec ready (.loadProvider "idp") (some idp) ready := ⟨.inr rfl, rfl⟩
  have hbegin : Exec ready .begin (some 0) ready.begin := .inr ⟨rfl, rfl⟩
  have hrollback : Exec (deleting ready) (.rollback 0) () probed := rfl
  exact .stmt hload (.stmt hbegin (.stmt (deletes (fun _ => rfl) rfl rfl) (.stmt hrollback .ret)))

def alice : ExternalIdentity := { subject := "alice" }

def accepting (tx : ℕ) : Trace (Op String) Res :=
  [⟨.loadProvider "idp", some idp⟩, ⟨.begin, some tx⟩,
    ⟨.consume tx "state", .ok (some aliceLogin)⟩, ⟨.commit tx, true⟩,
    ⟨.exchangeCode "p1" "code" "v", some "tokens"⟩, ⟨.fetchIdentity "p1" "tokens" "n", some alice⟩]

def signedIn : Answer := .completed idp aliceLogin.pending alice

theorem accept_plays (hidle : ∀ tx, s.txs tx = none) (hrow : s.logins = [aliceLogin])
    (hnow : s.now = 0) (hproviders : s.providers = fun _ => some idp) :
    Plays Exec s (handleFederatedCallback id (callback "cookie")) (accepting s.nextTx)
      ((deleting s).commit s.nextTx) signedIn := by
  have hload : Exec s (.loadProvider "idp") (some idp) s := ⟨.inr (by rw [hproviders]), rfl⟩
  have hbegin : Exec s .begin (some s.nextTx) s.begin := .inr ⟨rfl, rfl⟩
  have hcommit : Exec (deleting s) (.commit s.nextTx) true ((deleting s).commit s.nextTx) :=
    .inl ⟨rfl, ⟨_, update_self _ _ _⟩, rfl⟩
  have hexchange : Exec ((deleting s).commit s.nextTx) (.exchangeCode "p1" "code" "v")
      (some "tokens") ((deleting s).commit s.nextTx) := rfl
  have hfetch : Exec ((deleting s).commit s.nextTx) (.fetchIdentity "p1" "tokens" "n")
      (some alice) ((deleting s).commit s.nextTx) := rfl
  exact .stmt hload (.stmt hbegin (.stmt (deletes hidle hrow hnow) (.stmt hcommit
    (.stmt hexchange (.stmt hfetch .ret)))))

def otherBrowser : Answer := .refused "this sign-in was started in a different browser"

def probedRun : List (Ev String) :=
  setup ++ alone 0 (callback "guess") probing otherBrowser ++
    alone 1 (callback "cookie") (accepting 1) signedIn

theorem probed_run : ∃ w, CallbackRun id 0 probedRun w := by
  obtain ⟨_, hrun⟩ := Plays.serve setup_run probe_plays
  obtain ⟨_, hrun⟩ := Plays.serve hrun (accept_plays (deleting_close fun _ => rfl) rfl rfl rfl)
  exact ⟨_, hrun⟩

/-- The one with the other cookie is refused, and the state is accepted afterwards. -/
theorem probed_state_accepted : ∃ (es : List (Ev String)) (w : World String),
    CallbackRun id 0 es w ∧ ¬ (AcceptedOnce es ∧ Burned id es) := by
  obtain ⟨w, hrun⟩ := probed_run
  refine ⟨probedRun, w, hrun, fun ⟨_, hburned⟩ => ?_⟩
  refine hburned (probedRun.take 7) (probedRun.drop 8) 0 (callback "guess") otherBrowser rfl ?_
    ⟨0, .ok (some aliceLogin), ?_⟩ 1 (callback "cookie") ?_ rfl ⟨"p1", "code", "v", some "tokens", ?_⟩
  · exact mem_of_getElem? (show probedRun[2]? = some _ from rfl)
  · exact mem_of_getElem? (show probedRun[5]? = some _ from rfl)
  · exact mem_of_getElem? (show (probedRun.drop 8)[0]? = some _ from rfl)
  · exact mem_of_getElem? (show probedRun[13]? = some _ from rfl)

def replayedRun : List (Ev String) :=
  setup ++ alone 0 (callback "cookie") (accepting 0) signedIn ++
    alone 1 (callback "cookie") ([⟨.loadProvider "idp", some idp⟩, ⟨.begin, some 1⟩,
        ⟨.consume 1 "state", .ok none⟩, ⟨.rollback 1, ()⟩] : Trace (Op String) Res)
      (Answer.refused "this sign-in link has already been used or has expired")

theorem replay_plays : Plays Exec ((deleting ready).commit 0)
    (handleFederatedCallback id (callback "cookie")) [⟨.loadProvider "idp", some idp⟩,
      ⟨.begin, some 1⟩, ⟨.consume 1 "state", .ok none⟩, ⟨.rollback 1, ()⟩]
    ((((deleting ready).commit 0).begin.learn "state").close 1)
    (.refused "this sign-in link has already been used or has expired") := by
  have hload : Exec ((deleting ready).commit 0) (.loadProvider "idp") (some idp)
      ((deleting ready).commit 0) := ⟨.inr rfl, rfl⟩
  have hbegin : Exec ((deleting ready).commit 0) .begin (some 1)
      ((deleting ready).commit 0).begin := .inr ⟨rfl, rfl⟩
  have hconsume : Exec ((deleting ready).commit 0).begin (.consume 1 "state") (.ok none)
      (((deleting ready).commit 0).begin.learn "state") :=
    .inr ⟨⟨0, none⟩, rfl, .inl ⟨rfl, rfl, rfl⟩⟩
  have hrollback : Exec (((deleting ready).commit 0).begin.learn "state") (.rollback 1) ()
      ((((deleting ready).commit 0).begin.learn "state").close 1) := rfl
  exact .stmt hload (.stmt hbegin (.stmt hconsume (.stmt hrollback .ret)))

theorem replayed_careful : Careful id replayedRun := by
  intro k i hbegan
  refine ⟨fun tx h e hmem => ?_, fun tx hmem => ?_, fun tx row p hload hconsume => ?_⟩
  · simp [replayedRun, setup, alone, accepting] at hmem
  · simp [replayedRun, setup, alone, accepting] at hmem
  · have hi : i = callback "cookie" := by
      simp [replayedRun, setup, alone, accepting] at hbegan
      exact hbegan.elim And.right And.right
    have hp : p = idp := by
      simp [replayedRun, setup, alone, accepting] at hload
      exact hload.elim (fun h => h.2.2) fun h => h.2.2
    have hrow : row = aliceLogin := by
      simp [replayedRun, setup, alone, accepting] at hconsume
      exact hconsume.2.2
    rw [hi, hp, hrow]
    exact ⟨⟨"cookie", rfl, rfl⟩, rfl⟩

/-- A state is accepted once, and the replay finds nothing. -/
theorem accepted_once_and_burned_replay : ∃ w, CallbackRun id 0 replayedRun w ∧
    Careful id replayedRun ∧
    AcceptedOnce replayedRun ∧ (Careful id replayedRun → Burned id replayedRun) := by
  obtain ⟨_, hrun⟩ := Plays.serve setup_run (accept_plays (fun _ => rfl) rfl rfl rfl)
  obtain ⟨_, hrun⟩ := Plays.serve hrun replay_plays
  exact ⟨_, hrun, replayed_careful, accepted_once_and_burned hrun⟩

end

end Signari.FederatedCallbacks
