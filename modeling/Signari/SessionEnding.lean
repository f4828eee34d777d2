import Signari.TokenMinting

/-!
# Ending sessions, and telling who has to know

`TerminateSessions` of `internal/store/sessions.go`. One transaction reads which clients have seen
the sessions it is about to end, queues a logout notice for each of them, queues security events
in two further statements, and then revokes the sessions. Under READ COMMITTED every statement
sees what is committed when it begins, and no row is locked before the revocation. The UPDATE
waits for a row that another transaction has revoked and then leaves it alone.

`terminations_announced` is about the runs in which nobody is recorded between the snapshot of a
termination that reaches the session and its commit, and in which no termination takes from another
all that it announces.
-/
namespace Signari.SessionEnding
open LabelledRuns TokenMinting List Function

/-- What a termination ends: one session, or all of a user. -/
inductive Target where
  | sid (sid : String)
  | user (userID : String)

/-- Exactly one of the two must be given. -/
def targetOf (sid userID : String) : Option Target :=
  if sid = "" ∧ userID = "" ∨ sid ≠ "" ∧ userID ≠ "" then none
  else if sid ≠ "" then some (.sid sid)
  else some (.user userID)

structure LogoutNotice where
  clientID : String
  endpoint : String
  sessionID : String
  subject : String
  reason : String

structure Stream where
  id : String
  clientID : String
  endpoint : String
  enabled : Bool
  poll : Bool
  eventsRequested : List String

/-- A security event, for the outbox or for the queue of a stream that polls. -/
structure SsfEvent where
  streamID : String
  clientID : String
  endpoint : String
  subject : String
  sid : String
  reason : String
  poll : Bool
  deriving DecidableEq

def eventSessionRevoked : String :=
  "https://schemas.openid.net/secevent/caep/event-type/session-revoked"

/-- The session a notice of the termination names, empty when it goes by user. -/
def Target.sessionID : Target → String
  | .sid t => t
  | .user _ => ""

def Target.subject : Target → String
  | .sid _ => ""
  | .user u => u

def Target.matches (tgt : Target) (sid : String) (row : SessionRow) : Bool := match tgt with
  | .sid t => sid == t
  | .user u => row.userID == u

abbrev Sessions := String → Option SessionRow

/-- The WHERE clause of all four statements: not revoked, and what the call is about. -/
def targeted (sessions : Sessions) (tgt : Target) (sid : String) : Bool :=
  (sessions sid).any fun row => row.revokedAt.isNone && tgt.matches sid row

variable (uri : String → Option String) (streams : List Stream)

/-- The rows of the snapshot, one for each client that has seen a session. The rows come in no
fixed order. -/
def snapshotNotices (sessions : Sessions) (clients : List (String × String)) (tgt : Target)
    (reason : String) : List LogoutNotice :=
  clients.filterMap fun (sid, clientID) =>
    if targeted sessions tgt sid then
      (uri clientID).map fun endpoint =>
        ⟨clientID, endpoint, tgt.sessionID, tgt.subject, reason⟩
    else none

def LogoutNotice.key (n : LogoutNotice) : String :=
  n.clientID ++ "|" ++ n.sessionID ++ "|" ++ n.subject

def deduplicate (seen : List String) : List LogoutNotice → List LogoutNotice
  | [] => []
  | n :: ns =>
    if n.key ∈ seen then deduplicate seen ns else n :: deduplicate (n.key :: seen) ns

/-- What the two statements for security events insert. -/
def ssfEvents (sessions : Sessions) (clients : List (String × String)) (tgt : Target)
    (reason : String) (poll : Bool) : List SsfEvent :=
  (clients.flatMap fun (sid, clientID) =>
    if targeted sessions tgt sid then
      (streams.filter fun st => st.clientID == clientID && st.enabled && st.poll == poll &&
        st.eventsRequested.contains eventSessionRevoked).map fun st =>
          ⟨st.id, st.clientID, st.endpoint, (sessions sid).elim "" SessionRow.userID, sid, reason,
            poll⟩
    else []).dedup

/-- How far a termination is. From `updating` on it knows the rows its UPDATE has found, and from
`updated` on those that it has revoked. -/
inductive Stage where
  | began | snapshotted | pushed | polled
  | updating (seen : String → Bool)
  | updated (revoked : String → Bool)
  | done

structure Tx where
  target : Target
  reason : String
  since : ℤ
  stage : Stage := .began
  notices : List LogoutNotice := []
  events : List SsfEvent := []

/-- The committed tables, the transactions and the clock. `outbox` and `events` keep the
transaction beside each row. -/
structure State where
  sessions : Sessions := fun _ => none
  clients : List (String × String) := []
  outbox : List (ℕ × LogoutNotice) := []
  events : List (ℕ × SsfEvent) := []
  txs : ℕ → Option Tx := fun _ => none
  clock : ℤ := 0

inductive Obs where
  | quiet
  | inserted (sid : String)
  | touched (sid clientID : String)
  | committed (i : ℕ) (tx : Tx)

def State.set (s : State) (i : ℕ) (tx : Tx) : State := { s with txs := update s.txs i (some tx) }

def revokeRows (sessions : Sessions) (revoked : String → Bool) (now : ℤ) : Sessions :=
  fun sid => (sessions sid).map fun row =>
    if revoked sid then { row with revokedAt := some now } else row

def State.commit (s : State) (i : ℕ) (tx : Tx) (revoked : String → Bool) : State :=
  { s.set i { tx with stage := .done } with
    sessions := revokeRows s.sessions revoked tx.since
    outbox := s.outbox ++ tx.notices.map fun n => (i, n)
    events := s.events ++ tx.events.map fun e => (i, e) }

/-- One statement, or one whole transaction that inserts a session or records a client. -/
inductive Step : State → Obs → State → Prop
  | wait {s : State} {t : ℤ} : s.clock ≤ t → Step s .quiet { s with clock := t }
  | insert {s : State} {sid : String} {row : SessionRow} :
      s.sessions sid = none → row.revokedAt = none →
      Step s (.inserted sid) { s with sessions := update s.sessions sid (some row) }
  | touch {s : State} {sid clientID : String} :
      (s.sessions sid).isSome = true →
      Step s (.touched sid clientID) { s with clients := s.clients.insert (sid, clientID) }
  | begin {s : State} {i : ℕ} {sid userID reason : String} {tgt : Target} :
      s.txs i = none → targetOf sid userID = some tgt →
      Step s .quiet (s.set i ⟨tgt, reason, s.clock, .began, [], []⟩)
  | snapshot {s : State} {i : ℕ} {tx : Tx} :
      s.txs i = some tx → tx.stage = .began →
      Step s .quiet (s.set i { tx with
        stage := .snapshotted
        notices := deduplicate [] (snapshotNotices uri s.sessions s.clients tx.target tx.reason) })
  | push {s : State} {i : ℕ} {tx : Tx} :
      s.txs i = some tx → tx.stage = .snapshotted →
      Step s .quiet (s.set i { tx with
        stage := .pushed
        events := ssfEvents streams s.sessions s.clients tx.target tx.reason false })
  | poll {s : State} {i : ℕ} {tx : Tx} :
      s.txs i = some tx → tx.stage = .pushed →
      Step s .quiet (s.set i { tx with
        stage := .polled
        events := tx.events ++ ssfEvents streams s.sessions s.clients tx.target tx.reason true })
  | update {s : State} {i : ℕ} {tx : Tx} :
      s.txs i = some tx → tx.stage = .polled →
      Step s .quiet (s.set i { tx with stage := .updating (targeted s.sessions tx.target) })
  | revoke {s : State} {i : ℕ} {tx : Tx} {seen : String → Bool} :
      s.txs i = some tx → tx.stage = .updating seen →
      (∀ j tx' revoked, j ≠ i → s.txs j = some tx' → tx'.stage = .updated revoked →
        ∀ sid, seen sid = true → revoked sid = false) →
      Step s .quiet (s.set i { tx with
        stage := .updated fun sid => seen sid && targeted s.sessions tx.target sid })
  | commit {s : State} {i : ℕ} {tx : Tx} {revoked : String → Bool} :
      s.txs i = some tx → tx.stage = .updated revoked →
      Step s (.committed i tx) (s.commit i tx revoked)
  | abort {s : State} {i : ℕ} {tx : Tx} :
      s.txs i = some tx → tx.stage ≠ .done →
      Step s .quiet (s.set i { tx with stage := .done, notices := [], events := [] })

def Tx.reach (tx : Tx) (sessions : Sessions) (sid : String) : Bool := match tx.stage with
  | .began | .done => false
  | .snapshotted | .pushed | .polled => targeted sessions tx.target sid
  | .updating seen => seen sid && targeted sessions tx.target sid
  | .updated revoked => revoked sid

def Tx.notifies (tx : Tx) (clientID : String) : Prop := ∃ n ∈ tx.notices, n.clientID = clientID

/-- A client is recorded only for sessions that no termination under way reaches, unless it is told
anyway or has no address; and a commit leaves every termination that announces something a
session to end. -/
def Calm (s : State) : Obs → State → Prop
  | .touched sid clientID, _ => ∀ i tx, s.txs i = some tx → tx.reach s.sessions sid = true →
      uri clientID = none ∨ tx.notifies clientID
  | .committed i _, s' => ∀ j tx, j ≠ i → s.txs j = some tx → tx.notices ≠ [] →
      (∃ sid, tx.reach s.sessions sid = true) → ∃ sid, tx.reach s'.sessions sid = true
  | _, _ => True

/-- A step of a run without such an overlap. -/
def CalmStep (s : State) (x : Obs) (s' : State) : Prop := Step uri streams s x s' ∧ Calm uri s x s'

/-- What holds of one transaction. -/
structure TxInv (s : State) (tx : Tx) : Prop where
  addressed : ∀ n ∈ tx.notices, n.sessionID = tx.target.sessionID ∧
    n.subject = tx.target.subject ∧ uri n.clientID = some n.endpoint
  announced : ∀ sid clientID, tx.reach s.sessions sid = true → (sid, clientID) ∈ s.clients →
    uri clientID ≠ none → tx.notifies clientID
  busy : tx.notices ≠ [] → (∃ sid, tx.reach s.sessions sid = true) ∨ tx.stage = .done
  revoked : ∀ revoked, tx.stage = .updated revoked → ∀ sid, revoked sid = true →
    ∃ row, s.sessions sid = some row ∧ tx.target.matches sid row = true

structure Inv (s : State) : Prop where
  recorded : ∀ sid clientID, (sid, clientID) ∈ s.clients → (s.sessions sid).isSome = true
  txs : ∀ i tx, s.txs i = some tx → TxInv uri s tx
  outbox : ∀ i n, (i, n) ∈ s.outbox → ∃ tx, s.txs i = some tx ∧ tx.stage = .done

variable {uri} {streams} {s s' : State} {tx : Tx} {x : Obs} {xs : List Obs} {sessions : Sessions}
  {tgt : Target}

theorem targeted_iff {sid : String} : targeted sessions tgt sid = true ↔
    ∃ row, sessions sid = some row ∧ row.revokedAt = none ∧ tgt.matches sid row = true := by
  simp [targeted, Option.any_eq_true]

theorem targeted_revokeRows {revoked : String → Bool} {now : ℤ} {sid : String}
    (h : targeted (revokeRows sessions revoked now) tgt sid = true) :
    targeted sessions tgt sid = true := by
  rw [targeted_iff] at h ⊢
  obtain ⟨row, hrow, hlive, hmatch⟩ := h
  simp only [revokeRows, Option.map_eq_some_iff] at hrow
  obtain ⟨row', hrow', rfl⟩ := hrow
  refine ⟨row', hrow', ?_⟩
  split_ifs at hlive hmatch
  exact ⟨hlive, hmatch⟩

theorem targeted_insert {sid new : String} {row : SessionRow} (hne : sid ≠ new) :
    targeted (update sessions new (some row)) tgt sid = targeted sessions tgt sid := by
  simp [targeted, update_of_ne hne]

theorem reach_revokeRows {revoked : String → Bool} {now : ℤ} {sid : String}
    (h : tx.reach (revokeRows sessions revoked now) sid = true) :
    tx.reach sessions sid = true := by
  unfold Tx.reach at h ⊢
  cases hstage : tx.stage with
  | began => simp [hstage] at h
  | done => simp [hstage] at h
  | snapshotted | pushed | polled =>
    simp only [hstage] at h ⊢
    exact targeted_revokeRows h
  | updating seen =>
    simp only [hstage, Bool.and_eq_true] at h ⊢
    exact ⟨h.1, targeted_revokeRows h.2⟩
  | updated revoked => simpa only [hstage] using h

theorem reach_insert {sid new : String} {row : SessionRow} (hne : sid ≠ new) :
    tx.reach (update sessions new (some row)) sid = tx.reach sessions sid := by
  unfold Tx.reach
  cases tx.stage with
  | began => rfl
  | done => rfl
  | snapshotted | pushed | polled => exact targeted_insert hne
  | updating seen => simp only [targeted_insert hne]
  | updated revoked => rfl

theorem mem_snapshotNotices {clients : List (String × String)} {reason : String}
    {n : LogoutNotice} : n ∈ snapshotNotices uri sessions clients tgt reason ↔
      ∃ sid, (sid, n.clientID) ∈ clients ∧ targeted sessions tgt sid = true ∧
        uri n.clientID = some n.endpoint ∧ n.sessionID = tgt.sessionID ∧
        n.subject = tgt.subject ∧ n.reason = reason := by
  simp only [snapshotNotices, mem_filterMap, Prod.exists, Option.ite_none_right_eq_some,
    Option.map_eq_some_iff]
  constructor
  · rintro ⟨sid, clientID, hmem, htarget, endpoint, huri, rfl⟩
    exact ⟨sid, hmem, htarget, huri, rfl, rfl, rfl⟩
  · rintro ⟨sid, hmem, htarget, huri, hsid, hsub, hreason⟩
    refine ⟨sid, n.clientID, hmem, htarget, n.endpoint, huri, ?_⟩
    rw [← hsid, ← hsub, ← hreason]

theorem deduplicate_subset {ns : List LogoutNotice} {seen : List String} :
    deduplicate seen ns ⊆ ns := by
  induction ns generalizing seen with
  | nil => simp [deduplicate]
  | cons n ns ih =>
    rw [deduplicate]
    split_ifs
    · exact subset_cons_of_subset n ih
    · exact cons_subset_cons n ih

theorem deduplicate_key {ns : List LogoutNotice} {seen : List String} {n : LogoutNotice}
    (hn : n ∈ ns) (hseen : n.key ∉ seen) : ∃ m ∈ deduplicate seen ns, m.key = n.key := by
  induction ns generalizing seen with
  | nil => cases hn
  | cons m ms ih =>
    rw [deduplicate]
    split_ifs with hm
    · rcases mem_cons.mp hn with rfl | hn
      · exact absurd hm hseen
      · exact ih hn hseen
    · by_cases heq : m.key = n.key
      · exact ⟨m, mem_cons_self .., heq⟩
      · have hms : n ∈ ms := (mem_cons.mp hn).resolve_left fun h => heq (h ▸ rfl)
        have hfresh : n.key ∉ m.key :: seen := by simp [hseen, Ne.symm heq]
        obtain ⟨k, hk, hkey⟩ := ih hms hfresh
        exact ⟨k, mem_cons_of_mem _ hk, hkey⟩

theorem clientID_of_key {m n : LogoutNotice} (hkey : m.key = n.key)
    (hsid : m.sessionID = n.sessionID) (hsub : m.subject = n.subject) :
    m.clientID = n.clientID := by
  unfold LogoutNotice.key at hkey
  rw [hsid, hsub] at hkey
  have h := congrArg String.toList hkey
  simp only [String.toList_append, List.append_assoc] at h
  exact String.toList_inj.mp (append_cancel_right h)

theorem set_txs_self (s : State) (i : ℕ) (tx : Tx) : (s.set i tx).txs i = some tx := update_self ..

theorem set_txs_of_ne {i j : ℕ} (h : j ≠ i) (s : State) (tx : Tx) : (s.set i tx).txs j = s.txs j :=
  update_of_ne h ..

theorem TxInv.frame (h : TxInv uri s tx) (hsessions : s'.sessions = s.sessions)
    (hclients : s'.clients = s.clients) : TxInv uri s' tx := by
  obtain ⟨haddressed, hannounced, hbusy, hrevoked⟩ := h
  rw [← hsessions] at hannounced hbusy hrevoked
  rw [← hclients] at hannounced
  exact ⟨haddressed, hannounced, hbusy, hrevoked⟩

theorem TxInv.reach_row (h : TxInv uri s tx) {sid : String}
    (hreach : tx.reach s.sessions sid = true) :
    ∃ row, s.sessions sid = some row ∧ tx.target.matches sid row = true := by
  have htargeted : targeted s.sessions tx.target sid = true →
      ∃ row, s.sessions sid = some row ∧ tx.target.matches sid row = true := by
    intro ht
    obtain ⟨row, hrow, _, hmatch⟩ := targeted_iff.mp ht
    exact ⟨row, hrow, hmatch⟩
  unfold Tx.reach at hreach
  cases hstage : tx.stage with
  | began | done => simp [hstage] at hreach
  | snapshotted | pushed | polled => exact htargeted (by simpa only [hstage] using hreach)
  | updating seen =>
    simp only [hstage, Bool.and_eq_true] at hreach
    exact htargeted hreach.2
  | updated revoked => exact h.revoked revoked hstage sid (by simpa only [hstage] using hreach)

theorem TxInv.advance {stage : Stage} {events : List SsfEvent} (h : TxInv uri s tx)
    (hreach : ∀ sid, ({ tx with stage := stage, events := events } : Tx).reach s.sessions sid =
      tx.reach s.sessions sid) (hdone : tx.stage ≠ .done) :
    TxInv uri s { tx with stage := stage, events := events } where
  addressed := h.addressed
  announced sid clientID hr := h.announced sid clientID ((hreach sid).symm.trans hr)
  busy hne := by
    obtain ⟨sid, hsid⟩ := (h.busy hne).resolve_right hdone
    exact .inl ⟨sid, (hreach sid).trans hsid⟩
  revoked revoked hstage sid hsid := by
    refine h.reach_row ((hreach sid).symm.trans ?_)
    dsimp only at hstage
    rw [Tx.reach, hstage]
    exact hsid

theorem TxInv.snapshot (tx : Tx) : TxInv uri s { tx with
    stage := .snapshotted
    notices := deduplicate [] (snapshotNotices uri s.sessions s.clients tx.target tx.reason) } where
  addressed n hn := by
    obtain ⟨_, _, _, huri, hsid, hsub, _⟩ := mem_snapshotNotices.mp (deduplicate_subset hn)
    exact ⟨hsid, hsub, huri⟩
  announced sid clientID hreach hmem huri := by
    obtain ⟨endpoint, hendpoint⟩ := Option.ne_none_iff_exists'.mp huri
    have hn : (⟨clientID, endpoint, tx.target.sessionID, tx.target.subject, tx.reason⟩ :
        LogoutNotice) ∈ snapshotNotices uri s.sessions s.clients tx.target tx.reason :=
      mem_snapshotNotices.mpr ⟨sid, hmem, hreach, hendpoint, rfl, rfl, rfl⟩
    obtain ⟨m, hm, hkey⟩ := deduplicate_key hn not_mem_nil
    obtain ⟨_, _, _, _, hsid, hsub, _⟩ := mem_snapshotNotices.mp (deduplicate_subset hm)
    exact ⟨m, hm, clientID_of_key hkey hsid hsub⟩
  busy hne := by
    obtain ⟨n, hn⟩ := exists_mem_of_ne_nil _ hne
    obtain ⟨sid, _, htarget, _⟩ := mem_snapshotNotices.mp (deduplicate_subset hn)
    exact .inl ⟨sid, htarget⟩
  revoked _ hstage := by cases hstage

theorem TxInv.insert {sid : String} {row : SessionRow} (h : TxInv uri s tx)
    (hrecorded : ∀ t clientID, (t, clientID) ∈ s.clients → (s.sessions t).isSome = true)
    (hnew : s.sessions sid = none) :
    TxInv uri { s with sessions := update s.sessions sid (some row) } tx := by
  have hother : ∀ t row', s.sessions t = some row' → t ≠ sid := by
    rintro t row' hrow rfl
    rw [hnew] at hrow
    cases hrow
  refine ⟨h.addressed, fun t clientID hreach hmem => ?_, fun hne => ?_,
    fun revoked hstage t ht => ?_⟩
  · obtain ⟨row', hrow'⟩ := Option.isSome_iff_exists.mp (hrecorded t clientID hmem)
    exact h.announced t clientID ((reach_insert (hother t row' hrow')).symm.trans hreach) hmem
  · rcases h.busy hne with ⟨t, ht⟩ | hdone
    · obtain ⟨row', hrow', _⟩ := h.reach_row ht
      exact .inl ⟨t, (reach_insert (hother t row' hrow')).trans ht⟩
    · exact .inr hdone
  · obtain ⟨row', hrow', hmatch⟩ := h.revoked revoked hstage t ht
    exact ⟨row', (update_of_ne (hother t row' hrow') ..).trans hrow', hmatch⟩

theorem TxInv.touch {sid clientID : String} (h : TxInv uri s tx)
    (hcalm : tx.reach s.sessions sid = true → uri clientID = none ∨ tx.notifies clientID) :
    TxInv uri { s with clients := s.clients.insert (sid, clientID) } tx := by
  refine ⟨h.addressed, fun t c hreach hmem huri => ?_, h.busy, h.revoked⟩
  rcases List.mem_insert_iff.mp hmem with heq | hmem
  · obtain ⟨rfl, rfl⟩ := Prod.mk.inj heq
    exact (hcalm hreach).resolve_left huri
  · exact h.announced t c hreach hmem huri

theorem matches_revoked (b : Bool) (sid : String) (row : SessionRow) (now : ℤ) :
    tgt.matches sid (if b then { row with revokedAt := some now } else row) =
      tgt.matches sid row := by
  cases b <;> cases tgt <;> rfl

theorem TxInv.revokeRows {i : ℕ} {other : Tx} {revoked : String → Bool} (h : TxInv uri s tx)
    (hcalm : tx.notices ≠ [] → (∃ sid, tx.reach s.sessions sid = true) →
      ∃ sid, tx.reach (s.commit i other revoked).sessions sid = true) :
    TxInv uri (s.commit i other revoked) tx := by
  refine ⟨h.addressed, fun sid clientID hreach hmem => ?_, fun hne => ?_,
    fun mine hstage sid hsid => ?_⟩
  · exact h.announced sid clientID (reach_revokeRows hreach) hmem
  · exact (h.busy hne).imp_left (hcalm hne)
  · obtain ⟨row, hrow, hmatch⟩ := h.revoked mine hstage sid hsid
    have hrow' : (s.commit i other revoked).sessions sid = some
        (if revoked sid then { row with revokedAt := some other.since } else row) := by
      simp [State.commit, SessionEnding.revokeRows, hrow]
    exact ⟨_, hrow', (matches_revoked ..).trans hmatch⟩

theorem Inv.set {i : ℕ} {tx' : Tx} (h : Inv uri s) (htx : TxInv uri s tx')
    (hopen : ∀ tx, s.txs i = some tx → tx.stage ≠ .done) : Inv uri (s.set i tx') where
  recorded := h.recorded
  txs j tx hj := by
    by_cases hji : j = i
    · subst hji
      rw [set_txs_self, Option.some.injEq] at hj
      exact hj ▸ htx.frame rfl rfl
    · exact (h.txs j tx ((update_of_ne hji ..).symm.trans hj)).frame rfl rfl
  outbox j n hmem := by
    obtain ⟨tx, hj, hdone⟩ := h.outbox j n hmem
    have hji : j ≠ i := by
      rintro rfl
      exact hopen tx hj hdone
    exact ⟨tx, (update_of_ne hji ..).trans hj, hdone⟩

theorem Inv.commit {i : ℕ} {revoked : String → Bool} (h : Inv uri s) (htx : s.txs i = some tx)
    (hstage : tx.stage = .updated revoked)
    (hcalm : Calm uri s (.committed i tx) (s.commit i tx revoked)) :
    Inv uri (s.commit i tx revoked) where
  recorded sid clientID hmem := by
    have hsome := h.recorded sid clientID hmem
    simpa [State.commit, SessionEnding.revokeRows] using hsome
  txs j tx' hj := by
    by_cases hji : j = i
    · subst hji
      have heq : { tx with stage := .done } = tx' := by
        simpa [State.commit, State.set] using hj
      subst heq
      refine ⟨(h.txs j tx htx).addressed, fun sid clientID hreach => ?_, fun _ => .inr rfl,
        fun _ hdone => by cases hdone⟩
      simp [Tx.reach] at hreach
    · have hj' : s.txs j = some tx' := (update_of_ne hji ..).symm.trans hj
      exact (h.txs j tx' hj').revokeRows (hcalm j tx' hji hj')
  outbox j n hmem := by
    rcases mem_append.mp hmem with hmem | hmem
    · obtain ⟨tx', hj, hdone⟩ := h.outbox j n hmem
      have hji : j ≠ i := by
        rintro rfl
        rw [htx, Option.some.injEq] at hj
        rw [← hj, hstage] at hdone
        cases hdone
      exact ⟨tx', (update_of_ne hji ..).trans hj, hdone⟩
    · obtain ⟨m, _, heq⟩ := mem_map.mp hmem
      obtain ⟨rfl, rfl⟩ := Prod.mk.inj heq
      exact ⟨_, update_self .., rfl⟩

theorem Inv.step (h : Inv uri s) (hstep : CalmStep uri streams s x s') : Inv uri s' := by
  obtain ⟨hstep, hcalm⟩ := hstep
  have hone : ∀ {i : ℕ} {tx₀ tx : Tx}, s.txs i = some tx₀ → tx₀.stage ≠ .done →
      s.txs i = some tx → tx.stage ≠ .done := by
    intro i tx₀ tx h₀ hne hi
    rw [h₀, Option.some.injEq] at hi
    exact hi ▸ hne
  cases hstep with
  | wait _ => exact ⟨h.recorded, fun i tx hi => (h.txs i tx hi).frame rfl rfl, h.outbox⟩
  | @insert sid row hnew _ =>
    refine ⟨fun t clientID hmem => ?_, fun i tx hi => (h.txs i tx hi).insert h.recorded hnew,
      h.outbox⟩
    by_cases hts : t = sid
    · simp [hts]
    · simpa [update_of_ne hts] using h.recorded t clientID hmem
  | @touch sid clientID hsid =>
    refine ⟨fun t c hmem => ?_, fun i tx hi => (h.txs i tx hi).touch (hcalm i tx hi), h.outbox⟩
    rcases List.mem_insert_iff.mp hmem with heq | hmem
    · rw [(Prod.mk.inj heq).1]
      exact hsid
    · exact h.recorded t c hmem
  | begin hi _ =>
    refine h.set ⟨by simp, fun sid clientID hreach => ?_, by simp, fun _ hs => by cases hs⟩ ?_
    · simp [Tx.reach] at hreach
    · intro tx htx
      rw [hi] at htx
      cases htx
  | snapshot hi hs => exact h.set (.snapshot _) fun tx => hone hi (by simp [hs])
  | push hi hs | poll hi hs =>
    refine h.set ((h.txs _ _ hi).advance (fun sid => ?_) (by simp [hs])) fun tx =>
      hone hi (by simp [hs])
    simp only [Tx.reach, hs]
  | update hi hs =>
    refine h.set ((h.txs _ _ hi).advance (fun sid => ?_) (by simp [hs])) fun tx =>
      hone hi (by simp [hs])
    simp only [Tx.reach, hs, Bool.and_self]
  | revoke hi hs _ =>
    refine h.set ((h.txs _ _ hi).advance (fun sid => ?_) (by simp [hs])) fun tx =>
      hone hi (by simp [hs])
    simp only [Tx.reach, hs]
  | commit hi hs => exact h.commit hi hs hcalm
  | abort hi hs =>
    refine h.set ⟨by simp, fun sid clientID hreach => ?_, by simp, fun _ hd => by cases hd⟩
      fun tx => hone hi hs
    simp [Tx.reach] at hreach

theorem inv_run (hrun : Run (CalmStep uri streams) {} xs s) : Inv uri s :=
  hrun.invariant (I := fun _ s => Inv uri s) ⟨by simp, by simp, by simp⟩ fun h hstep => h.step hstep

def Ends (s s' : State) (sid : String) (row : SessionRow) : Prop :=
  s.sessions sid = some row ∧ row.revokedAt = none ∧
    ∃ row', s'.sessions sid = some row' ∧ row'.revokedAt ≠ none

def Addresses (n : LogoutNotice) (sid : String) (row : SessionRow) : Prop :=
  n.sessionID = sid ∧ n.subject = "" ∨ n.sessionID = "" ∧ n.subject = row.userID

theorem ends_cases {sid : String} {row : SessionRow} (hstep : Step uri streams s x s')
    (h : Ends s s' sid row) : ∃ i tx revoked, x = .committed i tx ∧ s.txs i = some tx ∧
      tx.stage = .updated revoked ∧ revoked sid = true ∧ s' = s.commit i tx revoked := by
  obtain ⟨hrow, hlive, row', hrow', hdead⟩ := h
  have hsame : s'.sessions sid = s.sessions sid → False := by
    intro heq
    rw [heq, hrow, Option.some.injEq] at hrow'
    exact hdead (hrow' ▸ hlive)
  cases hstep with
  | insert hnew _ =>
    refine (hsame (update_of_ne ?_ ..)).elim
    rintro rfl
    rw [hnew] at hrow
    cases hrow
  | @commit i tx revoked hi hs =>
    refine ⟨i, tx, revoked, rfl, hi, hs, ?_, rfl⟩
    by_contra hnot
    refine hsame ?_
    simp [State.commit, SessionEnding.revokeRows, hrow, hnot]
  | wait _ | touch _ | begin _ _ | snapshot _ _ | push _ _ | poll _ _ | update _ _ | revoke _ _ _
  | abort _ _ => exact (hsame rfl).elim

/-- In every run without an overlap, whenever a session ends, every client with a logout address
that is recorded for it at that moment has a notice in the outbox that was queued by the
transaction that ended it; and a transaction whose UPDATE revokes nothing queues none. -/
theorem terminations_announced (hrun : Run (CalmStep uri streams) {} xs s)
    (hstep : Step uri streams s x s') :
    (∀ sid row, Ends s s' sid row → ∃ i tx, x = .committed i tx ∧
      ∀ clientID endpoint, (sid, clientID) ∈ s'.clients → uri clientID = some endpoint →
        ∃ n, (i, n) ∈ s'.outbox ∧ n.clientID = clientID ∧ n.endpoint = endpoint ∧
          Addresses n sid row) ∧
    ∀ i tx revoked, x = .committed i tx → tx.stage = .updated revoked →
      (∀ sid, revoked sid = false) → ∀ n, (i, n) ∉ s'.outbox := by
  have hinv := inv_run hrun
  constructor
  · intro sid row hends
    obtain ⟨i, tx, revoked, rfl, hi, hs, hsid, rfl⟩ := ends_cases hstep hends
    refine ⟨i, tx, rfl, fun clientID endpoint hmem huri => ?_⟩
    have hreach : tx.reach s.sessions sid = true := by
      rw [Tx.reach, hs]
      exact hsid
    have htx := hinv.txs i tx hi
    obtain ⟨n, hn, hclient⟩ := htx.announced sid clientID hreach hmem (by simp [huri])
    obtain ⟨hnsid, hnsub, hnuri⟩ := htx.addressed n hn
    obtain ⟨row', hrow', hmatch⟩ := htx.reach_row hreach
    rw [hends.1, Option.some.injEq] at hrow'
    subst hrow'
    refine ⟨n, mem_append_right _ (mem_map_of_mem hn), hclient, ?_, ?_⟩
    · rw [hclient, huri, Option.some.injEq] at hnuri
      exact hnuri.symm
    · cases htarget : tx.target with
      | sid t =>
        rw [htarget] at hnsid hnsub hmatch
        simp only [Target.matches, beq_iff_eq] at hmatch
        exact .inl ⟨hnsid.trans hmatch.symm, hnsub⟩
      | user u =>
        rw [htarget] at hnsid hnsub hmatch
        simp only [Target.matches, beq_iff_eq] at hmatch
        exact .inr ⟨hnsid, hnsub.trans hmatch.symm⟩
  · rintro i tx revoked rfl hs hnone n hmem
    cases hstep with
    | @commit _ _ revoked' hi hs' =>
      rcases mem_append.mp hmem with hmem | hmem
      · obtain ⟨tx', hi', hdone⟩ := hinv.outbox i n hmem
        rw [hi, Option.some.injEq] at hi'
        rw [← hi', hs] at hdone
        cases hdone
      · obtain ⟨m, hm, _⟩ := mem_map.mp hmem
        obtain ⟨sid, hsid⟩ := ((hinv.txs i tx hi).busy (ne_nil_of_mem hm)).resolve_right
          (by simp [hs])
        rw [Tx.reach, hs] at hsid
        exact absurd hsid (by simp [hnone sid])

def logoutURI (clientID : String) : Option String :=
  if clientID = "mail" then some "https://mail/logout" else none

def aliceSession : SessionRow where
  userID := "alice"
  notAfter := 9000

def aliceState (clients : List (String × String)) : State where
  sessions := update (fun _ => none) "s0" (some aliceSession)
  clients := clients

theorem alice_run : Run (CalmStep logoutURI []) {} [.inserted "s0", .touched "s0" "mail"]
    (aliceState [("s0", "mail")]) := by
  have hinsert : CalmStep logoutURI [] {} (.inserted "s0") (aliceState []) :=
    ⟨.insert rfl rfl, trivial⟩
  have htouch : CalmStep logoutURI [] (aliceState []) (.touched "s0" "mail")
      (aliceState [("s0", "mail")]) := ⟨.touch rfl, fun _ _ htx => by cases htx⟩
  exact (Run.nil.snoc hinsert).snoc htouch

/-- The statements of a logout before its UPDATE, while nothing else happens. -/
theorem logout_run (clients : List (String × String)) :
    ∃ s tx, Run (CalmStep logoutURI []) (aliceState clients) [.quiet, .quiet, .quiet, .quiet] s ∧
      s.sessions = (aliceState clients).sessions ∧ s.clients = clients ∧ s.outbox = [] ∧
      s.txs 0 = some tx ∧ (∀ j, j ≠ 0 → s.txs j = none) ∧ tx.stage = .polled ∧
      tx.target = .sid "s0" ∧ tx.notices = deduplicate [] (snapshotNotices logoutURI
        (aliceState clients).sessions clients (.sid "s0") "logout") := by
  have hbegin : Run (CalmStep logoutURI []) (aliceState clients) [.quiet] _ :=
    Run.nil.snoc ⟨@Step.begin _ _ _ 0 "s0" "" "logout" (.sid "s0") rfl rfl, trivial⟩
  have hsnapshot := hbegin.snoc ⟨.snapshot (set_txs_self ..) rfl, trivial⟩
  have hpush := hsnapshot.snoc ⟨.push (set_txs_self ..) rfl, trivial⟩
  have hpoll := hpush.snoc ⟨.poll (set_txs_self ..) rfl, trivial⟩
  refine ⟨_, _, hpoll, rfl, rfl, rfl, set_txs_self .., fun j hj => ?_, rfl, rfl, rfl⟩
  simp [State.set, update_of_ne hj, aliceState]

theorem update_run {s : State} {i : ℕ} {tx : Tx} (hi : s.txs i = some tx)
    (hs : tx.stage = .polled) (hfree : ∀ j, j ≠ i → s.txs j = none) :
    ∃ s' tx', Run (CalmStep uri streams) s [.quiet, .quiet] s' ∧ s'.sessions = s.sessions ∧
      s'.clients = s.clients ∧ s'.outbox = s.outbox ∧ s'.txs i = some tx' ∧
      tx'.stage = .updated (targeted s.sessions tx.target) ∧ tx'.notices = tx.notices := by
  have hupdate : Run (CalmStep uri streams) s [.quiet] _ := Run.nil.snoc ⟨.update hi hs, trivial⟩
  have halone : ∀ j tx' revoked, j ≠ i → (s.set i { tx with
      stage := .updating (targeted s.sessions tx.target) }).txs j = some tx' →
      tx'.stage = .updated revoked →
      ∀ sid, targeted s.sessions tx.target sid = true → revoked sid = false := by
    intro j tx' revoked hj htx'
    rw [set_txs_of_ne hj, hfree j hj] at htx'
    cases htx'
  have hrevoke := hupdate.snoc ⟨.revoke (set_txs_self ..) rfl halone, trivial⟩
  refine ⟨_, _, hrevoke, rfl, rfl, rfl, set_txs_self .., ?_, rfl⟩
  simp [State.set]

theorem ends_alice {s : State} {clients : List (String × String)} (i : ℕ) (tx : Tx)
    (hsessions : s.sessions = (aliceState clients).sessions) :
    Ends s (s.commit i tx (targeted (aliceState clients).sessions (.sid "s0"))) "s0"
      aliceSession := by
  refine ⟨by rw [hsessions]; rfl, rfl, { aliceSession with revokedAt := some tx.since }, ?_,
    by simp⟩
  simp only [State.commit, SessionEnding.revokeRows, hsessions]
  rfl

/-- A logout that nobody disturbs tells the mail client. -/
theorem terminations_announced_mail : ∃ s s' tx, Run (CalmStep logoutURI []) {}
    ([Obs.inserted "s0", Obs.touched "s0" "mail"] ++
      [Obs.quiet, Obs.quiet, Obs.quiet, Obs.quiet] ++ [Obs.quiet, Obs.quiet]) s ∧ Step logoutURI [] s (.committed 0 tx) s' ∧
      Ends s s' "s0" aliceSession ∧ ∃ n, (0, n) ∈ s'.outbox ∧ n.clientID = "mail" := by
  obtain ⟨s₁, tx₁, hrun₁, hsessions₁, hclients₁, _, htx₁, hfree, hstage₁, htarget, _⟩ :=
    logout_run [("s0", "mail")]
  obtain ⟨s₂, tx₂, hrun₂, hsessions₂, hclients₂, _, htx₂, hstage₂, _⟩ :=
    update_run htx₁ hstage₁ hfree
  have hrun := (alice_run.append hrun₁).append hrun₂
  rw [htarget, hsessions₁] at hstage₂
  have hstep : Step logoutURI [] s₂ (.committed 0 tx₂) _ := .commit htx₂ hstage₂
  have hends := ends_alice 0 tx₂ (hsessions₂.trans hsessions₁)
  obtain ⟨i, tx, heq, hall⟩ := (terminations_announced hrun hstep).1 "s0" aliceSession hends
  obtain ⟨rfl, rfl⟩ := Obs.committed.inj heq
  have hmem : ("s0", "mail") ∈ s₂.clients := by
    rw [hclients₂, hclients₁]
    exact mem_singleton_self _
  obtain ⟨n, hn, hclient, _⟩ := hall "mail" "https://mail/logout" hmem rfl
  exact ⟨s₂, _, tx₂, hrun, hstep, hends, n, hn, hclient⟩

theorem CalmStep.run {s s' : State} (hrun : Run (CalmStep uri streams) s xs s') :
    Run (Step uri streams) s xs s' := by
  induction hrun with
  | nil => exact .nil
  | snoc _ hx ih => exact ih.snoc hx.1

/-- A client that is recorded while the logout is under way: the session ends, and it is not
told. -/
theorem touched_unannounced : ∃ s x s' sid row clientID, (∃ xs, Run (Step logoutURI []) {} xs s) ∧
    Step logoutURI [] s x s' ∧ Ends s s' sid row ∧ (sid, clientID) ∈ s'.clients ∧
      logoutURI clientID ≠ none ∧ ∀ i n, (i, n) ∉ s'.outbox := by
  have hinsert : Run (Step logoutURI []) {} [.inserted "s0"] (aliceState []) :=
    Run.nil.snoc (.insert rfl rfl)
  obtain ⟨s₁, tx₁, hrun₁, hsessions₁, hclients₁, houtbox₁, htx₁, hfree, hstage₁, htarget,
    hnotices₁⟩ := logout_run []
  have htouch : Step logoutURI [] s₁ (.touched "s0" "mail")
      { s₁ with clients := s₁.clients.insert ("s0", "mail") } :=
    .touch (by rw [hsessions₁]; rfl)
  obtain ⟨s₂, tx₂, hrun₂, hsessions₂, hclients₂, houtbox₂, htx₂, hstage₂, hnotices₂⟩ :=
    update_run (s := { s₁ with clients := s₁.clients.insert ("s0", "mail") }) htx₁ hstage₁ hfree
  have hrun := ((hinsert.append (CalmStep.run hrun₁)).snoc htouch).append (CalmStep.run hrun₂)
  dsimp only at hsessions₂ hstage₂ houtbox₂ hclients₂
  rw [htarget, hsessions₁] at hstage₂
  have hstep : Step logoutURI [] s₂ (.committed 0 tx₂) _ := .commit htx₂ hstage₂
  refine ⟨s₂, _, _, "s0", aliceSession, "mail", ⟨_, hrun⟩, hstep,
    ends_alice 0 tx₂ (hsessions₂.trans hsessions₁), ?_, by decide, fun i n => ?_⟩
  · simp [State.commit, State.set, hclients₂]
  · simp [State.commit, houtbox₂, houtbox₁, hnotices₂, hnotices₁, snapshotNotices, deduplicate]

end Signari.SessionEnding
