import Mathlib.Data.List.Sort
import Mathlib.Data.List.Perm.Subperm
import Signari.LabelledRuns

/-!
# The limit on concurrent sessions

`EnforceSessionLimit` of `internal/store/sessionlimit.go` and the sign-in transaction around it
in `internal/httpapi/flow.go`, for the sessions of one person. Transactions interleave between
statements. A statement sees what is committed and what its own transaction has done, a
revocation locks its row until the transaction ends, and `now()` is the instant at which the
transaction began.

Nothing is locked between the statement that reads the live sessions and the end of the transaction,
so a sign-in may add its session to more of them than it has counted.
-/
namespace Signari.SessionLimit
open LabelledRuns List Function

inductive Behaviour where
  | deny | evictOldest

structure Limit where
  max : ℤ
  behaviour : Behaviour

/-- A session of the person. -/
structure Session where
  sid : String
  authTime : ℤ
  notAfter : ℤ
  revoked : Bool

def Session.live (now : ℤ) (r : Session) : Bool := !r.revoked && decide (now < r.notAfter)

/-- The sessions that have to end before another may begin, or a refusal. -/
def enforceSessionLimit (lim : Limit) (live : List String) : Option (List String) :=
  if (live.length : ℤ) < lim.max then some []
  else match lim.behaviour with
    | .deny => none
    | .evictOldest => some (live.take (live.length - lim.max + 1).toNat)

/-- A sign-in transaction: when it began, the sessions it has revoked, the live sessions it has
read, those it still has to end, and the session it has written. -/
inductive Tx where
  | absent
  | entered (began : ℤ) (ended : List String)
  | admitted (began : ℤ) (ended live todo : List String)
  | refused (began : ℤ) (ended : List String)
  | inserted (began : ℤ) (ended live : List String) (new : Session)
  | closed

/-- The rows that a transaction holds the lock of. -/
def Tx.ended : Tx → List String
  | .entered _ ended | .admitted _ ended _ _ | .refused _ ended | .inserted _ ended _ _ => ended
  | .absent | .closed => []

def Tx.pending : Tx → Option Session
  | .inserted _ _ _ new => some new
  | _ => none

variable {ι : Type}

/-- The clock, the committed sessions of the person, and the transactions. -/
structure State (ι : Type) where
  now : ℤ
  sessions : List Session
  txs : ι → Tx

def revokeAll (ended : List String) (rows : List Session) : List Session :=
  rows.map fun r => if r.sid ∈ ended then { r with revoked := true } else r

/-- `revoked_at IS NULL`, for the row of a session. -/
def State.unrevoked (s : State ι) (sid : String) : Bool :=
  s.sessions.any fun r => decide (r.sid = sid) && !r.revoked

/-- What the query for live sessions finds, the oldest first. -/
def ReadsLive (s : State ι) (began : ℤ) (ended live : List String) : Prop :=
  ∃ rows : List Session,
    rows.Perm (s.sessions.filter fun r => r.live began && decide (r.sid ∉ ended)) ∧
    rows.Pairwise (fun a b => a.authTime ≤ b.authTime) ∧ live = rows.map Session.sid

def State.live (s : State ι) : List Session := s.sessions.filter (Session.live s.now)

inductive Obs (ι : Type) where
  | read (tx : ι) (live : List String)
  | signedIn (tx : ι) (sid : String)
  | quiet

section

variable [DecidableEq ι] (lim : Limit) (sessionTTL : ℤ)

def State.set (s : State ι) (T : ι) (tx : Tx) : State ι := { s with txs := update s.txs T tx }

/-- The revocation of one row: a row that another transaction holds is waited for, and one
that is revoked by then is left alone. -/
def State.revoking (s : State ι) (sid : String) (ended : List String) : List String :=
  if s.unrevoked sid then sid :: ended else ended

/-- One step. `supersede` ends the session that the browser presented; a failed statement is
a `rollback`. -/
inductive Step : State ι → Obs ι → State ι → Prop
  | tick {s : State ι} (later : ℤ) (h : s.now ≤ later) : Step s .quiet { s with now := later }
  | enter {s : State ι} (T : ι) (htx : s.txs T = .absent) :
      Step s .quiet (s.set T (.entered s.now []))
  | supersede {s : State ι} (T : ι) (began : ℤ) (ended : List String) (sid : String)
      (htx : s.txs T = .entered began ended) (hfree : ∀ U, U ≠ T → sid ∉ (s.txs U).ended) :
      Step s .quiet (s.set T (.entered began (s.revoking sid ended)))
  | unlimited {s : State ι} (T : ι) (began : ℤ) (ended : List String)
      (htx : s.txs T = .entered began ended) (hmax : lim.max ≤ 0) :
      Step s .quiet (s.set T (.admitted began ended [] []))
  | admitSession {s : State ι} (T : ι) (began : ℤ) (ended live todo : List String)
      (htx : s.txs T = .entered began ended) (hmax : 0 < lim.max)
      (hread : ReadsLive s began ended live) (hroom : enforceSessionLimit lim live = some todo) :
      Step s (.read T live) (s.set T (.admitted began ended live todo))
  | refuse {s : State ι} (T : ι) (began : ℤ) (ended live : List String)
      (htx : s.txs T = .entered began ended) (hmax : 0 < lim.max)
      (hread : ReadsLive s began ended live) (hroom : enforceSessionLimit lim live = none) :
      Step s (.read T live) (s.set T (.refused began ended))
  | evict {s : State ι} (T : ι) (began : ℤ) (ended live todo : List String) (sid : String)
      (htx : s.txs T = .admitted began ended live (sid :: todo))
      (hfree : ∀ U, U ≠ T → sid ∉ (s.txs U).ended) :
      Step s .quiet (s.set T (.admitted began (s.revoking sid ended) live todo))
  | insert {s : State ι} (T : ι) (began : ℤ) (ended live : List String) (sid : String)
      (htx : s.txs T = .admitted began ended live [])
      (hfresh : ∀ r ∈ s.sessions, r.sid ≠ sid)
      (hkey : ∀ U, ∀ r ∈ (s.txs U).pending, r.sid ≠ sid) :
      Step s .quiet (s.set T (.inserted began ended live ⟨sid, began, began + sessionTTL, false⟩))
  | commit {s : State ι} (T : ι) (began : ℤ) (ended live : List String) (new : Session)
      (htx : s.txs T = .inserted began ended live new) :
      Step s (.signedIn T new.sid)
        { s.set T .closed with sessions := revokeAll ended s.sessions ++ [new] }
  | commitRefusal {s : State ι} (T : ι) (began : ℤ) (ended : List String)
      (htx : s.txs T = .refused began ended) :
      Step s .quiet { s.set T .closed with sessions := revokeAll ended s.sessions }
  | rollback {s : State ι} (T : ι) (htx : s.txs T ≠ .absent) : Step s .quiet (s.set T .closed)

end

/-- A primary key, no more live sessions than the limit allows, and no sign-in yet. -/
structure Start (lim : Limit) (s : State ι) : Prop where
  distinct : (s.sessions.map Session.sid).Nodup
  within : (s.live.length : ℤ) ≤ lim.max
  idle : ∀ T, s.txs T = .absent

/-- The sessions that began in a stretch of a run. -/
def joined (xs : List (Obs ι)) : List String :=
  xs.filterMap fun
    | .signedIn _ sid => some sid
    | _ => none

/-- Between the statement with which a sign-in reads the live sessions and its commit, fewer
others sign in than it has left room for: the limit, less the sessions it has read and does
not end. -/
def LeaveRoom (lim : Limit) (xs : List (Obs ι)) : Prop :=
  ∀ before T live between sid after,
    xs = before ++ .read T live :: (between ++ .signedIn T sid :: after) →
      (joined between).length + min (live.length : ℤ) (lim.max - 1) < lim.max

section

variable {lim : Limit} {live out : List String}

theorem kept_le (hmax : 0 < lim.max) (h : enforceSessionLimit lim live = some out)
    (hnodup : live.Nodup) :
    ((live.filter fun sid => decide (sid ∉ out)).length : ℤ) ≤
      min (live.length : ℤ) (lim.max - 1) := by
  rw [enforceSessionLimit] at h
  split_ifs at h with hlt
  · have hle := length_filter_le (fun sid => decide (sid ∉ out)) live
    omega
  · cases hb : lim.behaviour with
    | deny =>
      rw [hb] at h
      cases h
    | evictOldest =>
      rw [hb] at h
      obtain rfl := Option.some.inj h
      set n := ((live.length : ℤ) - lim.max + 1).toNat with hn
      have hdrop : (live.filter fun sid => decide (sid ∉ live.take n)) ⊆ live.drop n := by
        intro sid hsid
        obtain ⟨hmem, hnot⟩ := mem_filter.mp hsid
        rw [← take_append_drop n live] at hmem
        exact (mem_append.mp hmem).resolve_left (of_decide_eq_true hnot)
      have hle := (subperm_of_subset (hnodup.filter _) hdrop).length_le
      rw [length_drop] at hle
      omega

theorem joined_append (xs ys : List (Obs ι)) : joined (xs ++ ys) = joined xs ++ joined ys :=
  filterMap_append

theorem leaveRoom_of_snoc {xs : List (Obs ι)} {x : Obs ι} (h : LeaveRoom lim (xs ++ [x])) :
    LeaveRoom lim xs := by
  intro before T live between sid after hxs
  refine h before T live between sid (after ++ [x]) ?_
  rw [hxs]
  simp

end

section

variable {lim : Limit} {xs : List (Obs ι)} {x : Obs ι} {s t : State ι} {T : ι}

/-- What a transaction that has read the live sessions may rely on: a live session that it does
not end is one that it has read and does not have to end, or has begun since. -/
structure Window (xs : List (Obs ι)) (s : State ι) (T : ι) (ended live done : List String) :
    Prop where
  read : ∃ before between, xs = before ++ .read T live :: between ∧
    ∀ r ∈ s.sessions, r.live s.now = true → r.sid ∉ ended → r.sid ∈ live ∨ r.sid ∈ joined between
  distinct : live.Nodup
  known : ∀ sid ∈ live, ∃ r ∈ s.sessions, r.sid = sid
  subset : done ⊆ live
  done : ∀ r ∈ s.sessions, r.sid ∈ done → r.sid ∉ ended → r.revoked = true

/-- The rows of the one table are those of the other, revoked perhaps, and the sessions that
have just begun. -/
def Evolves (s : State ι) (x : Obs ι) (t : State ι) : Prop :=
  s.now ≤ t.now ∧ (∀ r ∈ s.sessions, ∃ r' ∈ t.sessions, r'.sid = r.sid) ∧
  ∀ r' ∈ t.sessions, r'.sid ∈ joined [x] ∧ (∀ r ∈ s.sessions, r.sid ≠ r'.sid) ∨
    ∃ r ∈ s.sessions, r.sid = r'.sid ∧ r.notAfter = r'.notAfter ∧
      (r.revoked = true → r'.revoked = true)

theorem live_of_live {r r' : Session} {now now' : ℤ} (hnow : now ≤ now')
    (hafter : r.notAfter = r'.notAfter) (hrev : r.revoked = true → r'.revoked = true)
    (h : r'.live now' = true) : r.live now = true := by
  simp only [Session.live, Bool.and_eq_true, Bool.not_eq_true', decide_eq_true_eq] at h ⊢
  refine ⟨?_, by omega⟩
  by_contra hr
  rw [hrev (by simpa using hr)] at h
  exact Bool.noConfusion h.1

theorem Window.step {ended ended' live done : List String}
    (h : Window xs s T ended live done) (hevolves : Evolves s x t) (hmore : ended ⊆ ended') :
    Window (xs ++ [x]) t T ended' live done where
  read := by
    obtain ⟨before, between, rfl, hread⟩ := h.read
    refine ⟨before, between ++ [x], by simp, fun r' hr' hlive hnot => ?_⟩
    rw [joined_append, mem_append]
    rcases hevolves.2.2 r' hr' with ⟨hnew, -⟩ | ⟨r, hr, hsid, hafter, hrev⟩
    · exact .inr (.inr hnew)
    · have hold := hread r hr (live_of_live hevolves.1 hafter hrev hlive)
        fun hmem => hnot (hmore (hsid ▸ hmem))
      rw [hsid] at hold
      exact hold.imp_right .inl
  distinct := h.distinct
  known sid hsid := by
    obtain ⟨r, hr, rfl⟩ := h.known sid hsid
    exact hevolves.2.1 r hr
  subset := h.subset
  done r' hr' hdone hnot := by
    rcases hevolves.2.2 r' hr' with ⟨-, hfresh⟩ | ⟨r, hr, hsid, -, hrev⟩
    · obtain ⟨r, hr, hsid⟩ := h.known r'.sid (h.subset hdone)
      exact absurd hsid (hfresh r hr)
    · exact hrev (h.done r hr (hsid ▸ hdone) fun hmem => hnot (hmore (hsid ▸ hmem)))

/-- What holds of each transaction. -/
def TxOk (lim : Limit) (xs : List (Obs ι)) (s : State ι) (T : ι) : Tx → Prop
  | .entered began _ => began ≤ s.now
  | .admitted _ ended live todo => ∃ done, enforceSessionLimit lim live = some (done ++ todo) ∧
      Window xs s T ended live done
  | .inserted _ ended live new => (∃ out, enforceSessionLimit lim live = some out ∧
      Window xs s T ended live out) ∧ ∀ r ∈ s.sessions, r.sid ≠ new.sid
  | .absent | .refused _ _ | .closed => True

structure Inv (lim : Limit) (xs : List (Obs ι)) (s : State ι) : Prop where
  distinct : (s.sessions.map Session.sid).Nodup
  within : (s.live.length : ℤ) ≤ lim.max
  txs : ∀ T, TxOk lim xs s T (s.txs T)
  keys : ∀ T U new new', T ≠ U → (s.txs T).pending = some new → (s.txs U).pending = some new' →
    new.sid ≠ new'.sid

theorem Evolves.same (hnow : s.now ≤ t.now) (hrows : t.sessions = s.sessions) : Evolves s x t := by
  refine ⟨hnow, fun r hr => ⟨r, hrows ▸ hr, rfl⟩, fun r hr => .inr ?_⟩
  rw [hrows] at hr
  exact ⟨r, hr, rfl, rfl, id⟩

theorem Evolves.revokeAll {ended : List String} (hnow : s.now ≤ t.now)
    (hrows : t.sessions = revokeAll ended s.sessions) : Evolves s x t := by
  refine ⟨hnow, fun r hr => ?_, fun r' hr' => .inr ?_⟩
  · rw [hrows]
    refine ⟨_, mem_map_of_mem hr, ?_⟩
    split_ifs <;> rfl
  · rw [hrows] at hr'
    obtain ⟨r, hr, rfl⟩ := mem_map.mp hr'
    refine ⟨r, hr, ?_⟩
    split_ifs
    · exact ⟨rfl, rfl, fun _ => rfl⟩
    · exact ⟨rfl, rfl, id⟩

/-- A transaction that does not move. -/
theorem TxOk.step {tx : Tx} (h : TxOk lim xs s T tx) (hevolves : Evolves s x t)
    (hkey : ∀ new, tx.pending = some new → new.sid ∉ joined [x]) :
    TxOk lim (xs ++ [x]) t T tx := by
  cases tx with
  | absent => trivial
  | closed => trivial
  | refused began ended => trivial
  | entered began ended => exact le_trans h hevolves.1
  | admitted began ended live todo =>
    obtain ⟨done, hroom, hwindow⟩ := h
    exact ⟨done, hroom, hwindow.step hevolves (Subset.refl _)⟩
  | inserted began ended live new =>
    obtain ⟨⟨out, hroom, hwindow⟩, hfresh⟩ := h
    refine ⟨⟨out, hroom, hwindow.step hevolves (Subset.refl _)⟩, fun r' hr' => ?_⟩
    rcases hevolves.2.2 r' hr' with ⟨hnew, -⟩ | ⟨r, hr, hsid, -⟩
    · exact fun heq => hkey new rfl (heq ▸ hnew)
    · exact hsid ▸ hfresh r hr

theorem subset_of_enforce {live out : List String} (h : enforceSessionLimit lim live = some out) :
    out ⊆ live := by
  rw [enforceSessionLimit] at h
  split_ifs at h
  · obtain rfl := Option.some.inj h
    exact nil_subset _
  · cases hb : lim.behaviour with
    | deny =>
      rw [hb] at h
      cases h
    | evictOldest =>
      rw [hb] at h
      obtain rfl := Option.some.inj h
      exact take_subset _ _

theorem window_of_read {began : ℤ} {ended live : List String}
    (hdistinct : (s.sessions.map Session.sid).Nodup) (hbegan : began ≤ s.now)
    (hread : ReadsLive s began ended live) (hrows : t.sessions = s.sessions)
    (hnow : t.now = s.now) :
    Window (xs ++ [.read T live]) t T ended live [] where
  read := by
    obtain ⟨rows, hperm, -, rfl⟩ := hread
    refine ⟨xs, [], rfl, fun r hr hlive hnot => .inl ?_⟩
    rw [hrows] at hr
    rw [hnow] at hlive
    refine mem_map_of_mem (hperm.mem_iff.mpr (mem_filter.mpr ⟨hr, ?_⟩))
    rw [Bool.and_eq_true, live_of_live hbegan rfl id hlive, decide_eq_true_eq]
    exact ⟨rfl, hnot⟩
  distinct := by
    obtain ⟨rows, hperm, -, rfl⟩ := hread
    exact (hperm.map _).nodup_iff.mpr (hdistinct.sublist (filter_sublist.map _))
  known sid hsid := by
    obtain ⟨rows, hperm, -, rfl⟩ := hread
    obtain ⟨r, hr, rfl⟩ := mem_map.mp hsid
    rw [hrows]
    exact ⟨r, (mem_filter.mp (hperm.mem_iff.mp hr)).1, rfl⟩
  subset := nil_subset _
  done r _ hdone := by cases hdone

theorem revoked_of_not_unrevoked {sid : String} (h : s.unrevoked sid = false) {r : Session}
    (hr : r ∈ s.sessions) (hsid : r.sid = sid) : r.revoked = true := by
  have hnot := any_eq_false.mp h r hr
  simpa [hsid] using hnot

theorem subset_revoking (s : State ι) (sid : String) (ended : List String) :
    ended ⊆ s.revoking sid ended := by
  rw [State.revoking]
  split_ifs
  · exact subset_cons_self _ _
  · exact Subset.refl _

theorem Window.evict {ended live done : List String} {sid : String}
    (h : Window xs s T ended live done) (hevolves : Evolves s x t)
    (hrows : t.sessions = s.sessions) (hsid : sid ∈ live) :
    Window (xs ++ [x]) t T (s.revoking sid ended) live (done ++ [sid]) := by
  have hstep := h.step hevolves (subset_revoking s sid ended)
  refine ⟨hstep.read, hstep.distinct, hstep.known, ?_, fun r hr hdone hnot => ?_⟩
  · exact append_subset.mpr ⟨h.subset, by simpa using hsid⟩
  · rcases mem_append.mp hdone with hdone | hdone
    · exact hstep.done r hr hdone hnot
    · have hrsid := mem_singleton.mp hdone
      rw [State.revoking] at hnot
      split_ifs at hnot with hun
      · exact absurd (hrsid ▸ mem_cons_self) hnot
      · exact revoked_of_not_unrevoked (by simpa using hun) (hrows ▸ hr) hrsid

end

section

variable [DecidableEq ι] {lim : Limit} {sessionTTL : ℤ} {xs : List (Obs ι)} {x : Obs ι}
  {s t : State ι} {T : ι}

theorem set_txs (s : State ι) (T : ι) (tx : Tx) : (s.set T tx).txs = update s.txs T tx := rfl

/-- One transaction moves, and nothing is committed. -/
theorem Inv.move (h : Inv lim xs s) {tx : Tx} (hx : joined [x] = [])
    (htx : TxOk lim (xs ++ [x]) (s.set T tx) T tx)
    (hkeys : ∀ new ∈ tx.pending, ∀ U, U ≠ T → ∀ new' ∈ (s.txs U).pending, new.sid ≠ new'.sid) :
    Inv lim (xs ++ [x]) (s.set T tx) where
  distinct := h.distinct
  within := h.within
  txs U := by
    by_cases hU : U = T
    · subst hU
      rw [set_txs, update_self]
      exact htx
    · rw [set_txs, update_of_ne hU]
      refine (h.txs U).step (.same le_rfl rfl) fun new _ => ?_
      rw [hx]
      exact not_mem_nil
  keys U V new new' hne hU hV := by
    rw [set_txs] at hU hV
    by_cases hUT : U = T
    · subst hUT
      rw [update_self] at hU
      rw [update_of_ne hne.symm] at hV
      exact hkeys new hU V hne.symm new' hV
    · rw [update_of_ne hUT] at hU
      by_cases hVT : V = T
      · subst hVT
        rw [update_self] at hV
        exact (hkeys new' hV U hUT new hU).symm
      · rw [update_of_ne hVT] at hV
        exact h.keys U V new new' hne hU hV

theorem sids_revokeAll (ended : List String) (rows : List Session) :
    (revokeAll ended rows).map Session.sid = rows.map Session.sid := by
  rw [revokeAll, map_map]
  refine map_congr_left fun r _ => ?_
  rw [Function.comp_apply]
  split_ifs <;> rfl

omit [DecidableEq ι] in
/-- The sessions that are live once a sign-in has been committed. -/
theorem Inv.within_commit (h : Inv lim xs s) (hmax : 0 < lim.max) {began : ℤ}
    {ended live : List String} {new : Session} (htx : s.txs T = .inserted began ended live new)
    (hroom : LeaveRoom lim (xs ++ [.signedIn T new.sid])) :
    (((revokeAll ended s.sessions ++ [new]).filter (Session.live s.now)).length : ℤ) ≤ lim.max := by
  have hok := h.txs T
  rw [htx] at hok
  obtain ⟨⟨out, henforce, hwindow⟩, -⟩ := hok
  obtain ⟨before, between, rfl, hread⟩ := hwindow.read
  have hleft := hroom before T live between new.sid [] (by simp)
  have hkept := kept_le hmax henforce hwindow.distinct
  set kept := live.filter fun sid => decide (sid ∉ out) with hkeptDef
  have hsub : (((revokeAll ended s.sessions).filter (Session.live s.now)).map Session.sid) ⊆
      kept ++ joined between := by
    intro sid hsid
    obtain ⟨r', hr', rfl⟩ := mem_map.mp hsid
    obtain ⟨hmem, hlive⟩ := mem_filter.mp hr'
    obtain ⟨r, hr, rfl⟩ := mem_map.mp hmem
    split_ifs at hlive ⊢ with hended
    · simp [Session.live] at hlive
    · rcases hread r hr hlive hended with hin | hin
      · refine mem_append_left _ (mem_filter.mpr ⟨hin, decide_eq_true fun hout => ?_⟩)
        have hrev := hwindow.done r hr hout hended
        simp [Session.live, hrev] at hlive
      · exact mem_append_right _ hin
  have hnodup : (((revokeAll ended s.sessions).filter (Session.live s.now)).map
      Session.sid).Nodup := by
    refine Nodup.sublist (filter_sublist.map _) ?_
    rw [sids_revokeAll]
    exact h.distinct
  have hle := (subperm_of_subset hnodup hsub).length_le
  rw [length_map, length_append] at hle
  have hone := length_filter_le (Session.live s.now) [new]
  rw [length_singleton] at hone
  rw [filter_append, length_append]
  omega

omit [DecidableEq ι] in
theorem live_length_le (hevolves : Evolves s x t) (hx : joined [x] = [])
    (hdistinct : (t.sessions.map Session.sid).Nodup) : t.live.length ≤ s.live.length := by
  have hsub : t.live.map Session.sid ⊆ s.live.map Session.sid := by
    intro sid hsid
    obtain ⟨r', hr', rfl⟩ := mem_map.mp hsid
    obtain ⟨hmem, hlive⟩ := mem_filter.mp hr'
    rcases hevolves.2.2 r' hmem with ⟨hnew, -⟩ | ⟨r, hr, hrsid, hafter, hrev⟩
    · rw [hx] at hnew
      cases hnew
    · rw [← hrsid]
      exact mem_map_of_mem (mem_filter.mpr ⟨hr, live_of_live hevolves.1 hafter hrev hlive⟩)
  have hnodup : (t.live.map Session.sid).Nodup := hdistinct.sublist (filter_sublist.map _)
  have hle := (subperm_of_subset hnodup hsub).length_le
  rwa [length_map, length_map] at hle

theorem Inv.step (h : Inv lim xs s) (hmax : 0 < lim.max) (hstep : Step lim sessionTTL s x t)
    (hroom : LeaveRoom lim (xs ++ [x])) : Inv lim (xs ++ [x]) t := by
  cases hstep with
  | tick later hlater =>
    have hevolves : Evolves s .quiet { s with now := later } := .same hlater rfl
    refine ⟨h.distinct, ?_, fun T => (h.txs T).step hevolves fun _ _ => not_mem_nil, h.keys⟩
    exact (Int.ofNat_le.mpr (live_length_le hevolves rfl h.distinct)).trans h.within
  | enter T htx => exact h.move rfl (le_refl s.now) (fun new hnew => by cases hnew)
  | supersede T began ended sid htx hfree =>
    have hok := h.txs T
    rw [htx] at hok
    exact h.move rfl hok (fun new hnew => by cases hnew)
  | unlimited T began ended htx hle => omega
  | admitSession T began ended live todo htx hpos hread henforce =>
    have hok := h.txs T
    rw [htx] at hok
    exact h.move rfl ⟨[], henforce, window_of_read h.distinct hok hread rfl rfl⟩
      (fun new hnew => by cases hnew)
  | refuse T began ended live htx hpos hread henforce =>
    exact h.move rfl trivial (fun new hnew => by cases hnew)
  | evict T began ended live todo sid htx hfree =>
    have hok := h.txs T
    rw [htx] at hok
    obtain ⟨done, henforce, hwindow⟩ := hok
    have hsid : sid ∈ live := subset_of_enforce henforce (by simp)
    refine h.move rfl ⟨done ++ [sid], ?_, hwindow.evict (.same le_rfl rfl) rfl hsid⟩
      (fun new hnew => by cases hnew)
    rw [List.append_assoc]
    exact henforce
  | insert T began ended live sid htx hfresh hkey =>
    have hok := h.txs T
    rw [htx] at hok
    obtain ⟨done, henforce, hwindow⟩ := hok
    rw [append_nil] at henforce
    refine h.move rfl ⟨⟨done, henforce, hwindow.step (.same le_rfl rfl) (Subset.refl _)⟩,
      hfresh⟩ fun new hnew U hU new' hnew' => ?_
    obtain rfl := Option.some.inj hnew
    exact (hkey U new' hnew').symm
  | commit T began ended live new htx =>
    have hok := h.txs T
    rw [htx] at hok
    have hpending : (s.txs T).pending = some new := by rw [htx]; rfl
    have hsids : ((revokeAll ended s.sessions ++ [new]).map Session.sid).Nodup := by
      rw [map_append, sids_revokeAll, map_singleton]
      refine h.distinct.append (nodup_singleton _) (disjoint_singleton.mpr ?_)
      intro hmem
      obtain ⟨r, hr, hrsid⟩ := mem_map.mp hmem
      exact hok.2 r hr hrsid
    have hevolves : Evolves s (.signedIn T new.sid)
        { s.set T .closed with sessions := revokeAll ended s.sessions ++ [new] } := by
      have hrevoked : Evolves s (.signedIn T new.sid)
          { s with sessions := revokeAll ended s.sessions } := .revokeAll le_rfl rfl
      refine ⟨le_rfl, fun r hr => ?_, fun r' hr' => ?_⟩
      · obtain ⟨r', hr', hrsid⟩ := hrevoked.2.1 r hr
        exact ⟨r', mem_append_left _ hr', hrsid⟩
      · rcases mem_append.mp hr' with hr' | hr'
        · exact hrevoked.2.2 r' hr'
        · obtain rfl := mem_singleton.mp hr'
          exact .inl ⟨mem_singleton.mpr rfl, hok.2⟩
    refine ⟨hsids, h.within_commit hmax htx hroom, fun U => ?_, fun U V a b hne hU hV => ?_⟩
    · by_cases hU : U = T
      · subst hU
        dsimp only
        rw [set_txs, update_self]
        trivial
      · dsimp only
        rw [set_txs, update_of_ne hU]
        refine (h.txs U).step hevolves fun other hother hmem => ?_
        exact h.keys U T other new hU hother hpending (mem_singleton.mp hmem)
    · dsimp only at hU hV
      rw [set_txs] at hU hV
      by_cases hUT : U = T
      · subst hUT
        rw [update_self] at hU
        cases hU
      · by_cases hVT : V = T
        · subst hVT
          rw [update_self] at hV
          cases hV
        · rw [update_of_ne hUT] at hU
          rw [update_of_ne hVT] at hV
          exact h.keys U V a b hne hU hV
  | commitRefusal T began ended htx =>
    have hover : Inv lim (xs ++ [.quiet]) (s.set T .closed) :=
      h.move rfl trivial (fun new hnew => by cases hnew)
    have hevolves : Evolves s (.quiet : Obs ι)
        { s.set T .closed with sessions := revokeAll ended s.sessions } := .revokeAll le_rfl rfl
    have hsids : ((revokeAll ended s.sessions).map Session.sid).Nodup := by
      rw [sids_revokeAll]
      exact h.distinct
    refine ⟨hsids, ?_, fun U => ?_, hover.keys⟩
    · exact (Int.ofNat_le.mpr (live_length_le hevolves rfl hsids)).trans h.within
    · by_cases hU : U = T
      · subst hU
        dsimp only
        rw [set_txs, update_self]
        trivial
      · dsimp only
        rw [set_txs, update_of_ne hU]
        exact (h.txs U).step hevolves fun _ _ => not_mem_nil
  | rollback T htx => exact h.move rfl trivial (fun new hnew => by cases hnew)

/-- As long as sign-ins leave each other room, a person never has more live sessions than the
organisation allows. -/
theorem limit_kept {s₀ : State ι} (hmax : 0 < lim.max) (hstart : Start lim s₀)
    (hrun : Run (Step lim sessionTTL) s₀ xs s) (hroom : LeaveRoom lim xs) :
    (s.live.length : ℤ) ≤ lim.max := by
  have hinv : LeaveRoom lim xs → Inv lim xs s := by
    refine hrun.invariant (I := fun ys a => LeaveRoom lim ys → Inv lim ys a) (fun _ => ?_) ?_
    · refine ⟨hstart.distinct, hstart.within, fun T => ?_, fun T U new new' _ hT => ?_⟩
      · rw [hstart.idle]
        trivial
      · rw [hstart.idle] at hT
        cases hT
    · intro ys a b y hys hstep hleft
      exact (hys (leaveRoom_of_snoc hleft)).step hmax hstep hleft
  exact (hinv hroom).within

end

section

variable (b : Behaviour)

def single : Limit := ⟨1, b⟩

def nobody : State Bool := ⟨0, [], fun _ => .absent⟩

theorem start_nobody : Start (single b) nobody :=
  ⟨nodup_nil, by simp [State.live, nobody, single], fun _ => rfl⟩

theorem readsNothing {s : State Bool} (hrows : s.sessions = []) (began : ℤ) :
    ReadsLive s began [] [] := by
  refine ⟨[], ?_, List.Pairwise.nil, rfl⟩
  rw [hrows]
  exact List.Perm.nil

theorem two_sessions : ∃ xs s, Run (Step (single b) 60) nobody xs s ∧ s.live.length = 2 := by
  have h₁ : Run (Step (single b) 60) nobody _ _ := Run.nil.snoc (Step.enter false rfl)
  have h₂ := h₁.snoc (Step.enter true rfl)
  have h₃ := h₂.snoc (Step.admitSession false 0 [] [] [] rfl Int.one_pos (readsNothing rfl 0) rfl)
  have h₄ := h₃.snoc (Step.admitSession true 0 [] [] [] rfl Int.one_pos (readsNothing rfl 0) rfl)
  have h₅ := h₄.snoc (Step.insert false 0 [] [] "a" rfl (fun r hr => by cases hr)
    (fun U r hr => by cases U <;> cases hr))
  have h₆ := h₅.snoc (Step.insert true 0 [] [] "b" rfl (fun r hr => by cases hr)
    (fun U r hr => by cases U <;> cases hr; decide))
  have h₇ := h₆.snoc (Step.commit false 0 [] [] ⟨"a", 0, 60, false⟩ rfl)
  have h₈ := h₇.snoc (Step.commit true 0 [] [] ⟨"b", 0, 60, false⟩ rfl)
  exact ⟨_, _, h₈, rfl⟩

theorem limit_exceeded :
    (¬ ∀ (s₀ : State Bool) (xs : List (Obs Bool)) (s : State Bool), Start (single .deny) s₀ →
      Run (Step (single .deny) 60) s₀ xs s → (s.live.length : ℤ) ≤ (single .deny).max) ∧
    ¬ ∀ (s₀ : State Bool) (xs : List (Obs Bool)) (s : State Bool),
      Start (single .evictOldest) s₀ → Run (Step (single .evictOldest) 60) s₀ xs s →
        (s.live.length : ℤ) ≤ (single .evictOldest).max := by
  constructor
  · intro hall
    obtain ⟨xs, s, hrun, htwo⟩ := two_sessions .deny
    have hle := hall nobody xs s (start_nobody _) hrun
    rw [htwo] at hle
    exact absurd hle (by decide)
  · intro hall
    obtain ⟨xs, s, hrun, htwo⟩ := two_sessions .evictOldest
    have hle := hall nobody xs s (start_nobody _) hrun
    rw [htwo] at hle
    exact absurd hle (by decide)

def oneSignIn : List (Obs Bool) := [.quiet, .read false [], .quiet, .signedIn false "a"]

theorem leaveRoom_oneSignIn : LeaveRoom (single b) oneSignIn := by
  intro before T live between sid after hxs
  have hjoined : joined oneSignIn = joined before ++ (joined between ++ sid :: joined after) := by
    rw [hxs, joined_append, show Obs.read T live :: (between ++ .signedIn T sid :: after) =
      [.read T live] ++ (between ++ ([.signedIn T sid] ++ after)) from rfl, joined_append,
      joined_append, joined_append]
    rfl
  have hlength := congrArg List.length hjoined
  have hread : Obs.read T live ∈ oneSignIn := by rw [hxs]; simp
  obtain ⟨-, rfl⟩ : T = false ∧ live = [] := by simpa [oneSignIn] using hread
  simp only [length_append, length_cons] at hlength
  have hone : (joined oneSignIn).length = 1 := rfl
  have hmax : (single b).max = 1 := rfl
  rw [length_nil]
  omega

theorem run_oneSignIn : ∃ s, Run (Step (single b) 60) nobody oneSignIn s ∧ s.live.length = 1 := by
  have h₁ : Run (Step (single b) 60) nobody _ _ := Run.nil.snoc (Step.enter false rfl)
  have h₂ := h₁.snoc (Step.admitSession false 0 [] [] [] rfl Int.one_pos (readsNothing rfl 0) rfl)
  have h₃ := h₂.snoc (Step.insert false 0 [] [] "a" rfl (fun r hr => by cases hr)
    (fun U r hr => by cases U <;> cases hr))
  have h₄ := h₃.snoc (Step.commit false 0 [] [] ⟨"a", 0, 60, false⟩ rfl)
  exact ⟨_, h₄, rfl⟩

theorem limit_kept_one : ∃ s : State Bool, Run (Step (single .deny) 60) nobody oneSignIn s ∧
    s.live.length = 1 ∧ (s.live.length : ℤ) ≤ (single .deny).max := by
  obtain ⟨s, hrun, hone⟩ := run_oneSignIn .deny
  exact ⟨s, hrun, hone, limit_kept Int.one_pos (start_nobody _) hrun (leaveRoom_oneSignIn _)⟩

end

end Signari.SessionLimit
