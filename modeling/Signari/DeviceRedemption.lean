import Signari.DeviceCodes
import Signari.HistoryTables
import Mathlib.Data.List.Nodup

/-!
# What a device code can yield

Invariants of every run of the device-code statements. A poll that has read a row holds its lock, so
until the poll ends the row is as it was read, whatever else runs; what the poll found out about it
therefore still holds when the poll commits (`TxOk`).

The main theorem reads the redemptions of a run off these.
-/
namespace Signari.DeviceRedemption
open DeviceCodes LabelledRuns List Function

variable {D : Type}

def approval (r : Row D) : Status × Option String × Option String × Option ℤ :=
  (r.status, r.userID, r.sid, r.redeemedAt)

def issued (r : Row D) : Row D :=
  { r with
    status := .pending, userID := none, sid := none, interval := 0, lastPolledAt := none
    redeemedAt := none }

/-- The id an observation hands over. -/
def redeemed : Obs D → Option String
  | .poll _ _ (.answered (.granted g)) => some g.id
  | _ => none

def redemptions (xs : List (Obs D)) : List String := xs.filterMap redeemed

def actor : Obs D → Option ℕ
  | .poll i _ _ => some i
  | _ => none

section
variable {xs : List (Obs D)} {s t : State D} {o : Obs D} {i : ℕ} {tx : Tx D} {call : PollCall D}
  {since : ℤ}

/-- A poll that found the row its client's, unspent, unexpired and due. -/
structure Passed (xs : List (Obs D)) (i : ℕ) (call : PollCall D) (since : ℤ) (d : Row D)
    (checked : ℤ) : Prop where
  client : d.clientID = call.clientID
  unspent : d.redeemedAt = none
  begun : since ≤ checked
  unexpired : checked ≤ d.expiresAt
  due : ∃ paced, .poll i call (.inspected .due checked paced) ∈ xs

/-- What a poll that is about to redeem has made sure of, and what it wrote. -/
structure Redeems (xs : List (Obs D)) (i : ℕ) (call : PollCall D) (since : ℤ) (id : String)
    (d draft : Row D) (a : Answer) : Prop where
  answer : a = .granted (d.authorization id)
  draft : draft = (d.polled since).redeemed since
  approved : d.status = .approved
  passed : ∃ checked, Passed xs i call since d checked

/-- Where a poll stands says what it has found out. -/
def Sound (xs : List (Obs D)) (i : ℕ) (call : PollCall D) (since : ℤ) : Phase D → Prop
  | .began | .reading .. | .tooEarly .. | .done => True
  | .refused _ _ a => ∀ g, a ≠ .granted g
  | .due _ d checked => Passed xs i call since d checked
  | .touched _ d checked | .redeeming _ d checked =>
    Passed xs i call since d checked ∧ d.status = .approved
  | .closing id d draft a => issued draft = issued d ∧
      ((approval draft = approval d ∧ ∀ g, a ≠ .granted g) ∨ Redeems xs i call since id d draft a)

/-- The verdicts a poll can have reached by the time it stands somewhere. -/
def Reachable : Phase D → Verdict → Prop
  | .began, _ | .reading .., _ => False
  | .refused .., _ | .done, _ => True
  | .tooEarly .., v => v = .tooEarly
  | .due .., v | .touched .., v | .redeeming .., v => v = .due
  | .closing _ d draft _, v => approval draft ≠ approval d → v = .due

structure TxOk (xs : List (Obs D)) (s : State D) (i : ℕ) (tx : Tx D) : Prop where
  since_le : tx.since ≤ s.clock
  begun : .poll i tx.call (.began tx.since) ∈ xs
  held : ∀ id d, tx.phase.held = some (id, d) → s.locks id = some i ∧ s.rows id = some d ∧
    d.deviceHash = tx.call.deviceHash
  found : ∀ call id d, .poll i call (.found id d) ∈ xs → tx.phase ≠ .done →
    tx.phase.held = some (id, d)
  inspected : ∀ call v c p, .poll i call (.inspected v c p) ∈ xs → Reachable tx.phase v
  sound : Sound xs i tx.call tx.since tx.phase

theorem Passed.snoc {d : Row D} {checked : ℤ} (h : Passed xs i call since d checked) :
    Passed (xs ++ [o]) i call since d checked := by
  obtain ⟨paced, hdue⟩ := h.due
  exact ⟨h.client, h.unspent, h.begun, h.unexpired, paced, mem_append_left _ hdue⟩

theorem Sound.snoc {p : Phase D} (h : Sound xs i call since p) :
    Sound (xs ++ [o]) i call since p := by
  cases p with
  | began | reading id d | refused id d a | tooEarly id d => exact h
  | due id d checked => exact Passed.snoc h
  | touched id d checked | redeeming id d checked => exact ⟨Passed.snoc h.1, h.2⟩
  | closing id d draft a =>
    obtain ⟨hissued, hkeep | hredeem⟩ := h
    · exact ⟨hissued, .inl hkeep⟩
    · obtain ⟨checked, hpassed⟩ := hredeem.passed
      exact ⟨hissued, .inr ⟨hredeem.answer, hredeem.draft, hredeem.approved, checked, hpassed.snoc⟩⟩
  | done => exact h

theorem mem_snoc_other {j : ℕ} {e : PollEvent D} (ho : actor o ≠ some j)
    (h : .poll j call e ∈ xs ++ [o]) : .poll j call e ∈ xs := by
  rcases mem_append.mp h with h | h
  · exact h
  · rw [mem_singleton] at h
    subst h
    exact absurd rfl ho

theorem TxOk.frame (h : TxOk xs s i tx) (ho : actor o ≠ some i) (hclock : s.clock ≤ t.clock)
    (hspare : ∀ id d, tx.phase.held = some (id, d) →
      t.locks id = s.locks id ∧ t.rows id = s.rows id) :
    TxOk (xs ++ [o]) t i tx where
  since_le := h.since_le.trans hclock
  begun := mem_append_left _ h.begun
  held id d hd := by
    obtain ⟨hlock, hrow, hhash⟩ := h.held id d hd
    obtain ⟨hlock', hrow'⟩ := hspare id d hd
    exact ⟨hlock'.trans hlock, hrow'.trans hrow, hhash⟩
  found call id d hmem hne := h.found call id d (mem_snoc_other ho hmem) hne
  inspected call v c p hmem := h.inspected call v c p (mem_snoc_other ho hmem)
  sound := h.sound.snoc

theorem TxOk.close (h : TxOk xs s i tx) (hclock : s.clock ≤ t.clock) :
    TxOk (xs ++ [o]) t i { tx with phase := .done } where
  since_le := h.since_le.trans hclock
  begun := mem_append_left _ h.begun
  held id d hd := by simp [Phase.held] at hd
  found call id d hmem hne := absurd rfl hne
  inspected call v c p hmem := trivial
  sound := trivial

theorem local_held {p p' : Phase D} {e : PollEvent D} (h : Local since p e p') :
    p'.held = p.held := by
  cases h with
  | slow => rfl
  | touch =>
    rename_i id d checked
    cases hs : d.status <;> simp [Phase.afterTouch, hs, Phase.held]
  | session =>
    rename_i id d checked live
    cases live <;> rfl
  | redeem => rfl

theorem local_sound {p p' : Phase D} {e : PollEvent D} (h : Local since p e p')
    (hsound : Sound xs i call since p) : Sound xs i call since p' := by
  cases h with
  | slow => exact ⟨rfl, .inl ⟨rfl, by simp⟩⟩
  | touch =>
    rename_i id d checked
    rw [Phase.afterTouch]
    cases hs : d.status with
    | pending | denied => exact ⟨rfl, .inl ⟨rfl, by simp⟩⟩
    | approved => exact ⟨hsound, hs⟩
  | session =>
    rename_i id d checked live
    cases live with
    | true => exact hsound
    | false => exact ⟨rfl, .inl ⟨rfl, by simp⟩⟩
  | redeem => exact ⟨rfl, .inr ⟨rfl, rfl, hsound.2, _, hsound.1⟩⟩

theorem local_reachable {p p' : Phase D} {e : PollEvent D} {v : Verdict}
    (h : Local since p e p') (hv : Reachable p v) : Reachable p' v := by
  cases h with
  | slow => exact fun hne => absurd rfl hne
  | touch =>
    rename_i id d checked
    rw [Phase.afterTouch]
    cases hs : d.status with
    | pending | denied => exact fun hne => absurd rfl hne
    | approved => exact hv
  | session =>
    rename_i id d checked live
    cases live with
    | true => exact hv
    | false => exact fun hne => absurd rfl hne
  | redeem => exact fun _ => hv

theorem local_redeemed {p p' : Phase D} {e : PollEvent D} (h : Local since p e p') :
    redeemed (.poll i call e) = none := by
  cases h with
  | slow => rfl
  | touch => rfl
  | session => rfl
  | redeem => rfl

theorem local_quiet {p p' : Phase D} {e : PollEvent D} (h : Local since p e p') :
    p ≠ .done ∧ (∀ id d, e ≠ .found id d) ∧ ∀ v c p, e ≠ .inspected v c p := by
  cases h with
  | slow => simp
  | touch => simp
  | session => simp
  | redeem => simp

theorem TxOk.statement {p : Phase D} {e : PollEvent D} (h : TxOk xs s i tx)
    (hlocal : Local tx.since tx.phase e p) :
    TxOk (xs ++ [Obs.poll i tx.call e]) (s.setPhase i tx p) i { tx with phase := p } where
  since_le := h.since_le
  begun := mem_append_left _ h.begun
  held id d hd := h.held id d (local_held hlocal ▸ hd)
  found call id d hmem hne := by
    obtain ⟨hdone, hfound, -⟩ := local_quiet hlocal
    rcases mem_append.mp hmem with hmem | hmem
    · exact (local_held hlocal).trans (h.found call id d hmem hdone)
    · simp only [mem_singleton, Obs.poll.injEq] at hmem
      exact absurd hmem.2.2.symm (hfound id d)
  inspected call v c q hmem := by
    obtain ⟨-, -, hinspected⟩ := local_quiet hlocal
    rcases mem_append.mp hmem with hmem | hmem
    · exact local_reachable hlocal (h.inspected call v c q hmem)
    · simp only [mem_singleton, Obs.poll.injEq] at hmem
      exact absurd hmem.2.2.symm (hinspected v c q)
  sound := (local_sound hlocal h.sound).snoc

theorem TxOk.begin (hfree : ∀ call' e, .poll i call' e ∉ xs) (hclock : t.clock = s.clock) :
    TxOk (xs ++ [Obs.poll i call (.began s.clock)]) t i ⟨call, s.clock, .began⟩ where
  since_le := hclock.ge
  begun := mem_append_right _ (mem_singleton.mpr rfl)
  held id d hd := by simp [Phase.held] at hd
  found call' id d hmem hne := by simp [hfree] at hmem
  inspected call' v c p hmem := by simp [hfree] at hmem
  sound := trivial

theorem TxOk.find {id : String} {d : Row D} (h : TxOk xs s i tx) (hphase : tx.phase = .began)
    (hrow : s.rows id = some d) (hhash : d.deviceHash = tx.call.deviceHash) :
    TxOk (xs ++ [Obs.poll i tx.call (.found id d)])
      { s.setPhase i tx (.reading id d) with locks := update s.locks id (some i) } i
      { tx with phase := .reading id d } where
  since_le := h.since_le
  begun := mem_append_left _ h.begun
  held id' d' hd := by
    simp only [Phase.held, Option.some.injEq, Prod.mk.injEq] at hd
    obtain ⟨rfl, rfl⟩ := hd
    exact ⟨update_self .., hrow, hhash⟩
  found call id' d' hmem hne := by
    rcases mem_append.mp hmem with hmem | hmem
    · have := h.found call id' d' hmem (by simp [hphase])
      simp [hphase, Phase.held] at this
    · simp only [mem_singleton, Obs.poll.injEq, PollEvent.found.injEq] at hmem
      obtain ⟨-, -, rfl, rfl⟩ := hmem
      rfl
  inspected call v c p hmem := by
    rcases mem_append.mp hmem with hmem | hmem
    · have := h.inspected call v c p hmem
      simp [hphase, Reachable] at this
    · simp at hmem
  sound := trivial

theorem inspect_due {d : Row D} {clientID : String} {checked paced : ℤ}
    (h : inspect d clientID checked paced = .due) :
    d.clientID = clientID ∧ checked ≤ d.expiresAt ∧ d.redeemedAt = none := by
  unfold inspect at h
  split_ifs at h with hclient hexpired hspent
  exact ⟨not_not.mp hclient, not_lt.mp hexpired, by simpa using hspent⟩

theorem inspect_refused {d : Row D} {clientID : String} {checked paced : ℤ} {a : Answer}
    (h : inspect d clientID checked paced = .refused a) (g : DeviceAuthorization) :
    a ≠ .granted g := by
  unfold inspect at h
  split_ifs at h with hclient hexpired hspent
  · cases h; simp
  · cases h; simp
  · cases h; simp

theorem TxOk.inspect {id : String} {d : Row D} {checked paced : ℤ} {v : Verdict}
    (h : TxOk xs s i tx) (hphase : tx.phase = .reading id d) (hchecked : s.clock ≤ checked)
    (hpaced : checked ≤ paced) (hv : DeviceCodes.inspect d tx.call.clientID checked paced = v) :
    TxOk (xs ++ [Obs.poll i tx.call (.inspected v checked paced)])
      { s.setPhase i tx (.afterInspect id d checked v) with clock := paced } i
      { tx with phase := .afterInspect id d checked v } := by
  have hheld : (Phase.afterInspect id d checked v).held = tx.phase.held := by
    rw [hphase]
    cases v <;> rfl
  refine ⟨(h.since_le.trans hchecked).trans hpaced, mem_append_left _ h.begun, ?_, ?_, ?_, ?_⟩
  · intro id' d' hd
    exact h.held id' d' (hheld ▸ hd)
  · intro call id' d' hmem hne
    rcases mem_append.mp hmem with hmem | hmem
    · exact hheld.trans (h.found call id' d' hmem (by simp [hphase]))
    · simp at hmem
  · intro call v' c p hmem
    rcases mem_append.mp hmem with hmem | hmem
    · have := h.inspected call v' c p hmem
      simp [hphase, Reachable] at this
    · simp only [mem_singleton, Obs.poll.injEq, PollEvent.inspected.injEq] at hmem
      obtain ⟨-, -, rfl, -, -⟩ := hmem
      cases v' with
      | refused a => trivial
      | tooEarly => rfl
      | due => rfl
  · cases v with
    | refused a => exact inspect_refused hv
    | tooEarly => trivial
    | due =>
      obtain ⟨hclient, hexpired, hspent⟩ := inspect_due hv
      exact ⟨hclient, hspent, h.since_le.trans hchecked, hexpired, paced, by simp⟩

end

section
variable {xs : List (Obs D)} {s t : State D} {o : Obs D} {rows rows' : String → Option (Row D)}
  {drawn : List String}

/-- What the table remembers of a run. -/
structure Tables (xs : List (Obs D)) (rows : String → Option (Row D)) (drawn : List String) :
    Prop where
  origin : ∀ id r, rows id = some r → ∃ row, .created id row ∈ xs ∧ issued r = issued row
  approved : ∀ id r, rows id = some r → r.status = .approved →
    ∃ userID sid, .approved id userID sid ∈ xs ∧ r.userID = some userID ∧ r.sid = some sid
  known : ∀ id r, rows id = some r → id ∈ drawn
  spent : ∀ id ∈ redemptions xs, id ∈ drawn ∧ ∀ r, rows id = some r → r.redeemedAt ≠ none
  once : (redemptions xs).Nodup

/-- What a step does to the table. -/
inductive Effect (s : State D) : Obs D → (String → Option (Row D)) → List String → Prop
  | same {o : Obs D} : redeemed o = none → Effect s o s.rows s.drawn
  | create {id : String} {row : Row D} : id ∉ s.drawn → row.status = .pending →
      Effect s (.created id row) (update s.rows id (some row)) (id :: s.drawn)
  | decide {o : Obs D} {id : String} {r r' : Row D} :
      s.rows id = some r → s.locks id = none → actor o = none → issued r' = issued r →
      r'.redeemedAt = r.redeemedAt →
      (r'.status = .approved → ∃ userID sid, o = .approved id userID sid ∧
        r'.userID = some userID ∧ r'.sid = some sid) →
      Effect s o (update s.rows id (some r')) s.drawn
  | remove {gone : String → Row D → Bool} :
      (∀ id r, s.rows id = some r → gone id r = true → s.locks id = none) →
      Effect s .deleted (fun id => (s.rows id).filter fun r => !gone id r) s.drawn
  | publish {i : ℕ} {tx : Tx D} {id : String} {d draft : Row D} {a b : Answer} :
      s.txs i = some tx → tx.phase = .closing id d draft a → b = a ∨ b = .failed →
      Effect s (.poll i tx.call (.answered b)) (update s.rows id (some draft)) s.drawn

theorem redemptions_snoc_none (ho : redeemed o = none) :
    redemptions (xs ++ [o]) = redemptions xs := by
  simp [redemptions, filterMap_append, ho]

theorem redemptions_snoc_some {id : String} (ho : redeemed o = some id) :
    redemptions (xs ++ [o]) = redemptions xs ++ [id] := by
  simp [redemptions, filterMap_append, ho]

theorem redeemed_of_actor (ho : actor o = none) : redeemed o = none := by
  cases o with
  | poll i call e => simp [actor] at ho
  | created id row => rfl
  | approved id userID sid => rfl
  | denied id => rfl
  | deleted => rfl
  | waited => rfl

theorem redeemed_answered {i : ℕ} {call : PollCall D} {a : Answer} (ha : ∀ g, a ≠ .granted g) :
    redeemed (.poll i call (.answered a)) = none := by
  cases a with
  | granted g => exact absurd rfl (ha g)
  | _ => rfl

theorem Tables.empty : Tables ([] : List (Obs D)) (fun _ => none) [] where
  origin id r h := by simp at h
  approved id r h := by simp at h
  known id r h := by simp at h
  spent id h := by simp [redemptions] at h
  once := nodup_nil

theorem Tables.fewer (h : Tables xs rows drawn) (ho : redeemed o = none)
    (hrows : ∀ id r, rows' id = some r → rows id = some r) : Tables (xs ++ [o]) rows' drawn where
  origin id r hr := by
    obtain ⟨row, hrow, hissued⟩ := h.origin id r (hrows id r hr)
    exact ⟨row, mem_append_left _ hrow, hissued⟩
  approved id r hr hst := by
    obtain ⟨userID, sid, hmem, hu, hs⟩ := h.approved id r (hrows id r hr) hst
    exact ⟨userID, sid, mem_append_left _ hmem, hu, hs⟩
  known id r hr := h.known id r (hrows id r hr)
  spent id hid := by
    rw [redemptions_snoc_none ho] at hid
    exact ⟨(h.spent id hid).1, fun r hr => (h.spent id hid).2 r (hrows id r hr)⟩
  once := by
    rw [redemptions_snoc_none ho]
    exact h.once

theorem Tables.create {id : String} {row : Row D} (h : Tables xs rows drawn) (hid : id ∉ drawn)
    (hrow : row.status = .pending) :
    Tables (xs ++ [Obs.created id row]) (update rows id (some row)) (id :: drawn) where
  origin j r hr := by
    obtain ⟨rfl, rfl⟩ | ⟨-, hr⟩ := HistoryTables.update_eq_some hr
    · exact ⟨r, by simp, rfl⟩
    · obtain ⟨row', hmem, hissued⟩ := h.origin j r hr
      exact ⟨row', mem_append_left _ hmem, hissued⟩
  approved j r hr hst := by
    obtain ⟨rfl, rfl⟩ | ⟨-, hr⟩ := HistoryTables.update_eq_some hr
    · rw [hrow] at hst
      cases hst
    · obtain ⟨userID, sid, hmem, hu, hs⟩ := h.approved j r hr hst
      exact ⟨userID, sid, mem_append_left _ hmem, hu, hs⟩
  known j r hr := by
    obtain ⟨rfl, -⟩ | ⟨-, hr⟩ := HistoryTables.update_eq_some hr
    · exact mem_cons_self
    · exact mem_cons_of_mem _ (h.known j r hr)
  spent j hj := by
    rw [redemptions_snoc_none rfl] at hj
    obtain ⟨hdrawn, hspent⟩ := h.spent j hj
    refine ⟨mem_cons_of_mem _ hdrawn, ?_⟩
    intro r hr
    obtain ⟨rfl, -⟩ | ⟨-, hr⟩ := HistoryTables.update_eq_some hr
    · exact absurd hdrawn hid
    · exact hspent r hr
  once := by
    rw [redemptions_snoc_none rfl]
    exact h.once

/-- A step that writes one row: it keeps what the row was created with, approves only with an
approval, and hands over only what was not spent before and is now. -/
theorem Tables.write {id : String} {r r' : Row D} (h : Tables xs rows drawn)
    (hr : rows id = some r) (hissued : issued r' = issued r)
    (hkept : r.redeemedAt ≠ none → r'.redeemedAt ≠ none)
    (happroved : r'.status = .approved →
      (r.status = .approved ∧ r'.userID = r.userID ∧ r'.sid = r.sid) ∨
      ∃ userID sid, o = .approved id userID sid ∧ r'.userID = some userID ∧ r'.sid = some sid)
    (ho : redeemed o = none ∨ redeemed o = some id ∧ r.redeemedAt = none ∧ r'.redeemedAt ≠ none) :
    Tables (xs ++ [o]) (update rows id (some r')) drawn := by
  have hunspent : redeemed o = some id → id ∉ redemptions xs := by
    intro hid hmem
    obtain hnone | ⟨-, hfree, -⟩ := ho
    · rw [hnone] at hid
      cases hid
    · exact (h.spent id hmem).2 r hr hfree
  refine ⟨?_, ?_, ?_, ?_, ?_⟩
  · intro j q hq
    obtain ⟨rfl, rfl⟩ | ⟨-, hq⟩ := HistoryTables.update_eq_some hq
    · obtain ⟨row, hmem, hrow⟩ := h.origin j r hr
      exact ⟨row, mem_append_left _ hmem, hissued.trans hrow⟩
    · obtain ⟨row, hmem, hrow⟩ := h.origin j q hq
      exact ⟨row, mem_append_left _ hmem, hrow⟩
  · intro j q hq hst
    obtain ⟨rfl, rfl⟩ | ⟨-, hq⟩ := HistoryTables.update_eq_some hq
    · obtain ⟨hst', hu', hs'⟩ | ⟨userID, sid, rfl, hu, hs⟩ := happroved hst
      · obtain ⟨userID, sid, hmem, hu, hs⟩ := h.approved j r hr hst'
        exact ⟨userID, sid, mem_append_left _ hmem, hu'.trans hu, hs'.trans hs⟩
      · exact ⟨userID, sid, by simp, hu, hs⟩
    · obtain ⟨userID, sid, hmem, hu, hs⟩ := h.approved j q hq hst
      exact ⟨userID, sid, mem_append_left _ hmem, hu, hs⟩
  · intro j q hq
    obtain ⟨rfl, -⟩ | ⟨-, hq⟩ := HistoryTables.update_eq_some hq
    · exact h.known j r hr
    · exact h.known j q hq
  · intro j hj
    have hold : j ∈ redemptions xs ∨ (j = id ∧ r'.redeemedAt ≠ none) := by
      obtain hnone | ⟨hid, -, hnow⟩ := ho
      · rw [redemptions_snoc_none hnone] at hj
        exact .inl hj
      · rw [redemptions_snoc_some hid, mem_append, mem_singleton] at hj
        exact hj.imp_right fun he => ⟨he, hnow⟩
    obtain hmem | ⟨rfl, hnow⟩ := hold
    · refine ⟨(h.spent j hmem).1, ?_⟩
      intro q hq
      obtain ⟨rfl, rfl⟩ | ⟨-, hq⟩ := HistoryTables.update_eq_some hq
      · exact hkept ((h.spent j hmem).2 r hr)
      · exact (h.spent j hmem).2 q hq
    · refine ⟨h.known j r hr, ?_⟩
      intro q hq
      obtain ⟨-, rfl⟩ | ⟨hne, -⟩ := HistoryTables.update_eq_some hq
      · exact hnow
      · exact absurd rfl hne
  · obtain hnone | ⟨hid, -, -⟩ := ho
    · rw [redemptions_snoc_none hnone]
      exact h.once
    · rw [redemptions_snoc_some hid, ← concat_eq_append]
      exact h.once.concat (hunspent hid)

theorem Tables.step (h : Tables xs s.rows s.drawn)
    (hpolls : ∀ i tx, s.txs i = some tx → TxOk xs s i tx) (heff : Effect s o rows' drawn) :
    Tables (xs ++ [o]) rows' drawn := by
  cases heff with
  | same ho => exact h.fewer ho fun id r hr => hr
  | create hid hrow => exact h.create hid hrow
  | decide hr hlock hactor hissued hsame happroved =>
    exact h.write hr hissued (fun hne => hsame ▸ hne) (fun hst => .inr (happroved hst))
      (.inl (redeemed_of_actor hactor))
  | remove hfree =>
    apply h.fewer rfl
    intro id r hr
    exact (Option.filter_eq_some_iff.mp hr).1
  | publish htx hphase hb =>
    rename_i i tx id d draft a b
    have hok := hpolls i tx htx
    have hheld : tx.phase.held = some (id, d) := by rw [hphase]; rfl
    obtain ⟨hlock, hrow, -⟩ := hok.held id d hheld
    have hsound := hok.sound
    rw [hphase] at hsound
    obtain ⟨hissued, ⟨hkeep, ha⟩ | hredeem⟩ := hsound
    · simp only [approval, Prod.mk.injEq] at hkeep
      obtain ⟨hst, hu, hs, hred⟩ := hkeep
      apply h.write hrow hissued (fun hne => hred ▸ hne)
        (fun happroved => .inl ⟨hst ▸ happroved, hu, hs⟩)
      left
      obtain rfl | rfl := hb
      · exact redeemed_answered ha
      · rfl
    · obtain ⟨checked, hpassed⟩ := hredeem.passed
      have hdraft := hredeem.draft
      subst hdraft
      apply h.write hrow hissued (fun _ => by simp [Row.redeemed])
        (fun _ => .inl ⟨hredeem.approved, rfl, rfl⟩)
      obtain rfl | rfl := hb
      · right
        rw [hredeem.answer]
        exact ⟨rfl, hpassed.unspent, by simp [Row.redeemed]⟩
      · exact .inl rfl

end

section
variable {xs : List (Obs D)} {s t : State D} {o : Obs D} {i : ℕ} {tx : Tx D}

structure Reached (xs : List (Obs D)) (s : State D) : Prop where
  polls : ∀ i tx, s.txs i = some tx → TxOk xs s i tx
  started : ∀ i call e, .poll i call e ∈ xs → s.txs i ≠ none
  tables : Tables xs s.rows s.drawn

theorem approve_eq_some {r r' : Row D} {userID sid : String} {now : ℤ}
    (h : r.approve userID sid now = some r') :
    r' = { r with status := .approved, userID := some userID, sid := some sid } := by
  unfold Row.approve at h
  split_ifs at h
  exact (Option.some.inj h).symm

theorem deny_eq_some {r r' : Row D} (h : r.deny = some r') : r' = { r with status := .denied } := by
  unfold Row.deny at h
  split_ifs at h
  exact (Option.some.inj h).symm

theorem decideBackchannel_eq_some {r r' : Row D} {userID sid : String} {approve : Bool} {now : ℤ}
    (h : r.decideBackchannel userID sid approve now = some r') :
    r.userID = some userID ∧
      r' = { r with status := if approve then .approved else .denied, sid := some sid } := by
  unfold Row.decideBackchannel at h
  split at h
  · rename_i hguard
    exact ⟨hguard.1, (Option.some.inj h).symm⟩
  · cases h

/-- Every step does one of the things `Effect` lists. -/
theorem step_effect (hpolls : ∀ i tx, s.txs i = some tx → TxOk xs s i tx) (h : Step s o t) :
    Effect s o t.rows t.drawn := by
  cases h with
  | create hid hunique hrow =>
    refine .create hid ?_
    obtain ⟨_, _, _, _, _, _, _, hrow⟩ | ⟨_, _, _, _, _, _, hrow⟩ := hrow
    · rw [hrow]
      rfl
    · rw [hrow]
      rfl
  | approve hr hlock hsince h =>
    obtain rfl := approve_eq_some h
    exact .decide hr hlock rfl rfl rfl fun _ => ⟨_, _, rfl, rfl, rfl⟩
  | deny hr hlock h =>
    obtain rfl := deny_eq_some h
    exact .decide hr hlock rfl rfl rfl fun hst => by cases hst
  | decideBackchannel hr hlock hsince h =>
    rename_i id userID sid approve since r r'
    obtain ⟨huser, rfl⟩ := decideBackchannel_eq_some h
    cases approve with
    | true => exact .decide hr hlock rfl rfl rfl fun _ => ⟨userID, sid, rfl, huser, rfl⟩
    | false => exact .decide hr hlock rfl rfl rfl fun hst => by cases hst
  | purge hsince hfree => exact .remove hfree
  | cascade hfree => exact .remove hfree
  | wait ht | begin htx | miss htx hphase hnone | find htx hphase hr hlock hhash hflow
  | inspect htx hphase hchecked hpaced => exact .same rfl
  | statement htx hlocal => exact .same (local_redeemed hlocal)
  | rollback htx hphase =>
    rename_i i tx id d a
    have hsound := (hpolls i tx htx).sound
    rw [hphase] at hsound
    exact .same (redeemed_answered hsound)
  | commit htx hphase => exact .publish htx hphase (.inl rfl)
  | commitLost htx hphase => exact .publish htx hphase (.inr rfl)
  | fail htx hphase => exact .same rfl

theorem Effect.spares {rows : String → Option (Row D)} {drawn : List String} (hs : Reached xs s)
    (h : Effect s o rows drawn) (ho : actor o ≠ some i) {id : String} {d : Row D}
    (hlock : s.locks id = some i) (hrow : s.rows id = some d) : rows id = s.rows id := by
  cases h with
  | same ho => rfl
  | create hid hst =>
    rename_i j row
    have hne : id ≠ j := fun he => hid (he ▸ hs.tables.known id d hrow)
    exact update_of_ne hne ..
  | decide hr hfree hactor hissued hsame happroved =>
    rename_i j r r'
    have hne : id ≠ j := by
      rintro rfl
      rw [hlock] at hfree
      cases hfree
    exact update_of_ne hne ..
  | remove hfree =>
    rename_i gone
    have hstay : gone id d = false := by
      rw [← Bool.not_eq_true]
      intro hgone
      have hnone := hfree id d hrow hgone
      rw [hlock] at hnone
      cases hnone
    simp [hrow, hstay]
  | publish htx hphase hb =>
    rename_i j tx' id' d' draft a b
    have hheld : tx'.phase.held = some (id', d') := by rw [hphase]; rfl
    have hlock' := ((hs.polls j tx' htx).held id' d' hheld).1
    have hne : id ≠ id' := by
      rintro rfl
      rw [hlock] at hlock'
      exact ho (congrArg some (Option.some.inj hlock').symm)
    exact update_of_ne hne ..

theorem step_other (h : Step s o t) (ho : actor o ≠ some i) :
    t.txs i = s.txs i ∧ s.clock ≤ t.clock ∧
      ∀ id, s.locks id = some i → t.locks id = s.locks id := by
  have hother : ∀ {j : ℕ} {call : PollCall D} {e : PollEvent D} {x : Option (Tx D)},
      actor (.poll j call e) ≠ some i → update s.txs j x i = s.txs i := by
    intro j call e x hj
    apply update_of_ne
    rintro rfl
    exact hj rfl
  have hclose : ∀ {j : ℕ} {call : PollCall D} {e : PollEvent D} {id : String},
      actor (.poll j call e) ≠ some i → s.locks id = some i →
      (if s.locks id = some j then none else s.locks id) = s.locks id := by
    intro j call e id hj hlock
    apply if_neg
    rw [hlock]
    rintro hij
    exact hj hij.symm
  cases h with
  | create _ _ _ | approve _ _ _ _ | deny _ _ _ | decideBackchannel _ _ _ _ | purge _ _
  | cascade _ => exact ⟨rfl, le_refl _, fun _ _ => rfl⟩
  | wait ht => exact ⟨rfl, ht, fun _ _ => rfl⟩
  | begin _ => exact ⟨hother ho, le_refl _, fun _ _ => rfl⟩
  | miss _ _ _ => exact ⟨hother ho, le_refl _, fun _ hl => hclose ho hl⟩
  | find htx hphase hr hlock hhash hflow =>
    refine ⟨hother ho, le_refl _, ?_⟩
    intro id hl
    apply update_of_ne
    rintro rfl
    rw [hl] at hlock
    cases hlock
  | inspect _ _ hchecked hpaced => exact ⟨hother ho, hchecked.trans hpaced, fun _ _ => rfl⟩
  | statement _ _ => exact ⟨hother ho, le_refl _, fun _ _ => rfl⟩
  | rollback _ _ | commit _ _ | commitLost _ _ | fail _ _ =>
    exact ⟨hother ho, le_refl _, fun _ hl => hclose ho hl⟩

theorem step_own (hs : Reached xs s) (h : Step s o t) (ho : actor o = some i) :
    ∃ tx, t.txs i = some tx ∧ TxOk (xs ++ [o]) t i tx := by
  cases h with
  | create _ _ _ => cases ho
  | approve _ _ _ _ => cases ho
  | deny _ _ _ => cases ho
  | decideBackchannel _ _ _ _ =>
    rename_i approve _ _ _ _ _ _ _
    cases approve <;> cases ho
  | purge _ _ => cases ho
  | cascade _ => cases ho
  | wait _ => cases ho
  | begin htx =>
    obtain rfl := Option.some.inj ho
    exact ⟨_, update_self .., .begin (fun call e hmem => hs.started _ call e hmem htx) rfl⟩
  | miss htx _ _ =>
    obtain rfl := Option.some.inj ho
    exact ⟨_, update_self .., (hs.polls _ _ htx).close (le_refl _)⟩
  | find htx hphase hr hlock hhash hflow =>
    obtain rfl := Option.some.inj ho
    exact ⟨_, update_self .., (hs.polls _ _ htx).find hphase hr hhash⟩
  | inspect htx hphase hchecked hpaced =>
    obtain rfl := Option.some.inj ho
    exact ⟨_, update_self .., (hs.polls _ _ htx).inspect hphase hchecked hpaced rfl⟩
  | statement htx hlocal =>
    obtain rfl := Option.some.inj ho
    exact ⟨_, update_self .., (hs.polls _ _ htx).statement hlocal⟩
  | rollback htx _ | commit htx _ | commitLost htx _ | fail htx _ =>
    obtain rfl := Option.some.inj ho
    exact ⟨_, update_self .., (hs.polls _ _ htx).close (le_refl _)⟩

theorem Reached.step (hs : Reached xs s) (h : Step s o t) : Reached (xs ++ [o]) t := by
  have heff := step_effect hs.polls h
  refine ⟨?_, ?_, hs.tables.step hs.polls heff⟩
  · intro i tx htx
    by_cases ho : actor o = some i
    · obtain ⟨tx', htx', hok⟩ := step_own hs h ho
      rw [htx, Option.some.injEq] at htx'
      exact htx' ▸ hok
    · obtain ⟨hsame, hclock, hlocks⟩ := step_other h ho
      rw [hsame] at htx
      have hok := hs.polls i tx htx
      apply hok.frame ho hclock
      intro id d hd
      obtain ⟨hlock, hrow, -⟩ := hok.held id d hd
      exact ⟨hlocks id hlock, heff.spares hs ho hlock hrow⟩
  · intro i call e hmem
    by_cases ho : actor o = some i
    · obtain ⟨tx', htx', -⟩ := step_own hs h ho
      rw [htx']
      exact Option.some_ne_none tx'
    · rw [(step_other h ho).1]
      exact hs.started i call e (mem_snoc_other ho hmem)

theorem run_reached (h : Run Step {} xs s) : Reached xs s := by
  apply h.invariant (I := Reached)
  · exact ⟨fun i tx htx => by simp at htx, fun i call e hmem => by simp at hmem, .empty⟩
  · intro ys a b y hys hy
    exact hys.step hy

/-- No id is handed over twice. -/
def RedeemedOnce (xs : List (Obs D)) : Prop := (redemptions xs).Nodup

/-- What is handed over was issued to the client that polls, had been approved, and the poll
that collects it began and was checked before the expiry. -/
def RedeemedRightly (xs : List (Obs D)) : Prop :=
  ∀ pre post i call g, xs = pre ++ Obs.poll i call (.answered (.granted g)) :: post →
    ∃ row since checked paced, Obs.created g.id row ∈ pre ∧ row.clientID = call.clientID ∧
      row.deviceHash = call.deviceHash ∧ Obs.approved g.id g.userID g.sid ∈ pre ∧
      Obs.poll i call (.began since) ∈ pre ∧
      Obs.poll i call (.inspected .due checked paced) ∈ pre ∧
      since ≤ checked ∧ checked ≤ row.expiresAt

/-- A poll changes an approval, or marks it spent, only with its last step, and only if the row
it found was its client's and approved and it was found due: a poll by another client, one
that comes too early and one that finds the row pending leave every approval as it is. -/
def KeepsApprovals (xs : List (Obs D)) : Prop :=
  ∀ pre post i call e a b id, xs = pre ++ Obs.poll i call e :: post → Run Step {} pre a →
    Step a (.poll i call e) b → (b.rows id).map approval ≠ (a.rows id).map approval →
    (e = .answered .failed ∨ ∃ g, e = .answered (.granted g)) ∧
      (∀ call' id' d, .poll i call' (.found id' d) ∈ pre →
        d.clientID = call.clientID ∧ d.status = .approved) ∧
      ∀ call' v c p, .poll i call' (.inspected v c p) ∈ pre → v = .due

theorem issued_eq {r r' : Row D} (h : issued r = issued r') :
    r.clientID = r'.clientID ∧ r.deviceHash = r'.deviceHash ∧ r.expiresAt = r'.expiresAt := by
  simp only [issued, Row.mk.injEq] at h
  exact ⟨h.2.1, h.2.2.2.2.1, h.2.2.2.2.2.2.2.2.2.2.2.1⟩

theorem Reached.redeemedRightly {call : PollCall D} {g : DeviceAuthorization}
    (hs : Reached xs s) (h : Step s (.poll i call (.answered (.granted g))) t) :
    ∃ row since checked paced, .created g.id row ∈ xs ∧ row.clientID = call.clientID ∧
      row.deviceHash = call.deviceHash ∧ .approved g.id g.userID g.sid ∈ xs ∧
      .poll i call (.began since) ∈ xs ∧ .poll i call (.inspected .due checked paced) ∈ xs ∧
      since ≤ checked ∧ checked ≤ row.expiresAt := by
  generalize ho : (.poll i call (.answered (.granted g)) : Obs D) = o at h
  generalize hrows : t.rows = rows
  generalize hdrawn : t.drawn = drawn
  have heff := step_effect hs.polls h
  rw [hrows, hdrawn] at heff
  cases heff with
  | same hnone => rw [← ho] at hnone; cases hnone
  | create _ _ => cases ho
  | decide _ _ hactor _ _ _ => rw [← ho] at hactor; cases hactor
  | remove _ => cases ho
  | publish htx hphase hb =>
    rename_i j tx id d draft a b
    cases ho
    obtain rfl := hb.resolve_right (by simp)
    have hok := hs.polls i tx htx
    have hheld : tx.phase.held = some (id, d) := by rw [hphase]; rfl
    obtain ⟨-, hrow, hhash⟩ := hok.held id d hheld
    have hsound := hok.sound
    rw [hphase] at hsound
    obtain ⟨-, ⟨-, hnot⟩ | hredeem⟩ := hsound
    · exact absurd rfl (hnot g)
    · obtain ⟨checked, hpassed⟩ := hredeem.passed
      obtain ⟨paced, hdue⟩ := hpassed.due
      obtain rfl := Answer.granted.inj hredeem.answer
      obtain ⟨row, hcreated, hissued⟩ := hs.tables.origin id d hrow
      obtain ⟨hclient, hdevice, hexpiry⟩ := issued_eq hissued
      obtain ⟨userID, sid, happroved, hu, hsid⟩ := hs.tables.approved id d hrow hredeem.approved
      refine ⟨row, tx.since, checked, paced, hcreated, ?_, ?_, ?_, hok.begun, hdue,
        hpassed.begun, ?_⟩
      · exact hclient.symm.trans hpassed.client
      · exact hdevice.symm.trans hhash
      · simpa [Row.authorization, hu, hsid] using happroved
      · rw [← hexpiry]
        exact hpassed.unexpired

theorem Reached.keepsApprovals {call : PollCall D} {e : PollEvent D} {id : String}
    (hs : Reached xs s) (h : Step s (.poll i call e) t)
    (hne : (t.rows id).map approval ≠ (s.rows id).map approval) :
    (e = .answered .failed ∨ ∃ g, e = .answered (.granted g)) ∧
      (∀ call' id' d, .poll i call' (.found id' d) ∈ xs →
        d.clientID = call.clientID ∧ d.status = .approved) ∧
      ∀ call' v c p, .poll i call' (.inspected v c p) ∈ xs → v = .due := by
  generalize ho : (.poll i call e : Obs D) = o at h
  generalize hrows : t.rows = rows at hne
  generalize hdrawn : t.drawn = drawn
  have heff := step_effect hs.polls h
  rw [hrows, hdrawn] at heff
  cases heff with
  | same _ => exact absurd rfl hne
  | create _ _ => cases ho
  | decide _ _ hactor _ _ _ => rw [← ho] at hactor; cases hactor
  | remove _ => cases ho
  | publish htx hphase hb =>
    rename_i j tx id' d draft a b
    cases ho
    have hok := hs.polls i tx htx
    have hheld : tx.phase.held = some (id', d) := by rw [hphase]; rfl
    obtain ⟨-, hrow, -⟩ := hok.held id' d hheld
    have hchanged : approval draft ≠ approval d := by
      intro heq
      apply hne
      by_cases hid : id = id'
      · subst hid
        rw [update_self, hrow, Option.map_some, Option.map_some, heq]
      · rw [update_of_ne hid]
    have hsound := hok.sound
    rw [hphase] at hsound
    obtain ⟨-, ⟨hkeep, -⟩ | hredeem⟩ := hsound
    · exact absurd hkeep hchanged
    · obtain ⟨checked, hpassed⟩ := hredeem.passed
      refine ⟨?_, ?_, ?_⟩
      · obtain rfl | rfl := hb
        · exact .inr ⟨_, by rw [hredeem.answer]⟩
        · exact .inl rfl
      · intro call' id'' d' hmem
        have hsame := hok.found call' id'' d' hmem (by simp [hphase])
        rw [hheld, Option.some.injEq, Prod.mk.injEq] at hsame
        rw [← hsame.2]
        exact ⟨hpassed.client, hredeem.approved⟩
      · intro call' v c p hmem
        have hreach := hok.inspected call' v c p hmem
        rw [hphase] at hreach
        exact hreach hchanged

/-- In every interleaving of polls, decisions, deletions and the passing of time. -/
theorem device_code_redemption (hrun : Run Step {} xs s) :
    RedeemedOnce xs ∧ RedeemedRightly xs ∧ KeepsApprovals xs := by
  refine ⟨(run_reached hrun).tables.once, ?_, ?_⟩
  · intro pre post i call g hxs
    subst hxs
    obtain ⟨a, b, hpre, hstep, -⟩ := hrun.split
    exact (run_reached hpre).redeemedRightly hstep
  · intro pre post i call e a b id hxs hpre hstep hne
    exact (run_reached hpre).keepsApprovals hstep hne

end

def televisionRow : Row String := newDevice "o1" "tv" "openid" [] "h1" "u1" 5 600 0

def approvedRow : Row String :=
  { televisionRow with status := .approved, userID := some "ann", sid := some "s1" }

def polling (clientID : String) : PollCall String := ⟨"h1", clientID, .device⟩

def collected : List (Obs String) :=
  [.created "d1" televisionRow, .approved "d1" "ann" "s1",
    .poll 0 (polling "radio") (.began 0), .poll 0 (polling "radio") (.found "d1" approvedRow),
    .poll 0 (polling "radio") (.inspected (.refused .wrongClient) 1 1),
    .poll 0 (polling "radio") (.answered .wrongClient),
    .poll 1 (polling "tv") (.began 1), .poll 1 (polling "tv") (.found "d1" approvedRow),
    .poll 1 (polling "tv") (.inspected .due 2 2), .poll 1 (polling "tv") .touched,
    .poll 1 (polling "tv") (.session true), .poll 1 (polling "tv") .redeemed,
    .poll 1 (polling "tv") (.answered (.granted (approvedRow.authorization "d1")))]

theorem collected_run : ∃ s, Run Step {} collected s := by
  apply Exists.intro
  apply Run.cons (.create (by simp) (by simp) (.inl ⟨_, _, _, _, _, _, _, rfl⟩))
  apply Run.cons (@Step.approve _ _ "d1" "ann" "s1" 0 televisionRow approvedRow rfl rfl (by decide)
    (by decide))
  apply Run.cons (@Step.begin _ _ 0 (polling "radio") rfl)
  apply Run.cons (@Step.find _ _ 0 ⟨polling "radio", 0, .began⟩ "d1" approvedRow rfl rfl rfl rfl rfl
    rfl)
  apply Run.cons (@Step.inspect _ _ 0 ⟨polling "radio", 0, .reading "d1" approvedRow⟩ "d1"
    approvedRow 1 1 rfl rfl (by decide) (by decide))
  apply Run.cons (@Step.rollback _ _ 0 ⟨polling "radio", 0, .refused "d1" approvedRow .wrongClient⟩
    "d1" approvedRow .wrongClient rfl rfl)
  apply Run.cons (@Step.begin _ _ 1 (polling "tv") rfl)
  apply Run.cons (@Step.find _ _ 1 ⟨polling "tv", 1, .began⟩ "d1" approvedRow rfl rfl rfl rfl rfl
    rfl)
  apply Run.cons (@Step.inspect _ _ 1 ⟨polling "tv", 1, .reading "d1" approvedRow⟩ "d1"
    approvedRow 2 2 rfl rfl (by decide) (by decide))
  apply Run.cons (@Step.statement _ _ 1 ⟨polling "tv", 1, .due "d1" approvedRow 2⟩ _ _ rfl .touch)
  apply Run.cons (@Step.statement _ _ 1 ⟨polling "tv", 1, .touched "d1" approvedRow 2⟩ _ _ rfl
    .session)
  apply Run.cons (@Step.statement _ _ 1 ⟨polling "tv", 1, .redeeming "d1" approvedRow 2⟩ _ _ rfl
    .redeem)
  apply Run.cons (@Step.commit _ _ 1 ⟨polling "tv", 1, .closing "d1" approvedRow
    ((approvedRow.polled 1).redeemed 1) (.granted (approvedRow.authorization "d1"))⟩ _ _ _ _ rfl
    rfl)
  exact .nil

theorem device_code_redemption_collected :
    (∃ s, Run Step {} collected s) ∧ redemptions collected = ["d1"] ∧ RedeemedOnce collected ∧
      RedeemedRightly collected ∧ KeepsApprovals collected := by
  obtain ⟨s, hrun⟩ := collected_run
  exact ⟨⟨s, hrun⟩, rfl, device_code_redemption hrun⟩

end Signari.DeviceRedemption
