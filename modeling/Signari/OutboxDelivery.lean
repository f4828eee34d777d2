import Signari.OutboxDrain

/-!
# What the outbox says about deliveries

Invariants of every run of the workers. A worker that holds a row holds the payload that the row
still has, because a payload changes only while its row is parked, and a parked row cannot be
claimed.

A parked row has no time at which it is tried again: that is what `QueueCIBAPing` and
`QueueCIBAPush` are for.
-/
namespace Signari.OutboxDelivery
open OutboxDrain LabelledRuns List Function

variable {ι P : Type}

def Released (xs : List (Obs P)) (id : ℕ) (row : Row P) : Prop :=
  ∃ before after, xs = before ++ .queued id :: after ∧ Obs.released row.topic row.subjectKey ∈ after

/-- A failure that a worker has been told of and has not recorded. -/
def Call.failedOn (id : ℕ) (call : Call P) : Bool :=
  decide (call.row.id = id) && match call.result with
    | some (.error _) => true
    | _ => false

def attemptsOf (s : State ι P) (id : ℕ) : ℕ := (s.rows id).elim 0 Row.attempts

def pending (w : Worker P) (id : ℕ) : ℕ := w.calls.countP (Call.failedOn id)

structure RowOk (xs : List (Obs P)) (s : State ι P) (id : ℕ) (row : Row P) : Prop where
  queued : .queued id ∈ xs
  delivered : row.deliveredAt ≠ none →
    .returned id row.payload (.ok ()) ∈ xs ∧ row.nextAttemptAt ≠ .infinity
  approved : row.topic = .cibaPush → row.nextAttemptAt ≠ .infinity → row.subjectKey ∈ s.approved
  parked : row.nextAttemptAt = .infinity → row.topic.parks = true ∧ ¬ Released xs id row
  uncharged : row.topic = .cibaPush → row.attempts = 0

def Held (s : State ι P) (topic : Topic) (c : Claimed P) : Prop :=
  ∀ row, s.rows c.id = some row →
    row.payload = c.raw ∧ row.nextAttemptAt ≠ .infinity ∧ row.topic = topic

structure CallOk (xs : List (Obs P)) (s : State ι P) (topic : Topic) (call : Call P) : Prop where
  drawn : call.row.id ∈ s.drawn
  held : Held s topic call.row
  succeeded : call.result = some (.ok ()) → .returned call.row.id call.row.raw (.ok ()) ∈ xs

structure Inv [Fintype ι] (xs : List (Obs P)) (s : State ι P) : Prop where
  drawn : ∀ id, .queued id ∈ xs → id ∈ s.drawn
  distinct : s.drawn.Nodup
  rows : ∀ id row, s.rows id = some row → RowOk xs s id row
  calls : ∀ w spec calls, s.workers w = .working spec calls →
    spec ∈ drains ∧ ∀ call ∈ calls, CallOk xs s spec.topic call
  counted : ∀ id, attemptsOf s id + ∑ w, pending (s.workers w) id ≤ xs.countP (Obs.failedOn id)

section

variable {xs : List (Obs P)} {s t : State ι P} {x : Obs P} {id : ℕ} {row row' : Row P}

theorem updateWhere_eq_some {p : ℕ → Row P → Bool} {f : Row P → Row P}
    {rows : ℕ → Option (Row P)} (h : updateWhere p f rows id = some row') :
    ∃ row, rows id = some row ∧ row' = if p id row then f row else row := by
  obtain ⟨row, hrow, heq⟩ := Option.map_eq_some_iff.mp h
  exact ⟨row, hrow, heq.symm⟩

theorem moment_ne (t : ℤ) : Timestamp.moment t ≠ .infinity := nofun

theorem inserted_eq_some {rows : ℕ → Option (Row P)} {j : ℕ} {new : Row P}
    (h : update rows j (some new) id = some row') :
    id = j ∧ row' = new ∨ id ≠ j ∧ rows id = some row' := by
  by_cases hj : id = j
  · subst hj
    rw [update_self] at h
    exact .inl ⟨rfl, (Option.some.inj h).symm⟩
  · rw [update_of_ne hj] at h
    exact .inr ⟨hj, h⟩

theorem released_snoc (h : Released (xs ++ [x]) id row) :
    Released xs id row ∨ x = .released row.topic row.subjectKey := by
  obtain ⟨before, after, hxs, hmem⟩ := h
  rcases eq_nil_or_concat after with rfl | ⟨after, y, rfl⟩
  · cases hmem
  · rw [concat_eq_append, ← cons_append, ← List.append_assoc] at hxs
    obtain ⟨rfl, hlast⟩ := append_inj' hxs rfl
    obtain rfl : x = y := by simpa using hlast
    rw [concat_eq_append] at hmem
    rcases mem_append.mp hmem with hmem | hmem
    · exact .inl ⟨before, after, rfl, hmem⟩
    · exact .inr (mem_singleton.mp hmem).symm

theorem not_released_of_fresh (h : .queued id ∉ xs) : ¬ Released (xs ++ [.queued id]) id row := by
  intro hrel
  rcases released_snoc hrel with ⟨before, after, rfl, _⟩ | hx
  · exact h (by simp)
  · cases hx

theorem RowOk.keep (h : RowOk xs s id row) (hmore : s.approved ⊆ t.approved)
    (hx : x = .released row.topic row.subjectKey → row.nextAttemptAt ≠ .infinity) :
    RowOk (xs ++ [x]) t id row where
  queued := mem_append_left _ h.queued
  delivered hd := ⟨mem_append_left _ (h.delivered hd).1, (h.delivered hd).2⟩
  approved ht hfin := hmore (h.approved ht hfin)
  parked hinf := by
    refine ⟨(h.parked hinf).1, fun hrel => ?_⟩
    rcases released_snoc hrel with hrel | hrel
    · exact (h.parked hinf).2 hrel
    · exact hx hrel hinf
  uncharged := h.uncharged

theorem RowOk.timed (h : RowOk xs s id row) (hmore : s.approved ⊆ t.approved)
    (hpayload : row'.payload = row.payload) (htopic : row'.topic = row.topic)
    (hkey : row'.subjectKey = row.subjectKey) (hdel : row'.deliveredAt = row.deliveredAt)
    (hfin : row'.nextAttemptAt ≠ .infinity)
    (hold : row.topic = .cibaPush → row.nextAttemptAt ≠ .infinity)
    (hfree : row.topic = .cibaPush → row'.attempts = row.attempts) :
    RowOk (xs ++ [x]) t id row' where
  queued := mem_append_left _ h.queued
  delivered hd := by
    rw [hdel] at hd
    rw [hpayload]
    exact ⟨mem_append_left _ (h.delivered hd).1, hfin⟩
  approved ht _ := by
    rw [htopic] at ht
    rw [hkey]
    exact hmore (h.approved ht (hold ht))
  parked hinf := absurd hinf hfin
  uncharged ht := by
    rw [htopic] at ht
    exact (hfree ht).trans (h.uncharged ht)

theorem not_infinity_of_claimable {topic : Topic} {now : ℤ}
    (h : row.claimable topic now = true) : row.nextAttemptAt ≠ .infinity := by
  intro hinf
  simp [Row.claimable, hinf, Timestamp.reached] at h

theorem topic_of_claimable {topic : Topic} {now : ℤ} (h : row.claimable topic now = true) :
    row.topic = topic := by
  simp only [Row.claimable, Bool.and_eq_true, decide_eq_true_eq] at h
  exact h.1.1.1

theorem no_backoff_of_push {spec : DrainSpec} (h : spec ∈ drains) (hpush : spec.topic = .cibaPush) :
    spec.backoff = none := by
  simp only [drains, mem_cons, not_mem_nil, or_false] at h
  rcases h with rfl | rfl | rfl | rfl <;> first | rfl | cases hpush

theorem mem_claimedIDs {spec : DrainSpec} {now : ℤ} {locked : ℕ → Bool}
    (h : id ∈ s.claimedIDs spec now locked) :
    id ∈ s.drawn ∧ ∃ row, s.rows id = some row ∧ row.claimable spec.topic now = true := by
  have hmem := mem_filter.mp (mem_of_mem_take h)
  refine ⟨(mem_insertionSort _).mp hmem.1, ?_⟩
  have hdue := hmem.2
  rw [State.due, Bool.and_eq_true] at hdue
  exact (Option.any_eq_true _ _).mp hdue.1

theorem leased_eq_some {spec : DrainSpec} {now : ℤ} {locked : ℕ → Bool}
    (h : s.leased spec now locked id = some row') :
    ∃ row, s.rows id = some row ∧
      (row' = row ∨ row' = row.postpone (now + claimLease) ∧ row.nextAttemptAt ≠ .infinity) := by
  obtain ⟨row, hrow, rfl⟩ := updateWhere_eq_some h
  refine ⟨row, hrow, ?_⟩
  split_ifs with hin
  · obtain ⟨-, found, hfound, hclaim⟩ := mem_claimedIDs (of_decide_eq_true hin)
    obtain rfl : row = found := by rw [hrow] at hfound; exact Option.some.inj hfound
    exact .inr ⟨rfl, not_infinity_of_claimable hclaim⟩
  · exact .inl rfl

theorem waitsFor_eq {topic : Topic} {key : String} (h : row.waitsFor topic key = true) :
    row.topic = topic ∧ row.subjectKey = key ∧ row.deliveredAt = none := by
  simp only [Row.waitsFor, Bool.and_eq_true, decide_eq_true_eq, Option.isNone_iff_eq_none] at h
  exact ⟨h.1.1, h.1.2, h.2⟩

theorem RowOk.waits (h : RowOk xs s id row) (hinf : row.nextAttemptAt = .infinity) :
    row.waitsFor row.topic row.subjectKey = true := by
  have hnone : row.deliveredAt = none := by
    by_contra hd
    exact (h.delivered hd).2 hinf
  simp [Row.waitsFor, hnone]

end

theorem mem_claimedIDs_of_due {s : State ι P} {spec : DrainSpec} {now : ℤ} {locked : ℕ → Bool}
    {id : ℕ} (hdrawn : id ∈ s.drawn) (hdue : s.due spec.topic now locked id = true)
    (hroom : s.drawn.countP (fun j => decide (j < id) && s.due spec.topic now locked j) <
      spec.batch)
    (hnodup : s.drawn.Nodup) : id ∈ s.claimedIDs spec now locked := by
  set due := s.due spec.topic now locked with hdef
  have hperm := perm_insertionSort (· ≤ ·) s.drawn
  have hmem : id ∈ (s.drawn.insertionSort (· ≤ ·)).filter due :=
    mem_filter.mpr ⟨(mem_insertionSort _).mpr hdrawn, hdue⟩
  obtain ⟨before, after, hsplit⟩ := append_of_mem hmem
  have hsorted : (before ++ id :: after).Pairwise (· ≤ ·) := by
    rw [← hsplit]
    exact (pairwise_insertionSort _ _).filter _
  have hdistinct : (before ++ id :: after).Nodup := by
    rw [← hsplit]
    exact (hperm.nodup_iff.mpr hnodup).filter _
  have hlower : ∀ j ∈ before, j < id := by
    intro j hj
    have hle : j ≤ id := (pairwise_append.mp hsorted).2.2 j hj id mem_cons_self
    have hne : j ≠ id := (List.nodup_append.mp hdistinct).2.2 j hj id mem_cons_self
    omega
  have hlength : before.length ≤ s.drawn.countP (fun j => decide (j < id) && due j) := by
    rw [← hperm.countP_eq, ← countP_filter, hsplit, countP_append]
    have hall : before.countP (fun j => decide (j < id)) = before.length :=
      countP_eq_length.mpr fun j hj => decide_eq_true (hlower j hj)
    omega
  rw [State.claimedIDs, ← hdef, hsplit, take_append]
  refine mem_append_right _ ?_
  obtain ⟨k, hk⟩ : ∃ k, spec.batch - before.length = k + 1 :=
    Nat.exists_eq_succ_of_ne_zero (by omega)
  rw [hk, take_succ_cons]
  exact mem_cons_self

section

variable [DecidableEq ι] [Fintype ι] {xs : List (Obs P)} {s t : State ι P} {x : Obs P}

theorem Inv.rows_step (h : Inv xs s) (hstep : Step s x t) :
    ∀ id row, t.rows id = some row → RowOk (xs ++ [x]) t id row := by
  intro id row' hrow'
  cases hstep with
  | queue j topic payload now hfresh htopic =>
    obtain ⟨rfl, rfl⟩ | ⟨hj, hrow⟩ := inserted_eq_some hrow'
    · refine ⟨by simp, fun hd => absurd rfl hd, fun hpush => ?_,
        fun hinf => absurd hinf (moment_ne _), fun _ => rfl⟩
      obtain rfl : topic = .cibaPush := hpush
      cases htopic
    · exact (h.rows id row' hrow).keep (Subset.refl _) (fun hx => by cases hx)
  | park j topic payload key hfresh htopic =>
    obtain ⟨rfl, rfl⟩ | ⟨hj, hrow⟩ := inserted_eq_some hrow'
    · have hnew : Obs.queued id ∉ xs := fun hmem => hfresh (h.drawn id hmem)
      exact ⟨by simp, fun hd => absurd rfl hd, fun _ hfin => absurd rfl hfin,
        fun _ => ⟨htopic, not_released_of_fresh hnew⟩, fun _ => rfl⟩
    · exact (h.rows id row' hrow).keep (Subset.refl _) (fun hx => by cases hx)
  | releasePing key now =>
    dsimp only at hrow'
    obtain ⟨row, hrow, rfl⟩ := updateWhere_eq_some hrow'
    have hok := h.rows id row hrow
    split_ifs with hwait
    · refine hok.timed (Subset.refl _) rfl rfl rfl rfl (moment_ne _) ?_ fun _ => rfl
      intro hpush
      rw [(waitsFor_eq hwait).1] at hpush
      cases hpush
    · refine hok.keep (Subset.refl _) fun hx hinf => hwait ?_
      obtain ⟨htopic, hkey⟩ := Obs.released.inj hx
      rw [htopic, hkey]
      exact hok.waits hinf
  | releasePush key now addSealed honce =>
    dsimp only at hrow'
    obtain ⟨row, hrow, rfl⟩ := updateWhere_eq_some hrow'
    have hok := h.rows id row hrow
    split_ifs with hwait
    · obtain ⟨htopic, hkey, hnone⟩ := waitsFor_eq hwait
      exact ⟨mem_append_left _ hok.queued, fun hd => absurd hnone hd,
        fun _ _ => hkey ▸ mem_cons_self, fun hinf => absurd hinf (moment_ne _),
        hok.uncharged⟩
    · refine hok.keep (subset_cons_self _ _) fun hx hinf => hwait ?_
      obtain ⟨htopic, hkey⟩ := Obs.released.inj hx
      rw [htopic, hkey]
      exact hok.waits hinf
  | discardPush key =>
    have hrow : s.rows id = some row' := (Option.filter_eq_some_iff.mp hrow').1
    exact (h.rows id row' hrow).keep (Subset.refl _) (fun hx => by cases hx)
  | claim | claimLost =>
    obtain ⟨row, hrow, rfl | ⟨rfl, hfin⟩⟩ := leased_eq_some hrow'
    · exact (h.rows id row' hrow).keep (Subset.refl _) (fun hx => by cases hx)
    · exact (h.rows id row hrow).timed (Subset.refl _) rfl rfl rfl rfl
        (moment_ne _) (fun _ => hfin) fun _ => rfl
  | deliver w spec before after c result hcall =>
    exact (h.rows id row' hrow').keep (Subset.refl _) (fun hx => by cases hx)
  | recordSuccess w spec c rest now hcall hended =>
    dsimp only at hrow'
    obtain ⟨row, hrow, rfl⟩ := updateWhere_eq_some hrow'
    have hok := h.rows id row hrow
    split_ifs with hid
    · obtain rfl : id = c.id := of_decide_eq_true hid
      have hcallOk := (h.calls w spec _ hcall).2 _ mem_cons_self
      obtain ⟨hpayload, hfin, -⟩ := hcallOk.held row hrow
      refine ⟨mem_append_left _ hok.queued, fun _ => ⟨?_, hfin⟩, hok.approved,
        fun hinf => absurd hinf hfin, hok.uncharged⟩
      rw [Row.delivered, hpayload]
      exact mem_append_left _ (hcallOk.succeeded rfl)
    · exact hok.keep (Subset.refl _) (fun hx => by cases hx)
  | recordFailure w spec c err rest backoff now hcall hended hbackoff =>
    dsimp only at hrow'
    obtain ⟨row, hrow, rfl⟩ := updateWhere_eq_some hrow'
    have hok := h.rows id row hrow
    split_ifs with hid
    · obtain rfl : id = c.id := of_decide_eq_true hid
      obtain ⟨hspec, hcalls⟩ := h.calls w spec _ hcall
      obtain ⟨-, hfin, htopic⟩ := (hcalls _ mem_cons_self).held row hrow
      refine hok.timed (Subset.refl _) rfl rfl rfl rfl (moment_ne _) (fun _ => hfin) fun hpush => ?_
      rw [no_backoff_of_push hspec (htopic ▸ hpush)] at hbackoff
      cases hbackoff
    · exact hok.keep (Subset.refl _) (fun hx => by cases hx)
  | stop w => exact (h.rows id row' hrow').keep (Subset.refl _) (fun hx => by cases hx)

theorem Inv.held_step (h : Inv xs s) (hstep : Step s x t) {topic : Topic} {c : Claimed P}
    (hdrawn : c.id ∈ s.drawn) (hheld : Held s topic c) : Held t topic c := by
  intro row' hrow'
  cases hstep with
  | queue j topic payload now hfresh htopic | park j topic payload key hfresh htopic =>
    obtain ⟨rfl, -⟩ | ⟨-, hrow⟩ := inserted_eq_some hrow'
    · exact absurd hdrawn hfresh
    · exact hheld row' hrow
  | releasePing key now =>
    dsimp only at hrow'
    obtain ⟨row, hrow, rfl⟩ := updateWhere_eq_some hrow'
    obtain ⟨hpayload, hfin, htopic⟩ := hheld row hrow
    split_ifs
    · exact ⟨hpayload, moment_ne _, htopic⟩
    · exact ⟨hpayload, hfin, htopic⟩
  | releasePush key now addSealed honce =>
    dsimp only at hrow'
    obtain ⟨row, hrow, rfl⟩ := updateWhere_eq_some hrow'
    obtain ⟨hpayload, hfin, htopic⟩ := hheld row hrow
    split_ifs with hwait
    · obtain ⟨hpush, hkey, -⟩ := waitsFor_eq hwait
      have happroved := (h.rows c.id row hrow).approved hpush hfin
      exact absurd (hkey ▸ happroved) honce
    · exact ⟨hpayload, hfin, htopic⟩
  | discardPush key => exact hheld row' (Option.filter_eq_some_iff.mp hrow').1
  | claim | claimLost =>
    obtain ⟨row, hrow, rfl | ⟨rfl, -⟩⟩ := leased_eq_some hrow'
    · exact hheld row' hrow
    · obtain ⟨hpayload, -, htopic⟩ := hheld row hrow
      exact ⟨hpayload, moment_ne _, htopic⟩
  | recordSuccess w spec c rest now hcall hended =>
    dsimp only at hrow'
    obtain ⟨row, hrow, rfl⟩ := updateWhere_eq_some hrow'
    split_ifs
    · exact hheld row hrow
    · exact hheld row hrow
  | recordFailure w spec c err rest backoff now hcall hended hbackoff =>
    dsimp only at hrow'
    obtain ⟨row, hrow, rfl⟩ := updateWhere_eq_some hrow'
    obtain ⟨hpayload, hfin, htopic⟩ := hheld row hrow
    split_ifs
    · exact ⟨hpayload, moment_ne _, htopic⟩
    · exact ⟨hpayload, hfin, htopic⟩
  | deliver w spec before after c result hcall | stop w => exact hheld row' hrow'

omit [Fintype ι] in
theorem drawn_subset_step (hstep : Step s x t) : s.drawn ⊆ t.drawn := by
  cases hstep <;> first | exact subset_cons_self _ _ | exact Subset.refl _

omit [Fintype ι] in
theorem update_eq_working {workers : ι → Worker P} {v w : ι} {new : Worker P} {spec : DrainSpec}
    {calls : List (Call P)} (h : update workers v new w = .working spec calls) :
    w = v ∧ new = .working spec calls ∨ workers w = .working spec calls := by
  by_cases hv : w = v
  · subst hv
    rw [update_self] at h
    exact .inl ⟨rfl, h⟩
  · rw [update_of_ne hv] at h
    exact .inr h

def Origin (s : State ι P) (x : Obs P) (w : ι) (spec : DrainSpec) (call : Call P) : Prop :=
  (∃ calls, s.workers w = .working spec calls ∧ call ∈ calls) ∨
  (call.result = none ∧ ∃ now locked, call.row ∈ s.claimTopic spec now locked) ∨
  (∃ calls result, s.workers w = .working spec calls ∧ ⟨call.row, none⟩ ∈ calls ∧
    call.result = some result ∧ x = .returned call.row.id call.row.raw result)

omit [Fintype ι] in
theorem origin_step (hstep : Step s x t) {w : ι} {spec : DrainSpec} {calls : List (Call P)}
    (hw : t.workers w = .working spec calls) :
    ∀ call ∈ calls, Origin s x w spec call := by
  intro call hcall
  cases hstep with
  | claim v spec now locked hspec hidle =>
    rcases update_eq_working hw with ⟨rfl, hnew⟩ | hold
    · cases hnew
      obtain ⟨c, hc, rfl⟩ := mem_map.mp hcall
      exact .inr (.inl ⟨rfl, now, locked, hc⟩)
    · exact .inl ⟨calls, hold, hcall⟩
  | deliver v spec before after c result hheld =>
    rcases update_eq_working hw with ⟨rfl, hnew⟩ | hold
    · cases hnew
      rcases mem_append.mp hcall with hmem | hmem
      · exact .inl ⟨_, hheld, mem_append_left _ hmem⟩
      · rcases mem_cons.mp hmem with rfl | hmem
        · exact .inr (.inr ⟨_, result, hheld, mem_append_right _ mem_cons_self, rfl, rfl⟩)
        · exact .inl ⟨_, hheld, mem_append_right _ (mem_cons_of_mem _ hmem)⟩
    · exact .inl ⟨calls, hold, hcall⟩
  | recordSuccess v spec c rest now hheld hended
  | recordFailure v spec c err rest backoff now hheld hended hbackoff =>
    rcases update_eq_working hw with ⟨rfl, hnew⟩ | hold
    · cases hnew
      exact .inl ⟨_, hheld, mem_cons_of_mem _ hcall⟩
    · exact .inl ⟨calls, hold, hcall⟩
  | stop v =>
    rcases update_eq_working hw with ⟨rfl, hnew⟩ | hold
    · cases hnew
    · exact .inl ⟨calls, hold, hcall⟩
  | queue | park | releasePing | releasePush | discardPush | claimLost =>
    exact .inl ⟨calls, hw, hcall⟩

theorem Inv.spec_step (h : Inv xs s) (hstep : Step s x t) {w : ι} {spec : DrainSpec}
    {calls : List (Call P)} (hw : t.workers w = .working spec calls) : spec ∈ drains := by
  cases hstep with
  | claim v spec now locked hspec hidle =>
    rcases update_eq_working hw with ⟨rfl, hnew⟩ | hold
    · cases hnew
      exact hspec
    · exact (h.calls w _ _ hold).1
  | deliver v spec before after c result hheld
  | recordSuccess v spec c rest now hheld hended
  | recordFailure v spec c err rest backoff now hheld hended hbackoff =>
    rcases update_eq_working hw with ⟨rfl, hnew⟩ | hold
    · cases hnew
      exact (h.calls w _ _ hheld).1
    · exact (h.calls w _ _ hold).1
  | stop v =>
    rcases update_eq_working hw with ⟨rfl, hnew⟩ | hold
    · cases hnew
    · exact (h.calls w _ _ hold).1
  | queue | park | releasePing | releasePush | discardPush | claimLost =>
    exact (h.calls w _ _ hw).1

omit [DecidableEq ι] [Fintype ι] in
theorem held_of_claimTopic {spec : DrainSpec} {now : ℤ} {locked : ℕ → Bool} {c : Claimed P}
    (h : c ∈ s.claimTopic spec now locked) : c.id ∈ s.drawn ∧ Held s spec.topic c := by
  obtain ⟨id, hid, hc⟩ := mem_filterMap.mp h
  obtain ⟨row, hrow, rfl⟩ := Option.map_eq_some_iff.mp hc
  obtain ⟨hdrawn, found, hfound, hclaim⟩ := mem_claimedIDs hid
  refine ⟨hdrawn, fun row' hrow' => ?_⟩
  obtain rfl : row = row' := Option.some.inj (hrow.symm.trans hrow')
  obtain rfl : row = found := Option.some.inj (hrow.symm.trans hfound)
  exact ⟨rfl, not_infinity_of_claimable hclaim, topic_of_claimable hclaim⟩

theorem Inv.calls_step (h : Inv xs s) (hstep : Step s x t) (w : ι) (spec : DrainSpec)
    (calls : List (Call P)) (hw : t.workers w = .working spec calls) :
    spec ∈ drains ∧ ∀ call ∈ calls, CallOk (xs ++ [x]) t spec.topic call := by
  refine ⟨h.spec_step hstep hw, fun call hcall => ?_⟩
  rcases origin_step hstep hw call hcall with ⟨old, hold, hmem⟩ | ⟨hnone, now, locked, hclaim⟩ |
    ⟨old, result, hold, hmem, hresult, rfl⟩
  · have hok := (h.calls w spec old hold).2 call hmem
    exact ⟨drawn_subset_step hstep hok.drawn, h.held_step hstep hok.drawn hok.held,
      fun hr => mem_append_left _ (hok.succeeded hr)⟩
  · obtain ⟨hdrawn, hheld⟩ := held_of_claimTopic hclaim
    exact ⟨drawn_subset_step hstep hdrawn, h.held_step hstep hdrawn hheld,
      fun hr => by rw [hnone] at hr; cases hr⟩
  · have hok := (h.calls w spec old hold).2 _ hmem
    refine ⟨drawn_subset_step hstep hok.drawn, h.held_step hstep hok.drawn hok.held, fun hr => ?_⟩
    obtain rfl : result = .ok () := Option.some.inj (hresult.symm.trans hr)
    exact mem_append_right _ mem_cons_self

theorem sum_pending_update (workers : ι → Worker P) (w : ι) (new : Worker P) (id : ℕ) :
    ∑ v, pending (update workers w new v) id + pending (workers w) id =
      ∑ v, pending (workers v) id + pending new id := by
  have hfun : (fun v => pending (update workers w new v) id) =
      update (fun v => pending (workers v) id) w (pending new id) := by
    funext v
    by_cases hv : v = w
    · subst hv
      rw [update_self, update_self]
    · rw [update_of_ne hv, update_of_ne hv]
  have hsum := Finset.add_sum_erase Finset.univ (fun v => pending (workers v) id)
    (Finset.mem_univ w)
  rw [hfun, Finset.sum_update_of_mem (Finset.mem_univ w), Finset.sdiff_singleton_eq_erase]
  omega

omit [DecidableEq ι] [Fintype ι] in
theorem attemptsOf_updateWhere {s t : State ι P} {p : ℕ → Row P → Bool} {f : Row P → Row P}
    (hrows : t.rows = updateWhere p f s.rows) (hf : ∀ row, (f row).attempts = row.attempts)
    (id : ℕ) : attemptsOf t id = attemptsOf s id := by
  rw [attemptsOf, attemptsOf, hrows, updateWhere]
  cases s.rows id with
  | none => rfl
  | some row =>
    simp only [Option.map_some, Option.elim_some]
    split_ifs
    · exact hf row
    · rfl

theorem Inv.counted_step (h : Inv xs s) {w : ι} {new : Worker P} {id : ℕ}
    (hworkers : t.workers = update s.workers w new)
    (hle : attemptsOf t id + pending new id ≤
      attemptsOf s id + pending (s.workers w) id + [x].countP (Obs.failedOn id)) :
    attemptsOf t id + ∑ v, pending (t.workers v) id ≤ (xs ++ [x]).countP (Obs.failedOn id) := by
  have hsum := sum_pending_update s.workers w new id
  have hold := h.counted id
  rw [hworkers, countP_append]
  omega

omit [DecidableEq ι] in
/-- The count after a step that no worker takes part in. -/
theorem Inv.counted_quiet (h : Inv xs s) {id : ℕ} (hworkers : t.workers = s.workers)
    (hle : attemptsOf t id ≤ attemptsOf s id) :
    attemptsOf t id + ∑ v, pending (t.workers v) id ≤ (xs ++ [x]).countP (Obs.failedOn id) := by
  have hold := h.counted id
  rw [hworkers, countP_append]
  omega

omit [DecidableEq ι] [Fintype ι] in
theorem attemptsOf_inserted {s t : State ι P} {j : ℕ} {topic : Topic} {payload : P} {key : String}
    {due : Timestamp}
    (hrows : t.rows = update s.rows j (some (insertedRow topic payload key due)))
    (id : ℕ) : attemptsOf t id ≤ attemptsOf s id := by
  rw [attemptsOf, hrows]
  by_cases hj : id = j
  · subst hj
    rw [update_self]
    exact Nat.zero_le _
  · rw [update_of_ne hj]
    exact Nat.le_refl _

omit [DecidableEq ι] [Fintype ι] in
theorem attemptsOf_failed {s t : State ι P} {c : Claimed P} {now wait : ℤ} {err : String}
    (hrows : t.rows = updateWhere (fun id _ => decide (id = c.id)) (Row.failed now wait err) s.rows)
    (id : ℕ) : attemptsOf t id ≤ attemptsOf s id + if c.id = id then 1 else 0 := by
  rw [attemptsOf, attemptsOf, hrows, updateWhere]
  cases s.rows id with
  | none => exact Nat.zero_le _
  | some row =>
    by_cases hid : id = c.id
    · simp [hid, Row.failed]
    · simp [hid]

theorem pending_unanswered (spec : DrainSpec) (batch : List (Claimed P)) (id : ℕ) :
    pending (.working spec (batch.map fun c => ⟨c, none⟩)) id = 0 := by
  rw [pending, Worker.calls, countP_eq_zero]
  intro call hcall
  obtain ⟨c, -, rfl⟩ := mem_map.mp hcall
  simp [Call.failedOn]

theorem Inv.counted_of_step (h : Inv xs s) (hstep : Step s x t) (id : ℕ) :
    attemptsOf t id + ∑ v, pending (t.workers v) id ≤ (xs ++ [x]).countP (Obs.failedOn id) := by
  cases hstep with
  | queue j topic payload now hfresh htopic | park j topic payload key hfresh htopic =>
    exact h.counted_quiet rfl (attemptsOf_inserted rfl id)
  | releasePing key now | releasePush key now addSealed honce =>
    exact h.counted_quiet rfl (attemptsOf_updateWhere rfl (by intro; rfl) id).le
  | discardPush key =>
    refine h.counted_quiet rfl ?_
    rw [attemptsOf, attemptsOf]
    dsimp only
    cases s.rows id with
    | none => exact Nat.le_refl _
    | some row =>
      rw [Option.filter_some]
      split_ifs
      · exact Nat.le_refl _
      · exact Nat.zero_le _
  | claimLost spec now locked hspec =>
    exact h.counted_quiet rfl (attemptsOf_updateWhere rfl (by intro; rfl) id).le
  | claim w spec now locked hspec hidle =>
    refine h.counted_step rfl ?_
    rw [pending_unanswered, attemptsOf_updateWhere rfl (by intro; rfl) id]
    omega
  | deliver w spec before after c result hcall =>
    refine h.counted_step rfl ?_
    rw [hcall]
    cases result with
    | ok => simp [attemptsOf, pending, Worker.calls, countP_cons, Call.failedOn]
    | error err =>
      simp only [attemptsOf, pending, Worker.calls, countP_append, countP_cons,
        countP_nil, Call.failedOn, Obs.failedOn, Bool.and_true, Bool.and_false,
        Bool.false_eq_true, if_false, decide_eq_true_eq]
      omega
  | recordSuccess w spec c rest now hcall hended =>
    refine h.counted_step rfl ?_
    rw [hcall, attemptsOf_updateWhere rfl (by intro; rfl) id]
    simp [pending, Worker.calls, Call.failedOn]
  | recordFailure w spec c err rest backoff now hcall hended hbackoff =>
    refine h.counted_step rfl ?_
    refine (Nat.add_le_add_right (attemptsOf_failed rfl id) _).trans ?_
    rw [hcall]
    simp only [pending, Worker.calls, countP_cons, Call.failedOn, Bool.and_true, decide_eq_true_eq]
    omega
  | stop w =>
    refine h.counted_step rfl ?_
    exact Nat.add_le_add (Nat.le_refl _) (Nat.zero_le _) |>.trans (Nat.le_add_right _ _)

theorem Inv.step (h : Inv xs s) (hstep : Step s x t) : Inv (xs ++ [x]) t where
  drawn id hmem := by
    rcases mem_append.mp hmem with hmem | hmem
    · exact drawn_subset_step hstep (h.drawn id hmem)
    · obtain rfl := mem_singleton.mp hmem
      cases hstep with
      | queue => exact mem_cons_self
      | park => exact mem_cons_self
  distinct := by
    cases hstep with
    | queue j topic payload now hfresh htopic | park j topic payload key hfresh htopic =>
      exact h.distinct.cons hfresh
    | _ => exact h.distinct
  rows := h.rows_step hstep
  calls := h.calls_step hstep
  counted := h.counted_of_step hstep

omit [DecidableEq ι] in
theorem Inv.empty : Inv [] (State.empty : State ι P) where
  drawn id hmem := by cases hmem
  distinct := nodup_nil
  rows id row hrow := by cases hrow
  calls w spec calls hw := by cases hw
  counted id := by simp [attemptsOf, State.empty, pending, Worker.calls]

theorem Inv.run (h : Run Step (State.empty : State ι P) xs s) : Inv xs s :=
  h.invariant Inv.empty fun hinv hstep => hinv.step hstep

end

section

variable [DecidableEq ι] [Fintype ι] {xs : List (Obs P)} {s : State ι P} {id : ℕ} {row : Row P}

theorem topic_drained (topic : Topic) : ∃ spec ∈ drains, spec.topic = topic := by
  cases topic with
  | backchannelLogout => exact ⟨drainOnce, by simp [drains], rfl⟩
  | ssfEvent => exact ⟨drainSSF, by simp [drains], rfl⟩
  | cibaPing => exact ⟨drainCIBAPings, by simp [drains], rfl⟩
  | cibaPush => exact ⟨drainCIBAPushes, by simp [drains], rfl⟩

def ClaimableFrom (s : State ι P) (id : ℕ) (row : Row P) (due : ℤ) : Prop :=
  ∃ spec ∈ drains, spec.topic = row.topic ∧ ∀ now locked, due ≤ now → locked id = false →
    s.drawn.countP (fun j => decide (j < id) && s.due spec.topic now locked j) < spec.batch →
      ⟨id, row.payload, row.attempts⟩ ∈ s.claimTopic spec now locked

omit [DecidableEq ι] in
theorem Inv.claimable (h : Inv xs s) (hrow : s.rows id = some row) {due : ℤ}
    (hnone : row.deliveredAt = none) (hattempts : row.attempts < maxAttempts)
    (hnext : row.nextAttemptAt = .moment due) : ClaimableFrom s id row due := by
  obtain ⟨spec, hspec, htopic⟩ := topic_drained row.topic
  refine ⟨spec, hspec, htopic, fun now locked hnow hlocked hroom => ?_⟩
  have hdue : s.due spec.topic now locked id = true := by
    simp [State.due, hrow, Row.claimable, htopic, hnone, hattempts, hnext, Timestamp.reached,
      hnow, hlocked]
  have hdrawn := h.drawn id (h.rows id row hrow).queued
  refine mem_filterMap.mpr ⟨id, mem_claimedIDs_of_due hdrawn hdue hroom h.distinct, ?_⟩
  rw [hrow, Option.map_some]

/-- A row is marked delivered only after a delivery of its payload succeeded, it has no more
attempts against it than deliveries that failed, and until one of the two ends it a row that
is not parked is tried again. -/
theorem outbox_run (h : Run Step (State.empty : State ι P) xs s) (hrow : s.rows id = some row) :
    (row.deliveredAt ≠ none → .returned id row.payload (.ok ()) ∈ xs) ∧
    row.attempts ≤ xs.countP (Obs.failedOn id) ∧
    (row.deliveredAt = none → row.attempts < maxAttempts →
      (row.topic.parks = true → Released xs id row) →
        ∃ due, row.nextAttemptAt = .moment due ∧ ClaimableFrom s id row due) := by
  have hinv := Inv.run h
  have hok := hinv.rows id row hrow
  refine ⟨fun hd => (hok.delivered hd).1, ?_, fun hnone hattempts hreleased => ?_⟩
  · have hcounted := hinv.counted id
    rw [attemptsOf, hrow, Option.elim_some] at hcounted
    omega
  · cases hnext : row.nextAttemptAt with
    | infinity =>
      obtain ⟨hparks, hnot⟩ := hok.parked hnext
      exact absurd (hreleased hparks) hnot
    | moment due => exact ⟨due, rfl, hinv.claimable hrow hnone hattempts hnext⟩

/-- A push has no attempts against it, and is delivered only after the decision. -/
theorem push_after_approval (h : Run Step (State.empty : State ι P) xs s)
    (hrow : s.rows id = some row) (hpush : row.topic = .cibaPush) :
    row.attempts = 0 ∧ (row.deliveredAt ≠ none →
      row.subjectKey ∈ s.approved ∧ .returned id row.payload (.ok ()) ∈ xs) := by
  have hok := (Inv.run h).rows id row hrow
  refine ⟨hok.uncharged hpush, fun hdelivered => ?_⟩
  obtain ⟨hreturned, hnext⟩ := hok.delivered hdelivered
  exact ⟨hok.approved hpush hnext, hreturned⟩

end

/-- A push whose request has been approved, as a worker takes it. -/
def takenPush : Claimed String := ⟨1, "push+code", 0⟩

theorem push_after_approval_delivered : ∃ s : State Unit String, Run Step State.empty
    [.queued 1, .released .cibaPush "r1", .quiet, .returned 1 "push+code" (.ok ()), .quiet] s ∧
    ∃ row, s.rows 1 = some row ∧ row.deliveredAt = some 9 ∧ row.attempts = 0 ∧
      row.subjectKey ∈ s.approved := by
  have hreleased := ((Run.nil (s := (State.empty : State Unit String))).snoc
    (Step.park 1 .cibaPush "push" "r1" not_mem_nil rfl)).snoc
    (Step.releasePush "r1" 7 (· ++ "+code") not_mem_nil)
  have hclaimed := hreleased.snoc
    (Step.claim () drainCIBAPushes 8 (fun _ => false) (by simp [drains]) rfl)
  have hreturned := hclaimed.snoc
    (Step.deliver () drainCIBAPushes [] [] takenPush (.ok ()) rfl)
  have hdelivered := hreturned.snoc
    (Step.recordSuccess () drainCIBAPushes takenPush [] 9 rfl (by simp))
  obtain ⟨hattempts, happroved⟩ := @push_after_approval _ _ _ _ _ _ 1 _ hdelivered rfl rfl
  exact ⟨_, hdelivered, _, rfl, rfl, hattempts, (happroved (Option.some_ne_none 9)).1⟩

def parkedPing : State Unit String :=
  { (State.empty : State Unit String) with
    rows := update (fun _ => none) 1 (some (insertedRow .cibaPing "ping" "r1" .infinity)),
    drawn := [1] }

theorem run_parkedPing : Run Step (State.empty : State Unit String) [.queued 1] parkedPing :=
  Run.nil.snoc (Step.park 1 .cibaPing "ping" "r1" not_mem_nil rfl)

theorem parked_never_due : Run Step (State.empty : State Unit String) [.queued 1] parkedPing ∧
    ∃ row, parkedPing.rows 1 = some row ∧ row.deliveredAt = none ∧ row.attempts < maxAttempts ∧
      ∀ due, row.nextAttemptAt ≠ .moment due := by
  refine ⟨run_parkedPing, insertedRow .cibaPing "ping" "r1" .infinity, rfl, rfl, by decide, ?_⟩
  intro due hdue
  cases hdue

def releasedPing : State Unit String :=
  { parkedPing with
    rows := updateWhere (fun _ => Row.waitsFor .cibaPing "r1") (Row.postpone 7) parkedPing.rows }

def releasedPingRow : Row String := (insertedRow .cibaPing "ping" "r1" .infinity).postpone 7

theorem run_releasedPing : Run Step (State.empty : State Unit String)
    [.queued 1, .released .cibaPing "r1"] releasedPing :=
  run_parkedPing.snoc (Step.releasePing "r1" 7)

theorem outbox_run_ping : releasedPing.rows 1 = some releasedPingRow ∧
    ∃ due, releasedPingRow.nextAttemptAt = .moment due ∧
      ClaimableFrom releasedPing 1 releasedPingRow due :=
  ⟨rfl, (outbox_run run_releasedPing rfl).2.2 rfl (by decide)
    fun _ => ⟨[], [.released .cibaPing "r1"], rfl, mem_singleton.mpr rfl⟩⟩

end Signari.OutboxDelivery
