import Signari.RefreshTransactions

/-!
# The lineage of a refresh token

What holds after every run of interleaved refresh requests. `Tables` reads the run off the committed
rows: the consumed tokens are the ones the run has answered with new tokens, each of them once;
every token is the first of its lineage or stands in the place of another; and a family is as it was
established.

A token that is presented after it was consumed ends its family only if the revocation is
committed before the answer is sent, and if no request that has found another token of the family
is still waiting to mark it (`Careful`). The handler gives the same answer when the revocation
fails, and `lost_revocation` is a run in which the family then lives on.
-/
namespace Signari.RefreshLineage
open RefreshTokens RefreshTransactions LabelledRuns HistoryTables OAuthClients List Function

variable {D : Type} {hashToken : String → D} {s t : State D} {i : ℕ}

/-- The token that a lineage began with. -/
def First (xs : List (Obs D)) (h : D) (row : TokenRow D) : Prop :=
  ∃ f fam row₀, .established f fam h row₀ ∈ xs ∧ issued row = issued row₀

/-- One token was issued in the place of the other. -/
def Succeeds (row row' : TokenRow D) : Prop :=
  row'.familyID = row.familyID ∧ row'.scopes ⊆ row.scopes

/-- What the tables say about the run that led to them. -/
structure Tables (xs : List (Obs D)) (st : Store D) : Prop where
  family : ∀ h row, st.tokens h = some row → ∃ fam, st.families row.familyID = some fam
  unlinked : ∀ h row, st.tokens h = some row → row.consumedAt = none → row.successor = none
  linked : ∀ h row h', st.tokens h = some row → row.successor = some h' →
    ∃ row', st.tokens h' = some row' ∧ Succeeds row row'
  origin : ∀ h row, st.tokens h = some row → First xs h row ∨
    ∃ h₀ row₀, st.tokens h₀ = some row₀ ∧ row₀.successor = some h
  consumed : ∀ h, isConsumed st h = true ↔ h ∈ rotations xs
  once : (rotations xs).Nodup
  families : Recorded Establishes (fun fam fam₀ => granted fam = granted fam₀) xs st.families

section
variable {xs : List (Obs D)} {o : Obs D} {st : Store D} {h : D} {row : TokenRow D}

theorem rotations_snoc_none (ho : rotated o = none) : rotations (xs ++ [o]) = rotations xs := by
  simp [rotations, filterMap_append, ho]

theorem rotations_snoc_some (ho : rotated o = some h) :
    rotations (xs ++ [o]) = rotations xs ++ [h] := by
  simp [rotations, filterMap_append, ho]

theorem First.snoc (hfirst : First xs h row) : First (xs ++ [o]) h row := by
  obtain ⟨f, fam, row₀, hmem, hissued⟩ := hfirst
  exact ⟨f, fam, row₀, mem_append_left _ hmem, hissued⟩

theorem Tables.empty : Tables [] ({} : Store D) where
  family _ _ hrow := by simp at hrow
  unlinked _ _ hrow := by simp at hrow
  linked _ _ _ hrow := by simp at hrow
  origin _ _ hrow := by simp at hrow
  consumed _ := by simp [isConsumed, rotations]
  once := by simp [rotations]
  families := .empty

theorem Tables.frame {st' : Store D} (htab : Tables xs st) (htokens : st'.tokens = st.tokens)
    (hfamilies : Grows FamilyBecomes st.families st'.families) (ho : rotated o = none)
    (hrec : Recorded Establishes (fun fam fam₀ => granted fam = granted fam₀) (xs ++ [o])
      st'.families) : Tables (xs ++ [o]) st' where
  family k row hrow := by
    rw [htokens] at hrow
    obtain ⟨fam, hfam⟩ := htab.family k row hrow
    obtain ⟨fam', hfam', -⟩ := hfamilies _ fam hfam
    exact ⟨fam', hfam'⟩
  unlinked k row hrow := htab.unlinked k row (htokens ▸ hrow)
  linked k row k' hrow := by
    rw [htokens] at hrow ⊢
    exact htab.linked k row k' hrow
  origin k row hrow := by
    rw [htokens] at hrow ⊢
    exact (htab.origin k row hrow).imp_left First.snoc
  consumed k := by
    rw [rotations_snoc_none ho, isConsumed_congr (congrFun htokens k)]
    exact htab.consumed k
  once := by
    rw [rotations_snoc_none ho]
    exact htab.once
  families := hrec

theorem Tables.revokeFamily {f : String} {now : ℤ} (htab : Tables xs st) (ho : rotated o = none)
    (hno : ∀ f fam, ¬Establishes o f fam) : Tables (xs ++ [o]) (revokeFamily st f now) := by
  refine htab.frame rfl (Evolves.revokeFamily st f now).families ho ?_
  refine htab.families.frame ?_ hno
  intro k
  by_cases hk : k = f
  · subst hk
    cases hfam : st.families k with
    | none =>
      left
      simp [RefreshTokens.revokeFamily, hfam]
    | some fam =>
      right
      refine ⟨fam, fam.revoke now, rfl, by simp [RefreshTokens.revokeFamily, hfam], ?_⟩
      intro fam₀ hagree
      exact (FamilyBecomes.revoke fam now).1.trans hagree
  · left
    exact update_of_ne hk ..

variable [DecidableEq D]

theorem isConsumed_insert {families : String → Option FamilyRow} {k : D}
    (hh : st.tokens h = none) (hfree : row.consumedAt = none) :
    isConsumed ⟨update st.tokens h (some row), families⟩ k = true ↔ isConsumed st k = true := by
  rw [isConsumed_iff, isConsumed_iff]
  constructor
  · intro hspent
    obtain ⟨row', hrow, hspent⟩ := hspent
    obtain ⟨-, rfl⟩ | ⟨-, hrow⟩ := update_eq_some hrow
    · exact absurd hfree hspent
    · exact ⟨row', hrow, hspent⟩
  · intro hspent
    obtain ⟨row', hrow, hspent⟩ := hspent
    exact ⟨row', update_of_fresh hh hrow _, hspent⟩

omit [DecidableEq D] in
theorem establishes_iff {f f' : String} {fam fam' : FamilyRow} :
    Establishes (.established f fam h row) f' fam' ↔ f' = f ∧ fam' = fam := by
  constructor
  · intro he
    obtain ⟨_, _, he⟩ := he
    cases he
    exact ⟨rfl, rfl⟩
  · intro he
    obtain ⟨rfl, rfl⟩ := he
    exact ⟨h, row, rfl⟩

theorem Tables.establish {f : String} {fam : FamilyRow} (htab : Tables xs st)
    (hf : st.families f = none) (hh : st.tokens h = none) (hid : row.familyID = f)
    (hfree : row.consumedAt = none) (hlast : row.successor = none) :
    Tables (xs ++ [.established f fam h row])
      ⟨update st.tokens h (some row), update st.families f (some fam)⟩ := by
  refine ⟨?_, ?_, ?_, ?_, ?_, ?_, ?_⟩
  · intro k row' hrow
    obtain ⟨rfl, rfl⟩ | ⟨-, hrow⟩ := update_eq_some hrow
    · rw [hid]
      exact ⟨fam, update_self ..⟩
    · obtain ⟨fam', hfam'⟩ := htab.family k row' hrow
      exact ⟨fam', update_of_fresh hf hfam' _⟩
  · intro k row' hrow hfree'
    obtain ⟨rfl, rfl⟩ | ⟨-, hrow⟩ := update_eq_some hrow
    · exact hlast
    · exact htab.unlinked k row' hrow hfree'
  · intro k row' k' hrow hsucc
    obtain ⟨rfl, rfl⟩ | ⟨-, hrow⟩ := update_eq_some hrow
    · simp [hlast] at hsucc
    · obtain ⟨row'', hrow'', hnarrow⟩ := htab.linked k row' k' hrow hsucc
      exact ⟨row'', update_of_fresh hh hrow'' _, hnarrow⟩
  · intro k row' hrow
    obtain ⟨rfl, rfl⟩ | ⟨-, hrow⟩ := update_eq_some hrow
    · exact .inl ⟨f, fam, row', by simp, rfl⟩
    · obtain hfirst | ⟨h₀, row₀, hrow₀, hsucc⟩ := htab.origin k row' hrow
      · exact .inl hfirst.snoc
      · exact .inr ⟨h₀, row₀, update_of_fresh hh hrow₀ _, hsucc⟩
  · intro k
    rw [rotations_snoc_none rfl, ← htab.consumed k]
    exact isConsumed_insert hh hfree
  · rw [rotations_snoc_none rfl]
    exact htab.once
  · exact htab.families.insert hf (fun _ _ => establishes_iff) rfl

section
variable {g : RefreshGrant} {now : ℤ} {successor : Option (D × TokenRow D)}

theorem Tables.link_kept (htab : Tables xs s.store) (hrot : Rotates s i h g successor) {h₀ h' : D}
    {row₀ : TokenRow D} (hrow₀ : s.store.tokens h₀ = some row₀) (hsucc : row₀.successor = some h') :
    (commitRotation s.store h now successor).tokens h₀ = some row₀ := by
  have hspent : row₀.consumedAt ≠ none := by
    intro hfree
    rw [htab.unlinked h₀ row₀ hrow₀ hfree] at hsucc
    simp at hsucc
  obtain ⟨row', hrow', -, hsame⟩ := hrot.evolves.tokens h₀ row₀ hrow₀
  rw [← hsame hspent, hrow']

theorem Tables.linked_rotate (htab : Tables xs s.store) (hrot : Rotates s i h g successor)
    {k k' : D} {row : TokenRow D}
    (hrow : (commitRotation s.store h now successor).tokens k = some row)
    (hsucc : row.successor = some k') :
    ∃ row', (commitRotation s.store h now successor).tokens k' = some row' ∧ Succeeds row row' := by
  obtain ⟨rfl, row₀, hrow₀, -, rfl⟩ | hs | ⟨-, hrow⟩ := hrot.cases hrow
  · obtain ⟨p, rfl, rfl⟩ := Option.map_eq_some_iff.mp hsucc
    obtain ⟨h', row'⟩ := p
    obtain ⟨row₁, fam, hrow₁, -, -, rfl⟩ := hrot.held.row
    obtain rfl : row₀ = row₁ := by simpa [hrow₀] using hrow₁
    have hp := hrot.pending h' row' rfl
    exact ⟨row', commitRotation_successor, hp.family, hp.scopes⟩
  · simp [(hrot.pending k row hs).last] at hsucc
  · obtain ⟨row', hrow', hfamily, hscopes⟩ := htab.linked k row k' hrow hsucc
    obtain ⟨row'', hrow'', hissued, -⟩ := hrot.evolves.tokens k' row' hrow'
    refine ⟨row'', hrow'', (familyID_of_issued hissued).trans hfamily, ?_⟩
    have hsame : (issued row'').scopes = (issued row').scopes := by rw [hissued]
    exact hsame ▸ hscopes

theorem Tables.origin_rotate (htab : Tables xs s.store) (hrot : Rotates s i h g successor) {k : D}
    {row : TokenRow D} (hrow : (commitRotation s.store h now successor).tokens k = some row) :
    First (xs ++ [o]) k row ∨
      ∃ h₀ row₀, (commitRotation s.store h now successor).tokens h₀ = some row₀ ∧
        row₀.successor = some k := by
  have hkeep : ∀ {row₁ : TokenRow D}, s.store.tokens k = some row₁ → issued row = issued row₁ →
      First (xs ++ [o]) k row ∨
        ∃ h₀ row₀, (commitRotation s.store h now successor).tokens h₀ = some row₀ ∧
          row₀.successor = some k := by
    intro row₁ hrow₁ hissued
    obtain ⟨f, fam, row₂, hmem, hissued'⟩ | ⟨h₀, row₀, hrow₀, hsucc⟩ := htab.origin k row₁ hrow₁
    · exact .inl ⟨f, fam, row₂, mem_append_left _ hmem, hissued.trans hissued'⟩
    · exact .inr ⟨h₀, row₀, htab.link_kept hrot hrow₀ hsucc, hsucc⟩
  obtain ⟨rfl, row₀, hrow₀, -, rfl⟩ | hs | ⟨-, hrow⟩ := hrot.cases hrow
  · exact hkeep hrow₀ rfl
  · obtain ⟨row₀, fam, hrow₀, -⟩ := hrot.held.row
    exact .inr ⟨h, _, hrot.marked hrow₀, by simp [hs]⟩
  · exact hkeep hrow rfl

theorem Tables.rotate (htab : Tables xs s.store) (hrot : Rotates s i h g successor) :
    Tables (xs ++ [.tx i h (.answered (.tokens (successor.map Prod.fst)))])
      (commitRotation s.store h now successor) := by
  obtain ⟨row₁, fam, hrow₁, -, hfam, rfl⟩ := hrot.held.row
  refine ⟨?_, ?_, ?_, ?_, ?_, ?_, ?_⟩
  · intro k row hrow
    rw [commitRotation_families]
    obtain ⟨rfl, row₀, hrow₀, -, rfl⟩ | hs | ⟨-, hrow⟩ := hrot.cases hrow
    · exact htab.family k row₀ hrow₀
    · rw [(hrot.pending k row hs).family]
      exact ⟨fam, hfam⟩
    · exact htab.family k row hrow
  · intro k row hrow hfree
    obtain ⟨-, row₀, -, -, rfl⟩ | hs | ⟨-, hrow⟩ := hrot.cases hrow
    · simp at hfree
    · exact (hrot.pending k row hs).last
    · exact htab.unlinked k row hrow hfree
  · intro k row k' hrow hsucc
    exact htab.linked_rotate hrot hrow hsucc
  · intro k row hrow
    exact htab.origin_rotate hrot hrow
  · intro k
    rw [rotations_snoc_some (h := h) rfl, mem_append, mem_singleton, ← htab.consumed k]
    exact hrot.consumed_iff
  · rw [rotations_snoc_some (h := h) rfl, List.nodup_append]
    refine ⟨htab.once, nodup_singleton h, ?_⟩
    intro k hk k' hk' he
    obtain rfl : k' = h := mem_singleton.mp hk'
    rw [he, ← htab.consumed, hrot.held.free] at hk
    simp at hk
  · rw [commitRotation_families]
    exact htab.families.frame (fun k => .inl rfl) not_establishes_tx

end

theorem Tables.step (htab : Tables xs s.store) (heff : Effect s o st) : Tables (xs ++ [o]) st := by
  cases heff with
  | none ho hno =>
    have hrec := htab.families.frame (fun k => .inl rfl) hno
    exact htab.frame rfl (.refl FamilyBecomes.refl _) ho hrec
  | revoke ho hno => exact htab.revokeFamily ho hno
  | establish hf hh _ hid hfree hlast => exact htab.establish hf hh hid hfree hlast
  | rotate hrot => exact htab.rotate hrot

/-- What holds after every run. -/
structure Reached (hashToken : String → D) (xs : List (Obs D)) (s : State D) : Prop where
  txs : TxsOk hashToken s
  tables : Tables xs s.store
  accepted : ∀ i h g, .tx i h (.accepted g) ∈ xs → Granted s.store h g

theorem Reached.step (hs : Reached hashToken xs s) (hstep : Step hashToken s o t) :
    Reached hashToken (xs ++ [o]) t := by
  have heff := step_effect hs.txs hstep
  refine ⟨step_txsOk hs.txs hstep, hs.tables.step heff, ?_⟩
  intro i h g hmem
  obtain hmem | hmem := mem_append.mp hmem
  · exact heff.evolves.granted (hs.accepted i h g hmem)
  · rw [mem_singleton] at hmem
    subst hmem
    cases hstep with
    | accept htx _ _ =>
      have hgranted : Granted s.store _ g := hs.txs i _ htx
      exact hgranted

theorem run_reached (hrun : Run (Step hashToken) {} xs s) : Reached hashToken xs s := by
  refine hrun.invariant ⟨?_, .empty, ?_⟩ Reached.step
  · intro i tx htx
    simp at htx
  · intro i h g hmem
    simp at hmem

theorem run_evolves (hok : TxsOk hashToken s) (hrun : Run (Step hashToken) s xs t) :
    Evolves s.store t.store := by
  have h : TxsOk hashToken t ∧ Evolves s.store t.store := by
    apply hrun.invariant (I := fun _ t => TxsOk hashToken t ∧ Evolves s.store t.store)
    · exact ⟨hok, .refl _⟩
    · intro ys a b y ih hstep
      exact ⟨step_txsOk ih.1 hstep, ih.2.trans (step_effect ih.1 hstep).evolves⟩
  exact h.2

theorem answered_consumed {a : Answer D} (hok : TxsOk hashToken s)
    (hspent : isConsumed s.store h = true) (hstep : Step hashToken s (.tx i h (.answered a)) t) :
    (a = .reused ∧ ∃ now, t.store = revokeFamilyByToken s.store h now) ∨ ∃ e, a = .failed e := by
  have hfree : ∀ {g}, ¬Held s i h g := by
    intro g hheld
    rw [hheld.free] at hspent
    simp at hspent
  cases hstep with
  | answerInvalid _ hconsumed =>
    rw [hconsumed] at hspent
    simp at hspent
  | commitRevoke _ => exact .inl ⟨rfl, _, rfl⟩
  | fail _ _ => exact .inr ⟨_, rfl⟩
  | refuse htx _ | mintFails htx _ => exact absurd (hok _ _ htx) hfree
  | commit htx | commitFails htx =>
    have hrot : Rotates s i _ _ _ := hok _ _ htx
    exact absurd hrot.held hfree

omit [DecidableEq D] in
theorem revokeFamilyByToken_revokes (now : ℤ) {fam : FamilyRow} (hrow : st.tokens h = some row)
    (hfam : st.families row.familyID = some fam) :
    ∃ fam', (revokeFamilyByToken st h now).families row.familyID = some fam' ∧
      fam'.revokedAt ≠ none := by
  refine ⟨fam.revoke now, ?_, revoke_revokedAt fam now⟩
  simp [revokeFamilyByToken, RefreshTokens.revokeFamily, hrow, hfam]

/-- A family that is revoked, with no request left that has found a token of it. -/
structure Quiet (f : String) (s : State D) : Prop where
  revoked : ∃ fam, s.store.families f = some fam ∧ fam.revokedAt ≠ none
  found : ∀ j call g since, s.txs j = some ⟨call, .waiting g since⟩ → g.familyID ≠ f

/-- Who waits has found its row just now, or has been waiting. -/
theorem step_waiting {j : ℕ} {call : RefreshCall} {g : RefreshGrant} {since : ℤ}
    (hstep : Step hashToken s o t) (hj : t.txs j = some ⟨call, .waiting g since⟩) :
    s.txs j = some ⟨call, .waiting g since⟩ ∨
      ∃ hash standing, rotateRefreshToken s.store hash standing since = some g := by
  have hother {i : ℕ} {tx : Tx D} (htx : ∀ g since, tx.phase ≠ .waiting g since)
      (hi : update s.txs i (some tx) j = some ⟨call, .waiting g since⟩) :
      s.txs j = some ⟨call, .waiting g since⟩ := by
    obtain ⟨-, rfl⟩ | ⟨-, hi⟩ := update_eq_some hi
    · exact absurd rfl (htx g since)
    · exact hi
  cases hstep with
  | establish | revokeElsewhere | turnAway | beginFails => exact .inl hj
  | find htx hrot =>
    obtain ⟨-, heq⟩ | ⟨-, hi⟩ := update_eq_some hj
    · cases heq
      exact .inr ⟨_, _, hrot⟩
    · exact .inl hi
  | _ => exact .inl (hother (fun _ _ hphase => by cases hphase) hj)

theorem Quiet.step {f : String} (hq : Quiet f s) (hok : TxsOk hashToken s)
    (hstep : Step hashToken s o t) :
    Quiet f t ∧ ∀ i h g, o = .tx i h (.accepted g) → g.familyID ≠ f := by
  obtain ⟨fam, hfam, hdead⟩ := hq.revoked
  refine ⟨⟨?_, fun j call g since hj => ?_⟩, fun i h g ho => ?_⟩
  · obtain ⟨fam', hfam', -, hstays⟩ := (step_effect hok hstep).evolves.families f fam hfam
    exact ⟨fam', hfam', hstays hdead⟩
  · obtain hwas | ⟨hash, standing, hrot⟩ := step_waiting hstep hj
    · exact hq.found j call g since hwas
    · obtain ⟨row, fam', -, -, hfam', hlive, rfl⟩ := rotateRefreshToken_eq_some hrot
      intro he
      rw [show row.familyID = f from he, hfam, Option.some.injEq] at hfam'
      exact hdead (hfam' ▸ hlive)
  · subst ho
    cases hstep with
    | accept htx _ _ => exact hq.found _ _ g _ htx

theorem Quiet.run {f : String} {xs : List (Obs D)} (hq : Quiet f s) (hok : TxsOk hashToken s)
    (hrun : Run (Step hashToken) s xs t) :
    ∀ i h g, .tx i h (.accepted g) ∈ xs → g.familyID ≠ f := by
  have hall : (TxsOk hashToken t ∧ Quiet f t) ∧
      ∀ i h g, .tx i h (.accepted g) ∈ xs → g.familyID ≠ f := by
    apply hrun.invariant (I := fun xs t => (TxsOk hashToken t ∧ Quiet f t) ∧
      ∀ i h g, .tx i h (.accepted g) ∈ xs → g.familyID ≠ f)
    · exact ⟨⟨hok, hq⟩, fun i h g hmem => by cases hmem⟩
    · intro ys a b y ih hstep
      obtain ⟨⟨hok, hq⟩, hpast⟩ := ih
      obtain ⟨hnext, hnow⟩ := hq.step hok hstep
      refine ⟨⟨step_txsOk hok hstep, hnext⟩, fun i h g hmem => ?_⟩
      obtain hmem | hmem := mem_append.mp hmem
      · exact hpast i h g hmem
      · exact hnow i h g (mem_singleton.mp hmem).symm
  exact hall.2

end

def RotatedOnce (xs : List (Obs D)) : Prop := (rotations xs).Nodup

/-- The answer to a request that presented the token. -/
def Answers (hashToken : String → D) (o : Obs D) (h : D) : Prop :=
  (∃ call e, o = .turnedAway call e ∧ hashToken call.refreshToken = h) ∨
    ∃ i a, o = .tx i h (.answered a)

/-- Once a consumed token has been presented and answered, no token of its family is accepted. -/
def DeadAfterReuse (hashToken : String → D) (xs : List (Obs D)) (st : Store D) : Prop :=
  ∀ ys zs o h, xs = ys ++ o :: zs → Answers hashToken o h → h ∈ rotations ys →
    ∃ row, st.tokens h = some row ∧
      ∀ j h' g, .tx j h' (.accepted g) ∈ zs → g.familyID ≠ row.familyID

/-- A request that is turned away before its token is looked at, or for which the database fails,
presents no consumed token; and when a revocation is committed, no request has found a token of
the family and is waiting to mark it. -/
def Careful (hashToken : String → D) (s : State D) : Obs D → Prop
  | .turnedAway call _ => isConsumed s.store (hashToken call.refreshToken) = false
  | .tx _ h (.answered (.failed _)) => isConsumed s.store h = false
  | .tx _ h (.answered .reused) => ∀ j call g since, s.txs j = some ⟨call, .waiting g since⟩ →
      ∀ row, s.store.tokens h = some row → g.familyID ≠ row.familyID
  | _ => True

def CarefulStep [DecidableEq D] (hashToken : String → D) (s : State D) (o : Obs D)
    (t : State D) : Prop :=
  Step hashToken s o t ∧ Careful hashToken s o

/-- Every token begins a lineage or has a predecessor, whose family it shares and whose scopes
it does not exceed. -/
def Narrows (xs : List (Obs D)) (st : Store D) : Prop :=
  (∀ h row h', st.tokens h = some row → row.successor = some h' →
    ∃ row', st.tokens h' = some row' ∧ Succeeds row row') ∧
  ∀ h row, st.tokens h = some row → First xs h row ∨
    ∃ h₀ row₀, st.tokens h₀ = some row₀ ∧ row₀.successor = some h ∧ Succeeds row₀ row

/-- A token's family is the one that was established, and whoever presents the token
gets what that family was given. -/
def BoundAsEstablished (xs : List (Obs D)) (st : Store D) : Prop :=
  ∀ h row, st.tokens h = some row →
    ∃ fam fam₀ h₀ row₀, st.families row.familyID = some fam ∧
      .established row.familyID fam₀ h₀ row₀ ∈ xs ∧ granted fam = granted fam₀ ∧
      ∀ i g, .tx i h (.accepted g) ∈ xs → g = grantOf row fam₀

def RefusalsKeep [DecidableEq D] (hashToken : String → D) (s : State D) : Prop :=
  ∀ o t, Step hashToken s o t → (∀ call e, o = .turnedAway call e → t.store = s.store) ∧
    (∀ i h e, o = .tx i h (.answered (.failed e)) → t.store = s.store) ∧
    ∀ i h e, o = .tx i h (.answered (.refused e)) → t.store = s.store ∧ isConsumed t.store h = false

section
variable {xs : List (Obs D)}

theorem Tables.narrows (htab : Tables xs s.store) : Narrows xs s.store := by
  refine ⟨htab.linked, ?_⟩
  intro h row hrow
  obtain hfirst | ⟨h₀, row₀, hrow₀, hsucc⟩ := htab.origin h row hrow
  · exact .inl hfirst
  · obtain ⟨row', hrow', hnarrow⟩ := htab.linked h₀ row₀ h hrow₀ hsucc
    rw [hrow, Option.some.injEq] at hrow'
    exact .inr ⟨h₀, row₀, hrow₀, hsucc, hrow' ▸ hnarrow⟩

theorem Reached.boundAsEstablished (hs : Reached hashToken xs s) :
    BoundAsEstablished xs s.store := by
  intro h row hrow
  obtain ⟨fam, hfam⟩ := hs.tables.family h row hrow
  obtain ⟨o, hmem, fam₀, hemit, hagree⟩ := hs.tables.families.written _ fam hfam
  obtain ⟨h₀, row₀, rfl⟩ := hemit
  refine ⟨fam, fam₀, h₀, row₀, hfam, hmem, hagree, ?_⟩
  intro i g haccepted
  obtain ⟨row', fam', hrow', hfam', rfl⟩ := hs.accepted i h g haccepted
  rw [hrow, Option.some.injEq] at hrow'
  subst hrow'
  rw [hfam, Option.some.injEq] at hfam'
  subst hfam'
  exact grantOf_congr rfl hagree

variable [DecidableEq D]

theorem Reached.refusalsKeep (hs : Reached hashToken xs s) : RefusalsKeep hashToken s := by
  intro o t hstep
  refine ⟨?_, ?_, ?_⟩
  · intro call e ho
    subst ho
    cases hstep <;> rfl
  · intro i h e ho
    subst ho
    cases hstep with
    | fail _ _ => rfl
  · intro i h e ho
    subst ho
    cases hstep with
    | answerInvalid _ hconsumed => exact ⟨rfl, hconsumed⟩
    | refuse htx _ | mintFails htx _ =>
      have hheld : Held s i _ _ := hs.txs _ _ htx
      exact ⟨rfl, hheld.free⟩
    | commitFails htx =>
      have hrot : Rotates s i _ _ _ := hs.txs _ _ htx
      exact ⟨rfl, hrot.held.free⟩

/-- The step that answers a consumed token revokes its family, and no one is left waiting. -/
theorem quiet_of_answer {o : Obs D} {h : D} {row : TokenRow D} (hs : Reached hashToken xs s)
    (hrow : s.store.tokens h = some row) (hspent : isConsumed s.store h = true)
    (ho : Answers hashToken o h) (hstep : Step hashToken s o t) (hcareful : Careful hashToken s o) :
    Quiet row.familyID t := by
  obtain ⟨call, e, rfl, rfl⟩ | ⟨i, a, rfl⟩ := ho
  · have hfree : isConsumed s.store (hashToken call.refreshToken) = false := hcareful
    exact absurd (hfree.symm.trans hspent) (by simp)
  · obtain ⟨rfl, now, hstore⟩ | ⟨e, rfl⟩ := answered_consumed hs.txs hspent hstep
    · obtain ⟨fam, hfam⟩ := hs.tables.family h row hrow
      refine ⟨?_, fun j call g since hj => ?_⟩
      · rw [hstore]
        exact revokeFamilyByToken_revokes now hrow hfam
      · obtain hwas | ⟨hash, standing, hrot⟩ := step_waiting hstep hj
        · exact hcareful j call g since hwas row hrow
        · cases hstep with
          | commitRevoke htx =>
            obtain ⟨-, heq⟩ | ⟨-, hwas⟩ := update_eq_some hj
            · cases heq
            · exact hcareful j call g since hwas row hrow
    · have hfree : isConsumed s.store h = false := hcareful
      exact absurd (hfree.symm.trans hspent) (by simp)

theorem deadAfterReuse (hrun : Run (CarefulStep hashToken) {} xs s) :
    DeadAfterReuse hashToken xs s.store := by
  intro ys zs o h hxs ho hspent
  subst hxs
  obtain ⟨u, v, hpre, ⟨hstep, hcareful⟩, hpost⟩ := hrun.split
  have hu := run_reached (hpre.mono fun _ _ _ h => h.1)
  have hv := hu.step hstep
  have hafter : Run (Step hashToken) v zs s := hpost.mono fun _ _ _ h => h.1
  have hconsumed := (hu.tables.consumed h).mpr hspent
  obtain ⟨row, hrow, -⟩ := isConsumed_iff.mp hconsumed
  have hquiet := quiet_of_answer hu hrow hconsumed ho hstep hcareful
  have hev : Evolves u.store s.store :=
    (step_effect hu.txs hstep).evolves.trans (run_evolves hv.txs hafter)
  obtain ⟨row', hrow', hissued, -⟩ := hev.tokens h row hrow
  refine ⟨row', hrow', ?_⟩
  rw [familyID_of_issued hissued]
  exact hquiet.run hv.txs hafter

end

def phone : Client where
  clientID := "phone"
  type := .publicClient
  grantTypes := ["authorization_code", "refresh_token"]

def phoneFamily : FamilyRow where
  orgID := "o1"
  clientID := "phone"
  userID := "u1"
  sid := "s1"
  details := []
  dpopJKT := "k1"
  certThumbprint := ""

def phoneRow (scopes : List String) (expiresAt : ℤ) : TokenRow String where
  familyID := "f1"
  scopes := scopes
  resources := []
  expiresAt := expiresAt

def phoneSuccessor : String × TokenRow String :=
  ("r1", phoneRow ["offline_access"] (1 + GoTime.seconds phone.refreshTokenTTLSeconds))

def refreshPhone : RefreshCall where
  client := phone
  refreshToken := "r0"
  scope := "offline_access"
  jkt := "k1"

def phoneGrant : RefreshGrant := grantOf (phoneRow ["openid", "offline_access"] 9) phoneFamily

def rotation : List (Obs String) :=
  [.established "f1" phoneFamily "r0" (phoneRow ["openid", "offline_access"] 9),
    .tx 0 "r0" (.began refreshPhone), .tx 0 "r0" (.found phoneGrant),
    .tx 0 "r0" (.accepted phoneGrant), .tx 0 "r0" .minted,
    .tx 0 "r0" (.answered (.tokens (some "r1"))), .tx 1 "r0" (.began refreshPhone),
    .tx 1 "r0" .missed, .tx 1 "r0" .reuseFound, .tx 1 "r0" .revoking]

def replay : List (Obs String) := rotation ++ [.tx 1 "r0" (.answered .reused)]

theorem replay_run : ∃ s, Run (Step id) {} replay s ∧ Run (CarefulStep id) {} replay s := by
  have hcareful : ∃ s, Run (CarefulStep id) {} replay s := by
    apply Exists.intro
    apply Run.cons ⟨.establish rfl rfl rfl (by decide) rfl rfl (by decide) rfl rfl, trivial⟩
    apply Run.cons ⟨@Step.begin _ _ _ _ 0 refreshPhone rfl rfl, trivial⟩
    apply Run.cons ⟨@Step.find _ _ _ _ 0 refreshPhone ⟨true, true⟩ 1 phoneGrant rfl rfl, trivial⟩
    apply Run.cons ⟨@Step.accept _ _ _ _ 0 refreshPhone phoneGrant 1 rfl rfl rfl, trivial⟩
    apply Run.cons ⟨@Step.mint _ _ _ _ 0 refreshPhone phoneGrant 1 1 ["offline_access"] "r1"
      phoneSuccessor.2 rfl rfl rfl rfl rfl, trivial⟩
    apply Run.cons ⟨@Step.commit _ _ _ _ 0 refreshPhone phoneGrant 1 (some phoneSuccessor) rfl,
      trivial⟩
    apply Run.cons ⟨@Step.begin _ _ _ _ 1 refreshPhone rfl rfl, trivial⟩
    apply Run.cons ⟨@Step.miss _ _ _ _ 1 refreshPhone ⟨true, true⟩ 2 rfl rfl, trivial⟩
    apply Run.cons ⟨@Step.findReuse _ _ _ _ 1 refreshPhone rfl rfl, trivial⟩
    apply Run.cons ⟨@Step.revoke _ _ _ _ 1 refreshPhone 2 rfl, trivial⟩
    refine Run.cons ⟨@Step.commitRevoke _ _ _ _ 1 refreshPhone 2 rfl,
      fun j call g since hj => ?_⟩ .nil
    by_cases hsecond : j = 1
    · subst hsecond
      cases hj
    by_cases hfirst : j = 0
    · subst hfirst
      cases hj
    · simp [State.setTx, State.finish, update, hsecond, hfirst] at hj
  obtain ⟨s, hrun⟩ := hcareful
  exact ⟨s, hrun.mono fun _ _ _ h => h.1, hrun⟩

def refreshSuccessor : RefreshCall := { refreshPhone with refreshToken := "r1" }

def lostRevocation : List (Obs String) :=
  rotation ++ [.tx 1 "r0" (.answered (.failed alreadyUsed)), .tx 2 "r1" (.began refreshSuccessor),
    .tx 2 "r1" (.found (grantOf phoneSuccessor.2 phoneFamily)),
    .tx 2 "r1" (.accepted (grantOf phoneSuccessor.2 phoneFamily))]

theorem lostRevocation_run : ∃ s, Run (Step id) {} lostRevocation s ∧
    (s.store.tokens "r0").map TokenRow.familyID = some "f1" := by
  apply Exists.intro
  apply And.intro
  · apply Run.cons (.establish rfl rfl rfl (by decide) rfl rfl (by decide) rfl rfl)
    apply Run.cons (@Step.begin _ _ _ _ 0 refreshPhone rfl rfl)
    apply Run.cons (@Step.find _ _ _ _ 0 refreshPhone ⟨true, true⟩ 1 phoneGrant rfl rfl)
    apply Run.cons (@Step.accept _ _ _ _ 0 refreshPhone phoneGrant 1 rfl rfl rfl)
    apply Run.cons (@Step.mint _ _ _ _ 0 refreshPhone phoneGrant 1 1 ["offline_access"] "r1"
      phoneSuccessor.2 rfl rfl rfl rfl rfl)
    apply Run.cons (@Step.commit _ _ _ _ 0 refreshPhone phoneGrant 1 (some phoneSuccessor) rfl)
    apply Run.cons (@Step.begin _ _ _ _ 1 refreshPhone rfl rfl)
    apply Run.cons (@Step.miss _ _ _ _ 1 refreshPhone ⟨true, true⟩ 2 rfl rfl)
    apply Run.cons (@Step.findReuse _ _ _ _ 1 refreshPhone rfl rfl)
    apply Run.cons (@Step.revoke _ _ _ _ 1 refreshPhone 2 rfl)
    apply Run.cons (@Step.fail _ _ _ _ 1 ⟨refreshPhone, .revoking 2⟩ alreadyUsed rfl rfl)
    apply Run.cons (@Step.begin _ _ _ _ 2 refreshSuccessor rfl rfl)
    apply Run.cons (@Step.find _ _ _ _ 2 refreshSuccessor ⟨true, true⟩ 3 _ rfl rfl)
    apply Run.cons (@Step.accept _ _ _ _ 2 refreshSuccessor _ 3 rfl rfl rfl)
    exact .nil
  · rfl

end Signari.RefreshLineage
