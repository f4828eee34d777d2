import Signari.HistoryTables
import Signari.RefreshTokens

/-!
# Refresh transactions that interleave

What each request may rely on while others run. The tables only evolve: a token keeps
what it was issued with and never changes again once consumed, and a family keeps
what it was established with and stays revoked. A transaction that holds a token has
the lock on its row, and a step of another transaction spares what is locked, so
the row is as the rotation found it until the transaction ends.

`Effect` says once what a step does to the tables.
-/
namespace Signari.RefreshTransactions
open RefreshTokens HistoryTables Function

variable {D : Type}

def issued (row : TokenRow D) : TokenRow D := { row with consumedAt := none, successor := none }

def granted (fam : FamilyRow) : FamilyRow := { fam with revokedAt := none }

theorem grantOf_congr {row row' : TokenRow D} {fam fam' : FamilyRow}
    (hrow : issued row' = issued row) (hfam : granted fam' = granted fam) :
    grantOf row' fam' = grantOf row fam := by
  calc grantOf row' fam' = grantOf (issued row') (granted fam') := rfl
    _ = grantOf (issued row) (granted fam) := by rw [hrow, hfam]
    _ = grantOf row fam := rfl

theorem familyID_of_issued {row row' : TokenRow D} (h : issued row' = issued row) :
    row'.familyID = row.familyID := by
  have hid : (issued row').familyID = (issued row).familyID := by rw [h]
  exact hid

def RowBecomes (row row' : TokenRow D) : Prop :=
  issued row' = issued row ∧ (row.consumedAt ≠ none → row' = row)

def FamilyBecomes (fam fam' : FamilyRow) : Prop :=
  granted fam' = granted fam ∧ (fam.revokedAt ≠ none → fam'.revokedAt ≠ none)

theorem RowBecomes.refl (row : TokenRow D) : RowBecomes row row := ⟨rfl, fun _ => rfl⟩

theorem RowBecomes.trans (a b c : TokenRow D) (hab : RowBecomes a b) (hbc : RowBecomes b c) :
    RowBecomes a c := by
  refine ⟨hbc.1.trans hab.1, ?_⟩
  intro ha
  have hb : b = a := hab.2 ha
  rw [← hb] at ha
  exact (hbc.2 ha).trans hb

theorem FamilyBecomes.refl (fam : FamilyRow) : FamilyBecomes fam fam := ⟨rfl, id⟩

theorem FamilyBecomes.trans (a b c : FamilyRow) (hab : FamilyBecomes a b)
    (hbc : FamilyBecomes b c) : FamilyBecomes a c :=
  ⟨hbc.1.trans hab.1, fun ha => hbc.2 (hab.2 ha)⟩

theorem FamilyBecomes.revoke (fam : FamilyRow) (now : ℤ) : FamilyBecomes fam (fam.revoke now) := by
  unfold FamilyRow.revoke
  split
  · exact ⟨rfl, fun _ => by simp⟩
  · exact .refl fam

/-- What steps may do to the committed tables. -/
structure Evolves (a b : Store D) : Prop where
  tokens : Grows RowBecomes a.tokens b.tokens
  families : Grows FamilyBecomes a.families b.families

theorem Evolves.refl (a : Store D) : Evolves a a :=
  ⟨.refl RowBecomes.refl _, .refl FamilyBecomes.refl _⟩

theorem Evolves.trans {a b c : Store D} (hab : Evolves a b) (hbc : Evolves b c) : Evolves a c :=
  ⟨hab.tokens.trans RowBecomes.trans hbc.tokens,
    hab.families.trans FamilyBecomes.trans hbc.families⟩

theorem Evolves.revokeFamily (st : Store D) (f : String) (now : ℤ) :
    Evolves st (revokeFamily st f now) :=
  ⟨.refl RowBecomes.refl _, .modify FamilyBecomes.refl fun fam _ => .revoke fam now⟩

theorem isConsumed_iff {st : Store D} {h : D} :
    isConsumed st h = true ↔ ∃ row, st.tokens h = some row ∧ row.consumedAt ≠ none := by
  unfold isConsumed
  cases st.tokens h <;> simp [Option.isSome_iff_ne_none]

theorem isConsumed_congr {a b : Store D} {h : D} (hab : b.tokens h = a.tokens h) :
    isConsumed b h = isConsumed a h := by
  rw [isConsumed, isConsumed, hab]

theorem Evolves.isConsumed {a b : Store D} (hab : Evolves a b) {h : D}
    (ha : isConsumed a h = true) : isConsumed b h = true := by
  obtain ⟨row, hrow, hspent⟩ := isConsumed_iff.mp ha
  obtain ⟨row', hrow', -, hsame⟩ := hab.tokens h row hrow
  rw [hsame hspent] at hrow'
  exact isConsumed_iff.mpr ⟨row, hrow', hspent⟩

def Granted (st : Store D) (h : D) (g : RefreshGrant) : Prop :=
  ∃ row fam, st.tokens h = some row ∧ st.families row.familyID = some fam ∧ g = grantOf row fam

theorem Evolves.granted {a b : Store D} (hab : Evolves a b) {h : D} {g : RefreshGrant}
    (ha : Granted a h g) : Granted b h g := by
  obtain ⟨row, fam, hrow, hfam, rfl⟩ := ha
  obtain ⟨row', hrow', hissued, -⟩ := hab.tokens h row hrow
  obtain ⟨fam', hfam', hgranted, -⟩ := hab.families row.familyID fam hfam
  refine ⟨row', fam', hrow', ?_, (grantOf_congr hissued hgranted).symm⟩
  rw [familyID_of_issued hissued, hfam']

/-- A transaction that has the token's row locked, as its rotation found it. -/
structure Held (s : State D) (i : ℕ) (h : D) (g : RefreshGrant) : Prop where
  lock : s.locks h = some i
  free : isConsumed s.store h = false
  grant : Granted s.store h g

/-- A successor that is issued and not yet committed. -/
structure Pending (s : State D) (i : ℕ) (g : RefreshGrant) (h : D) (row : TokenRow D) : Prop where
  lock : s.inserting h = some i
  fresh : s.store.tokens h = none
  family : row.familyID = g.familyID
  scopes : row.scopes ⊆ g.scopes
  free : row.consumedAt = none
  last : row.successor = none

structure Rotates (s : State D) (i : ℕ) (h : D) (g : RefreshGrant)
    (successor : Option (D × TokenRow D)) : Prop where
  held : Held s i h g
  pending : ∀ h' row', successor = some (h', row') → Pending s i g h' row'

variable (hashToken : String → D)

/-- What a transaction knows in each of its phases. -/
def TxOk (s : State D) (i : ℕ) (tx : Tx D) : Prop := match tx.phase with
  | .began | .missed | .done => True
  | .waiting g _ => Granted s.store (hashToken tx.call.refreshToken) g
  | .reuse | .revoking _ => isConsumed s.store (hashToken tx.call.refreshToken) = true
  | .holding g _ => Held s i (hashToken tx.call.refreshToken) g
  | .minted g _ successor => Rotates s i (hashToken tx.call.refreshToken) g successor

def TxsOk (s : State D) : Prop := ∀ i tx, s.txs i = some tx → TxOk hashToken s i tx

/-- A change that leaves alone what a transaction has locked. -/
structure Spares (i : ℕ) (s t : State D) : Prop where
  locks : ∀ h row, s.locks h = some i → s.store.tokens h = some row →
    t.locks h = some i ∧ t.store.tokens h = some row
  inserting : ∀ h, s.inserting h = some i → s.store.tokens h = none →
    t.inserting h = some i ∧ t.store.tokens h = none

variable {hashToken} {s t : State D} {i : ℕ}

theorem Held.spared {h : D} {g : RefreshGrant} (hheld : Held s i h g)
    (hev : Evolves s.store t.store) (hsp : Spares i s t) : Held t i h g := by
  obtain ⟨row, fam, hrow, hfam, hg⟩ := hheld.grant
  obtain ⟨hlock, hrow'⟩ := hsp.locks h row hheld.lock hrow
  refine ⟨hlock, ?_, hev.granted hheld.grant⟩
  rw [isConsumed_congr (hrow'.trans hrow.symm)]
  exact hheld.free

theorem Pending.spared {g : RefreshGrant} {h : D} {row : TokenRow D}
    (hpending : Pending s i g h row) (hsp : Spares i s t) : Pending t i g h row := by
  obtain ⟨hlock, hfresh⟩ := hsp.inserting h hpending.lock hpending.fresh
  exact { hpending with lock := hlock, fresh := hfresh }

theorem Rotates.spared {h : D} {g : RefreshGrant} {successor : Option (D × TokenRow D)}
    (hrot : Rotates s i h g successor) (hev : Evolves s.store t.store) (hsp : Spares i s t) :
    Rotates t i h g successor :=
  ⟨hrot.held.spared hev hsp, fun h' row' hs => (hrot.pending h' row' hs).spared hsp⟩

theorem TxOk.spared {tx : Tx D} (hok : TxOk hashToken s i tx) (hev : Evolves s.store t.store)
    (hsp : Spares i s t) : TxOk hashToken t i tx := by
  obtain ⟨call, phase⟩ := tx
  cases phase with
  | began => trivial
  | waiting g since => exact hev.granted hok
  | missed => trivial
  | done => trivial
  | reuse | revoking since => exact hev.isConsumed hok
  | holding g since => exact Held.spared hok hev hsp
  | minted g since successor => exact Rotates.spared hok hev hsp

/-- One transaction moves, and the others keep what they have locked. -/
theorem TxsOk.move {tx : Tx D} (hok : TxsOk hashToken s) (hev : Evolves s.store t.store)
    (htxs : t.txs = update s.txs i (some tx)) (hsp : ∀ j, j ≠ i → Spares j s t)
    (hi : TxOk hashToken t i tx) : TxsOk hashToken t := by
  intro j tx' hj
  rw [htxs] at hj
  by_cases he : j = i
  · subst he
    rw [update_self, Option.some.injEq] at hj
    exact hj ▸ hi
  · rw [update_of_ne he] at hj
    exact (hok j tx' hj).spared hev (hsp j he)

theorem Spares.of_tokens_eq (htokens : t.store.tokens = s.store.tokens)
    (hlocks : ∀ h, s.locks h = some i → t.locks h = some i)
    (hinserting : ∀ h, s.inserting h = some i → t.inserting h = some i) : Spares i s t := by
  refine ⟨?_, ?_⟩
  · intro h row hlock hrow
    exact ⟨hlocks h hlock, by rw [htokens, hrow]⟩
  · intro h hlock hfresh
    exact ⟨hinserting h hlock, by rw [htokens, hfresh]⟩

theorem releaseLocks_of_ne {locks : D → Option ℕ} {j : ℕ} {h : D} (hj : j ≠ i)
    (hlock : locks h = some j) : releaseLocks locks i h = some j := by
  have hne : locks h ≠ some i := by
    rw [hlock, ne_eq, Option.some.injEq]
    exact hj
  rw [releaseLocks, if_neg hne, hlock]

theorem Spares.finish {j : ℕ} (hj : j ≠ i) {call : RefreshCall} {st : Store D}
    (hsp : Spares j s { s with store := st }) : Spares j s (s.finish i call st) := by
  refine ⟨?_, ?_⟩
  · intro h row hlock hrow
    exact ⟨releaseLocks_of_ne hj hlock, (hsp.locks h row hlock hrow).2⟩
  · intro h hlock hfresh
    exact ⟨releaseLocks_of_ne hj hlock, (hsp.inserting h hlock hfresh).2⟩

theorem TxsOk.setTx {tx : Tx D} (hok : TxsOk hashToken s) (hi : TxOk hashToken s i tx) :
    TxsOk hashToken (s.setTx i tx) := by
  have hsp : ∀ j, Spares j s (s.setTx i tx) := fun j => .of_tokens_eq rfl (fun _ => id) fun _ => id
  exact hok.move (.refl _) rfl (fun j _ => hsp j) (hi.spared (.refl _) (hsp i))

theorem TxsOk.finish {call : RefreshCall} {st : Store D} (hok : TxsOk hashToken s)
    (hev : Evolves s.store st) (hsp : ∀ j, j ≠ i → Spares j s { s with store := st }) :
    TxsOk hashToken (s.finish i call st) :=
  hok.move hev rfl (fun j hj => (hsp j hj).finish hj) trivial

theorem TxsOk.rollback {call : RefreshCall} (hok : TxsOk hashToken s) :
    TxsOk hashToken (s.finish i call s.store) :=
  hok.finish (.refl _) fun _ _ => .of_tokens_eq rfl (fun _ => id) fun _ => id

section
variable [DecidableEq D]

theorem commitRotation_of_ne {st : Store D} {h k : D} {now : ℤ}
    {successor : Option (D × TokenRow D)} (hk : k ≠ h)
    (hk' : ∀ h' row', successor = some (h', row') → k ≠ h') :
    (commitRotation st h now successor).tokens k = st.tokens k := by
  cases successor with
  | none => exact update_of_ne hk ..
  | some p =>
    obtain ⟨h', row'⟩ := p
    calc (commitRotation st h now (some (h', row'))).tokens k
        = update st.tokens h _ k := update_of_ne (hk' h' row' rfl) ..
      _ = st.tokens k := update_of_ne hk ..

theorem commitRotation_self {st : Store D} {h : D} {now : ℤ} {row : TokenRow D}
    {successor : Option (D × TokenRow D)} (hrow : st.tokens h = some row)
    (hne : ∀ h' row', successor = some (h', row') → h ≠ h') :
    (commitRotation st h now successor).tokens h =
      some { row with consumedAt := some now, successor := successor.map Prod.fst } := by
  cases successor with
  | none => simp [commitRotation, hrow]
  | some p =>
    obtain ⟨h', row'⟩ := p
    simp [commitRotation, hrow, update_of_ne (hne h' row' rfl)]

theorem commitRotation_successor {st : Store D} {h h' : D} {now : ℤ} {row' : TokenRow D} :
    (commitRotation st h now (some (h', row'))).tokens h' = some row' :=
  update_self ..

theorem commitRotation_families {st : Store D} {h : D} {now : ℤ}
    {successor : Option (D × TokenRow D)} :
    (commitRotation st h now successor).families = st.families := by
  cases successor <;> rfl

variable {h : D} {g : RefreshGrant} {successor : Option (D × TokenRow D)} {now : ℤ}

omit [DecidableEq D] in
theorem Held.row (hheld : Held s i h g) :
    ∃ row fam, s.store.tokens h = some row ∧ row.consumedAt = none ∧
      s.store.families row.familyID = some fam ∧ g = grantOf row fam := by
  obtain ⟨row, fam, hrow, hfam, hg⟩ := hheld.grant
  refine ⟨row, fam, hrow, ?_, hfam, hg⟩
  by_contra hspent
  have hconsumed := isConsumed_iff.mpr ⟨row, hrow, hspent⟩
  rw [hheld.free] at hconsumed
  simp at hconsumed

omit [DecidableEq D] in
/-- A pending successor has no row yet, while every token of the tables has one. -/
theorem Pending.ne {h' k : D} {row row' : TokenRow D} (hpending : Pending s i g h' row')
    (hrow : s.store.tokens k = some row) : k ≠ h' :=
  ne_of_fresh hpending.fresh hrow

/-- What is in the tables after a rotation. -/
theorem Rotates.cases (hrot : Rotates s i h g successor) {k : D} {row : TokenRow D}
    (hrow : (commitRotation s.store h now successor).tokens k = some row) :
    (k = h ∧ ∃ row₀, s.store.tokens h = some row₀ ∧ row₀.consumedAt = none ∧
      row = { row₀ with consumedAt := some now, successor := successor.map Prod.fst }) ∨
    successor = some (k, row) ∨ (k ≠ h ∧ s.store.tokens k = some row) := by
  obtain ⟨row₀, fam, hrow₀, hfree, -, -⟩ := hrot.held.row
  have hne : ∀ h' row', successor = some (h', row') → h ≠ h' :=
    fun h' row' hs => (hrot.pending h' row' hs).ne hrow₀
  by_cases hk : k = h
  · subst hk
    rw [commitRotation_self hrow₀ hne, Option.some.injEq] at hrow
    exact .inl ⟨rfl, row₀, hrow₀, hfree, hrow.symm⟩
  · right
    by_cases hk' : ∀ h' row', successor = some (h', row') → k ≠ h'
    · rw [commitRotation_of_ne hk hk'] at hrow
      exact .inr ⟨hk, hrow⟩
    · left
      push Not at hk'
      obtain ⟨h', row', hs, rfl⟩ := hk'
      rw [hs, commitRotation_successor, Option.some.injEq] at hrow
      rw [hs, hrow]

theorem Rotates.kept (hrot : Rotates s i h g successor) {k : D} {row : TokenRow D}
    (hk : k ≠ h) (hrow : s.store.tokens k = some row) :
    (commitRotation s.store h now successor).tokens k = some row := by
  rw [commitRotation_of_ne hk fun h' row' hs => (hrot.pending h' row' hs).ne hrow, hrow]

theorem Rotates.marked (hrot : Rotates s i h g successor) {row : TokenRow D}
    (hrow : s.store.tokens h = some row) :
    (commitRotation s.store h now successor).tokens h =
      some { row with consumedAt := some now, successor := successor.map Prod.fst } :=
  commitRotation_self hrow fun h' row' hs => (hrot.pending h' row' hs).ne hrow

theorem Rotates.evolves (hrot : Rotates s i h g successor) :
    Evolves s.store (commitRotation s.store h now successor) := by
  refine ⟨?_, ?_⟩
  · intro k row hrow
    by_cases hk : k = h
    · subst hk
      obtain ⟨row₀, fam, hrow₀, hfree, -, -⟩ := hrot.held.row
      obtain rfl : row₀ = row := by simpa [hrow₀] using hrow
      exact ⟨_, hrot.marked hrow, rfl, fun hspent => absurd hfree hspent⟩
    · exact ⟨row, hrot.kept hk hrow, .refl row⟩
  · rw [commitRotation_families]
    exact .refl FamilyBecomes.refl _

theorem Rotates.consumed_iff (hrot : Rotates s i h g successor) {k : D} :
    isConsumed (commitRotation s.store h now successor) k = true ↔
      isConsumed s.store k = true ∨ k = h := by
  constructor
  · intro hspent
    obtain ⟨row, hrow, hspent⟩ := isConsumed_iff.mp hspent
    obtain ⟨rfl, -⟩ | hs | ⟨-, hrow⟩ := hrot.cases hrow
    · exact .inr rfl
    · exact absurd (hrot.pending k row hs).free hspent
    · exact .inl (isConsumed_iff.mpr ⟨row, hrow, hspent⟩)
  · intro hspent
    obtain hspent | rfl := hspent
    · exact hrot.evolves.isConsumed hspent
    · obtain ⟨row, fam, hrow, -⟩ := hrot.held.row
      exact isConsumed_iff.mpr ⟨_, hrot.marked hrow, by simp⟩

theorem Rotates.spares (hrot : Rotates s i h g successor) {j : ℕ} (hj : j ≠ i) :
    Spares j s { s with store := commitRotation s.store h now successor } := by
  refine ⟨?_, ?_⟩
  · intro k row hlock hrow
    have hk : k ≠ h := by
      intro he
      rw [he, hrot.held.lock, Option.some.injEq] at hlock
      exact hj hlock.symm
    exact ⟨hlock, hrot.kept hk hrow⟩
  · intro k hlock hfresh
    obtain ⟨row, fam, hrow, -⟩ := hrot.held.row
    have hk : k ≠ h := (ne_of_fresh hfresh hrow).symm
    refine ⟨hlock, ?_⟩
    rw [← hfresh]
    apply commitRotation_of_ne hk
    intro h' row' hs he
    rw [he, (hrot.pending h' row' hs).lock, Option.some.injEq] at hlock
    exact hj hlock.symm

end

def rotated : Obs D → Option D
  | .tx _ h (.answered (.tokens _)) => some h
  | _ => none

def rotations (xs : List (Obs D)) : List D := xs.filterMap rotated

def Establishes (o : Obs D) (f : String) (fam : FamilyRow) : Prop :=
  ∃ h row, o = .established f fam h row

section
variable [DecidableEq D]

/-- What a step does to the tables. -/
inductive Effect (s : State D) : Obs D → Store D → Prop
  | none {o : Obs D} : rotated o = none → (∀ f fam, ¬Establishes o f fam) → Effect s o s.store
  | revoke {o : Obs D} {f : String} {now : ℤ} :
      rotated o = none → (∀ f fam, ¬Establishes o f fam) →
      Effect s o (revokeFamily s.store f now)
  | establish {f : String} {fam : FamilyRow} {h : D} {row : TokenRow D} :
      s.store.families f = none → s.store.tokens h = none → s.inserting h = none →
      row.familyID = f → row.consumedAt = none → row.successor = none →
      Effect s (.established f fam h row)
        ⟨update s.store.tokens h (some row), update s.store.families f (some fam)⟩
  | rotate {i : ℕ} {h : D} {g : RefreshGrant} {since : ℤ}
      {successor : Option (D × TokenRow D)} :
      Rotates s i h g successor →
      Effect s (.tx i h (.answered (.tokens (successor.map Prod.fst))))
        (commitRotation s.store h since successor)

variable {o : Obs D} {st : Store D}

omit [DecidableEq D] in
theorem not_establishes_tx {h : D} {e : Event D} (f : String) (fam : FamilyRow) :
    ¬Establishes (.tx i h e) f fam := by
  intro he
  obtain ⟨_, _, he⟩ := he
  cases he

theorem step_effect (hok : TxsOk hashToken s) (hstep : Step hashToken s o t) :
    Effect s o t.store := by
  cases hstep with
  | establish hf hh hins _ _ hid _ hfree hlast => exact .establish hf hh hins hid hfree hlast
  | revokeElsewhere => exact .revoke rfl fun f fam he => by obtain ⟨_, _, he⟩ := he; cases he
  | turnAway _ | beginFails _ =>
    exact .none rfl fun f fam he => by obtain ⟨_, _, he⟩ := he; cases he
  | begin _ _ | find _ _ | accept _ _ _ | overtaken _ _ | miss _ _ | findReuse _ _
  | answerInvalid _ _ | revoke _ => exact .none rfl not_establishes_tx
  | @commitRevoke i call since _ =>
    have hno := not_establishes_tx (D := D) (i := i) (h := hashToken call.refreshToken)
      (e := .answered .reused)
    change Effect s _ (revokeFamilyByToken s.store (hashToken call.refreshToken) since)
    unfold revokeFamilyByToken
    cases s.store.tokens (hashToken call.refreshToken) with
    | none => exact .none rfl hno
    | some row => exact .revoke rfl hno
  | fail _ _ | refuse _ _ | mintFails _ _ | mint _ _ _ _ _ | mintLast _ _ _ =>
    exact .none rfl not_establishes_tx
  | commit htx => exact .rotate (hok _ _ htx)
  | commitFails _ | abort _ _ => exact .none rfl not_establishes_tx

theorem Effect.evolves (heff : Effect s o st) : Evolves s.store st := by
  cases heff with
  | none => exact .refl _
  | revoke => exact .revokeFamily ..
  | establish hf hh => exact ⟨.insert RowBecomes.refl hh _, .insert FamilyBecomes.refl hf _⟩
  | rotate hrot => exact hrot.evolves

theorem TxsOk.mint {call : RefreshCall} {g : RefreshGrant} {since now : ℤ} {scopes : List String}
    {h : D} {row : TokenRow D} (hok : TxsOk hashToken s)
    (htx : s.txs i = some ⟨call, .holding g since⟩) (hcheck : checkRefresh call g = .ok scopes)
    (hrow : successorRow call g scopes now = some row) (hh : s.store.tokens h = none)
    (hins : s.inserting h = none) :
    TxsOk hashToken { s.setTx i ⟨call, .minted g since (some (h, row))⟩ with
      inserting := update s.inserting h (some i) } := by
  have hheld : Held s i (hashToken call.refreshToken) g := hok i _ htx
  obtain ⟨hfamily, hscopes, hfree, hlast⟩ := successorRow_eq_some hrow
  have hsp : ∀ j, Spares j s { s.setTx i ⟨call, .minted g since (some (h, row))⟩ with
      inserting := update s.inserting h (some i) } :=
    fun j => .of_tokens_eq rfl (fun _ => id) fun k hk => update_of_fresh hins hk _
  refine hok.move (.refl _) rfl (fun j _ => hsp j) ⟨hheld.spared (.refl _) (hsp i), ?_⟩
  intro h' row' hs
  obtain ⟨rfl, rfl⟩ : h = h' ∧ row = row' := by simpa using hs
  refine ⟨update_self .., hh, hfamily, ?_, hfree, hlast⟩
  rw [hscopes]
  exact checkRefresh_subset hcheck

theorem step_txsOk (hok : TxsOk hashToken s) (hstep : Step hashToken s o t) :
    TxsOk hashToken t := by
  have hev : Evolves s.store t.store := (step_effect hok hstep).evolves
  cases hstep with
  | @establish f fam h row hf hh hins _ _ hid _ hfree hlast =>
    intro j tx htx
    refine (hok j tx htx).spared hev ⟨?_, ?_⟩
    · intro k row' hlock hrow
      exact ⟨hlock, update_of_fresh hh hrow _⟩
    · intro k hlock hfresh
      have hk : k ≠ h := ne_of_fresh hins hlock
      exact ⟨hlock, (update_of_ne hk ..).trans hfresh⟩
  | revokeElsewhere =>
    intro j tx htx
    exact (hok j tx htx).spared hev (.of_tokens_eq rfl (fun _ => id) fun _ => id)
  | turnAway _ => exact hok
  | beginFails _ => exact hok
  | begin _ _ => exact hok.setTx trivial
  | @find i call standing now g _ hrot =>
    obtain ⟨row, fam, hrow, -, hfam, -, hg⟩ := rotateRefreshToken_eq_some hrot
    have hgranted : Granted s.store (hashToken call.refreshToken) g := ⟨row, fam, hrow, hfam, hg⟩
    exact hok.setTx hgranted
  | @accept i call g since htx hfree hlock =>
    have hgranted : Granted s.store (hashToken call.refreshToken) g := hok i _ htx
    refine hok.move hev rfl ?_ ⟨update_self .., hfree, hgranted⟩
    intro j hj
    exact .of_tokens_eq rfl (fun k hk => update_of_fresh hlock hk _) fun _ => id
  | overtaken _ _ | miss _ _ => exact hok.setTx trivial
  | findReuse _ hconsumed => exact hok.setTx hconsumed
  | answerInvalid _ _ => exact hok.rollback
  | revoke htx =>
    have hi := hok _ _ htx
    exact hok.setTx hi
  | commitRevoke _ =>
    refine hok.finish hev fun j _ => .of_tokens_eq ?_ (fun _ => id) fun _ => id
    unfold revokeFamilyByToken
    split <;> rfl
  | fail _ _ | refuse _ _ | mintFails _ _ => exact hok.rollback
  | mint htx hcheck hrow hh hins => exact hok.mint htx hcheck hrow hh hins
  | mintLast htx _ _ =>
    refine hok.setTx ⟨hok _ _ htx, ?_⟩
    intro h' row' hs
    simp at hs
  | commit htx =>
    have hrot := hok _ _ htx
    exact hok.finish hev fun j hj => Rotates.spares hrot hj
  | commitFails _ => exact hok.rollback
  | abort _ _ => exact hok.rollback

end

end Signari.RefreshTransactions
