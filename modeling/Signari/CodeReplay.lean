import Signari.EndedSessions
import Signari.TokenChecks

/-!
# Presenting a code again

The code grant of `internal/httpapi/flow.go` with `ConsumeCode` and `RevokeFamilyForCode` of
`internal/store/codes.go`, for any number of attempts on any codes. A refusal commits what it
marked, an error rolls it back, and a presentation of a spent code revokes the families of the same
client and session and is then answered. Refreshes, revocations elsewhere and the janitor interleave
with all of this; the UPDATE of a refresh finds its row first and marks it later, when no lock is in
its way.

The code of a grant reaches its tokens through the family alone, and there is none without offline
access. `replay_kills` is about the runs in which no commit is lost and the row of a spent
code is still there when it is presented. It says that of the access tokens exactly those
with a family end with the replay.
-/
namespace Signari.CodeReplay
open OAuthClients TokenRequests LabelledRuns AccessTokens TokenMinting TokenChecks List Function
open AuthorizationCodes (CodeTable CodeRow ConsumedCode RedemptionError consumeCode
  validateCodeRedemption consumeCode_ok consumeCode_unspent issueCode issueCode_eq_some)
open RefreshTokens (Store FamilyRow TokenRow RefreshGrant RefreshCall Standing rotateRefreshToken
  rotateRefreshToken_eq_some checkRefresh commitRotation revoke_client revoke_owner
  revoke_revokedAt)
open EndedSessions (codeArgs refreshArgs establish establish_cases spendCode
  commitRotation_families)

variable {D : Type}

/-- Where an attempt stands. From `holding` on it has the row of the code locked, and `revoking`
has the families that the UPDATE has found. -/
inductive Phase (D : Type) where
  | presented
  | holding (g : ConsumedCode)
  | minted (g : ConsumedCode) (m : Issued D)
  | reuse
  | revoking (selected : String → Bool)
  | closed

structure Tx (D : Type) where
  req : TokenRequest
  client : Client
  hash : D
  since : ℤ
  phase : Phase D

/-- An attempt that has yielded tokens. -/
structure Grant (D : Type) where
  code : D
  consumed : ConsumedCode
  issued : Issued D

/-- A rotation that has been accepted and has yet to mint. -/
structure Rotation (D : Type) where
  hash : D
  client : Client
  args : MintArgs
  since : ℤ

/-- The tables as committed with the row locks, the attempts and rotations under way (`waits`
are those that have found their row and not yet marked it), and what
has been answered: `refused` and `replayed` are the codes that an attempt was refused for, and
those that were presented and answered when they had been spent before. The ids drawn so far are
random, and no two are alike. -/
structure State (D : Type) where
  now : ℤ := 0
  db : Tables := {}
  tokens : D → Option (TokenRow D) := fun _ => none
  codes : CodeTable D := fun _ => none
  locks : D → Option ℕ := fun _ => none
  txs : ℕ → Option (Tx D) := fun _ => none
  waits : List (RefreshCall × RefreshGrant) := []
  rotations : List (Rotation D) := []
  granted : List (Grant D) := []
  refreshed : List (Issued D) := []
  refused : List D := []
  replayed : List D := []
  spent : List D := []
  codesDrawn : List D := []
  drawn : List String := []

def State.store (s : State D) : Store D := ⟨s.tokens, s.db.families⟩

def State.setStore (s : State D) (st : Store D) : State D :=
  { s with tokens := st.tokens, db := { s.db with families := st.families } }

def State.set (s : State D) (i : ℕ) (tx : Tx D) : State D :=
  { s with txs := update s.txs i (some tx) }

/-- The WHERE clause of `RevokeFamilyForCode`. -/
def State.descended (s : State D) (hash : D) (id : String) : Bool :=
  (s.codes hash).any fun row => (s.db.families id).any fun fam =>
    fam.clientID == row.clientID && fam.sid == row.sid && fam.revokedAt.isNone

def revokeSelected (families : String → Option FamilyRow) (selected : String → Bool) (now : ℤ) :
    String → Option FamilyRow :=
  fun id => (families id).map fun fam => if selected id then fam.revoke now else fam

def Weakened (old new : String → Option FamilyRow) : Prop :=
  ∀ id fam', new id = some fam' → ∃ fam, old id = some fam ∧ fam'.clientID = fam.clientID ∧
    fam'.sid = fam.sid ∧ (fam.revokedAt ≠ none → fam'.revokedAt ≠ none)

/-- What minting says of the tokens of a code. -/
structure Redeemed (g : ConsumedCode) (m : Issued D) : Prop where
  grantID : m.access.grantID = m.familyID
  offline : "offline_access" ∈ g.scopes ↔ m.family ≠ none
  none : m.family = none → m.familyID = ""
  family : ∀ fam, m.family = some fam → fam.clientID = g.clientID ∧ fam.sid = g.sessionID

structure Grant.Inv (s : State D) (x : Grant D) : Prop where
  redeemed : Redeemed x.consumed x.issued
  spent : x.code ∈ s.spent
  drawn : x.issued.family ≠ none → x.issued.familyID ∈ s.drawn
  family : ∀ fam, s.db.families x.issued.familyID = some fam →
    fam.clientID = x.consumed.clientID ∧ fam.sid = x.consumed.sessionID
  row : ∀ row, s.codes x.code = some row →
    row.clientID = x.consumed.clientID ∧ row.sid = x.consumed.sessionID

def Found (s : State D) (hash : D) (selected : String → Bool) : Prop :=
  ∀ x ∈ s.granted, x.code = hash → ∀ fam, s.db.families x.issued.familyID = some fam →
    selected x.issued.familyID = false → fam.revokedAt ≠ none

/-- The attempt has the row of a code that is not spent. -/
structure Held (s : State D) (i : ℕ) (hash : D) (g : ConsumedCode) : Prop where
  lock : s.locks hash = some i
  fresh : hash ∉ s.spent
  row : ∃ row, s.codes hash = some row ∧ g = row.consumed

def Phase.Inv (s : State D) (i : ℕ) (hash : D) : Phase D → Prop
  | .presented | .closed => True
  | .holding g => Held s i hash g
  | .minted g m => Held s i hash g ∧ Redeemed g m
  | .reuse => hash ∈ s.spent
  | .revoking selected => hash ∈ s.spent ∧ Found s hash selected

structure Inv (s : State D) : Prop where
  families : ∀ id fam, s.db.families id = some fam → id ∈ s.drawn
  named : "" ∉ s.drawn
  codes : ∀ hash row, s.codes hash = some row →
    hash ∈ s.codesDrawn ∧ (row.consumedAt ≠ none ↔ hash ∈ s.spent)
  spent : ∀ hash ∈ s.spent, hash ∈ s.codesDrawn
  clients : ∀ i tx, s.txs i = some tx → tx.client.clientID = tx.req.clientID
  txs : ∀ i tx, s.txs i = some tx → tx.phase.Inv s i tx.hash
  granted : ∀ x ∈ s.granted, x.Inv s
  nodup : (s.granted.map Grant.code).Nodup
  waits : ∀ w ∈ s.waits, w.2.familyID ≠ ""
  rotations : ∀ r ∈ s.rotations, r.args.familyID ≠ ""
  refreshed : ∀ m ∈ s.refreshed, m.access.grantID = m.familyID
  refused : ∀ hash ∈ s.refused, hash ∈ s.spent
  replayed : ∀ hash ∈ s.replayed, hash ∈ s.spent ∧ Found s hash fun _ => false

def Kept (old new : String → Option FamilyRow) (drawn : List String) : Prop :=
  ∀ id ∈ drawn, ∀ fam', new id = some fam' → ∃ fam, old id = some fam ∧
    fam'.clientID = fam.clientID ∧ fam'.sid = fam.sid ∧
      (fam.revokedAt ≠ none → fam'.revokedAt ≠ none)

variable {s s' : State D} {i : ℕ} {tx : Tx D} {m : Issued D} {g : ConsumedCode}

/-- Two attempts cannot hold the row of one code. -/
theorem Held.ne {j : ℕ} {hash : D} {g' : ConsumedCode} (hi : Held s i tx.hash g)
    (hj : Held s j hash g') (hne : j ≠ i) : hash ≠ tx.hash := by
  rintro rfl
  exact hne (Option.some.inj (hj.lock.symm.trans hi.lock))

theorem Phase.Inv.keep {hash : D} {p : Phase D} (h : p.Inv s i hash)
    (hheld : ∀ g, Held s i hash g → Held s' i hash g) (hspent : hash ∈ s.spent → hash ∈ s'.spent)
    (hfound : ∀ selected, p = .revoking selected → Found s hash selected →
      Found s' hash selected) : p.Inv s' i hash := by
  cases p with
  | presented => trivial
  | closed => trivial
  | holding g => exact hheld g h
  | minted g m => exact ⟨hheld g h.1, h.2⟩
  | reuse => exact hspent h
  | revoking selected => exact ⟨hspent h.1, hfound selected rfl h.2⟩

theorem Phase.Inv.same {hash : D} {p : Phase D} (h : p.Inv s i hash) (hlocks : s'.locks = s.locks)
    (hspent : s'.spent = s.spent) (hcodes : s'.codes = s.codes) (hgranted : s'.granted = s.granted)
    (hfamilies : s'.db.families = s.db.families) : p.Inv s' i hash := by
  refine h.keep (fun g hg => ⟨by rw [hlocks, hg.lock], by rw [hspent]; exact hg.fresh, ?_⟩)
    (fun hmem => by rwa [hspent]) fun selected _ hf => ?_
  · rw [hcodes]
    exact hg.row
  · unfold Found
    rw [hgranted, hfamilies]
    exact hf

theorem Grant.Inv.same {x : Grant D} (h : x.Inv s) (hspent : s.spent ⊆ s'.spent)
    (hdrawn : s.drawn ⊆ s'.drawn) (hfamilies : s'.db.families = s.db.families)
    (hcodes : s'.codes = s.codes) : x.Inv s' where
  redeemed := h.redeemed
  spent := hspent h.spent
  drawn hf := hdrawn (h.drawn hf)
  family := by
    rw [hfamilies]
    exact h.family
  row := by
    rw [hcodes]
    exact h.row

theorem Found.keep {hash : D} {selected : String → Bool} (h : Found s hash selected)
    (hgranted : ∀ x ∈ s'.granted, x.code = hash → x ∈ s.granted)
    (hdrawn : ∀ x ∈ s.granted, x.issued.family ≠ none → x.issued.familyID ∈ s.drawn)
    (hkept : Kept s.db.families s'.db.families s.drawn)
    (hnone : ∀ x ∈ s.granted, x.issued.family = none → s'.db.families x.issued.familyID = none) :
    Found s' hash selected := by
  intro x hx hcode fam' hfam' hsel
  have hold := hgranted x hx hcode
  by_cases hfamily : x.issued.family = none
  · rw [hnone x hold hfamily] at hfam'
    cases hfam'
  · obtain ⟨fam, hfam, _, _, hrevoked⟩ := hkept _ (hdrawn x hold hfamily) fam' hfam'
    exact hrevoked (h x hold hcode fam hfam hsel)

/-- The tables of the rest of the server change. -/
theorem Inv.setTables {now : ℤ} {db : Tables} {tokens : D → Option (TokenRow D)}
    {waits : List (RefreshCall × RefreshGrant)} {rotations : List (Rotation D)}
    {refreshed : List (Issued D)} {drawn : List String} (h : Inv s)
    (hkept : Kept s.db.families db.families s.drawn) (hdrawn : s.drawn ⊆ drawn)
    (hfamilies : ∀ id fam, db.families id = some fam → id ∈ drawn) (hnamed : "" ∉ drawn)
    (hwaits : ∀ w ∈ waits, w.2.familyID ≠ "")
    (hrotations : ∀ r ∈ rotations, r.args.familyID ≠ "")
    (hrefreshed : ∀ m ∈ refreshed, m.access.grantID = m.familyID) :
    Inv { s with
      now := now, db := db, tokens := tokens, waits := waits, rotations := rotations
      refreshed := refreshed, drawn := drawn } := by
  have hnone : ∀ x ∈ s.granted, x.issued.family = none → db.families x.issued.familyID = none := by
    intro x hx hfamily
    rw [(h.granted x hx).redeemed.none hfamily, Option.eq_none_iff_forall_not_mem]
    exact fun fam hfam => hnamed (hfamilies "" fam hfam)
  have hfound : ∀ {hash : D} {selected : String → Bool}, Found s hash selected →
      Found { s with
        now := now, db := db, tokens := tokens, waits := waits, rotations := rotations
        refreshed := refreshed, drawn := drawn } hash selected := fun hf =>
    hf.keep (fun _ hx _ => hx) (fun x hx => (h.granted x hx).drawn) hkept hnone
  refine ⟨hfamilies, hnamed, h.codes, h.spent, h.clients, fun i tx htx => ?_, fun x hx => ?_,
    h.nodup, hwaits, hrotations, hrefreshed, h.refused,
    fun hash hmem => (h.replayed hash hmem).imp_right hfound⟩
  · exact (h.txs i tx htx).keep (fun g hg => ⟨hg.lock, hg.fresh, hg.row⟩) id fun _ _ => hfound
  · have hold := h.granted x hx
    refine ⟨hold.redeemed, hold.spent, fun hf => hdrawn (hold.drawn hf), fun fam' hfam' => ?_,
      hold.row⟩
    by_cases hfamily : x.issued.family = none
    · rw [hnone x hx hfamily] at hfam'
      cases hfam'
    · obtain ⟨fam, hfam, hclient, hsid, _⟩ := hkept _ (hold.drawn hfamily) fam' hfam'
      rw [hclient, hsid]
      exact hold.family fam hfam

theorem Inv.setCodes {codes : CodeTable D} {codesDrawn : List D} (h : Inv s)
    (hrows : ∀ hash row, codes hash = some row →
      s.codes hash = some row ∨ hash ∉ s.codesDrawn ∧ row.consumedAt = none)
    (hheld : ∀ hash row, s.locks hash ≠ none → s.codes hash = some row → codes hash = some row)
    (hmem : ∀ hash row, codes hash = some row → hash ∈ codesDrawn)
    (hdrawn : s.codesDrawn ⊆ codesDrawn) :
    Inv { s with codes := codes, codesDrawn := codesDrawn } := by
  refine ⟨h.families, h.named, fun hash row hrow => ⟨hmem hash row hrow, ?_⟩,
    fun hash hs => hdrawn (h.spent hash hs), h.clients, fun i tx htx => ?_, fun x hx => ?_, h.nodup,
    h.waits, h.rotations, h.refreshed, h.refused, h.replayed⟩
  · rcases hrows hash row hrow with hold | ⟨hnew, hunspent⟩
    · exact (h.codes hash row hold).2
    · exact ⟨fun hne => absurd hunspent hne, fun hs => absurd (h.spent hash hs) hnew⟩
  · refine (h.txs i tx htx).keep (fun g hg => ⟨hg.lock, hg.fresh, ?_⟩) id fun _ _ hf => hf
    obtain ⟨row, hrow, hg'⟩ := hg.row
    exact ⟨row, hheld _ row (by simp [hg.lock]) hrow, hg'⟩
  · have hold := h.granted x hx
    refine ⟨hold.redeemed, hold.spent, hold.drawn, hold.family, fun row hrow => ?_⟩
    rcases hrows x.code row hrow with hrow | ⟨hnew, _⟩
    · exact hold.row row hrow
    · exact absurd (h.spent _ hold.spent) hnew

theorem set_txs_self (s : State D) (i : ℕ) (tx : Tx D) : (s.set i tx).txs i = some tx :=
  update_self ..

theorem set_txs_of_ne {i j : ℕ} (hj : j ≠ i) : (s.set i tx).txs j = s.txs j := update_of_ne hj ..

/-- What holds of one attempt and of all others holds of all. -/
theorem forall_set {P : ℕ → Tx D → Prop} (hi : P i tx)
    (hother : ∀ j tx', j ≠ i → s.txs j = some tx' → P j tx') :
    ∀ j tx', (s.set i tx).txs j = some tx' → P j tx' := by
  intro j tx' htx'
  by_cases hj : j = i
  · subst hj
    rw [set_txs_self, Option.some.injEq] at htx'
    exact htx' ▸ hi
  · exact hother j tx' hj ((set_txs_of_ne hj).symm.trans htx')

theorem Inv.set (h : Inv s) (hclient : tx.client.clientID = tx.req.clientID)
    (hphase : tx.phase.Inv s i tx.hash) : Inv (s.set i tx) where
  families := h.families
  named := h.named
  codes := h.codes
  spent := h.spent
  clients := forall_set hclient fun j tx' _ htx' => h.clients j tx' htx'
  txs := forall_set (hphase.same rfl rfl rfl rfl rfl)
    fun j tx' _ htx' => (h.txs j tx' htx').same rfl rfl rfl rfl rfl
  granted x hx := (h.granted x hx).same (Subset.refl _) (Subset.refl _) rfl rfl
  nodup := h.nodup
  waits := h.waits
  rotations := h.rotations
  refreshed := h.refreshed
  refused := h.refused
  replayed := h.replayed

theorem Inv.advance {p : Phase D} (h : Inv s) (htx : s.txs i = some tx)
    (hphase : p.Inv s i tx.hash) : Inv (s.set i { tx with phase := p }) :=
  h.set (h.clients i tx htx) hphase

theorem Inv.addGrant {y : Grant D} (h : Inv s) (hy : y.Inv s)
    (hfresh : ∀ x ∈ s.granted, x.code ≠ y.code) (hreplayed : y.code ∉ s.replayed)
    (hrevoking : ∀ j tx' selected, s.txs j = some tx' → tx'.phase = .revoking selected →
      tx'.hash ≠ y.code) : Inv { s with granted := y :: s.granted } := by
  have hfound : ∀ {hash : D} {selected : String → Bool}, hash ≠ y.code → Found s hash selected →
      Found { s with granted := y :: s.granted } hash selected := by
    intro hash selected hne hf x hx hcode
    rcases mem_cons.mp hx with rfl | hx
    · exact absurd hcode.symm hne
    · exact hf x hx hcode
  have hself : ∀ {x : Grant D}, x.Inv s → x.Inv { s with granted := y :: s.granted } := fun hx =>
    hx.same (Subset.refl _) (Subset.refl _) rfl rfl
  refine { h with txs := fun j tx' htx' => ?_, granted := ?_, nodup := ?_, replayed := ?_ }
  · exact (h.txs j tx' htx').keep (fun g hg => ⟨hg.lock, hg.fresh, hg.row⟩) id
      fun selected hp hf => hfound (hrevoking j tx' selected htx' hp) hf
  · exact forall_mem_cons.mpr ⟨hself hy, fun x hx => hself (h.granted x hx)⟩
  · refine nodup_cons.mpr ⟨fun hmem => ?_, h.nodup⟩
    obtain ⟨x, hx, heq⟩ := mem_map.mp hmem
    exact hfresh x hx heq
  · intro hash hmem
    have hne : hash ≠ y.code := by
      rintro rfl
      exact hreplayed hmem
    exact (h.replayed hash hmem).imp_right (hfound hne)

theorem redeemed_of_mint {env : MintEnv D} {sessions : String → Option SessionRow} {c : Client}
    (h : mintSet env sessions c (codeArgs g) = some m) (hclient : c.clientID = g.clientID) :
    Redeemed g m := by
  have hspec := mintSet_spec h
  refine ⟨hspec.grantID, ?_, fun hnone => ?_, fun fam hfam => ?_⟩
  · rcases familyFor_cases hspec.family with ⟨_, hoffline, _, heq⟩ | ⟨hnot, _, heq⟩
    · exact ⟨fun _ => by simp [heq], fun _ => hoffline⟩
    · exact ⟨fun hoffline => absurd ⟨rfl, hoffline⟩ hnot, fun hne => absurd heq hne⟩
  · rcases familyFor_cases hspec.family with ⟨_, _, _, heq⟩ | ⟨_, hid, _⟩
    · rw [hnone] at heq
      cases heq
    · exact hid
  · rcases familyFor_cases hspec.family with ⟨_, _, _, heq⟩ | ⟨_, _, heq⟩
    · obtain rfl : fam = newFamilyRow env c (codeArgs g) := Option.some.inj (hfam.symm.trans heq)
      exact ⟨hclient, rfl⟩
    · rw [hfam] at heq
      cases heq

theorem mem_drawn {drawn : List String} {id : String} :
    id ∈ (if m.family.isSome then m.familyID :: drawn else drawn) ↔
      m.family ≠ none ∧ id = m.familyID ∨ id ∈ drawn := by
  cases hm : m.family <;> simp

/-- What the UPDATE of `RevokeFamilyForCode` leaves out is revoked already. -/
theorem Inv.descended {hash : D} (h : Inv s) (hrow : s.codes hash ≠ none) :
    Found s hash (s.descended hash) := by
  obtain ⟨row, hrow⟩ := Option.ne_none_iff_exists'.mp hrow
  intro x hx hcode fam hfam hnot
  subst hcode
  obtain ⟨hclient, hsid⟩ := (h.granted x hx).row row hrow
  obtain ⟨hclient', hsid'⟩ := (h.granted x hx).family fam hfam
  rw [Option.ne_none_iff_isSome]
  simpa [State.descended, hrow, hfam, hclient, hsid, hclient', hsid'] using hnot

theorem revokeSelected_kept {families : String → Option FamilyRow} {selected : String → Bool}
    {now : ℤ} : Weakened families (revokeSelected families selected now) := by
  intro id fam' hfam'
  obtain ⟨fam, hfam, rfl⟩ := Option.map_eq_some_iff.mp hfam'
  refine ⟨fam, hfam, ?_⟩
  split_ifs
  · exact ⟨revoke_client fam now, (revoke_owner fam now).1, fun _ => revoke_revokedAt fam now⟩
  · exact ⟨rfl, rfl, fun hrevoked => hrevoked⟩

theorem Weakened.kept {old new : String → Option FamilyRow} {drawn : List String}
    (h : Weakened old new) : Kept old new drawn := fun id _ fam' hfam' => h id fam' hfam'

theorem Inv.weakened {new : String → Option FamilyRow} (h : Inv s)
    (hweak : Weakened s.db.families new) (id : String) (fam' : FamilyRow)
    (hfam' : new id = some fam') : id ∈ s.drawn := by
  obtain ⟨fam, hfam, _⟩ := hweak id fam' hfam'
  exact h.families id fam hfam

def Descends (s : State D) (x : Grant D) (t : AccessTokenClaims) : Prop :=
  t = x.issued.access ∨ x.issued.family ≠ none ∧
    ∃ m ∈ s.refreshed, m.familyID = x.issued.familyID ∧ t = m.access

theorem Inv.grantStands_iff {y : Grant D} {t : AccessTokenClaims} (h : Inv s) (hy : y ∈ s.granted)
    (hreplayed : y.code ∈ s.replayed) (ht : Descends s y t) :
    GrantStands s.db t.grantID ↔ "offline_access" ∉ y.consumed.scopes := by
  have hold := h.granted y hy
  have hgrant : t.grantID = y.issued.familyID := by
    rcases ht with rfl | ⟨_, m, hm, hfamily, rfl⟩
    · exact hold.redeemed.grantID
    · rw [h.refreshed m hm, hfamily]
  rw [hgrant, hold.redeemed.offline, not_not]
  constructor
  · intro hstands
    by_contra hfamily
    have hne : y.issued.familyID ≠ "" := fun heq => h.named (heq ▸ hold.drawn hfamily)
    obtain ⟨fam, hfam, hlive⟩ := hstands hne
    exact (h.replayed _ hreplayed).2 y hy rfl fam hfam rfl hlive
  · intro hnone hne
    exact absurd (hold.redeemed.none hnone) hne

variable [DecidableEq D]

/-- The end of an attempt that changes nothing: the row is free again. -/
def State.close (s : State D) (i : ℕ) (tx : Tx D) : State D :=
  { s.set i { tx with phase := .closed } with locks := update s.locks tx.hash none }

/-- The commit of an attempt that had locked the code: it stays spent. -/
def State.spend (s : State D) (i : ℕ) (tx : Tx D) : State D :=
  { s.close i tx with
    codes := spendCode s.codes tx.hash tx.since
    spent := tx.hash :: s.spent }

def State.refuse (s : State D) (i : ℕ) (tx : Tx D) : State D :=
  { s.spend i tx with refused := tx.hash :: s.refused }

def State.grant (s : State D) (i : ℕ) (tx : Tx D) (g : ConsumedCode) (m : Issued D) : State D :=
  { (s.spend i tx).setStore (establish s.store m) with
    granted := ⟨tx.hash, g, m⟩ :: s.granted
    drawn := if m.family.isSome then m.familyID :: s.drawn else s.drawn }

/-- The answer to an attempt that found no code to spend. -/
def State.answer (s : State D) (i : ℕ) (tx : Tx D) : State D :=
  { s.set i { tx with phase := .closed } with
    replayed := if tx.hash ∈ s.spent then tx.hash :: s.replayed else s.replayed }

/-- What is seen of a step: `lost` is an answer that is given although the database failed. -/
inductive Obs (D : Type) where
  | quiet
  | unknown (hash : D)
  | revoking (hash : D)
  | lost

variable (challengeOf : String → String) (hashToken : String → D)

/-- One statement of an attempt or of a refresh, or a transaction of the rest of the server. -/
inductive Step : State D → Obs D → State D → Prop
  | wait {s : State D} {t : ℤ} : s.now ≤ t → Step s .quiet { s with now := t }
  | issueCode {s : State D} {hash : D} {row : CodeRow} {codes : CodeTable D} :
      hash ∉ s.codesDrawn → row.consumedAt = none → issueCode s.codes hash row = some codes →
      Step s .quiet { s with codes := codes, codesDrawn := hash :: s.codesDrawn }
  | purge {s : State D} {expired : D → CodeRow → Bool} :
      (∀ hash row, s.codes hash = some row → expired hash row = true → s.locks hash = none) →
      Step s .quiet
        { s with codes := fun hash => (s.codes hash).filter fun row => !expired hash row }
  | change {s : State D} {db : Tables} {tokens : D → Option (TokenRow D)} :
      Weakened s.db.families db.families →
      (∀ hash row, tokens hash = some row → s.tokens hash = some row) →
      Step s .quiet { s with db := db, tokens := tokens }
  | establish {s : State D} {id : String} {fam : FamilyRow} {hash : D} {row : TokenRow D} :
      id ≠ "" → id ∉ s.drawn → s.tokens hash = none → row.familyID = id →
      Step s .quiet { s.setStore ⟨update s.tokens hash (some row),
        update s.db.families id (some fam)⟩ with drawn := id :: s.drawn }
  | begin {s : State D} {i : ℕ} {req : TokenRequest} {c : Client} :
      s.txs i = none → c.clientID = req.clientID →
      Step s .quiet (s.set i ⟨req, c, hashToken req.code, s.now, .presented⟩)
  | consume {s : State D} {i : ℕ} {tx : Tx D} {g : ConsumedCode} {codes : CodeTable D} :
      s.txs i = some tx → tx.phase = .presented → s.locks tx.hash = none →
      consumeCode s.codes tx.hash tx.since = .ok (g, codes) →
      Step s .quiet { s.set i { tx with phase := .holding g } with
        locks := update s.locks tx.hash (some i) }
  | refuse {s : State D} {i : ℕ} {tx : Tx D} {g : ConsumedCode} {jkt : String} {now : ℤ}
      {e : RedemptionError} :
      s.txs i = some tx → tx.phase = .holding g →
      validateCodeRedemption challengeOf tx.req (some tx.client) (some g.toGrantRecord) jkt now =
        .error e →
      Step s .quiet (s.refuse i tx)
  | veto {s : State D} {i : ℕ} {tx : Tx D} {g : ConsumedCode} {jkt : String} {now : ℤ} :
      s.txs i = some tx → tx.phase = .holding g →
      validateCodeRedemption challengeOf tx.req (some tx.client) (some g.toGrantRecord) jkt now =
        .ok () →
      Step s .quiet (s.refuse i tx)
  | refuseLost {s : State D} {i : ℕ} {tx : Tx D} {g : ConsumedCode} :
      s.txs i = some tx → tx.phase = .holding g →
      Step s .lost { s.close i tx with refused := tx.hash :: s.refused }
  | mint {s : State D} {i : ℕ} {tx : Tx D} {g : ConsumedCode} {jkt : String} {now : ℤ}
      {env : MintEnv D} {m : Issued D} :
      s.txs i = some tx → tx.phase = .holding g →
      validateCodeRedemption challengeOf tx.req (some tx.client) (some g.toGrantRecord) jkt now =
        .ok () →
      mintSet env s.db.sessions tx.client (codeArgs g) = some m →
      Step s .quiet (s.set i { tx with phase := .minted g m })
  | commit {s : State D} {i : ℕ} {tx : Tx D} {g : ConsumedCode} {m : Issued D} :
      s.txs i = some tx → tx.phase = .minted g m →
      (∀ fam, m.family = some fam → m.familyID ≠ "" ∧ m.familyID ∉ s.drawn) →
      (∀ hash row, m.refresh = some (hash, row) → s.tokens hash = none) →
      Step s .quiet (s.grant i tx g m)
  | fail {s : State D} {i : ℕ} {tx : Tx D} {g : ConsumedCode} :
      s.txs i = some tx → (tx.phase = .holding g ∨ ∃ m, tx.phase = .minted g m) →
      Step s .quiet (s.close i tx)
  | reuse {s : State D} {i : ℕ} {tx : Tx D} {row : CodeRow} :
      s.txs i = some tx → tx.phase = .presented → s.codes tx.hash = some row →
      row.consumedAt ≠ none →
      Step s .quiet (s.set i { tx with phase := .reuse })
  | unknown {s : State D} {i : ℕ} {tx : Tx D} :
      s.txs i = some tx → tx.phase = .presented → s.codes tx.hash = none →
      Step s (.unknown tx.hash) (s.answer i tx)
  | revoke {s : State D} {i : ℕ} {tx : Tx D} :
      s.txs i = some tx → tx.phase = .reuse →
      Step s (.revoking tx.hash) (s.set i { tx with phase := .revoking (s.descended tx.hash) })
  | commitRevoke {s : State D} {i : ℕ} {tx : Tx D} {selected : String → Bool} :
      s.txs i = some tx → tx.phase = .revoking selected →
      Step s .quiet ((s.setStore ⟨s.tokens, revokeSelected s.db.families selected tx.since⟩).answer
        i tx)
  | answerLost {s : State D} {i : ℕ} {tx : Tx D} :
      s.txs i = some tx →
      (tx.phase = .presented ∨ tx.phase = .reuse ∨ ∃ selected, tx.phase = .revoking selected) →
      Step s .lost (s.answer i tx)
  | find {s : State D} {call : RefreshCall} {standing : Standing} {g : RefreshGrant} :
      rotateRefreshToken s.store (hashToken call.refreshToken) standing s.now = some g →
      Step s .quiet { s with waits := (call, g) :: s.waits }
  | rotate {s : State D} {w : RefreshCall × RefreshGrant} {row : TokenRow D}
      {scopes : List String} :
      w ∈ s.waits → s.tokens (hashToken w.1.refreshToken) = some row → row.consumedAt = none →
      checkRefresh w.1 w.2 = .ok scopes →
      Step s .quiet { s with rotations := ⟨hashToken w.1.refreshToken, w.1.client,
        refreshArgs w.2 scopes, s.now⟩ :: s.rotations }
  | refresh {s : State D} {r : Rotation D} {env : MintEnv D} {m : Issued D} :
      r ∈ s.rotations → mintSet env s.db.sessions r.client r.args = some m →
      Step s .quiet { s.setStore (commitRotation s.store r.hash r.since m.refresh) with
        refreshed := m :: s.refreshed }

/-- No commit is lost, and the row of a code that had been spent is there when the code is
presented again and its families are looked up. -/
def Careful (s : State D) : Obs D → Prop
  | .quiet => True
  | .unknown hash => hash ∉ s.spent
  | .revoking hash => s.codes hash ≠ none
  | .lost => False

def CarefulStep (s : State D) (x : Obs D) (s' : State D) : Prop :=
  Step challengeOf hashToken s x s' ∧ Careful s x

variable {challengeOf : String → String} {hashToken : String → D} {x : Obs D} {xs : List (Obs D)}

theorem Inv.consume {codes : CodeTable D} (h : Inv s) (htx : s.txs i = some tx)
    (hlock : s.locks tx.hash = none)
    (hconsume : consumeCode s.codes tx.hash tx.since = .ok (g, codes)) :
    Inv { s.set i { tx with phase := .holding g } with
      locks := update s.locks tx.hash (some i) } := by
  obtain ⟨row, hrow, rfl, _⟩ := consumeCode_ok hconsume
  have hfresh : tx.hash ∉ s.spent := fun hmem =>
    (h.codes tx.hash row hrow).2.mpr hmem (consumeCode_unspent hconsume hrow)
  refine ⟨h.families, h.named, h.codes, h.spent, forall_set (h.clients i tx htx)
    fun j tx' _ => h.clients j tx', forall_set ?_ fun j tx' _ htx' => ?_, fun x hx => ?_, h.nodup,
    h.waits, h.rotations, h.refreshed, h.refused, h.replayed⟩
  · exact ⟨update_self .., hfresh, row, hrow, rfl⟩
  · refine (h.txs j tx' htx').keep (fun g hg => ⟨?_, hg.fresh, hg.row⟩) id fun _ _ hf => hf
    have hne : tx'.hash ≠ tx.hash := by
      intro heq
      rw [← heq, hg.lock] at hlock
      cases hlock
    exact (update_of_ne hne ..).trans hg.lock
  · exact (h.granted x hx).same (Subset.refl _) (Subset.refl _) rfl rfl

theorem Inv.close (h : Inv s) (htx : s.txs i = some tx) (hheld : Held s i tx.hash g) :
    Inv (s.close i tx) := by
  refine ⟨h.families, h.named, h.codes, h.spent, forall_set (h.clients i tx htx)
    fun j tx' _ => h.clients j tx', forall_set trivial fun j tx' hj htx' => ?_, fun x hx => ?_,
    h.nodup, h.waits, h.rotations, h.refreshed, h.refused, h.replayed⟩
  · refine (h.txs j tx' htx').keep (fun g' hg' => ⟨?_, hg'.fresh, hg'.row⟩) id fun _ _ hf => hf
    exact (update_of_ne (hheld.ne hg' hj) ..).trans hg'.lock
  · exact (h.granted x hx).same (Subset.refl _) (Subset.refl _) rfl rfl

theorem Inv.spend (h : Inv s) (htx : s.txs i = some tx) (hheld : Held s i tx.hash g) :
    Inv (s.spend i tx) := by
  obtain ⟨row, hrow, _⟩ := hheld.row
  have hself : spendCode s.codes tx.hash tx.since tx.hash =
      some { row with consumedAt := some tx.since } := by
    simp [spendCode, hrow]
  have hother : ∀ hash, hash ≠ tx.hash →
      spendCode s.codes tx.hash tx.since hash = s.codes hash := fun hash hne =>
    update_of_ne hne ..
  refine ⟨h.families, h.named, fun hash row' hrow' => ?_, fun hash hmem => ?_,
    forall_set (h.clients i tx htx) fun j tx' _ => h.clients j tx',
    forall_set trivial fun j tx' hj htx' => ?_, fun x hx => ?_, h.nodup, h.waits,
    h.rotations, h.refreshed, fun hash hmem => mem_cons_of_mem _ (h.refused hash hmem),
    fun hash hmem => (h.replayed hash hmem).imp_left (mem_cons_of_mem _)⟩
  · by_cases hne : hash = tx.hash
    · subst hne
      obtain rfl := Option.some.inj (hself.symm.trans hrow')
      exact ⟨(h.codes _ row hrow).1, fun _ => mem_cons_self .., fun _ => by simp⟩
    · obtain ⟨hdrawn, hiff⟩ := h.codes hash row' ((hother hash hne).symm.trans hrow')
      refine ⟨hdrawn, hiff.trans ⟨mem_cons_of_mem _, fun hmem => ?_⟩⟩
      exact (mem_cons.mp hmem).resolve_left hne
  · rcases mem_cons.mp hmem with rfl | hmem
    · exact (h.codes _ row hrow).1
    · exact h.spent hash hmem
  · refine (h.txs j tx' htx').keep (fun g' hg' => ?_) (mem_cons_of_mem _) fun _ _ hf => hf
    have hne := hheld.ne hg' hj
    refine ⟨(update_of_ne hne ..).trans hg'.lock, fun hmem => ?_, ?_⟩
    · exact hg'.fresh ((mem_cons.mp hmem).resolve_left hne)
    · obtain ⟨row', hrow', hg⟩ := hg'.row
      exact ⟨row', (hother _ hne).trans hrow', hg⟩
  · have hold := h.granted x hx
    refine ⟨hold.redeemed, mem_cons_of_mem _ hold.spent, hold.drawn, hold.family,
      fun row' hrow' => ?_⟩
    have hne : x.code ≠ tx.hash := fun heq => hheld.fresh (heq ▸ hold.spent)
    exact hold.row row' ((hother _ hne).symm.trans hrow')

theorem Inv.refuse (h : Inv s) (htx : s.txs i = some tx) (hheld : Held s i tx.hash g) :
    Inv (s.refuse i tx) := by
  have hspend := h.spend htx hheld
  exact { hspend with
    txs := fun j tx' htx' => (hspend.txs j tx' htx').same rfl rfl rfl rfl rfl
    granted := fun x hx =>
      (hspend.granted x hx).same (Subset.refl _) (Subset.refl _) rfl rfl
    refused := forall_mem_cons.mpr ⟨mem_cons_self .., hspend.refused⟩ }

theorem Inv.answer (h : Inv s) (htx : s.txs i = some tx)
    (hfound : tx.hash ∈ s.spent → Found s tx.hash fun _ => false) : Inv (s.answer i tx) := by
  have hset := h.advance (p := .closed) htx trivial
  refine { hset with
    txs := fun j tx' htx' => (hset.txs j tx' htx').same rfl rfl rfl rfl rfl
    granted := fun x hx =>
      (hset.granted x hx).same (Subset.refl _) (Subset.refl _) rfl rfl
    replayed := fun hash hmem => ?_ }
  simp only [State.answer] at hmem
  split_ifs at hmem with hspent
  · rcases mem_cons.mp hmem with rfl | hmem
    · exact ⟨hspent, hfound hspent⟩
    · exact h.replayed hash hmem
  · exact h.replayed hash hmem

theorem Inv.grant (h : Inv s) (htx : s.txs i = some tx) (hphase : tx.phase = .minted g m)
    (hnew : ∀ fam, m.family = some fam → m.familyID ≠ "" ∧ m.familyID ∉ s.drawn) :
    Inv (s.grant i tx g m) := by
  have hminted := h.txs i tx htx
  rw [hphase] at hminted
  obtain ⟨hheld, hredeemed⟩ := hminted
  have hfamily : m.family ≠ none → m.familyID ≠ "" ∧ m.familyID ∉ s.drawn := by
    intro hne
    obtain ⟨fam, hfam⟩ := Option.ne_none_iff_exists'.mp hne
    exact hnew fam hfam
  have hspend := h.spend htx hheld
  have htables : Inv { (s.spend i tx).setStore (establish s.store m) with
      drawn := if m.family.isSome then m.familyID :: s.drawn else s.drawn } := by
    refine hspend.setTables (fun id hid fam' hfam' => ?_)
      (fun id hid => mem_drawn.mpr (.inr hid)) (fun id fam hfam => ?_) (fun hmem => ?_)
      hspend.waits hspend.rotations hspend.refreshed
    · rcases establish_cases hfam' with hold | ⟨hm, rfl⟩
      · exact ⟨fam', hold, rfl, rfl, fun hrevoked => hrevoked⟩
      · exact absurd hid (hnew fam' hm).2
    · rcases establish_cases hfam with hold | ⟨hm, rfl⟩
      · exact mem_drawn.mpr (.inr (h.families id fam hold))
      · exact mem_drawn.mpr (.inl ⟨by simp [hm], rfl⟩)
    · rcases mem_drawn.mp hmem with ⟨hne, heq⟩ | hmem
      · exact (hfamily hne).1 heq.symm
      · exact h.named hmem
  refine htables.addGrant (y := ⟨tx.hash, g, m⟩) ⟨hredeemed, mem_cons_self ..,
    fun hne => mem_drawn.mpr (.inl ⟨hne, rfl⟩), fun fam hfam => ?_, fun row hrow => ?_⟩
    (fun x hx (heq : x.code = tx.hash) => hheld.fresh (heq ▸ (h.granted x hx).spent))
    (fun hmem => hheld.fresh (h.replayed _ hmem).1)
    fun j tx' selected htx' hp (heq : tx'.hash = tx.hash) => ?_
  · rcases establish_cases hfam with hold | ⟨hm, _⟩
    · have hdrawn : m.familyID ∈ s.drawn := h.families _ fam hold
      by_cases hnone : m.family = none
      · exact absurd (hredeemed.none hnone ▸ hdrawn) h.named
      · exact absurd hdrawn (hfamily hnone).2
    · exact hredeemed.family fam hm
  · obtain ⟨row', hrow', rfl⟩ := hheld.row
    have hself : spendCode s.codes tx.hash tx.since tx.hash =
        some { row' with consumedAt := some tx.since } := by
      simp [spendCode, hrow']
    obtain rfl := Option.some.inj (hself.symm.trans hrow)
    exact ⟨rfl, rfl⟩
  · by_cases hj : j = i
    · subst hj
      obtain rfl := Option.some.inj ((set_txs_self ..).symm.trans htx')
      cases hp
    · have hphase' := h.txs j tx' ((set_txs_of_ne hj).symm.trans htx')
      rw [hp] at hphase'
      exact hheld.fresh (heq ▸ hphase'.1)

theorem Inv.commitRevoke {selected : String → Bool} (h : Inv s) (htx : s.txs i = some tx)
    (hphase : tx.phase = .revoking selected) :
    Inv ((s.setStore ⟨s.tokens, revokeSelected s.db.families selected tx.since⟩).answer i tx) := by
  have hrevoking := h.txs i tx htx
  rw [hphase] at hrevoking
  have htables : Inv (s.setStore ⟨s.tokens, revokeSelected s.db.families selected tx.since⟩) :=
    h.setTables revokeSelected_kept.kept (Subset.refl _)
      (fun id fam' hfam' => h.weakened revokeSelected_kept id fam' hfam') h.named h.waits
      h.rotations h.refreshed
  refine htables.answer htx fun _ x hx hcode fam' hfam' _ => ?_
  obtain ⟨fam, hfam, rfl⟩ := Option.map_eq_some_iff.mp hfam'
  split_ifs with hsel
  · exact revoke_revokedAt fam tx.since
  · exact hrevoking.2 x hx hcode fam hfam (by simpa using hsel)

theorem Inv.step (h : Inv s) (hstep : CarefulStep challengeOf hashToken s x s') : Inv s' := by
  obtain ⟨hstep, hcareful⟩ := hstep
  have hheld : ∀ {i : ℕ} {tx : Tx D} {g : ConsumedCode}, s.txs i = some tx →
      tx.phase = .holding g → Held s i tx.hash g := by
    intro i tx g htx hphase
    have hold := h.txs i tx htx
    rwa [hphase] at hold
  cases hstep with
  | wait _ =>
    exact h.setTables (fun _ _ fam hfam => ⟨fam, hfam, rfl, rfl, id⟩) (Subset.refl _)
      h.families h.named h.waits h.rotations h.refreshed
  | @issueCode hash row codes hnew hunspent hissue =>
    obtain ⟨hfresh, rfl⟩ := issueCode_eq_some hissue
    refine h.setCodes (fun hash' row' hrow' => ?_) (fun hash' row' _ hrow' => ?_)
      (fun hash' row' hrow' => ?_) (subset_cons_self ..)
    · by_cases hne : hash' = hash
      · subst hne
        rw [update_self, Option.some.injEq] at hrow'
        exact .inr ⟨hnew, hrow' ▸ hunspent⟩
      · exact .inl ((update_of_ne hne ..).symm.trans hrow')
    · have hne : hash' ≠ hash := by
        rintro rfl
        rw [hfresh] at hrow'
        cases hrow'
      exact (update_of_ne hne ..).trans hrow'
    · by_cases hne : hash' = hash
      · exact mem_cons.mpr (.inl hne)
      · exact mem_cons_of_mem _ (h.codes hash' row' ((update_of_ne hne ..).symm.trans hrow')).1
  | purge hfree =>
    refine h.setCodes (fun hash row hrow => .inl (Option.filter_eq_some_iff.mp hrow).1)
      (fun hash row hlock hrow => ?_)
      (fun hash row hrow => (h.codes hash row (Option.filter_eq_some_iff.mp hrow).1).1)
      (Subset.refl _)
    refine Option.filter_eq_some_iff.mpr ⟨hrow, ?_⟩
    simpa using fun hexpired => hlock (hfree hash row hrow hexpired)
  | change hweak _ =>
    exact h.setTables hweak.kept (Subset.refl _) (h.weakened hweak) h.named h.waits h.rotations
      h.refreshed
  | @establish id fam hash row hne hnew _ _ =>
    refine h.setTables (fun id' hid fam' hfam' => ?_) (subset_cons_self ..)
      (fun id' fam' hfam' => ?_) ?_ h.waits h.rotations h.refreshed
    · have hid' : id' ≠ id := fun heq => hnew (heq ▸ hid)
      exact ⟨fam', (update_of_ne hid' ..).symm.trans hfam', rfl, rfl, fun hr => hr⟩
    · by_cases hid' : id' = id
      · exact mem_cons.mpr (.inl hid')
      · exact mem_cons_of_mem _ (h.families id' fam' ((update_of_ne hid' ..).symm.trans hfam'))
    · exact fun hmem => (mem_cons.mp hmem).elim (fun heq => hne heq.symm) h.named
  | begin _ hclient => exact h.set hclient trivial
  | consume htx _ hlock hconsume => exact h.consume htx hlock hconsume
  | refuse htx hphase _ | veto htx hphase _ => exact h.refuse htx (hheld htx hphase)
  | refuseLost _ _ => exact hcareful.elim
  | mint htx hphase hvalid hmint =>
    refine h.advance htx ⟨hheld htx hphase, redeemed_of_mint hmint ?_⟩
    exact (h.clients _ _ htx).trans (AuthorizationCodes.validateCodeRedemption_ok hvalid).client
  | commit htx hphase hnew _ => exact h.grant htx hphase hnew
  | fail htx hphase =>
    rcases hphase with hphase | ⟨m, hphase⟩
    · exact h.close htx (hheld htx hphase)
    · have hminted := h.txs _ _ htx
      rw [hphase] at hminted
      exact h.close htx hminted.1
  | reuse htx _ hrow hspent => exact h.advance htx ((h.codes _ _ hrow).2.mp hspent)
  | unknown htx _ _ => exact h.answer htx fun hspent => absurd hspent hcareful
  | revoke htx hphase =>
    have hreuse := h.txs _ _ htx
    rw [hphase] at hreuse
    exact h.advance htx ⟨hreuse, h.descended hcareful⟩
  | commitRevoke htx hphase => exact h.commitRevoke htx hphase
  | answerLost _ _ => exact hcareful.elim
  | find hfind =>
    obtain ⟨row, fam, _, _, hfam, _, rfl⟩ := rotateRefreshToken_eq_some hfind
    have hnamed : row.familyID ≠ "" := fun heq => h.named (heq ▸ h.families _ fam hfam)
    exact h.setTables (fun _ _ fam hfam => ⟨fam, hfam, rfl, rfl, id⟩) (Subset.refl _)
      h.families h.named (forall_mem_cons.mpr ⟨hnamed, h.waits⟩) h.rotations h.refreshed
  | rotate hw _ _ _ =>
    exact h.setTables (fun _ _ fam hfam => ⟨fam, hfam, rfl, rfl, id⟩) (Subset.refl _)
      h.families h.named h.waits (forall_mem_cons.mpr ⟨h.waits _ hw, h.rotations⟩) h.refreshed
  | refresh hr hmint =>
    refine h.setTables (fun id hid fam hfam => ⟨fam, ?_, rfl, rfl, fun hr => hr⟩)
      (Subset.refl _) (fun id fam hfam => h.families id fam ?_) h.named h.waits h.rotations
      (forall_mem_cons.mpr ⟨(mintSet_spec hmint).grantID, h.refreshed⟩)
    · exact (congrFun (commitRotation_families ..) id).symm.trans hfam
    · exact (congrFun (commitRotation_families ..) id).symm.trans hfam

theorem inv_run (hrun : Run (CarefulStep challengeOf hashToken) {} xs s) : Inv s :=
  hrun.invariant (I := fun _ s => Inv s) ⟨by simp, by simp, by simp, by simp, by simp, by simp,
    by simp, by simp, by simp, by simp, by simp, by simp, by simp⟩ fun h hstep => h.step hstep

/-- In every run that loses no commit and finds the rows of spent codes, no two answers with tokens
are for one code, and a code that an attempt was refused for is spent. When a spent code has been
presented and answered, no rotation finds a refresh token of its family any more, and an access
token of its grant is honoured nowhere exactly when the grant has a family, or when the token no
longer verifies, is itself revoked, or its session has ended. -/
theorem replay_kills (srv : Server) (hrun : Run (CarefulStep challengeOf hashToken) {} xs s) :
    (s.granted.map Grant.code).Nodup ∧
    (∀ hash ∈ s.refused, ∀ row, s.codes hash = some row → row.consumedAt ≠ none) ∧
    ∀ y ∈ s.granted, y.code ∈ s.replayed →
      (∀ hash row standing now, s.tokens hash = some row → y.issued.family ≠ none →
        row.familyID = y.issued.familyID →
        rotateRefreshToken s.store hash standing now = none) ∧
      ∀ t raw, Descends s y t → srv.payload raw = some t →
        ((∀ up i, ¬Honours srv s.db up s.now raw i) ↔
          "offline_access" ∈ y.consumed.scopes ∨ (∀ c, srv.verify s.now raw ≠ .ok c) ∨
            s.db.revokedJTIs t.jti ≠ none ∨ ¬SessionStands s.db s.now t.sessionID) := by
  have h := inv_run hrun
  refine ⟨h.nodup, fun hash hmem row hrow => (h.codes hash row hrow).2.mpr (h.refused hash hmem),
    fun y hy hreplayed => ⟨fun hash row standing now hrow _ hfamily => ?_, fun t raw ht hraw => ?_⟩⟩
  · by_contra hsome
    obtain ⟨g, hg⟩ := Option.ne_none_iff_exists'.mp hsome
    obtain ⟨row', fam, hrow', _, hfam, hlive, _⟩ := rotateRefreshToken_eq_some hg
    obtain rfl : row = row' := Option.some.inj (hrow.symm.trans hrow')
    rw [hfamily] at hfam
    exact (h.replayed _ hreplayed).2 y hy rfl fam hfam rfl hlive
  · rw [refused_iff hraw, h.grantStands_iff hy hreplayed ht, not_not]

def aliceSession : SessionRow where
  userID := "alice"
  notAfter := 9000000000000

def openTables : Tables where
  sessions sid := if sid = "s0" then some aliceSession else none

def codeFor (scopes : List String) : CodeRow :=
  { EndedSessions.shopCode with scopes := scopes, expiresAt := 1800000000000 }

def openState (row : CodeRow) : State String where
  now := 1500000000000
  db := openTables
  codes := update (fun _ => none) "code" (some row)
  codesDrawn := ["code"]

def sampleEnv : MintEnv String := { EndedSessions.shopEnv with now := 1500000000000 }

def attempt (phase : Phase String) : Tx String :=
  ⟨EndedSessions.shopRequest, EndedSessions.shop, "code", 1500000000000, phase⟩

theorem open_run (row : CodeRow) (hfresh : row.consumedAt = none)
    (hissue : issueCode (fun _ => none) "code" row = some (openState row).codes) :
    Run (CarefulStep id id) {} [.quiet, .quiet, .quiet] (openState row) := by
  have hwait : Run (CarefulStep id id) {} [.quiet] ({ now := 1500000000000 } : State String) :=
    Run.nil.snoc ⟨.wait (by decide), trivial⟩
  have htables : Run (CarefulStep id id) {} [.quiet, .quiet]
      ({ now := 1500000000000, db := openTables } : State String) :=
    hwait.snoc ⟨.change (fun _ _ h => by cases h) fun _ _ h => h, trivial⟩
  exact htables.snoc ⟨.issueCode (not_mem_nil) hfresh hissue, trivial⟩

/-- A first attempt is granted, and a second is answered after it. -/
theorem replay_run (scopes : List String) (m : Issued String)
    (hmint : mintSet sampleEnv openTables.sessions EndedSessions.shop
      (codeArgs (codeFor scopes).consumed) = some m)
    (hnamed : ∀ fam, m.family = some fam → m.familyID ≠ "") :
    ∃ s xs, Run (CarefulStep id id) {} xs s ∧
      s.granted = [⟨"code", (codeFor scopes).consumed, m⟩] ∧ s.replayed = ["code"] ∧
      s.db.sessions = openTables.sessions ∧ s.db.revokedJTIs = (fun _ => none) ∧
      s.now = 1500000000000 ∧ s.tokens = (establish {} m).tokens := by
  have hopen := open_run (codeFor scopes) rfl rfl
  have hbegin := hopen.snoc ⟨@Step.begin String _ id id _ 0 EndedSessions.shopRequest
    EndedSessions.shop rfl rfl, trivial⟩
  have hconsume := hbegin.snoc ⟨@Step.consume String _ id id _ 0 (attempt .presented)
    (codeFor scopes).consumed _ (set_txs_self ..) rfl rfl rfl, trivial⟩
  have hminted := hconsume.snoc ⟨@Step.mint String _ id id _ 0
    (attempt (.holding (codeFor scopes).consumed)) (codeFor scopes).consumed "" 1500000000000
    sampleEnv m rfl rfl rfl hmint, trivial⟩
  have hcommit := hminted.snoc ⟨@Step.commit String _ id id _ 0
    (attempt (.minted (codeFor scopes).consumed m)) _ m (set_txs_self ..) rfl
    (fun fam hfam => ⟨hnamed fam hfam, not_mem_nil⟩) fun _ _ _ => rfl, trivial⟩
  have hagain := hcommit.snoc ⟨@Step.begin String _ id id _ 1 EndedSessions.shopRequest
    EndedSessions.shop rfl rfl, trivial⟩
  have hreuse := hagain.snoc ⟨@Step.reuse String _ id id _ 1 (attempt .presented)
    { codeFor scopes with consumedAt := some 1500000000000 } (set_txs_self ..) rfl rfl (by simp),
    trivial⟩
  have hspent : some { codeFor scopes with consumedAt := some 1500000000000 } ≠ none :=
    Option.some_ne_none _
  have hrevoke := hreuse.snoc ⟨@Step.revoke String _ id id _ 1 (attempt .reuse) (set_txs_self ..)
    rfl, hspent⟩
  have hdone := hrevoke.snoc ⟨@Step.commitRevoke String _ id id _ 1 _ _ (set_txs_self ..) rfl,
    trivial⟩
  exact ⟨_, _, hdone, rfl, rfl, rfl, rfl, rfl, rfl⟩

def sampleServer (t : AccessTokenClaims) : Server where
  payload raw := if raw = "t0" then some t else none
  issuer := "https://idp"
  parseURL _ := none
  unmarshal _ := .error "unexpected end of JSON input"

def accessFor (scopes : List String) (familyID : String) : AccessTokenClaims :=
  accessClaims sampleEnv EndedSessions.shop (codeArgs (codeFor scopes).consumed) "j0" none familyID

def idTokenFor (scopes : List String) : IDTokenClaims :=
  idClaims sampleEnv EndedSessions.shop (codeArgs (codeFor scopes).consumed) none aliceSession

def offlineIssued : Issued String where
  access := accessFor ["openid", "offline_access"] "g0"
  idToken := some (idTokenFor ["openid", "offline_access"])
  familyID := "g0"
  family := some (newFamilyRow sampleEnv EndedSessions.shop
    (codeArgs (codeFor ["openid", "offline_access"]).consumed))
  refresh := some ("r0", {
    familyID := "g0"
    scopes := ["openid", "offline_access"]
    resources := []
    expiresAt := 1500000000000 + GoTime.seconds EndedSessions.shop.refreshTokenTTLSeconds })

def plainIssued : Issued String where
  access := accessFor ["openid"] ""
  idToken := some (idTokenFor ["openid"])
  familyID := ""
  family := none
  refresh := none

/-- With offline access the replay ends the tokens of the code. -/
theorem replay_kills_offline : ∃ s xs t, Run (CarefulStep (D := String) id id) {} xs s ∧
    s.replayed = ["code"] ∧ (∃ y ∈ s.granted, y.code = "code" ∧ t = y.issued.access) ∧
      (∀ up i, ¬Honours (sampleServer t) s.db up s.now "t0" i) ∧
      ∀ standing now, rotateRefreshToken s.store "r0" standing now = none := by
  obtain ⟨s, xs, hrun, hgranted, hreplayed, _, _, _, htokens⟩ :=
    replay_run ["openid", "offline_access"] offlineIssued rfl fun _ _ => by decide
  have hmem : ⟨"code", (codeFor ["openid", "offline_access"]).consumed, offlineIssued⟩ ∈
      s.granted := by
    rw [hgranted]
    exact mem_cons_self ..
  have hcode : "code" ∈ s.replayed := by
    rw [hreplayed]
    exact mem_cons_self ..
  obtain ⟨hrefresh, haccess⟩ :=
    (replay_kills (sampleServer offlineIssued.access) hrun).2.2 _ hmem hcode
  refine ⟨s, xs, _, hrun, hreplayed, ⟨_, hmem, rfl, rfl⟩, (haccess _ "t0" (.inl rfl) rfl).mpr
    (.inl (by decide)), fun standing now => ?_⟩
  exact hrefresh "r0" _ standing now ((congrFun htokens "r0").trans rfl) (Option.some_ne_none _) rfl

/-- Without it the replay finds nothing to revoke, and introspection still reports the access token
of the code active. -/
theorem replay_spares_plain : ∃ s xs t, Run (CarefulStep (D := String) id id) {} xs s ∧
    s.replayed = ["code"] ∧ (∃ y ∈ s.granted, y.code = "code" ∧ t = y.issued.access) ∧
      Honours (sampleServer t) s.db (fun _ => true) s.now "t0"
        (.introspection EndedSessions.shop) := by
  obtain ⟨s, xs, hrun, hgranted, hreplayed, hsessions, hjtis, hnow, _⟩ :=
    replay_run ["openid"] plainIssued rfl fun _ h => by cases h
  refine ⟨s, xs, plainIssued.access, hrun, hreplayed, ⟨_, hgranted ▸ mem_cons_self .., rfl,
    rfl⟩, activeResponse "https://idp" plainIssued.access, ?_, rfl⟩
  have hverified : (sampleServer plainIssued.access).verify 1500000000000 "t0" =
      .ok plainIssued.access := rfl
  have hgrant : grantRevoked s.db (fun _ => true) plainIssued.access.grantID = some false := rfl
  have hjti : jtiRevoked s.db (fun _ => true) plainIssued.access.jti = some false :=
    jtiRevoked_false.mpr ⟨by decide, rfl, by rw [hjtis]⟩
  have hlive : sessionLive s.db (fun _ => true) 1500000000000 plainIssued.access.sessionID =
      some true :=
    (sessionLive_true (by decide)).mpr ⟨rfl, fun _ =>
      ⟨aliceSession, by rw [hsessions]; rfl, rfl⟩⟩
  rw [introspectAccessToken, hnow, hverified]
  simp only [hgrant, hjti, hlive, ne_eq, not_true_eq_false, and_false, if_false]
  rfl

end Signari.CodeReplay
