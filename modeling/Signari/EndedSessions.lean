import Signari.AuthorizationCodes
import Signari.DeviceCodes
import Signari.SessionEnding

/-!
# What an ended session still mints

The transactions of the token endpoint, next to the terminations of `internal/store/sessions.go`:
the redemption of a code and `issueDeviceTokens` of `internal/httpapi`, the polls of
`internal/store/devicecode.go`, and the rotation of `internal/store/refresh.go`. A poll is one
transaction and the minting after it another.

A rotation asks for the session and the user, a poll for the session alone, and a redemption for
neither. `ended_mints_nothing` needs to know of the codes and of the approvals that are handed over
that their session had not ended; of refresh tokens it needs nothing.
-/
namespace Signari.EndedSessions
open GoTime OAuthClients ScopeLists TokenRequests LabelledRuns TokenMinting List Function
open AuthorizationCodes (CodeTable CodeRow ConsumedCode issueCode consumeCode
  validateCodeRedemption consumeCode_ok issueCode_eq_some)
open RefreshTokens (Store FamilyRow TokenRow RefreshGrant RefreshCall Standing grantOf
  rotateRefreshToken rotateRefreshToken_eq_some rotateRefreshToken_standing checkRefresh
  checkRefreshCall commitRotation revoke_owner)
open DeviceCodes (DeviceAuthorization Flow Row)
open SessionEnding (Sessions Target targeted revokeRows)

variable {D : Type}

/-- The row a transaction has marked: no other can mark it before the end. -/
inductive Spent (D : Type) where
  | code (hash : D)
  | refresh (hash : D)
  | device

def Spent.rotates : Spent D → Bool
  | .refresh _ => true
  | .code _ | .device => false

/-- Where a transaction stands. -/
inductive Phase (D : Type) where
  | redeeming (req : TokenRequest) (c : Client)
  | refreshing (call : RefreshCall)
  | granted (spent : Spent D) (c : Client) (a : MintArgs)
  | minted (spent : Spent D) (m : Issued D)
  | closed

/-- `ended` are the sessions that had ended when the transaction began. -/
structure Tx (D : Type) where
  since : ℤ
  ended : String → Bool
  phase : Phase D

/-- The tables as committed, the transactions, the approvals that polls have handed over, and
what has been answered. -/
structure State (D : Type) where
  clock : ℤ := 0
  sessions : Sessions := fun _ => none
  active : String → Bool := fun _ => true
  codes : CodeTable D := fun _ => none
  devices : String → Option (Row D) := fun _ => none
  store : Store D := {}
  txs : ℕ → Option (Tx D) := fun _ => none
  handed : List DeviceAuthorization := []
  issued : List (ℕ × Issued D) := []

def State.ended (s : State D) (sid : String) : Bool :=
  (s.sessions sid).any fun row => row.revokedAt.isSome || !s.active row.userID

def Phase.spent : Phase D → Option (Spent D)
  | .granted spent .. | .minted spent _ => some spent
  | .redeeming .. | .refreshing _ | .closed => none

/-- No transaction has the row marked. -/
def State.free (s : State D) (spent : Spent D) : Prop :=
  ∀ i tx, s.txs i = some tx → tx.phase.spent ≠ some spent

/-- The arguments of `mintTokens` for a redeemed code. -/
def codeArgs (g : ConsumedCode) : MintArgs where
  orgID := g.orgID
  userID := g.userID
  sid := g.sessionID
  nonce := g.nonce
  scopes := g.scopes
  resources := g.resources
  details := g.details

/-- The arguments of `mintFromGrant` for a rotated refresh token. -/
def refreshArgs (g : RefreshGrant) (scopes : List String) : MintArgs where
  orgID := g.orgID
  userID := g.userID
  sid := g.sessionID
  scopes := if scopes = [] then g.scopes else scopes
  resources := g.resources
  details := g.details
  familyID := g.familyID

/-- The arguments of `issueDeviceTokens`. -/
def deviceArgs (c : Client) (d : DeviceAuthorization) : MintArgs where
  orgID := d.orgID
  userID := d.userID
  sid := d.sid
  scopes := if splitScopes d.scope = [] then c.scopes else splitScopes d.scope
  resources := d.resource

def sessionLive (sessions : Sessions) (sid : String) (now : ℤ) : Bool :=
  (sessions sid).any fun row => row.revokedAt.isNone && decide (now < row.notAfter)

def State.set (s : State D) (i : ℕ) (tx : Tx D) : State D :=
  { s with txs := update s.txs i (some tx) }

/-- What the joins of a rotation find: a session that is not there does not stop it. -/
def State.standing (s : State D) (hash : D) (now : ℤ) : Standing :=
  match (s.store.tokens hash).bind fun row => s.store.families row.familyID with
  | none => ⟨false, false⟩
  | some fam =>
    ⟨s.active fam.userID, (s.sessions fam.sid).isNone || sessionLive s.sessions fam.sid now⟩

/-- The last UPDATE of a termination: refresh families follow their session. -/
def endFamilies (st : Store D) (sessions : Sessions) (target : Target) (now : ℤ) : Store D where
  tokens := st.tokens
  families g := (st.families g).map fun fam =>
    if (sessions fam.sid).any (target.matches fam.sid) then fam.revoke now else fam

variable {s s' : State D} {i : ℕ} {tx : Tx D} {m : Issued D}

def Owned (sessions : Sessions) (sid userID : String) : Prop :=
  ∃ row, sessions sid = some row ∧ row.userID = userID

/-- What no step takes back: sessions and families stay and keep their owner, a revoked session
stays revoked, and a user who is not active stays so. -/
structure Extends (s s' : State D) : Prop where
  sessions : ∀ sid row, s.sessions sid = some row → ∃ row', s'.sessions sid = some row' ∧
    row'.userID = row.userID ∧ (row.revokedAt ≠ none → row'.revokedAt ≠ none)
  active : ∀ u, s.active u = false → s'.active u = false
  families : ∀ g fam, s.store.families g = some fam →
    ∃ fam', s'.store.families g = some fam' ∧ fam'.sid = fam.sid

theorem Extends.same (hsessions : s'.sessions = s.sessions) (hactive : s'.active = s.active)
    (hfamilies : s'.store.families = s.store.families) : Extends s s' where
  sessions sid row h := ⟨row, (congrFun hsessions sid).trans h, rfl, id⟩
  active u h := (congrFun hactive u).trans h
  families g fam h := ⟨fam, (congrFun hfamilies g).trans h, rfl⟩

theorem Owned.extend {sid u : String} (h : Owned s.sessions sid u) (hext : Extends s s') :
    Owned s'.sessions sid u := by
  obtain ⟨row, hrow, rfl⟩ := h
  obtain ⟨row', hrow', huser, -⟩ := hext.sessions sid row hrow
  exact ⟨row', hrow', huser⟩

theorem ended_iff {sid : String} : s.ended sid = true ↔
    ∃ row, s.sessions sid = some row ∧ (row.revokedAt ≠ none ∨ s.active row.userID = false) := by
  simp [State.ended, Option.any_eq_true, Option.isSome_iff_ne_none]

theorem Extends.ended {sid : String} (hext : Extends s s') (h : s.ended sid = true) :
    s'.ended sid = true := by
  rw [ended_iff] at h ⊢
  obtain ⟨row, hrow, hdead⟩ := h
  obtain ⟨row', hrow', huser, hrevoked⟩ := hext.sessions sid row hrow
  refine ⟨row', hrow', hdead.imp hrevoked fun hactive => ?_⟩
  rw [huser]
  exact hext.active _ hactive

/-- What a transaction has been granted before it mints. -/
structure Granted (s : State D) (ended : String → Bool) (spent : Spent D) (a : MintArgs) :
    Prop where
  owned : Owned s.sessions a.sid a.userID
  live : ended a.sid = false
  rotated : spent.rotates = true → a.familyID ≠ "" ∧
    ∃ fam, s.store.families a.familyID = some fam ∧ fam.sid = a.sid
  first : spent.rotates = false → a.familyID = ""

/-- What was minted is of one session, that had not ended. -/
structure Minted (s : State D) (ended : String → Bool) (spent : Spent D) (m : Issued D)
    (sid : String) : Prop where
  live : ended sid = false
  access : m.access.sessionID = sid
  idToken : ∀ t, m.idToken = some t → t.sessionID = sid
  refresh : ∀ r, m.refresh = some r → r.2.familyID = m.familyID
  family : ∀ fam, m.family = some fam → fam.sid = sid ∧ Owned s.sessions fam.sid fam.userID
  rotated : spent.rotates = true → ∃ fam, s.store.families m.familyID = some fam ∧ fam.sid = sid
  first : spent.rotates = false → m.refresh ≠ none → m.family ≠ none

/-- What was answered is of one session, that had not ended. -/
structure Answered (s : State D) (ended : String → Bool) (m : Issued D) (sid : String) :
    Prop where
  live : ended sid = false
  access : m.access.sessionID = sid
  idToken : ∀ t, m.idToken = some t → t.sessionID = sid
  refresh : ∀ r, m.refresh = some r → ∃ fam, s.store.families r.2.familyID = some fam ∧
    fam.sid = sid

def Phase.Inv (s : State D) (ended : String → Bool) : Phase D → Prop
  | .granted spent _ a => Granted s ended spent a
  | .minted spent m => ∃ sid, Minted s ended spent m sid
  | .redeeming .. | .refreshing _ | .closed => True

structure Inv (s : State D) : Prop where
  codes : ∀ hash row, s.codes hash = some row → Owned s.sessions row.sid row.userID
  devices : ∀ id d, s.devices id = some d → d.status = .approved →
    Owned s.sessions (d.sid.getD "") (d.userID.getD "")
  handed : ∀ d ∈ s.handed, Owned s.sessions d.sid d.userID
  families : ∀ g fam, s.store.families g = some fam → g ≠ "" ∧ Owned s.sessions fam.sid fam.userID
  begun : ∀ i tx, s.txs i = some tx → ∀ sid, tx.ended sid = true → s.ended sid = true
  txs : ∀ i tx, s.txs i = some tx → tx.phase.Inv s tx.ended
  issued : ∀ i m, (i, m) ∈ s.issued → ∃ tx sid, s.txs i = some tx ∧ Answered s tx.ended m sid

theorem Phase.Inv.extend {ended : String → Bool} {p : Phase D} (h : p.Inv s ended)
    (hext : Extends s s') : p.Inv s' ended := by
  have hfamily : ∀ {g sid : String}, (∃ fam, s.store.families g = some fam ∧ fam.sid = sid) →
      ∃ fam, s'.store.families g = some fam ∧ fam.sid = sid := by
    rintro g sid ⟨fam, hfam, rfl⟩
    exact hext.families g fam hfam
  cases p with
  | granted spent c a =>
    exact ⟨h.owned.extend hext, h.live, fun hr => (h.rotated hr).imp_right hfamily, h.first⟩
  | minted spent m =>
    obtain ⟨sid, h⟩ := h
    exact ⟨sid, h.live, h.access, h.idToken, h.refresh,
      fun fam hfam => (h.family fam hfam).imp_right fun ho => ho.extend hext,
      fun hr => hfamily (h.rotated hr), h.first⟩
  | redeeming _ _ => trivial
  | refreshing _ => trivial
  | closed => trivial

theorem Answered.extend {ended : String → Bool} {sid : String} (h : Answered s ended m sid)
    (hext : Extends s s') : Answered s' ended m sid where
  live := h.live
  access := h.access
  idToken := h.idToken
  refresh r hr := by
    obtain ⟨fam, hfam, hsid⟩ := h.refresh r hr
    obtain ⟨fam', hfam', hsame⟩ := hext.families _ fam hfam
    exact ⟨fam', hfam', hsame.trans hsid⟩

theorem Inv.same (h : Inv s) (hext : Extends s s') (hcodes : s'.codes = s.codes)
    (hdevices : s'.devices = s.devices) (hhanded : s'.handed = s.handed)
    (hfamilies : ∀ g fam', s'.store.families g = some fam' → ∃ fam,
      s.store.families g = some fam ∧ fam'.sid = fam.sid ∧ fam'.userID = fam.userID)
    (htxs : s'.txs = s.txs) (hissued : s'.issued = s.issued) : Inv s' where
  codes hash row hrow := (h.codes hash row (by rwa [← hcodes])).extend hext
  devices id d hd hyes := (h.devices id d (by rwa [← hdevices]) hyes).extend hext
  handed d hd := (h.handed d (by rwa [← hhanded])).extend hext
  families g fam' hfam' := by
    obtain ⟨fam, hfam, hsid, huser⟩ := hfamilies g fam' hfam'
    rw [hsid, huser]
    exact (h.families g fam hfam).imp_right fun ho => ho.extend hext
  begun i tx htx sid hended := hext.ended (h.begun i tx (by rwa [← htxs]) sid hended)
  txs i tx htx := (h.txs i tx (by rwa [← htxs])).extend hext
  issued i m hmem := by
    obtain ⟨tx, sid, htx, hans⟩ := h.issued i m (by rwa [← hissued])
    exact ⟨tx, sid, by rwa [htxs], hans.extend hext⟩

theorem Inv.setCodes {codes : CodeTable D} (h : Inv s)
    (hcodes : ∀ hash row, codes hash = some row → Owned s.sessions row.sid row.userID) :
    Inv { s with codes := codes } where
  codes := hcodes
  devices := h.devices
  handed := h.handed
  families := h.families
  begun := h.begun
  txs i tx htx := (h.txs i tx htx).extend (.same rfl rfl rfl)
  issued i m hmem := by
    obtain ⟨tx, sid, htx, hans⟩ := h.issued i m hmem
    exact ⟨tx, sid, htx, hans.extend (.same rfl rfl rfl)⟩

theorem Inv.setDevices {devices : String → Option (Row D)} {handed : List DeviceAuthorization}
    (h : Inv s) (hdevices : ∀ id d, devices id = some d → d.status = .approved →
      Owned s.sessions (d.sid.getD "") (d.userID.getD ""))
    (hhanded : ∀ d ∈ handed, Owned s.sessions d.sid d.userID) :
    Inv { s with devices := devices, handed := handed } where
  codes := h.codes
  devices := hdevices
  handed := hhanded
  families := h.families
  begun := h.begun
  txs i tx htx := (h.txs i tx htx).extend (.same rfl rfl rfl)
  issued i m hmem := by
    obtain ⟨tx, sid, htx, hans⟩ := h.issued i m hmem
    exact ⟨tx, sid, htx, hans.extend (.same rfl rfl rfl)⟩

theorem set_txs_self (s : State D) (i : ℕ) (tx : Tx D) : (s.set i tx).txs i = some tx :=
  update_self ..

theorem set_txs_of_ne {i j : ℕ} (hj : j ≠ i) : (s.set i tx).txs j = s.txs j := update_of_ne hj ..

/-- A transaction that goes on: it has answered nothing under other ended sessions. -/
theorem Inv.set (h : Inv s) (hbegun : ∀ sid, tx.ended sid = true → s.ended sid = true)
    (hphase : tx.phase.Inv s tx.ended)
    (hsame : ∀ old, s.txs i = some old → old.ended = tx.ended) : Inv (s.set i tx) where
  codes := h.codes
  devices := h.devices
  handed := h.handed
  families := h.families
  begun j tx' htx' := by
    by_cases hj : j = i
    · subst hj
      rw [set_txs_self, Option.some.injEq] at htx'
      subst htx'
      exact hbegun
    · exact h.begun j tx' ((set_txs_of_ne hj).symm.trans htx')
  txs j tx' htx' := by
    by_cases hj : j = i
    · subst hj
      rw [set_txs_self, Option.some.injEq] at htx'
      subst htx'
      exact hphase.extend (.same rfl rfl rfl)
    · exact (h.txs j tx' ((set_txs_of_ne hj).symm.trans htx')).extend (.same rfl rfl rfl)
  issued j m hmem := by
    obtain ⟨old, sid, hold, hans⟩ := h.issued j m hmem
    by_cases hj : j = i
    · subst hj
      refine ⟨tx, sid, set_txs_self .., ?_⟩
      rw [← hsame old hold]
      exact hans.extend (.same rfl rfl rfl)
    · exact ⟨old, sid, (set_txs_of_ne hj).trans hold, hans.extend (.same rfl rfl rfl)⟩

theorem Inv.advance {p : Phase D} (h : Inv s) (htx : s.txs i = some tx)
    (hphase : p.Inv s tx.ended) : Inv (s.set i { tx with phase := p }) :=
  h.set (h.begun i tx htx) hphase fun old hold => by rw [Option.some.inj (hold.symm.trans htx)]

theorem Inv.begin {since : ℤ} {p : Phase D} (h : Inv s) (hi : s.txs i = none)
    (hphase : p.Inv s s.ended) : Inv (s.set i ⟨since, s.ended, p⟩) :=
  h.set (fun _ hended => hended) hphase fun old hold => by cases hi.symm.trans hold

theorem Granted.mint {ended : String → Bool} {spent : Spent D} {c : Client} {a : MintArgs}
    {env : MintEnv D} (h : Granted s ended spent a)
    (hmint : mintSet env s.sessions c a = some m) : Minted s ended spent m a.sid := by
  have hspec := mintSet_spec hmint
  refine ⟨h.live, hspec.sessionID, hspec.idToken, hspec.refresh, fun fam hfam => ?_,
    fun hspent => ?_, fun hspent hr => ?_⟩
  · rcases familyFor_cases hspec.family with ⟨_, _, _, heq⟩ | ⟨_, _, heq⟩
    · obtain rfl : fam = newFamilyRow env c a := Option.some.inj (hfam.symm.trans heq)
      exact ⟨rfl, h.owned⟩
    · rw [hfam] at heq
      cases heq
  · obtain ⟨hne, hknown⟩ := h.rotated hspent
    rcases familyFor_cases hspec.family with ⟨hempty, _, _, _⟩ | ⟨_, hid, _⟩
    · exact absurd hempty hne
    · rwa [hid]
  · rcases familyFor_cases hspec.family with ⟨_, _, _, heq⟩ | ⟨hnot, _, _⟩
    · simp [heq]
    · exact absurd ⟨h.first hspent, mintSet_refresh hmint hr⟩ hnot

theorem Inv.rotate {hash : D} {now : ℤ} {g : RefreshGrant} (h : Inv s)
    (hrotate : rotateRefreshToken s.store hash (s.standing hash now) now = some g) :
    Owned s.sessions g.sessionID g.userID ∧ s.ended g.sessionID = false ∧ g.familyID ≠ "" ∧
      ∃ fam, s.store.families g.familyID = some fam ∧ fam.sid = g.sessionID := by
  obtain ⟨row, fam, hrow, _, hfam, _, rfl⟩ := rotateRefreshToken_eq_some hrotate
  obtain ⟨hactive, hlive⟩ := rotateRefreshToken_standing hrotate
  obtain ⟨hne, howned⟩ := h.families row.familyID fam hfam
  refine ⟨howned, ?_, hne, fam, hfam, rfl⟩
  obtain ⟨session, hsession, huser⟩ := howned
  simp only [State.standing, hrow, hfam, Option.bind_some, sessionLive, hsession,
    Option.isNone_some, Option.any_some, Bool.false_or, Bool.and_eq_true, Option.isNone_iff_eq_none]
    at hactive hlive
  simp [State.ended, grantOf, hsession, hlive.1, huser, hactive]

theorem approve_owner {d d' : Row D} {userID sid : String} {since : ℤ}
    (h : d.approve userID sid since = some d' ∨
      ∃ yes, d.decideBackchannel userID sid yes since = some d') :
    d'.sid = some sid ∧ d'.userID = some userID := by
  rcases h with h | ⟨yes, h⟩
  · unfold DeviceCodes.Row.approve at h
    split_ifs at h
    obtain rfl := Option.some.inj h
    exact ⟨rfl, rfl⟩
  · unfold DeviceCodes.Row.decideBackchannel at h
    by_cases hcond : d.userID = some userID ∧ d.flow = .ciba ∧ d.status = .pending ∧
        since < d.expiresAt
    · rw [if_pos hcond] at h
      obtain rfl := Option.some.inj h
      exact ⟨rfl, hcond.1⟩
    · rw [if_neg hcond] at h
      cases h

variable [DecidableEq D]

def spendCode (codes : CodeTable D) (hash : D) (now : ℤ) : CodeTable D :=
  update codes hash ((codes hash).map fun row => { row with consumedAt := some now })

def establish (st : Store D) (m : Issued D) : Store D where
  tokens := match m.refresh with
    | none => st.tokens
    | some (hash, row) => update st.tokens hash (some row)
  families := match m.family with
    | none => st.families
    | some fam => update st.families m.familyID (some fam)

/-- What is there once the transaction has committed. -/
def State.commit (s : State D) (i : ℕ) (tx : Tx D) (spent : Spent D) (m : Issued D) : State D :=
  { s.set i { tx with phase := .closed } with
    codes := match spent with
      | .code hash => spendCode s.codes hash tx.since
      | .refresh _ | .device => s.codes
    store := match spent with
      | .refresh hash => commitRotation s.store hash tx.since m.refresh
      | .code _ | .device => establish s.store m
    issued := (i, m) :: s.issued }

inductive Obs where
  | quiet
  | redeemed (i : ℕ) (sid : String)
  | presented (i : ℕ) (sid : String)

variable (challengeOf : String → String) (hashToken : String → D)

/-- One statement of a request, or a whole transaction of the rest of the server. A code and an
approval are given by the browser of a session, for its user. -/
inductive Step : State D → Obs → State D → Prop
  | wait {s : State D} {t : ℤ} : s.clock ≤ t → Step s .quiet { s with clock := t }
  | insert {s : State D} {sid : String} {row : SessionRow} :
      s.sessions sid = none → sid ≠ "" → row.revokedAt = none →
      Step s .quiet { s with sessions := update s.sessions sid (some row) }
  | issueCode {s : State D} {hash : D} {row : CodeRow} {session : SessionRow}
      {codes : CodeTable D} :
      s.sessions row.sid = some session → session.userID = row.userID → row.consumedAt = none →
      issueCode s.codes hash row = some codes →
      Step s .quiet { s with codes := codes }
  | request {s : State D} {id : String} {d : Row D} :
      s.devices id = none → d.status = .pending →
      Step s .quiet { s with devices := update s.devices id (some d) }
  | approve {s : State D} {id sid : String} {session : SessionRow} {since : ℤ} {d d' : Row D} :
      s.devices id = some d → s.sessions sid = some session →
      (d.approve session.userID sid since = some d' ∨
        ∃ yes, d.decideBackchannel session.userID sid yes since = some d') →
      Step s .quiet { s with devices := update s.devices id (some d') }
  | terminate {s : State D} {target : Target} {revoked : String → Bool} {since : ℤ} :
      (∀ sid, revoked sid = true → targeted s.sessions target sid = true) →
      Step s .quiet { s with
        sessions := revokeRows s.sessions revoked since
        store := endFamilies s.store s.sessions target since }
  | deactivate {s : State D} {userID : String} :
      Step s .quiet { s with active := update s.active userID false }
  | revokeFamilies {s : State D} {selected : String → Bool} {since : ℤ} :
      Step s .quiet { s with store := ⟨s.store.tokens, fun g => (s.store.families g).map fun fam =>
        if selected g then fam.revoke since else fam⟩ }
  | beginCode {s : State D} {i : ℕ} {req : TokenRequest} {c : Client} :
      s.txs i = none → Step s .quiet (s.set i ⟨s.clock, s.ended, .redeeming req c⟩)
  | redeem {s : State D} {i : ℕ} {tx : Tx D} {req : TokenRequest} {c : Client}
      {g : ConsumedCode} {codes : CodeTable D} {jkt : String} {now : ℤ} :
      s.txs i = some tx → tx.phase = .redeeming req c → s.free (.code (hashToken req.code)) →
      consumeCode s.codes (hashToken req.code) tx.since = .ok (g, codes) →
      validateCodeRedemption challengeOf req (some c) (some g.toGrantRecord) jkt now = .ok () →
      Step s (.redeemed i g.sessionID)
        (s.set i { tx with phase := .granted (.code (hashToken req.code)) c (codeArgs g) })
  | refuse {s : State D} {i : ℕ} {tx : Tx D} {req : TokenRequest} {c : Client}
      {g : ConsumedCode} {codes : CodeTable D} :
      s.txs i = some tx → tx.phase = .redeeming req c → s.free (.code (hashToken req.code)) →
      consumeCode s.codes (hashToken req.code) tx.since = .ok (g, codes) →
      Step s .quiet { s.set i { tx with phase := .closed } with codes := codes }
  | beginRefresh {s : State D} {i : ℕ} {call : RefreshCall} :
      s.txs i = none → checkRefreshCall call = .ok () →
      Step s .quiet (s.set i ⟨s.clock, s.ended, .refreshing call⟩)
  | rotate {s : State D} {i : ℕ} {tx : Tx D} {call : RefreshCall} {hash : D} {g : RefreshGrant}
      {scopes : List String} :
      s.txs i = some tx → tx.phase = .refreshing call → hash = hashToken call.refreshToken →
      s.free (.refresh hash) →
      rotateRefreshToken s.store hash (s.standing hash tx.since) tx.since = some g →
      checkRefresh call g = .ok scopes →
      Step s .quiet
        (s.set i { tx with phase := .granted (.refresh hash) call.client (refreshArgs g scopes) })
  | poll {s : State D} {id clientID : String} {d : Row D} {since checked paced : ℤ} :
      s.devices id = some d → since ≤ s.clock →
      DeviceCodes.inspect d clientID checked paced = .due → d.status = .approved →
      sessionLive s.sessions (d.sid.getD "") since = true →
      Step s .quiet { s with
        devices := update s.devices id (some ((d.polled since).redeemed since))
        handed := d.authorization id :: s.handed }
  | beginDevice {s : State D} {i : ℕ} {c : Client} {d : DeviceAuthorization} :
      s.txs i = none → d ∈ s.handed → c.clientID = d.clientID →
      Step s (.presented i d.sid) { s.set i ⟨s.clock, s.ended, .granted .device c (deviceArgs c d)⟩
        with handed := s.handed.erase d }
  | mint {s : State D} {i : ℕ} {tx : Tx D} {spent : Spent D} {c : Client} {a : MintArgs}
      {env : MintEnv D} {m : Issued D} :
      s.txs i = some tx → tx.phase = .granted spent c a → mintSet env s.sessions c a = some m →
      Step s .quiet (s.set i { tx with phase := .minted spent m })
  | commit {s : State D} {i : ℕ} {tx : Tx D} {spent : Spent D} {m : Issued D} :
      s.txs i = some tx → tx.phase = .minted spent m →
      (∀ fam, m.family = some fam → m.familyID ≠ "" ∧ s.store.families m.familyID = none) →
      (∀ hash row, m.refresh = some (hash, row) → s.store.tokens hash = none) →
      Step s .quiet (s.commit i tx spent m)
  | fail {s : State D} {i : ℕ} {tx : Tx D} :
      s.txs i = some tx → tx.phase ≠ .closed →
      Step s .quiet (s.set i { tx with phase := .closed })

/-- A code that is redeemed and an approval that is minted are not of a session that had ended
when the transaction began. -/
def Careful (s : State D) : Obs → Prop
  | .quiet => True
  | .redeemed i sid => ∀ tx, s.txs i = some tx → tx.ended sid = false
  | .presented _ sid => s.ended sid = false

def CarefulStep (s : State D) (x : Obs) (s' : State D) : Prop :=
  Step challengeOf hashToken s x s' ∧ Careful s x

def Carries (s : State D) (m : Issued D) (sid : String) : Prop :=
  m.access.sessionID = sid ∨ (∃ t, m.idToken = some t ∧ t.sessionID = sid) ∨
    ∃ r fam, m.refresh = some r ∧ s.store.families r.2.familyID = some fam ∧ fam.sid = sid

variable {challengeOf : String → String} {hashToken : String → D} {x : Obs} {xs : List Obs}

theorem map_revoke {old : Option FamilyRow} {hit : FamilyRow → Bool} {now : ℤ} :
    (∀ fam, old = some fam → ∃ fam', (old.map fun fam =>
      if hit fam then fam.revoke now else fam) = some fam' ∧ fam'.sid = fam.sid) ∧
    ∀ fam', (old.map fun fam => if hit fam then fam.revoke now else fam) = some fam' →
      ∃ fam, old = some fam ∧ fam'.sid = fam.sid ∧ fam'.userID = fam.userID := by
  have howner : ∀ fam : FamilyRow, (if hit fam then fam.revoke now else fam).sid = fam.sid ∧
      (if hit fam then fam.revoke now else fam).userID = fam.userID := by
    intro fam
    split_ifs
    · exact revoke_owner fam now
    · exact ⟨rfl, rfl⟩
  constructor
  · rintro fam rfl
    exact ⟨_, rfl, (howner fam).1⟩
  · intro fam' h
    obtain ⟨fam, rfl, rfl⟩ := Option.map_eq_some_iff.mp h
    exact ⟨fam, rfl, howner fam⟩

theorem commitRotation_families (st : Store D) (hash : D) (now : ℤ)
    (successor : Option (D × TokenRow D)) :
    (commitRotation st hash now successor).families = st.families := by
  cases successor <;> rfl

theorem commit_rotated {spent : Spent D} (h : spent.rotates = true) :
    (s.commit i tx spent m).store.families = s.store.families := by
  cases spent with
  | refresh hash => exact commitRotation_families ..
  | code _ => cases h
  | device => cases h

theorem commit_first {spent : Spent D} (h : spent.rotates = false) :
    (s.commit i tx spent m).store = establish s.store m := by
  cases spent with
  | refresh _ => cases h
  | code _ => rfl
  | device => rfl

theorem establish_cases {st : Store D} {g : String} {fam : FamilyRow}
    (h : (establish st m).families g = some fam) :
    st.families g = some fam ∨ m.family = some fam ∧ g = m.familyID := by
  unfold establish at h
  cases hm : m.family with
  | none => exact .inl (by simpa only [hm] using h)
  | some new =>
    simp only [hm] at h
    by_cases hg : g = m.familyID
    · subst hg
      rw [update_self] at h
      exact .inr ⟨h, rfl⟩
    · rw [update_of_ne hg] at h
      exact .inl h

theorem establish_keeps {st : Store D} {g : String} {fam : FamilyRow}
    (hnew : ∀ fam, m.family = some fam → st.families m.familyID = none)
    (h : st.families g = some fam) : (establish st m).families g = some fam := by
  unfold establish
  cases hm : m.family with
  | none => simpa only using h
  | some new =>
    have hne : g ≠ m.familyID := by
      rintro rfl
      rw [hnew new hm] at h
      cases h
    simpa only [update_of_ne hne] using h

theorem commit_extends {spent : Spent D}
    (hnew : ∀ fam, m.family = some fam → s.store.families m.familyID = none) :
    Extends s (s.commit i tx spent m) where
  sessions _ row h := ⟨row, h, rfl, id⟩
  active _ h := h
  families g fam hfam := by
    refine ⟨fam, ?_, rfl⟩
    cases hspent : spent.rotates with
    | true => exact (congrFun (commit_rotated hspent) g).trans hfam
    | false =>
      rw [commit_first hspent]
      exact establish_keeps hnew hfam

theorem Step.extends (hstep : Step challengeOf hashToken s x s') : Extends s s' := by
  cases hstep with
  | wait _ => exact .same rfl rfl rfl
  | @insert sid row hnew _ _ =>
    refine ⟨fun t old hold => ⟨old, ?_, rfl, id⟩, fun _ h => h, fun _ fam h => ⟨fam, h, rfl⟩⟩
    have hne : t ≠ sid := by
      rintro rfl
      rw [hnew] at hold
      cases hold
    exact (update_of_ne hne ..).trans hold
  | issueCode _ _ _ _ | request _ _ | approve _ _ _ => exact .same rfl rfl rfl
  | @terminate target revoked since _ =>
    refine ⟨fun sid row hrow => ?_, fun _ h => h, fun g fam hfam => map_revoke.1 fam hfam⟩
    refine ⟨_, Option.map_eq_some_iff.mpr ⟨row, hrow, rfl⟩, ?_⟩
    split_ifs
    · exact ⟨rfl, fun _ => Option.some_ne_none _⟩
    · exact ⟨rfl, id⟩
  | @deactivate userID =>
    refine ⟨fun sid row h => ⟨row, h, rfl, id⟩, fun u h => ?_, fun _ fam h => ⟨fam, h, rfl⟩⟩
    by_cases hu : u = userID
    · subst hu
      exact update_self ..
    · exact (update_of_ne hu ..).trans h
  | revokeFamilies =>
    exact ⟨fun sid row h => ⟨row, h, rfl, id⟩, fun _ h => h,
      fun g fam hfam => map_revoke.1 fam hfam⟩
  | beginCode _ | redeem _ _ _ _ _ | refuse _ _ _ _ | beginRefresh _ _ | rotate _ _ _ _ _ _
  | poll _ _ _ _ _ | beginDevice _ _ _ | mint _ _ _ => exact .same rfl rfl rfl
  | commit _ _ hnew _ => exact commit_extends fun fam hm => (hnew fam hm).2
  | fail _ _ => exact .same rfl rfl rfl

theorem spendCode_owner {codes : CodeTable D} {hash k : D} {now : ℤ} {row : CodeRow}
    (h : spendCode codes hash now k = some row) :
    ∃ old, codes k = some old ∧ row.sid = old.sid ∧ row.userID = old.userID := by
  unfold spendCode at h
  by_cases hk : k = hash
  · subst hk
    rw [update_self] at h
    obtain ⟨old, hold, rfl⟩ := Option.map_eq_some_iff.mp h
    exact ⟨old, hold, rfl, rfl⟩
  · rw [update_of_ne hk] at h
    exact ⟨row, h, rfl, rfl⟩

theorem commit_txs_self (s : State D) (i : ℕ) (tx : Tx D) (spent : Spent D) (m : Issued D) :
    (s.commit i tx spent m).txs i = some { tx with phase := .closed } :=
  set_txs_self s i _

theorem Inv.commit {spent : Spent D} (h : Inv s) (htx : s.txs i = some tx)
    (hphase : tx.phase = .minted spent m)
    (hnew : ∀ fam, m.family = some fam → m.familyID ≠ "" ∧ s.store.families m.familyID = none) :
    Inv (s.commit i tx spent m) := by
  have hext : Extends s (s.commit i tx spent m) := commit_extends fun fam hm => (hnew fam hm).2
  have hminted := h.txs i tx htx
  rw [hphase] at hminted
  obtain ⟨sid, hminted⟩ := hminted
  refine ⟨fun hash row hrow => ?_, h.devices, h.handed, fun g fam hfam => ?_, fun j tx' htx' => ?_,
    fun j tx' htx' => ?_, fun j m' hmem => ?_⟩
  · cases spent with
    | code k =>
      obtain ⟨old, hold, hsid, huser⟩ := spendCode_owner hrow
      rw [hsid, huser]
      exact h.codes hash old hold
    | refresh _ | device => exact h.codes hash row hrow
  · cases hspent : spent.rotates with
    | true =>
      rw [commit_rotated hspent] at hfam
      exact h.families g fam hfam
    | false =>
      rw [commit_first hspent] at hfam
      rcases establish_cases hfam with hold | ⟨hm, rfl⟩
      · exact h.families g fam hold
      · exact ⟨(hnew fam hm).1, (hminted.family fam hm).2⟩
  · by_cases hj : j = i
    · subst hj
      rw [commit_txs_self, Option.some.injEq] at htx'
      subst htx'
      exact h.begun j tx htx
    · exact h.begun j tx' ((set_txs_of_ne hj).symm.trans htx')
  · by_cases hj : j = i
    · subst hj
      rw [commit_txs_self, Option.some.injEq] at htx'
      subst htx'
      trivial
    · exact (h.txs j tx' ((set_txs_of_ne hj).symm.trans htx')).extend hext
  · have hover := commit_txs_self s i tx spent m
    rcases mem_cons.mp hmem with heq | hmem
    · obtain ⟨rfl, rfl⟩ := Prod.mk.inj heq
      refine ⟨_, sid, hover, hminted.live, hminted.access, hminted.idToken, fun r hr => ?_⟩
      rw [hminted.refresh r hr]
      cases hspent : spent.rotates with
      | true =>
        rw [commit_rotated hspent]
        exact hminted.rotated hspent
      | false =>
        obtain ⟨fam, hfam⟩ := Option.ne_none_iff_exists'.mp (hminted.first hspent (by simp [hr]))
        refine ⟨fam, ?_, (hminted.family fam hfam).1⟩
        rw [commit_first hspent]
        simp [establish, hfam]
    · obtain ⟨old, sid', hold, hans⟩ := h.issued j m' hmem
      by_cases hj : j = i
      · subst hj
        rw [htx, Option.some.injEq] at hold
        subst hold
        exact ⟨_, sid', hover, hans.extend hext⟩
      · exact ⟨old, sid', (set_txs_of_ne hj).trans hold, hans.extend hext⟩

theorem forall_update {α β : Type} [DecidableEq α] {f : α → Option β} {P : α → β → Prop} {a : α}
    {b : β} (hold : ∀ k v, f k = some v → P k v) (hnew : P a b) :
    ∀ k v, update f a (some b) k = some v → P k v := by
  intro k v hk
  by_cases hka : k = a
  · subst hka
    rw [update_self, Option.some.injEq] at hk
    exact hk ▸ hnew
  · rw [update_of_ne hka] at hk
    exact hold k v hk

theorem Inv.step (h : Inv s) (hstep : CarefulStep challengeOf hashToken s x s') : Inv s' := by
  obtain ⟨hstep, hcareful⟩ := hstep
  have hext := hstep.extends
  cases hstep with
  | wait _ | insert _ _ _ | deactivate =>
    exact h.same hext rfl rfl rfl (fun _ fam hf => ⟨fam, hf, rfl, rfl⟩) rfl rfl
  | terminate _ | revokeFamilies => exact h.same hext rfl rfl rfl (fun _ => map_revoke.2) rfl rfl
  | issueCode hsession huser _ hissue =>
    obtain ⟨_, rfl⟩ := issueCode_eq_some hissue
    exact h.setCodes (forall_update h.codes ⟨_, hsession, huser⟩)
  | request _ hpending =>
    refine h.setDevices (forall_update h.devices fun happroved => ?_) h.handed
    rw [hpending] at happroved
    cases happroved
  | approve _ hsession happrove =>
    obtain ⟨hsid, huser⟩ := approve_owner happrove
    refine h.setDevices (forall_update h.devices fun _ => ?_) h.handed
    rw [hsid, huser]
    exact ⟨_, hsession, rfl⟩
  | beginCode hi | beginRefresh hi _ => exact h.begin hi trivial
  | redeem hi _ _ hconsume _ =>
    obtain ⟨row, hrow, rfl, _⟩ := consumeCode_ok hconsume
    exact h.advance hi ⟨h.codes _ row hrow, hcareful _ hi, fun hr => (by cases hr), fun _ => rfl⟩
  | refuse hi _ _ hconsume =>
    obtain ⟨row, hrow, rfl, rfl⟩ := consumeCode_ok hconsume
    exact (h.advance hi (p := .closed) trivial).setCodes
      (forall_update h.codes (h.codes _ row hrow))
  | rotate hi _ _ _ hrotate _ =>
    obtain ⟨howned, hlive, hne, hknown⟩ := h.rotate hrotate
    refine h.advance hi ⟨howned, ?_, fun _ => ⟨hne, hknown⟩, fun hr => (by cases hr)⟩
    by_contra hended
    have hstill := h.begun _ _ hi _ ((Bool.not_eq_false _).mp hended)
    exact absurd (hstill.symm.trans hlive) (by simp)
  | poll hd _ _ happroved _ =>
    have howned := h.devices _ _ hd happroved
    exact h.setDevices (forall_update h.devices fun _ => howned)
      (forall_mem_cons.mpr ⟨howned, h.handed⟩)
  | @beginDevice i c d hi hd _ =>
    have hgranted : Granted s s.ended .device (deviceArgs c d) :=
      ⟨h.handed d hd, hcareful, fun hr => (by cases hr), fun _ => rfl⟩
    have hbegun := @Inv.begin _ _ i s.clock (.granted .device c (deviceArgs c d)) h hi hgranted
    exact hbegun.setDevices hbegun.devices fun d' hd' => h.handed d' (mem_of_mem_erase hd')
  | mint hi hphase hmint =>
    have hgranted := h.txs _ _ hi
    rw [hphase] at hgranted
    exact h.advance hi ⟨_, Granted.mint hgranted hmint⟩
  | commit hi hphase hnew _ => exact h.commit hi hphase hnew
  | fail hi _ => exact h.advance hi trivial

theorem inv_run (hrun : Run (CarefulStep challengeOf hashToken) {} xs s) : Inv s :=
  hrun.invariant (I := fun _ s => Inv s) ⟨by simp, by simp, by simp, by simp, by simp, by simp,
    by simp⟩ fun h hstep => h.step hstep

/-- In every run whose redeemed codes and minted approvals are of sessions that had not ended, no
transaction that began after a session had ended has issued a token that carries it. -/
theorem ended_mints_nothing {sid : String}
    (hrun : Run (CarefulStep challengeOf hashToken) {} xs s) (hissued : (i, m) ∈ s.issued)
    (htx : s.txs i = some tx) (hended : tx.ended sid = true) : ¬Carries s m sid := by
  obtain ⟨tx', sid', htx', hans⟩ := (inv_run hrun).issued i m hissued
  obtain rfl : tx = tx' := Option.some.inj (htx.symm.trans htx')
  rintro (hsid | ⟨t, ht, hsid⟩ | ⟨r, fam, hr, hfam, hsid⟩)
  · rw [← hsid, hans.access, hans.live] at hended
    cases hended
  · rw [← hsid, hans.idToken t ht, hans.live] at hended
    cases hended
  · obtain ⟨fam', hfam', hsid'⟩ := hans.refresh r hr
    obtain rfl : fam = fam' := Option.some.inj (hfam.symm.trans hfam')
    rw [← hsid, hsid', hans.live] at hended
    cases hended

def shop : Client where
  clientID := "shop"
  type := .publicClient
  requirePKCE := false

def shopCode : CodeRow where
  orgID := "o0"
  clientID := "shop"
  sid := "s0"
  userID := "alice"
  redirectURI := "https://shop/cb"
  scopes := ["openid", "offline_access"]
  codeChallenge := none
  codeChallengeMethod := none
  nonce := none
  resources := []
  expiresAt := 600
  dpopJKT := none
  authorizationDetails := []

def shopRequest : TokenRequest where
  grantType := "authorization_code"
  code := "code"
  redirectURI := "https://shop/cb"
  clientID := "shop"

def shopEnv : MintEnv String where
  issuer := "https://idp"
  now := 0
  newSID := some "j0"
  newFamilyID := some "g0"
  newRefresh := some "r0"

def shopArgs : MintArgs := codeArgs shopCode.consumed

def shopIssued (row : SessionRow) : Issued String where
  access := accessClaims shopEnv shop shopArgs "j0" none "g0"
  idToken := some (idClaims shopEnv shop shopArgs none row)
  familyID := "g0"
  family := some (newFamilyRow shopEnv shop shopArgs)
  refresh := some ("r0", {
    familyID := "g0"
    scopes := shopArgs.scopes
    resources := []
    expiresAt := 0 + GoTime.seconds shop.refreshTokenTTLSeconds })

theorem mintSet_shop {sessions : Sessions} {row : SessionRow} (hrow : sessions "s0" = some row)
    (hself : row.impersonatorID = none) :
    mintSet shopEnv sessions shop shopArgs = some (shopIssued row) := by
  have hactor : sessionActor sessions shopArgs.sid = some none := by
    simp [sessionActor, shopArgs, codeArgs, shopCode, AuthorizationCodes.CodeRow.consumed, hrow,
      hself]
  have hid : mintIDToken shopEnv sessions shop shopArgs none =
      some (some (idClaims shopEnv shop shopArgs none row)) := by
    simp [mintIDToken, shopArgs, codeArgs, shopCode, AuthorizationCodes.CodeRow.consumed, hrow,
      shopEnv]
  exact mintSet_of rfl rfl hactor rfl rfl hid rfl

def sampleSession (userID : String) : SessionRow where
  userID := userID
  notAfter := 9000

def openSessions : Sessions :=
  update (update (fun _ => none) "s0" (some (sampleSession "alice"))) "s1"
    (some (sampleSession "bob"))

def openCodes : CodeTable String := update (fun _ => none) "code" (some shopCode)

def prepared (sid : String) : State String where
  sessions := revokeRows openSessions (· == sid) 0
  codes := openCodes
  store := endFamilies {} openSessions (.sid sid) 0

theorem prepared_run {sid : String} (hsid : targeted openSessions (.sid sid) sid = true) :
    Run (CarefulStep id id) {} [.quiet, .quiet, .quiet, .quiet] (prepared sid) := by
  have hfirst : Run (CarefulStep id id) {} [.quiet] _ :=
    Run.nil.snoc ⟨@Step.insert String _ _ _ {} "s0" (sampleSession "alice") rfl (by decide) rfl,
      trivial⟩
  have hboth := hfirst.snoc ⟨@Step.insert String _ _ _ _ "s1" (sampleSession "bob") rfl
    (by decide) rfl, trivial⟩
  have hcode := hboth.snoc ⟨@Step.issueCode String _ _ _ _ "code" shopCode _ _ rfl rfl rfl rfl,
    trivial⟩
  refine hcode.snoc ⟨@Step.terminate String _ _ _ _ (.sid sid) (· == sid) 0 fun t ht => ?_, trivial⟩
  rw [beq_iff_eq] at ht
  exact ht ▸ hsid

theorem CarefulStep.run (hrun : Run (CarefulStep challengeOf hashToken) s xs s') :
    Run (Step challengeOf hashToken) s xs s' := by
  induction hrun with
  | nil => exact .nil
  | snoc _ hx ih => exact ih.snoc hx.1

theorem redeemed_run {R : State String → Obs → State String → Prop} {s : State String}
    {row : SessionRow} (hrow : s.sessions "s0" = some row) (hself : row.impersonatorID = none)
    (hcode : s.codes "code" = some shopCode) (hstore : s.store.families "g0" = none)
    (htokens : s.store.tokens "r0" = none) (htxs : ∀ i, s.txs i = none)
    (hquiet : ∀ {a b : State String}, Step id id a .quiet b → R a .quiet b)
    (hredeem : ∀ {a b : State String}, (∀ tx, a.txs 0 = some tx → tx.ended = s.ended) →
      Step id id a (.redeemed 0 "s0") b → R a (.redeemed 0 "s0") b) :
    ∃ s' tx, Run R s [.quiet, .redeemed 0 "s0", .quiet, .quiet] s' ∧
      (0, shopIssued row) ∈ s'.issued ∧ s'.txs 0 = some tx ∧ tx.ended = s.ended := by
  have hbegin : Run R s [.quiet] (s.set 0 ⟨s.clock, s.ended, .redeeming shopRequest shop⟩) :=
    Run.nil.snoc (hquiet (.beginCode (htxs 0)))
  have hfree : (s.set 0 ⟨s.clock, s.ended, .redeeming shopRequest shop⟩).free (.code "code") := by
    intro i tx htx
    by_cases hi : i = 0
    · subst hi
      rw [set_txs_self, Option.some.injEq] at htx
      subst htx
      simp [Phase.spent]
    · rw [set_txs_of_ne hi, htxs i] at htx
      cases htx
  have hconsume : consumeCode s.codes "code" s.clock = .ok (shopCode.consumed,
      update s.codes "code" (some { shopCode with consumedAt := some s.clock })) := by
    rw [consumeCode, hcode]
    rfl
  have hredeemed := hbegin.snoc (hredeem (fun tx htx => by
    rw [set_txs_self, Option.some.injEq] at htx
    rw [← htx]) (@Step.redeem String _ id id _ 0 _ shopRequest shop _ _ "" 0 (set_txs_self ..) rfl
      hfree hconsume rfl))
  have hminted := hredeemed.snoc (hquiet (.mint (set_txs_self ..) rfl (mintSet_shop hrow hself)))
  have hname : (shopIssued row).familyID ≠ "" := by simp [shopIssued]
  have hdone := hminted.snoc (hquiet (.commit (set_txs_self ..) rfl
    (fun _ _ => ⟨hname, hstore⟩) fun hash row' heq => by
      obtain ⟨rfl, _⟩ := Prod.mk.inj (Option.some.inj heq)
      exact htokens))
  exact ⟨_, _, hdone, mem_cons_self .., commit_txs_self .., rfl⟩

/-- With another session terminated, the tokens are not of that one. -/
theorem ended_mints_nothing_shop : ∃ xs s tx row, Run (CarefulStep id id) {} xs s ∧
    (0, shopIssued row) ∈ s.issued ∧ s.txs 0 = some tx ∧ tx.ended "s1" = true ∧
      ¬Carries s (shopIssued row) "s1" := by
  have hlive : (prepared "s1").ended "s0" = false := rfl
  have hended : (prepared "s1").ended "s1" = true := rfl
  obtain ⟨s, tx, hrun, hmem, htx, heq⟩ := redeemed_run (R := CarefulStep id id)
    (s := prepared "s1") rfl rfl rfl rfl rfl (fun _ => rfl) (fun hstep => ⟨hstep, trivial⟩)
    fun hsame hstep => ⟨hstep, fun tx htx => by rw [hsame tx htx, hlive]⟩
  have hwhole := (prepared_run rfl).append hrun
  have hdead : tx.ended "s1" = true := by rw [heq, hended]
  exact ⟨_, s, tx, _, hwhole, hmem, htx, hdead, ended_mints_nothing hwhole hmem htx hdead⟩

/-- A code outlives its session: redeemed after the termination, it yields tokens of it. -/
theorem code_outlives_session : ∃ xs s i tx m sid, Run (Step (D := String) id id) {} xs s ∧
    (i, m) ∈ s.issued ∧ s.txs i = some tx ∧ tx.ended sid = true ∧ Carries s m sid := by
  obtain ⟨s, tx, hrun, hmem, htx, heq⟩ := redeemed_run (R := Step id id) (s := prepared "s0") rfl
    rfl rfl rfl rfl (fun _ => rfl) (fun hstep => hstep) fun _ hstep => hstep
  have hended : (prepared "s0").ended "s0" = true := rfl
  have hwhole := Run.append (CarefulStep.run (prepared_run rfl)) hrun
  exact ⟨_, s, 0, tx, _, "s0", hwhole, hmem, htx, by rw [heq, hended], .inl rfl⟩

end Signari.EndedSessions
