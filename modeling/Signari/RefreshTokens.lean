import Signari.AccessTokens
import Signari.LabelledRuns
import Signari.ScopeLists

/-!
# Refresh tokens

`internal/store/refresh.go` and `handleRefreshGrant` of `internal/httpapi/flow.go`, with what
`mintFromGrant` and `mintSet` do to a lineage. A refresh request is a transaction of several
statements, and the requests interleave between the statements. `Step` has one constructor for each:
statements see what is committed when they begin, as PostgreSQL's READ COMMITTED gives, and an end
of transaction publishes or drops everything at once. The consuming UPDATE takes two steps: it finds
its row, and it marks it when no other transaction has it marked. What it found then stands, unless
the row itself has been consumed in between.

What the statements find in other tables (the user, the session), the clock and
the drawn token are free. The database may fail any statement; the answer that the
handler then gives before it holds a token is an outcome of its own, `failed`.
-/
namespace Signari.RefreshTokens
open GoTime OAuthClients RichDetails ScopeLists IndexedChecks Function

structure FamilyRow where
  orgID : String
  clientID : String
  userID : String
  sid : String
  details : List Detail
  dpopJKT : String
  certThumbprint : String
  revokedAt : Option ℤ := none

structure TokenRow (D : Type) where
  familyID : String
  scopes : List String
  resources : List String
  expiresAt : ℤ
  consumedAt : Option ℤ := none
  successor : Option D := none

/-- What a rotation returns of a token and its family. -/
structure RefreshGrant where
  familyID : String
  clientID : String
  userID : String
  sessionID : String
  orgID : String
  scopes : List String
  resources : List String
  details : List Detail
  dpopJKT : String
  certThumbprint : String

/-- The two tables of a lineage, as committed. -/
structure Store (D : Type) where
  tokens : D → Option (TokenRow D) := fun _ => none
  families : String → Option FamilyRow := fun _ => none

/-- What the rotation's joins find of the user and of the session. -/
structure Standing where
  userActive : Bool
  sessionLive : Bool

variable {D : Type}

def grantOf (row : TokenRow D) (fam : FamilyRow) : RefreshGrant where
  familyID := row.familyID
  clientID := fam.clientID
  userID := fam.userID
  sessionID := fam.sid
  orgID := fam.orgID
  scopes := row.scopes
  resources := row.resources
  details := fam.details
  dpopJKT := fam.dpopJKT
  certThumbprint := fam.certThumbprint

/-- The UPDATE of `RotateRefreshToken`: the grant of the row it matches. -/
def rotateRefreshToken (st : Store D) (hash : D) (standing : Standing) (now : ℤ) :
    Option RefreshGrant :=
  match st.tokens hash with
  | none => none
  | some row =>
    match st.families row.familyID with
    | none => none
    | some fam =>
      if row.consumedAt = none ∧ now < row.expiresAt ∧ fam.revokedAt = none ∧
          standing.userActive = true ∧ standing.sessionLive = true
      then some (grantOf row fam) else none

theorem rotateRefreshToken_eq_some {st : Store D} {hash : D} {standing : Standing} {now : ℤ}
    {g : RefreshGrant} (h : rotateRefreshToken st hash standing now = some g) :
    ∃ row fam, st.tokens hash = some row ∧ row.consumedAt = none ∧
      st.families row.familyID = some fam ∧ fam.revokedAt = none ∧ g = grantOf row fam := by
  unfold rotateRefreshToken at h
  cases hrow : st.tokens hash with
  | none => simp [hrow] at h
  | some row =>
    cases hfam : st.families row.familyID with
    | none => simp [hrow, hfam] at h
    | some fam =>
      simp only [hrow, hfam] at h
      split at h
      · rename_i hok
        rw [Option.some.injEq] at h
        exact ⟨row, fam, rfl, hok.1, hfam, hok.2.2.1, h.symm⟩
      · simp at h

theorem rotateRefreshToken_standing {st : Store D} {hash : D} {standing : Standing} {now : ℤ}
    {g : RefreshGrant} (h : rotateRefreshToken st hash standing now = some g) :
    standing.userActive = true ∧ standing.sessionLive = true := by
  unfold rotateRefreshToken at h
  cases hrow : st.tokens hash with
  | none => simp [hrow] at h
  | some row =>
    cases hfam : st.families row.familyID with
    | none => simp [hrow, hfam] at h
    | some fam =>
      simp only [hrow, hfam] at h
      split at h
      · rename_i hok
        exact hok.2.2.2
      · simp at h

/-- The SELECT that tells reuse from every other miss. -/
def isConsumed (st : Store D) (hash : D) : Bool :=
  (st.tokens hash).any fun row => row.consumedAt.isSome

def FamilyRow.revoke (fam : FamilyRow) (now : ℤ) : FamilyRow :=
  if fam.revokedAt = none then { fam with revokedAt := some now } else fam

theorem revoke_owner (fam : FamilyRow) (now : ℤ) :
    (fam.revoke now).sid = fam.sid ∧ (fam.revoke now).userID = fam.userID := by
  unfold FamilyRow.revoke
  split_ifs <;> exact ⟨rfl, rfl⟩

theorem revoke_client (fam : FamilyRow) (now : ℤ) : (fam.revoke now).clientID = fam.clientID := by
  unfold FamilyRow.revoke
  split_ifs <;> rfl

theorem revoke_revokedAt (fam : FamilyRow) (now : ℤ) : (fam.revoke now).revokedAt ≠ none := by
  unfold FamilyRow.revoke
  split_ifs with h
  · simp
  · exact h

def revokeFamily (st : Store D) (familyID : String) (now : ℤ) : Store D :=
  ⟨st.tokens, update st.families familyID ((st.families familyID).map fun fam => fam.revoke now)⟩

/-- `RevokeFamilyByToken`. -/
def revokeFamilyByToken (st : Store D) (hash : D) (now : ℤ) : Store D := match st.tokens hash with
  | none => st
  | some row => revokeFamily st row.familyID now

def commitRotation [DecidableEq D] (st : Store D) (hash : D) (now : ℤ)
    (successor : Option (D × TokenRow D)) : Store D :=
  let marked := update st.tokens hash ((st.tokens hash).map fun row =>
    { row with consumedAt := some now, successor := successor.map Prod.fst })
  match successor with
  | none => ⟨marked, st.families⟩
  | some (hash', row') => ⟨update marked hash' (some row'), st.families⟩

/-- A refresh request as the handler receives it, the client already authenticated. -/
structure RefreshCall where
  client : Client
  refreshToken : String
  scope : String := ""
  jkt : String := ""
  cert : String := ""

/-- The checks before a transaction is opened. -/
def checkRefreshCall (r : RefreshCall) : Except TokenError Unit := do
  refuseIf (r.refreshToken = "") ⟨"invalid_request", "refresh_token is required", 400⟩
  refuseIf (r.client.allowsGrantType "refresh_token" = false)
    ⟨"unauthorized_client", "client may not use the refresh_token grant", 400⟩

def checkProof (r : RefreshCall) (g : RefreshGrant) : Except TokenError Unit :=
  if g.dpopJKT ≠ "" ∧ r.client.type ≠ .confidentialClient then do
    refuseIf (r.jkt = "") ⟨"invalid_dpop_proof", "this refresh token is bound to a DPoP key " ++
      "and must be presented with a proof of possession for that key", 400⟩
    refuseIf (r.jkt ≠ g.dpopJKT) ⟨"invalid_dpop_proof", "the DPoP proof is for a different " ++
      "key than the one this refresh token is bound to", 400⟩
  else .ok ()

def checkCertificate (r : RefreshCall) (g : RefreshGrant) : Except TokenError Unit :=
  if g.certThumbprint ≠ "" ∧ r.client.type ≠ .confidentialClient then do
    refuseIf (r.cert = "") ⟨"invalid_grant", "this refresh token is bound to a client " ++
      "certificate and must be presented over a mutually authenticated connection using " ++
      "that certificate", 400⟩
    refuseIf (r.cert ≠ g.certThumbprint) ⟨"invalid_grant", "the client certificate on this " ++
      "connection is not the one this refresh token is bound to", 400⟩
  else .ok ()

def narrowedScopes (r : RefreshCall) (g : RefreshGrant) : Except TokenError (List String) :=
  if r.scope = "" then .ok g.scopes
  else do
    let requested := splitScopes r.scope
    checkAll (fun _ sc => refuseIf (sc ∉ g.scopes) ⟨"invalid_scope", "scope " ++ sc ++
      " was not granted to this refresh token; a refresh may narrow what was granted, " ++
      "never widen it", 400⟩) 0 requested
    refuseIf ("offline_access" ∈ g.scopes ∧ "offline_access" ∉ requested) ⟨"invalid_scope",
      "this refresh token was granted offline_access and the requested scope omits it, which " ++
        "would end the refresh chain; include offline_access, or stop refreshing", 400⟩
    .ok (if requested = [] then g.scopes else requested)

theorem narrowedScopes_subset {r : RefreshCall} {g : RefreshGrant} {scopes : List String}
    (h : narrowedScopes r g = .ok scopes) : scopes ⊆ g.scopes := by
  unfold narrowedScopes at h
  by_cases hscope : r.scope = ""
  · rw [if_pos hscope, Except.ok.injEq] at h
    subst h
    exact List.Subset.refl _
  · rw [if_neg hscope] at h
    simp only [seq_ok, refuseIf_ok, Except.ok.injEq] at h
    obtain ⟨hall, -, rfl⟩ := h
    split
    · exact List.Subset.refl _
    · intro sc hsc
      obtain ⟨_, hgranted⟩ := checkAll_mem hall hsc
      simpa using hgranted

def checkRefresh (r : RefreshCall) (g : RefreshGrant) : Except TokenError (List String) := do
  refuseIf (g.clientID ≠ r.client.clientID)
    ⟨"invalid_grant", "refresh token was not issued to this client", 400⟩
  checkProof r g
  checkCertificate r g
  narrowedScopes r g

theorem checkRefresh_subset {r : RefreshCall} {g : RefreshGrant} {scopes : List String}
    (h : checkRefresh r g = .ok scopes) : scopes ⊆ g.scopes := by
  simp only [checkRefresh, seq_ok] at h
  exact narrowedScopes_subset h.2.2.2

/-- The token issued in the place of a rotated one; there is none without `offline_access`. -/
def successorRow (r : RefreshCall) (g : RefreshGrant) (scopes : List String) (now : ℤ) :
    Option (TokenRow D) :=
  if "offline_access" ∈ scopes then
    some {
      familyID := g.familyID
      scopes := scopes
      resources := g.resources
      expiresAt := now + seconds r.client.refreshTokenTTLSeconds }
  else none

theorem successorRow_eq_some {r : RefreshCall} {g : RefreshGrant} {scopes : List String} {now : ℤ}
    {row : TokenRow D} (h : successorRow r g scopes now = some row) :
    row.familyID = g.familyID ∧ row.scopes = scopes ∧ row.consumedAt = none ∧
      row.successor = none := by
  unfold successorRow at h
  split at h
  · rw [Option.some.injEq] at h
    subst h
    exact ⟨rfl, rfl, rfl, rfl⟩
  · simp at h

def invalidOrExpired : TokenError := ⟨"invalid_grant", "refresh token is invalid or expired", 400⟩

def alreadyUsed : TokenError := ⟨"invalid_grant", "refresh token has already been used", 400⟩

/-- Where a transaction stands. A token is marked from `holding` on, uncommitted. -/
inductive Phase (D : Type) where
  | began
  | waiting (g : RefreshGrant) (since : ℤ)
  | missed
  | reuse
  | revoking (since : ℤ)
  | holding (g : RefreshGrant) (since : ℤ)
  | minted (g : RefreshGrant) (since : ℤ) (successor : Option (D × TokenRow D))
  | done

/-- The answer to a failure of the database where no token is held yet. -/
def Phase.failure : Phase D → Option TokenError
  | .began | .waiting .. | .missed => some invalidOrExpired
  | .reuse | .revoking _ => some alreadyUsed
  | .holding .. | .minted .. | .done => none

structure Tx (D : Type) where
  call : RefreshCall
  phase : Phase D

/-- The committed tables, the row and key locks, and the transactions. -/
structure State (D : Type) where
  store : Store D := {}
  locks : D → Option ℕ := fun _ => none
  inserting : D → Option ℕ := fun _ => none
  txs : ℕ → Option (Tx D) := fun _ => none

def State.setTx (s : State D) (i : ℕ) (tx : Tx D) : State D :=
  { s with txs := update s.txs i (some tx) }

/-- The locks a transaction leaves when it ends. -/
def releaseLocks (locks : D → Option ℕ) (i : ℕ) : D → Option ℕ :=
  fun k => if locks k = some i then none else locks k

/-- The end of a transaction, with the tables as it leaves them. -/
def State.finish (s : State D) (i : ℕ) (call : RefreshCall) (store : Store D) : State D where
  store := store
  locks := releaseLocks s.locks i
  inserting := releaseLocks s.inserting i
  txs := update s.txs i (some ⟨call, .done⟩)

/-- `reused` is answered as `alreadyUsed`, with the family revoked. -/
inductive Answer (D : Type) where
  | tokens (successor : Option D)
  | reused
  | refused (e : TokenError)
  | failed (e : TokenError)

inductive Event (D : Type) where
  | began (call : RefreshCall)
  | found (g : RefreshGrant)
  | accepted (g : RefreshGrant)
  | missed
  | reuseFound
  | revoking
  | minted
  | aborted
  | answered (a : Answer D)

/-- What is seen of a step: a transaction's statement with the token it is about, a lineage
that begins, or one that another endpoint revokes. -/
inductive Obs (D : Type) where
  | established (familyID : String) (fam : FamilyRow) (hash : D) (row : TokenRow D)
  | revokedElsewhere (familyID : String)
  | turnedAway (call : RefreshCall) (e : TokenError)
  | tx (i : ℕ) (hash : D) (event : Event D)

variable [DecidableEq D] (hashToken : String → D)

/-- One statement of one request, or one step of the rest of the server. -/
inductive Step : State D → Obs D → State D → Prop
  | establish {s : State D} {f : String} {fam : FamilyRow} {hash : D} {row : TokenRow D} :
      s.store.families f = none → s.store.tokens hash = none → s.inserting hash = none →
      fam.sid ≠ "" → fam.revokedAt = none → row.familyID = f → "offline_access" ∈ row.scopes →
      row.consumedAt = none → row.successor = none →
      Step s (.established f fam hash row)
        { s with store := ⟨update s.store.tokens hash (some row),
            update s.store.families f (some fam)⟩ }
  | revokeElsewhere {s : State D} {f : String} {now : ℤ} :
      Step s (.revokedElsewhere f) { s with store := revokeFamily s.store f now }
  | turnAway {s : State D} {call : RefreshCall} {e : TokenError} :
      checkRefreshCall call = .error e → Step s (.turnedAway call e) s
  | beginFails {s : State D} {call : RefreshCall} :
      checkRefreshCall call = .ok () → Step s (.turnedAway call serverError) s
  | begin {s : State D} {i : ℕ} {call : RefreshCall} :
      s.txs i = none → checkRefreshCall call = .ok () →
      Step s (.tx i (hashToken call.refreshToken) (.began call)) (s.setTx i ⟨call, .began⟩)
  | find {s : State D} {i : ℕ} {call : RefreshCall} {standing : Standing} {now : ℤ}
      {g : RefreshGrant} :
      s.txs i = some ⟨call, .began⟩ →
      rotateRefreshToken s.store (hashToken call.refreshToken) standing now = some g →
      Step s (.tx i (hashToken call.refreshToken) (.found g)) (s.setTx i ⟨call, .waiting g now⟩)
  | accept {s : State D} {i : ℕ} {call : RefreshCall} {g : RefreshGrant} {since : ℤ} :
      s.txs i = some ⟨call, .waiting g since⟩ →
      isConsumed s.store (hashToken call.refreshToken) = false →
      s.locks (hashToken call.refreshToken) = none →
      Step s (.tx i (hashToken call.refreshToken) (.accepted g))
        { s.setTx i ⟨call, .holding g since⟩ with
          locks := update s.locks (hashToken call.refreshToken) (some i) }
  | overtaken {s : State D} {i : ℕ} {call : RefreshCall} {g : RefreshGrant} {since : ℤ} :
      s.txs i = some ⟨call, .waiting g since⟩ →
      isConsumed s.store (hashToken call.refreshToken) = true →
      Step s (.tx i (hashToken call.refreshToken) .missed) (s.setTx i ⟨call, .missed⟩)
  | miss {s : State D} {i : ℕ} {call : RefreshCall} {standing : Standing} {now : ℤ} :
      s.txs i = some ⟨call, .began⟩ →
      rotateRefreshToken s.store (hashToken call.refreshToken) standing now = none →
      Step s (.tx i (hashToken call.refreshToken) .missed) (s.setTx i ⟨call, .missed⟩)
  | findReuse {s : State D} {i : ℕ} {call : RefreshCall} :
      s.txs i = some ⟨call, .missed⟩ →
      isConsumed s.store (hashToken call.refreshToken) = true →
      Step s (.tx i (hashToken call.refreshToken) .reuseFound) (s.setTx i ⟨call, .reuse⟩)
  | answerInvalid {s : State D} {i : ℕ} {call : RefreshCall} :
      s.txs i = some ⟨call, .missed⟩ →
      isConsumed s.store (hashToken call.refreshToken) = false →
      Step s (.tx i (hashToken call.refreshToken) (.answered (.refused invalidOrExpired)))
        (s.finish i call s.store)
  | revoke {s : State D} {i : ℕ} {call : RefreshCall} {now : ℤ} :
      s.txs i = some ⟨call, .reuse⟩ →
      Step s (.tx i (hashToken call.refreshToken) .revoking) (s.setTx i ⟨call, .revoking now⟩)
  | commitRevoke {s : State D} {i : ℕ} {call : RefreshCall} {since : ℤ} :
      s.txs i = some ⟨call, .revoking since⟩ →
      Step s (.tx i (hashToken call.refreshToken) (.answered .reused))
        (s.finish i call (revokeFamilyByToken s.store (hashToken call.refreshToken) since))
  | fail {s : State D} {i : ℕ} {tx : Tx D} {e : TokenError} :
      s.txs i = some tx → tx.phase.failure = some e →
      Step s (.tx i (hashToken tx.call.refreshToken) (.answered (.failed e)))
        (s.finish i tx.call s.store)
  | refuse {s : State D} {i : ℕ} {call : RefreshCall} {g : RefreshGrant} {since : ℤ}
      {e : TokenError} :
      s.txs i = some ⟨call, .holding g since⟩ → checkRefresh call g = .error e →
      Step s (.tx i (hashToken call.refreshToken) (.answered (.refused e)))
        (s.finish i call s.store)
  | mintFails {s : State D} {i : ℕ} {call : RefreshCall} {g : RefreshGrant} {since : ℤ}
      {scopes : List String} :
      s.txs i = some ⟨call, .holding g since⟩ → checkRefresh call g = .ok scopes →
      Step s (.tx i (hashToken call.refreshToken) (.answered (.refused serverError)))
        (s.finish i call s.store)
  | mint {s : State D} {i : ℕ} {call : RefreshCall} {g : RefreshGrant} {since now : ℤ}
      {scopes : List String} {hash : D} {row : TokenRow D} :
      s.txs i = some ⟨call, .holding g since⟩ → checkRefresh call g = .ok scopes →
      successorRow call g scopes now = some row →
      s.store.tokens hash = none → s.inserting hash = none →
      Step s (.tx i (hashToken call.refreshToken) .minted)
        { s.setTx i ⟨call, .minted g since (some (hash, row))⟩ with
          inserting := update s.inserting hash (some i) }
  | mintLast {s : State D} {i : ℕ} {call : RefreshCall} {g : RefreshGrant} {since now : ℤ}
      {scopes : List String} :
      s.txs i = some ⟨call, .holding g since⟩ → checkRefresh call g = .ok scopes →
      successorRow (D := D) call g scopes now = none →
      Step s (.tx i (hashToken call.refreshToken) .minted) (s.setTx i ⟨call, .minted g since none⟩)
  | commit {s : State D} {i : ℕ} {call : RefreshCall} {g : RefreshGrant} {since : ℤ}
      {successor : Option (D × TokenRow D)} :
      s.txs i = some ⟨call, .minted g since successor⟩ →
      Step s (.tx i (hashToken call.refreshToken) (.answered (.tokens (successor.map Prod.fst))))
        (s.finish i call (commitRotation s.store (hashToken call.refreshToken) since successor))
  | commitFails {s : State D} {i : ℕ} {call : RefreshCall} {g : RefreshGrant} {since : ℤ}
      {successor : Option (D × TokenRow D)} :
      s.txs i = some ⟨call, .minted g since successor⟩ →
      Step s (.tx i (hashToken call.refreshToken) (.answered (.refused serverError)))
        (s.finish i call s.store)
  | abort {s : State D} {i : ℕ} {tx : Tx D} :
      s.txs i = some tx → tx.phase ≠ .done →
      Step s (.tx i (hashToken tx.call.refreshToken) .aborted) (s.finish i tx.call s.store)

end Signari.RefreshTokens
