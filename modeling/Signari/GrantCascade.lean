import Signari.TokenChecks

/-!
# What revoking a grant reaches

A refresh token family is a grant, and every access token minted from it names it. A token in the
state remembers the family it descends from and the number of exchanges in between, which no check
sees.

An exchange does not copy the grant into the token it signs. What comes out has no grant that
could be revoked, and `revoked_reaches_iff` says what is left: after a revocation the tokens
minted from the family are refused everywhere, and an exchanged one only for reasons of its own.
-/
namespace Signari.GrantCascade
open IndexedChecks UrlValues OAuthClients AccessTokens TokenExchange RefreshTokens TokenMinting List
open TokenChecks LabelledRuns

/-- A signed token with its origin: the family, empty for none, and the exchanges since. -/
structure Token where
  claims : AccessTokenClaims
  family : String
  exchanges : ℕ

/-- The tables, the clock, the tokens signed so far and the family ids drawn so far: an id is a
random uuid, and no two are alike. -/
structure State where
  now : ℤ := 0
  db : Tables := {}
  drawn : List String := []
  tokens : List Token := []

inductive Event where
  | waited | minted | exchanged | revoked | deleted | changed

variable {D : Type}

def State.sign (s : State) (t : Token) : State := { s with tokens := t :: s.tokens }

def State.setFamilies (s : State) (families : String → Option FamilyRow) : State :=
  { s with db := { s.db with families := families } }

def State.mint (s : State) (m : Issued D) : State := match m.family with
  | none => s.sign ⟨m.access, m.familyID, 0⟩
  | some row =>
    { s.setFamilies (Function.update s.db.families m.familyID (some row)) with
      drawn := m.familyID :: s.drawn
      tokens := ⟨m.access, m.familyID, 0⟩ :: s.tokens }

/-- `revoke` is any UPDATE that revokes the families its WHERE clause selects: by the client, on
the reuse of a refresh token or of a code, with a consent or with a session. `sign` is every
grant that mints without a family, and `change` is whatever else happens to the other tables. -/
inductive Step (D : Type) (srv : Server) : State → Event → State → Prop
  | wait {s : State} {t : ℤ} : s.now ≤ t → Step D srv s .waited { s with now := t }
  | mint {s : State} {env : MintEnv D} {c : Client} {a : MintArgs} {m : Issued D} :
      env.issuer = srv.issuer → env.now = s.now → (a.familyID = "" ∨ a.familyID ∈ s.drawn) →
      mintSet env s.db.sessions c a = some m →
      (∀ row, m.family = some row → m.familyID ≠ "" ∧ m.familyID ∉ s.drawn) →
      Step D srv s .minted (s.mint m)
  | sign {s : State} {t : AccessTokenClaims} :
      t.grantID = "" → Step D srv s .minted (s.sign ⟨t, "", 0⟩)
  | exchange {s : State} {up : Lookup → Bool} {jkt : String} {key : Bool} {sid : Option String}
      {c : Client} {form : Values} {subject : Token} {token : AccessTokenClaims} :
      subject ∈ s.tokens →
      srv.verify s.now (parseExchange form).subjectToken = .ok subject.claims →
      handleTokenExchange (srv.exchangeEnv s.db up s.now jkt key sid) c form = .ok token →
      Step D srv s .exchanged (s.sign ⟨token, subject.family, subject.exchanges + 1⟩)
  | revoke {s : State} {selected : String → FamilyRow → Bool} :
      Step D srv s .revoked (s.setFamilies fun g => (s.db.families g).map fun fam =>
        if selected g fam then fam.revoke s.now else fam)
  | delete {s : State} {selected : String → FamilyRow → Bool} :
      Step D srv s .deleted (s.setFamilies fun g => (s.db.families g).filter fun fam =>
        !selected g fam)
  | change {s : State} {db : Tables} :
      db.families = s.db.families → Step D srv s .changed { s with db := db }

/-- The family has been established, and its row is revoked or gone. -/
def Revoked (s : State) (g : String) : Prop :=
  g ∈ s.drawn ∧ ∀ fam, s.db.families g = some fam → fam.revokedAt ≠ none

def NamesGrant (t : Token) : Prop :=
  (t.exchanges = 0 → t.claims.grantID = t.family) ∧ (t.exchanges ≠ 0 → t.claims.grantID = "")

structure Inv (s : State) : Prop where
  tokens : ∀ t ∈ s.tokens, NamesGrant t
  drawn : "" ∉ s.drawn

variable {srv : Server} {s s' : State} {x : Event} {xs ys : List Event} {g : String}

theorem handleTokenExchange_grantID {env : ExchangeEnv} {c : Client} {form : Values}
    {token : AccessTokenClaims} (h : handleTokenExchange env c form = .ok token) :
    token.grantID = "" := by
  simp only [handleTokenExchange, bind_ok] at h
  obtain ⟨_, _, _, _, _, _, _, _, _, _, _, _, _, _, _, _, h⟩ := h
  cases hsid : env.newSID with
  | none => simp [hsid] at h
  | some jti =>
    simp only [hsid, bind_ok, Except.ok.injEq] at h
    obtain ⟨_, _, rfl⟩ := h
    rfl

theorem Inv.sign (h : Inv s) {t : Token} (ht : NamesGrant t) : Inv (s.sign t) :=
  ⟨forall_mem_cons.mpr ⟨ht, h.tokens⟩, h.drawn⟩

theorem Inv.mint (h : Inv s) {m : Issued D} (hgrant : m.access.grantID = m.familyID)
    (hnew : ∀ row, m.family = some row → m.familyID ≠ "" ∧ m.familyID ∉ s.drawn) :
    Inv (s.mint m) := by
  have ht : NamesGrant ⟨m.access, m.familyID, 0⟩ := ⟨fun _ => hgrant, fun h => absurd rfl h⟩
  cases hm : m.family with
  | none =>
    rw [State.mint, hm]
    exact h.sign ht
  | some row =>
    rw [State.mint, hm]
    refine ⟨forall_mem_cons.mpr ⟨ht, h.tokens⟩, ?_⟩
    rw [mem_cons, not_or]
    exact ⟨(hnew row hm).1.symm, h.drawn⟩

theorem Inv.step (h : Inv s) (hstep : Step D srv s x s') : Inv s' := by
  cases hstep with
  | wait _ => exact ⟨h.tokens, h.drawn⟩
  | mint _ _ _ hm hnew => exact h.mint (mintSet_spec hm).grantID hnew
  | sign ht => exact h.sign ⟨fun _ => ht, fun h => absurd rfl h⟩
  | exchange _ _ hx =>
    exact h.sign ⟨fun h => absurd h (Nat.succ_ne_zero _), fun _ => handleTokenExchange_grantID hx⟩
  | revoke | delete | change _ => exact ⟨h.tokens, h.drawn⟩

theorem inv_run (hrun : Run (Step D srv) {} xs s) : Inv s :=
  hrun.invariant (I := fun _ s => Inv s) ⟨by simp, by simp⟩ fun h hstep => h.step hstep

theorem Revoked.step (h : Revoked s g) (hstep : Step D srv s x s') : Revoked s' g := by
  obtain ⟨hdrawn, hgone⟩ := h
  cases hstep with
  | wait _ => exact ⟨hdrawn, hgone⟩
  | @mint env c a m _ _ _ hm hnew =>
    cases hfam : m.family with
    | none =>
      rw [State.mint, hfam]
      exact ⟨hdrawn, hgone⟩
    | some row =>
      rw [State.mint, hfam]
      have hne : g ≠ m.familyID := by
        rintro rfl
        exact (hnew row hfam).2 hdrawn
      refine ⟨mem_cons_of_mem _ hdrawn, fun fam hf => hgone fam ?_⟩
      rw [← hf]
      exact (Function.update_of_ne hne _ _).symm
  | sign _ => exact ⟨hdrawn, hgone⟩
  | exchange _ _ _ => exact ⟨hdrawn, hgone⟩
  | revoke =>
    refine ⟨hdrawn, fun fam hf => ?_⟩
    simp only [State.setFamilies, Option.map_eq_some_iff] at hf
    obtain ⟨fam', hf', rfl⟩ := hf
    split_ifs
    · exact revoke_revokedAt fam' s.now
    · exact hgone fam' hf'
  | delete =>
    refine ⟨hdrawn, fun fam hf => ?_⟩
    simp only [State.setFamilies, Option.filter_eq_some_iff] at hf
    exact hgone fam hf.1
  | change heq => exact ⟨hdrawn, fun fam hf => hgone fam (heq ▸ hf)⟩

theorem Revoked.run (h : Revoked s g) (hrun : Run (Step D srv) s xs s') : Revoked s' g :=
  hrun.invariant (I := fun _ s => Revoked s g) h fun h hstep => h.step hstep

theorem grantStands_iff {t : Token} (hinv : Inv s) (ht : t ∈ s.tokens)
    (hg : Revoked s t.family) : GrantStands s.db t.claims.grantID ↔ t.exchanges ≠ 0 := by
  obtain ⟨hzero, hpos⟩ := hinv.tokens t ht
  constructor
  · intro h hx
    have hne : t.claims.grantID ≠ "" := by
      rw [hzero hx]
      rintro heq
      exact hinv.drawn (heq ▸ hg.1)
    obtain ⟨fam, hfam, hlive⟩ := h hne
    rw [hzero hx] at hfam
    exact hg.2 fam hfam hlive
  · intro hx hne
    exact absurd (hpos hx) hne

/-- Once a family is revoked, in every later state a token that descends from it is honoured
nowhere exactly when it was minted from the family itself, or when it no longer verifies, is
itself revoked, or its session has ended. -/
theorem revoked_reaches_iff (hrun : Run (Step D srv) {} xs s) (hg : Revoked s g)
    (hlater : Run (Step D srv) s ys s') {t : Token} (ht : t ∈ s'.tokens) (hfam : t.family = g)
    {raw : String} (hraw : srv.payload raw = some t.claims) :
    (∀ up i, ¬Honours srv s'.db up s'.now raw i) ↔
      t.exchanges = 0 ∨ (∀ c, srv.verify s'.now raw ≠ .ok c) ∨
        s'.db.revokedJTIs t.claims.jti ≠ none ∨
        ¬SessionStands s'.db s'.now t.claims.sessionID := by
  have hinv : Inv s' := hlater.invariant (I := fun _ s => Inv s) (inv_run hrun)
    fun h hstep => h.step hstep
  have hrevoked : Revoked s' t.family := hfam ▸ hg.run hlater
  rw [refused_iff hraw, grantStands_iff hinv ht hrevoked, not_ne_iff]

def mailClient : Client where
  clientID := "mail"
  type := .confidentialClient

def gateway : Client where
  clientID := "gateway"
  type := .confidentialClient
  mayExchange := true

def mailArgs : MintArgs where
  orgID := "o"
  userID := "alice"
  sid := "s0"
  scopes := ["openid", "offline_access"]

def mailEnv : MintEnv String where
  issuer := "https://idp"
  now := 1500000000000
  newSID := some "j0"
  newFamilyID := some "g0"
  newRefresh := some "r0"

def aliceSession : SessionRow where
  userID := "alice"
  notAfter := 9000000000000

def mailTables : Tables where
  sessions sid := if sid = "s0" then some aliceSession else none

def mailToken : AccessTokenClaims := accessClaims mailEnv mailClient mailArgs "j0" none "g0"

def mailIssued : Issued String where
  access := mailToken
  idToken := some (idClaims mailEnv mailClient mailArgs none aliceSession)
  familyID := "g0"
  family := some (newFamilyRow mailEnv mailClient mailArgs)
  refresh := some ("r0", {
    familyID := "g0"
    scopes := mailArgs.scopes
    resources := []
    expiresAt := mailEnv.now + GoTime.seconds mailClient.refreshTokenTTLSeconds })

def gatewayToken : AccessTokenClaims where
  issuer := "https://idp"
  subject := "alice"
  audience := ["gateway"]
  expiry := 1800
  issuedAt := 1500
  jti := "j1"
  clientID := "gateway"
  scope := "openid offline_access"
  sessionID := "s0"
  act := some (.mk "gateway" none)

def idp : Server where
  payload raw :=
    if raw = "t0" then some mailToken else if raw = "t1" then some gatewayToken else none
  issuer := "https://idp"
  parseURL _ := none
  unmarshal _ := .error "unexpected end of JSON input"

def gatewayForm : Values := [("subject_token", "t0"), ("subject_token_type", tokenTypeAccess)]

def openState : State where
  now := 1500000000000
  db := mailTables

def exchangedState : State := (openState.mint mailIssued).sign ⟨gatewayToken, "g0", 1⟩

def revokedState : State :=
  exchangedState.setFamilies fun g => (exchangedState.db.families g).map fun fam =>
    if g == "g0" then fam.revoke exchangedState.now else fam

theorem exchanged_run : Run (Step String idp) {}
    [.waited, .changed, .minted, .exchanged] exchangedState := by
  have hwait : Run (Step String idp) {} [.waited] { now := 1500000000000 } :=
    Run.nil.snoc (.wait (by decide))
  have hopen : Run (Step String idp) {} [.waited, .changed] openState := hwait.snoc (.change rfl)
  have hissued : mintSet mailEnv openState.db.sessions mailClient mailArgs = some mailIssued := rfl
  have hmint : Run (Step String idp) {} [.waited, .changed, .minted] (openState.mint mailIssued) :=
    hopen.snoc (.mint rfl rfl (.inl rfl) hissued fun _ _ => by decide)
  have hexchange : handleTokenExchange (idp.exchangeEnv (openState.mint mailIssued).db
      (fun _ => true) 1500000000000 "" true (some "j1")) gateway gatewayForm =
      .ok gatewayToken := rfl
  exact hmint.snoc (.exchange (mem_cons_self ..) rfl hexchange)

theorem revokedState_revoked : Revoked revokedState "g0" := by
  refine ⟨by decide, fun fam hfam => ?_⟩
  obtain rfl : (newFamilyRow mailEnv mailClient mailArgs).revoke 1500000000000 = fam :=
    Option.some.inj hfam
  exact revoke_revokedAt _ _

theorem revoked_run : Run (Step String idp) {}
    [.waited, .changed, .minted, .exchanged, .revoked] revokedState :=
  exchanged_run.snoc .revoke

/-- The minted token is refused after the revocation. -/
theorem revoked_reaches_mail : ¬∃ up i, Honours idp revokedState.db up revokedState.now "t0" i := by
  rintro ⟨up, i, hhonours⟩
  exact (revoked_reaches_iff (t := ⟨mailToken, "g0", 0⟩) revoked_run revokedState_revoked Run.nil
    (mem_cons_of_mem _ (mem_cons_self ..)) rfl rfl).mpr (.inl rfl) up i hhonours

/-- The exchanged one is still reported active to the gateway that holds it. -/
theorem exchanged_survives : ∃ (s : State) (xs : List Event) (t : Token),
    Run (Step String idp) {} xs s ∧ t ∈ s.tokens ∧ Revoked s t.family ∧
      idp.payload "t1" = some t.claims ∧
      Honours idp s.db (fun _ => true) s.now "t1" (.introspection gateway) :=
  ⟨revokedState, _, ⟨gatewayToken, "g0", 1⟩, revoked_run, mem_cons_self ..,
    revokedState_revoked, rfl, activeResponse "https://idp" gatewayToken, rfl, rfl⟩

end Signari.GrantCascade
