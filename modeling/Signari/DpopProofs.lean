import Signari.GoTime
import Signari.LabelledRuns
import Signari.UriComparison

/-!
# DPoP proofs

`Verify` of `internal/dpop/dpop.go`, the records of `internal/store/dpop.go` and the requests
that use both. A request verifies its proof at one instant and records it at another; the
janitor deletes records that have expired. Signatures, key thumbprints and the hash of an access
token are what `Library` answers. Errors keep what their texts are made of.

A record is kept for `ReplayWindow` from the moment it is made, and a proof is refused once it is
older than `MaxAge`. Two things fall between the two: a request that has verified its proof and is
held up, and the very instant at which a proof is `MaxAge` old.
-/
namespace Signari.DpopProofs
open ByteCodecs GoStrings GoTime IndexedChecks LabelledRuns LetterCase List Function
open UriComparison (sameURI)

def typDPoP : String := "dpop+jwt"

def maxAge : ℤ := 60 * nanosPerSecond

def maxSkew : ℤ := 30 * nanosPerSecond

def replayWindow : ℤ := maxAge + maxSkew

def maxProofBytes : ℕ := 8192

def maxJTIBytes : ℕ := 255

def minRSABits : ℕ := 2048

def maxRSABits : ℕ := 8192

/-- A key in the header of a proof; `rsaBits` is there for an RSA key only. -/
structure Key where
  isPublic : Bool
  valid : Bool
  rsaBits : Option ℕ
  thumbprint : Option String

structure ProofClaims where
  jti : String
  htm : String
  htu : String
  iat : ℤ
  ath : String
  nonce : String

/-- A signature of a parsed proof. `payload` is there when the signature verifies with the
key of the header, and holds claims when they decode. -/
structure Signature where
  typ : String
  jwk : Option Key
  payload : Option (Option ProofClaims)

structure Library where
  parseSigned : String → Option (List Signature)
  accessTokenHash : String → String

structure Proof where
  jkt : String
  jti : String
  method : String
  uri : String
  issuedAt : ℤ
  accessTokenHash : String
  nonce : String
  deriving DecidableEq

inductive VerifyError where
  | noProof
  | tooLong (bytes : ℕ)
  | notOneProof
  | notParsed
  | notOneSignature
  | wrongTyp (typ : String)
  | noJWK
  | privateKey
  | unusableKey
  | weakKey (bits : ℕ)
  | costlyKey (bits : ℕ)
  | badSignature
  | badClaims
  | noJTI
  | longJTI (bytes : ℕ)
  | wrongMethod (htm method : String)
  | wrongURI (htu uri : String)
  | noIAT
  | tooOld (age : ℤ)
  | inFuture (age : ℤ)
  | noATH
  | wrongATH
  | noThumbprint
  deriving DecidableEq

/-- The failure of a call that may have no result. -/
def orRefuse {α : Type} (o : Option α) (e : VerifyError) : Except VerifyError α := match o with
  | some a => .ok a
  | none => .error e

def checkKeyStrength (jwk : Key) : Except VerifyError Unit := match jwk.rsaBits with
  | none => .ok ()
  | some bits => do
      refuseIf (bits < minRSABits) (.weakKey bits)
      refuseIf (maxRSABits < bits) (.costlyKey bits)

variable (lib : Library)

def oneSignature : List Signature → Except VerifyError Signature
  | [sig] => .ok sig
  | _ => .error .notOneSignature

def signedClaims (header : String) : Except VerifyError (Key × ProofClaims) := do
  refuseIf (header = "") .noProof
  refuseIf (maxProofBytes < header.utf8ByteSize) (.tooLong header.utf8ByteSize)
  refuseIf (',' ∈ header.toList ∨ ' ' ∈ header.toList) .notOneProof
  let signatures ← orRefuse (lib.parseSigned header) .notParsed
  let sig ← oneSignature signatures
  refuseIf (sig.typ ≠ typDPoP) (.wrongTyp sig.typ)
  let jwk ← orRefuse sig.jwk .noJWK
  refuseIf (jwk.isPublic = false) .privateKey
  refuseIf (jwk.valid = false) .unusableKey
  checkKeyStrength jwk
  let payload ← orRefuse sig.payload .badSignature
  let c ← orRefuse payload .badClaims
  return (jwk, c)

/-- `time.Unix(c.IAT, 0)`. -/
def ProofClaims.issued (c : ProofClaims) : ℤ := c.iat * nanosPerSecond

def checkClaims (c : ProofClaims) (method uri accessToken : String) (now : ℤ) :
    Except VerifyError Unit := do
  refuseIf (c.jti = "") .noJTI
  refuseIf (maxJTIBytes < c.jti.utf8ByteSize) (.longJTI c.jti.utf8ByteSize)
  refuseIf (equalFold c.htm method = false) (.wrongMethod c.htm method)
  refuseIf (sameURI simpleFolding (textBytes c.htu) (textBytes uri) = false) (.wrongURI c.htu uri)
  refuseIf (c.iat = 0) .noIAT
  refuseIf (maxAge < sub now c.issued) (.tooOld (sub now c.issued))
  refuseIf (sub now c.issued < -maxSkew) (.inFuture (sub now c.issued))
  refuseIf (accessToken ≠ "" ∧ c.ath = "") .noATH
  refuseIf (accessToken ≠ "" ∧ c.ath ≠ lib.accessTokenHash accessToken) .wrongATH

def verify (header method uri accessToken : String) (now : ℤ) : Except VerifyError Proof := do
  let (jwk, c) ← signedClaims lib header
  checkClaims lib c method uri accessToken now
  let thumb ← orRefuse jwk.thumbprint .noThumbprint
  return ⟨thumb, c.jti, method, uri, c.issued, c.ath, c.nonce⟩

theorem verify_fresh {header method uri accessToken : String} {now : ℤ} {p : Proof}
    (h : verify lib header method uri accessToken now = .ok p) :
    p.issuedAt - maxSkew ≤ now ∧ now ≤ p.issuedAt + maxAge := by
  obtain ⟨⟨jwk, c⟩, -, h⟩ := bind_ok.mp h
  obtain ⟨u, hclaims, h⟩ := bind_ok.mp h
  obtain ⟨thumb, -, h⟩ := bind_ok.mp h
  obtain rfl := Except.ok.inj h
  simp only [checkClaims, bind_ok, refuseIf_ok] at hclaims
  obtain ⟨_, _, _, _, _, _, _, _, _, _, _, hold, _, hfuture, -⟩ := hclaims
  simp only [sub, maxAge, maxSkew, maxDuration, minDuration, nanosPerSecond] at hold hfuture ⊢
  omega

section

variable {ι : Type}

/-- What tells a signed proof from others. -/
def Proof.name (p : Proof) : String × String × ℤ := (p.jkt, p.jti, p.issuedAt)

/-- What a record is kept under. -/
def Proof.key (p : Proof) : String × String := (p.jkt, p.jti)

/-- The clock, when each record expires, the requests that have verified a proof and not yet
recorded it, and the proofs that have been accepted, the latest first. -/
structure State (ι : Type) where
  now : ℤ
  seen : String × String → Option ℤ
  held : ι → Option Proof
  accepted : List Proof

/-- `DELETE … WHERE expires_at <= now()`, in a transaction that began at `cutoff`. -/
def sweepExpiredDPoPProofs (cutoff : ℤ) (seen : String × String → Option ℤ) :
    String × String → Option ℤ :=
  fun key => (seen key).filter fun expires => decide (cutoff < expires)

inductive Obs where
  | swept (cutoff : ℤ)
  | quiet

variable [DecidableEq ι]

/-- One step. -/
inductive Step : State ι → Obs → State ι → Prop
  | tick {s : State ι} (later : ℤ) (h : s.now ≤ later) : Step s .quiet { s with now := later }
  | verify {s : State ι} (r : ι) (header method uri accessToken : String) (p : Proof)
      (hidle : s.held r = none)
      (hok : verify lib header method uri accessToken s.now = .ok p) :
      Step s .quiet { s with held := update s.held r (some p) }
  | markFresh {s : State ι} (r : ι) (p : Proof) (hheld : s.held r = some p)
      (hnew : s.seen p.key = none) :
      Step s .quiet
        { s with
          seen := update s.seen p.key (some (s.now + replayWindow)),
          held := update s.held r none,
          accepted := p :: s.accepted }
  | markReplay {s : State ι} (r : ι) (p : Proof) (expires : ℤ) (hheld : s.held r = some p)
      (hseen : s.seen p.key = some expires) :
      Step s .quiet { s with held := update s.held r none }
  | giveUp {s : State ι} (r : ι) : Step s .quiet { s with held := update s.held r none }
  | sweep {s : State ι} (cutoff : ℤ) (hbegan : cutoff ≤ s.now) :
      Step s (.swept cutoff) { s with seen := sweepExpiredDPoPProofs cutoff s.seen }

/-- The records a sweep deletes are not those of proofs that are exactly `MaxAge` old, or that
a request has verified and is about to record. -/
def SweepsSpent (s : State ι) (cutoff : ℤ) : Prop :=
  ∀ p ∈ s.accepted, ∀ expires, s.seen p.key = some expires → expires ≤ cutoff →
    s.now ≠ p.issuedAt + maxAge ∧ ∀ r, ∀ q ∈ s.held r, q.name ≠ p.name

/-- A step in which no record is deleted too early. -/
def CarefulStep (s : State ι) (x : Obs) (t : State ι) : Prop :=
  Step lib s x t ∧ ∀ cutoff, x = .swept cutoff → SweepsSpent s cutoff

structure Inv (s : State ι) : Prop where
  verified : ∀ r, ∀ p ∈ s.held r, p.issuedAt - maxSkew ≤ s.now
  spent : ∀ p ∈ s.accepted,
    (∃ expires, s.seen p.key = some expires ∧ p.issuedAt + maxAge ≤ expires) ∨
    (p.issuedAt + maxAge < s.now ∧ ∀ r, ∀ q ∈ s.held r, q.name ≠ p.name)
  once : (s.accepted.map Proof.name).Nodup

omit [DecidableEq ι] in
theorem key_of_name {p q : Proof} (h : q.name = p.name) : q.key = p.key := by
  simp only [Proof.name, Prod.mk.injEq] at h
  rw [Proof.key, Proof.key, h.1, h.2.1]

omit [DecidableEq ι] in
theorem issuedAt_of_name {p q : Proof} (h : q.name = p.name) : q.issuedAt = p.issuedAt := by
  simp only [Proof.name, Prod.mk.injEq] at h
  exact h.2.2

theorem mem_update {held : ι → Option Proof} {r r' : ι} {new : Option Proof} {p : Proof}
    (h : p ∈ update held r new r') : p ∈ new ∨ p ∈ held r' := by
  by_cases hr : r' = r
  · subst hr
    rw [update_self] at h
    exact .inl h
  · rw [update_of_ne hr] at h
    exact .inr h

theorem mem_update_none {held : ι → Option Proof} {r r' : ι} {p : Proof}
    (h : p ∈ update held r none r') : p ∈ held r' :=
  (mem_update h).resolve_left nofun

variable {lib} {s t : State ι} {x : Obs}

theorem Inv.release (h : Inv s) (r : ι) : Inv { s with held := update s.held r none } where
  verified r' p hp := h.verified r' p (mem_update_none hp)
  spent p hp := (h.spent p hp).imp_right fun hgone =>
    ⟨hgone.1, fun r' q hq => hgone.2 r' q (mem_update_none hq)⟩
  once := h.once

theorem Inv.step (h : Inv s) (hstep : CarefulStep lib s x t) : Inv t := by
  obtain ⟨hstep, hcareful⟩ := hstep
  cases hstep with
  | tick later hlater =>
    refine ⟨fun r p hp => (h.verified r p hp).trans hlater, fun p hp => ?_, h.once⟩
    exact (h.spent p hp).imp_right fun hgone => ⟨lt_of_lt_of_le hgone.1 hlater, hgone.2⟩
  | verify r header method uri accessToken p hidle hok =>
    obtain ⟨hearly, hlate⟩ := verify_fresh lib hok
    refine ⟨fun r' q hq => ?_, fun a ha => ?_, h.once⟩
    · rcases mem_update hq with hq | hq
      · obtain rfl := Option.some.inj hq
        exact hearly
      · exact h.verified r' q hq
    · refine (h.spent a ha).imp_right fun hgone => ⟨hgone.1, fun r' q hq => ?_⟩
      rcases mem_update hq with hq | hq
      · obtain rfl := Option.some.inj hq
        intro hname
        have hsame := issuedAt_of_name hname
        have hover := hgone.1
        omega
      · exact hgone.2 r' q hq
  | markFresh r p hheld hnew =>
    have hrelease := h.release r
    have hearly := h.verified r p hheld
    have hother : ∀ a ∈ s.accepted, a.name ≠ p.name := by
      intro a ha hname
      rcases h.spent a ha with ⟨expires, hseen, -⟩ | ⟨-, hgone⟩
      · rw [key_of_name hname, hnew] at hseen
        cases hseen
      · exact hgone r p hheld hname.symm
    refine ⟨hrelease.verified, fun a ha => ?_, ?_⟩
    · rcases mem_cons.mp ha with rfl | ha
      · refine .inl ⟨s.now + replayWindow, update_self _ _ _, ?_⟩
        rw [replayWindow]
        omega
      · by_cases hkey : a.key = p.key
        · rcases h.spent a ha with ⟨expires, hseen, -⟩ | hgone
          · rw [hkey, hnew] at hseen
            cases hseen
          · exact .inr ⟨hgone.1, fun r' q hq => hgone.2 r' q (mem_update_none hq)⟩
        · rcases hrelease.spent a ha with ⟨expires, hseen, hle⟩ | hgone
          · exact .inl ⟨expires, (update_of_ne hkey _ _).trans hseen, hle⟩
          · exact .inr hgone
    · rw [map_cons, nodup_cons]
      refine ⟨fun hmem => ?_, h.once⟩
      obtain ⟨a, ha, hname⟩ := mem_map.mp hmem
      exact hother a ha hname
  | markReplay r p expires hheld hseen => exact h.release r
  | giveUp r => exact h.release r
  | sweep cutoff hbegan =>
    refine ⟨h.verified, fun p hp => ?_, h.once⟩
    rcases h.spent p hp with ⟨expires, hseen, hle⟩ | hgone
    · by_cases hkeep : cutoff < expires
      · refine .inl ⟨expires, ?_, hle⟩
        simp [sweepExpiredDPoPProofs, hseen, hkeep]
      · obtain ⟨hinstant, hfree⟩ := hcareful cutoff rfl p hp expires hseen (by omega)
        have hover : p.issuedAt + maxAge < s.now := by omega
        exact .inr ⟨hover, hfree⟩
    · exact .inr hgone

/-- Nothing has been accepted, and no request is under way; the table may hold records. -/
def State.quiet (now : ℤ) (seen : String × String → Option ℤ) : State ι :=
  ⟨now, seen, fun _ => none, []⟩

/-- No proof is accepted twice, as long as no sweep deletes its record too early. -/
theorem accepted_once {now : ℤ} {seen : String × String → Option ℤ} {xs : List Obs}
    (hrun : Run (CarefulStep lib) (State.quiet now seen : State ι) xs s) :
    (s.accepted.map Proof.name).Nodup := by
  have hinv : Inv s := by
    refine hrun.invariant (I := fun _ a => Inv a) ⟨?_, ?_, nodup_nil⟩ fun h hstep => h.step hstep
    · intro r p hp
      cases hp
    · intro p hp
      cases hp
  exact hinv.once

end

def sampleClaims : ProofClaims := ⟨"j", "POST", "https://op/token", 1000, "", ""⟩

def sampleLibrary : Library where
  parseSigned header :=
    if header = "p" then
      some [⟨typDPoP, some ⟨true, true, none, some "k"⟩, some (some sampleClaims)⟩]
    else none
  accessTokenHash token := token

def sampleProof : Proof := ⟨"k", "j", "POST", "https://op/token", 1000000000000, "", ""⟩

theorem verify_sample :
    verify sampleLibrary "p" "POST" "https://op/token" "" 1000000000000 = .ok sampleProof := by
  decide +kernel

def sampleStart : State Bool := State.quiet 1000000000000 fun _ => none

theorem held_up_accepted : ∃ xs s, Run (Step sampleLibrary) sampleStart xs s ∧
    s.accepted = [sampleProof, sampleProof] := by
  have h₁ : Run (Step sampleLibrary) sampleStart _ _ :=
    Run.nil.snoc (Step.verify false _ _ _ _ _ rfl verify_sample)
  have h₂ := h₁.snoc (Step.verify true _ _ _ _ _ rfl verify_sample)
  have h₃ := h₂.snoc (Step.markFresh false sampleProof rfl rfl)
  have h₄ := h₃.snoc (Step.tick 1090000000000 (by decide))
  have h₅ := h₄.snoc (Step.sweep 1090000000000 le_rfl)
  have h₆ := h₅.snoc (Step.markFresh true sampleProof rfl (by decide))
  exact ⟨_, _, h₆, rfl⟩

theorem accepted_twice : ¬ ∀ (xs : List Obs) (s : State Bool),
    Run (Step sampleLibrary) sampleStart xs s → (s.accepted.map Proof.name).Nodup := by
  intro hall
  obtain ⟨xs, s, hrun, htwice⟩ := held_up_accepted
  have hnodup := hall xs s hrun
  rw [htwice] at hnodup
  exact absurd hnodup (by decide)

theorem swept_late : ∃ xs s, Run (CarefulStep sampleLibrary) sampleStart xs s ∧
    s.accepted = [sampleProof] ∧ s.seen sampleProof.key = none := by
  have hquiet : ∀ {a : State Bool} {cutoff : ℤ}, Obs.quiet = .swept cutoff →
      SweepsSpent a cutoff := fun h => by cases h
  have h₁ : Run (CarefulStep sampleLibrary) sampleStart _ _ :=
    Run.nil.snoc ⟨Step.verify false _ _ _ _ _ rfl verify_sample, fun _ => hquiet⟩
  have h₂ := h₁.snoc ⟨Step.markFresh false sampleProof rfl rfl, fun _ => hquiet⟩
  have h₃ := h₂.snoc ⟨Step.tick 1090000000000 (by decide), fun _ => hquiet⟩
  have h₄ := h₃.snoc ⟨Step.sweep 1090000000000 le_rfl, fun cutoff _ p hp expires _ _ => by
    obtain rfl := mem_singleton.mp hp
    refine ⟨by decide, fun r q hq => ?_⟩
    cases r <;> cases hq⟩
  exact ⟨_, _, h₄, rfl, by decide⟩

theorem accepted_once_late : ∃ s : State Bool, s.accepted = [sampleProof] ∧
    s.seen sampleProof.key = none ∧ (s.accepted.map Proof.name).Nodup := by
  obtain ⟨xs, s, hrun, hone, hgone⟩ := swept_late
  exact ⟨s, hone, hgone, accepted_once hrun⟩

end Signari.DpopProofs
