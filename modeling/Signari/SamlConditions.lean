import Mathlib
import Signari.SamlInbound

/-!
# The conditions of a SAML assertion

`checkConditions` of `internal/saml`, against what the specification asks of the conditions of an
assertion and of the confirmation of its subject. Several audience restrictions have to be met
each, the audiences within one are alternatives, and a subject is confirmed when one of its
confirmations is.

The check gathers the audiences of all restrictions into one list, and of the confirmations it
looks at the end of the first data that it finds. `checkConditions_honoured_iff` says for which of
the accepted assertions that makes no difference.
-/
namespace Signari.SamlConditions
open GoTime IndexedChecks SamlInbound XmlTrees List

section

variable {Cert : Type} (L : Library Cert)

def Keeps (n : Node) (key : String) (within : ℤ → Prop) : Prop :=
  n.attrValue key ≠ "" → ∃ t, L.parseTime (n.attrValue key) = .ok t ∧ within t

def Started (n : Node) (now skew : ℤ) : Prop := Keeps L n "NotBefore" (· ≤ now + skew)

def Unexpired (n : Node) (now skew : ℤ) : Prop := Keeps L n "NotOnOrAfter" (now - skew < ·)

def restrictions (cond : Node) : List Node := cond.findAll ["AudienceRestriction"]

def addressees (r : Node) : List String :=
  (r.findAll ["Audience"]).map fun a => GoStrings.trimSpace a.text

def subjectConfirmations (assertion : Node) : List Node :=
  assertion.findAll ["Subject", "SubjectConfirmation"]

def confirmationDataOf (sc : Node) : List Node := sc.findAll ["SubjectConfirmationData"]

/-- The ends that an expiry is taken from: those of the conditions, and of the confirmation data
that is looked at. -/
def ReliedOn (assertion : Node) (u : ℤ) : Prop :=
  ∃ n, (assertion.find ["Conditions"] = some n ∨ confirmationData assertion = some n) ∧
    n.attrValue "NotOnOrAfter" ≠ "" ∧ L.parseTime (n.attrValue "NotOnOrAfter") = .ok u

/-- What has to be true of an assertion that is relied on until `t`. -/
structure Honoured (assertion : Node) (spEntityID : String) (now skew t : ℤ) : Prop where
  addressed : ∀ cond, assertion.find ["Conditions"] = some cond →
    ∀ r ∈ restrictions cond, spEntityID ∈ addressees r
  started : ∀ cond, assertion.find ["Conditions"] = some cond → Started L cond now skew
  unexpired : ∀ cond, assertion.find ["Conditions"] = some cond → Unexpired L cond now skew
  confirmed : ∃ sc ∈ subjectConfirmations assertion, ∀ scd ∈ confirmationDataOf sc,
    Started L scd now skew ∧ Unexpired L scd now skew
  expiry : ∀ u, ReliedOn L assertion u → t ≤ u

/-- What the check takes for granted. Restrictions do not contradict each other. Some confirmation
has begun, and has not ended unless it is the one that is looked at. Conditions do not end in the
instant that stands for no time. -/
structure Unambiguous (assertion : Node) (spEntityID : String) (now skew : ℤ) : Prop where
  agreed : ∀ cond, assertion.find ["Conditions"] = some cond → ∀ r ∈ restrictions cond,
    ∀ r' ∈ restrictions cond, spEntityID ∈ addressees r → spEntityID ∈ addressees r'
  begun : ∃ sc ∈ subjectConfirmations assertion, ∀ scd ∈ confirmationDataOf sc,
    Started L scd now skew ∧ (confirmationData assertion ≠ some scd → Unexpired L scd now skew)
  dated : ∀ cond scd u, assertion.find ["Conditions"] = some cond →
    cond.attrValue "NotOnOrAfter" ≠ "" →
    L.parseTime (cond.attrValue "NotOnOrAfter") = .ok zeroTime →
    confirmationData assertion = some scd → scd.attrValue "NotOnOrAfter" ≠ "" →
    L.parseTime (scd.attrValue "NotOnOrAfter") = .ok u → u ≤ zeroTime

variable {L} {assertion cond : Node} {sp : String} {now skew t u : ℤ}

theorem mem_audiences {a : String} :
    a ∈ audiences cond ↔ ∃ r ∈ restrictions cond, a ∈ addressees r :=
  mem_flatMap

theorem checkNotBefore_ok : checkNotBefore L cond now skew = .ok () ↔ Started L cond now skew := by
  simp only [checkNotBefore, Started, Keeps]
  split_ifs with hv
  · exact ⟨fun _ hne => absurd hv hne, fun _ => rfl⟩
  · simp only [bind_ok, mapError_ok, refuseIf_ok, not_lt]
    exact ⟨fun h _ => h, fun h => h hv⟩

theorem conditionsEnd_cases (h : conditionsEnd L cond now skew = .ok u) :
    (cond.attrValue "NotOnOrAfter" = "" ∧ u = zeroTime) ∨
      (L.parseTime (cond.attrValue "NotOnOrAfter") = .ok u ∧ now - skew < u) := by
  simp only [conditionsEnd] at h
  split_ifs at h with hv
  · exact .inl ⟨hv, (Except.ok.inj h).symm⟩
  · simp only [bind_ok, mapError_ok, refuseIf_ok, exists_and_left, exists_const,
      Except.ok.injEq, not_le] at h
    obtain ⟨w, hw, hlt, rfl⟩ := h
    exact .inr ⟨hw, hlt⟩

theorem confirmationEnd_cases (h : confirmationEnd L assertion now skew u = .ok t) :
    (t = u ∧ ∀ scd, confirmationData assertion = some scd → scd.attrValue "NotOnOrAfter" = "") ∨
      ∃ scd w, confirmationData assertion = some scd ∧ scd.attrValue "NotOnOrAfter" ≠ "" ∧
        L.parseTime (scd.attrValue "NotOnOrAfter") = .ok w ∧ now - skew < w ∧
        t = if u = zeroTime ∨ w < u then w else u := by
  cases hscd : confirmationData assertion with
  | none =>
    simp only [confirmationEnd, hscd, Except.ok.injEq] at h
    exact .inl ⟨h.symm, fun scd hsome => by cases hsome⟩
  | some scd =>
    simp only [confirmationEnd, hscd] at h
    split_ifs at h with hv
    · refine .inl ⟨(Except.ok.inj h).symm, fun scd' hsome => ?_⟩
      obtain rfl : scd = scd' := Option.some.inj hsome
      exact hv
    · simp only [bind_ok, mapError_ok, refuseIf_ok, exists_and_left, exists_const,
        Except.ok.injEq, not_le] at h
      obtain ⟨w, hw, hlt, rfl⟩ := h
      exact .inr ⟨scd, w, rfl, hv, hw, hlt, rfl⟩

/-- What an accepted assertion has gone through. -/
structure Checked (L : Library Cert) (assertion cond : Node) (sp : String)
    (now skew u t : ℤ) : Prop where
  conditions : assertion.find ["Conditions"] = some cond
  started : Started L cond now skew
  ends : conditionsEnd L cond now skew = .ok u
  audience : sp ∈ audiences cond
  confirmation : confirmationEnd L assertion now skew u = .ok t
  expires : t ≠ zeroTime

theorem checkAudience_ok (h : checkAudience cond sp = .ok ()) : sp ∈ audiences cond := by
  simp only [checkAudience, seq_ok, refuseIf_ok, not_not] at h
  exact h.2

theorem checkConditions_checked (h : checkConditions L assertion sp now skew = .ok t) :
    ∃ cond u, Checked L assertion cond sp now skew u t := by
  simp only [checkConditions, bind_ok, orError_ok, refuseIf_ok, exists_and_left, exists_const,
    Except.ok.injEq] at h
  obtain ⟨cond, hcond, _, hstarted, u, hends, _, haudience, t', hconfirmation, hexpires, rfl⟩ := h
  exact ⟨cond, u, hcond, checkNotBefore_ok.mp hstarted, hends, checkAudience_ok haudience,
    hconfirmation, hexpires⟩

namespace Checked

variable (h : Checked L assertion cond sp now skew u t)
include h

theorem unexpired : Unexpired L cond now skew := by
  intro hv
  obtain ⟨hempty, -⟩ | ⟨hu, hlt⟩ := conditionsEnd_cases h.ends
  · exact absurd hempty hv
  · exact ⟨u, hu, hlt⟩

theorem confirmation_unexpired {scd : Node} (hscd : confirmationData assertion = some scd) :
    Unexpired L scd now skew := by
  intro hv
  obtain ⟨-, hempty⟩ | ⟨scd', w, hscd', -, hw, hlt, -⟩ := confirmationEnd_cases h.confirmation
  · exact absurd (hempty scd hscd) hv
  · obtain rfl : scd = scd' := Option.some.inj (hscd.symm.trans hscd')
    exact ⟨w, hw, hlt⟩

theorem later : now - skew < t := by
  have hends : u ≠ zeroTime → now - skew < u := by
    intro hu
    obtain ⟨-, hzero⟩ | ⟨-, hlt⟩ := conditionsEnd_cases h.ends
    · exact absurd hzero hu
    · exact hlt
  obtain ⟨htu, -⟩ | ⟨scd, w, -, -, -, hlt, ht⟩ := confirmationEnd_cases h.confirmation
  · rw [htu]
    exact hends (htu ▸ h.expires)
  · split_ifs at ht with hearlier
    · exact ht ▸ hlt
    · rw [ht]
      exact hends (not_or.mp hearlier).1

theorem addressed_iff : (∀ r ∈ restrictions cond, sp ∈ addressees r) ↔
    ∀ r ∈ restrictions cond, ∀ r' ∈ restrictions cond, sp ∈ addressees r → sp ∈ addressees r' := by
  refine ⟨fun hall r _ r' hr' _ => hall r' hr', fun hagreed r hr => ?_⟩
  obtain ⟨r₀, hr₀, hsp⟩ := mem_audiences.mp h.audience
  exact hagreed r₀ hr₀ r hr hsp

theorem parsed (hv : cond.attrValue "NotOnOrAfter" ≠ "") :
    L.parseTime (cond.attrValue "NotOnOrAfter") = .ok u := by
  obtain ⟨hempty, -⟩ | ⟨hu, -⟩ := conditionsEnd_cases h.ends
  · exact absurd hempty hv
  · exact hu

theorem expiry_iff : (∀ v, ReliedOn L assertion v → t ≤ v) ↔
    ∀ scd w, cond.attrValue "NotOnOrAfter" ≠ "" →
      L.parseTime (cond.attrValue "NotOnOrAfter") = .ok zeroTime →
      confirmationData assertion = some scd → scd.attrValue "NotOnOrAfter" ≠ "" →
      L.parseTime (scd.attrValue "NotOnOrAfter") = .ok w → w ≤ zeroTime := by
  obtain ⟨htu, hempty⟩ | ⟨scd, w, hscd, hv, hw, -, ht⟩ := confirmationEnd_cases h.confirmation
  · refine iff_of_true ?_ fun scd w _ _ hscd hv _ => absurd (hempty scd hscd) hv
    rintro v ⟨n, hn | hn, hv, hparse⟩
    · obtain rfl : cond = n := Option.some.inj (h.conditions.symm.trans hn)
      obtain rfl : u = v := Except.ok.inj ((h.parsed hv).symm.trans hparse)
      exact htu.le
    · exact absurd (hempty n hn) hv
  · constructor
    · intro hall scd' w' hcond hzero hscd' hv' hw'
      obtain rfl : scd = scd' := Option.some.inj (hscd.symm.trans hscd')
      obtain rfl : w = w' := Except.ok.inj (hw.symm.trans hw')
      have hu : u = zeroTime := Except.ok.inj ((h.parsed hcond).symm.trans hzero)
      rw [if_pos (.inl hu)] at ht
      exact ht ▸ hall zeroTime ⟨cond, .inl h.conditions, hcond, hzero⟩
    · rintro hdated v ⟨n, hn | hn, hv', hparse⟩
      · obtain rfl : cond = n := Option.some.inj (h.conditions.symm.trans hn)
        obtain rfl : u = v := Except.ok.inj ((h.parsed hv').symm.trans hparse)
        by_cases hu : u = zeroTime
        · rw [ht, if_pos (.inl hu), hu]
          exact hdated scd w hv' (hu ▸ hparse) hscd hv hw
        · rw [ht]
          split_ifs with hearlier
          · exact (hearlier.resolve_left hu).le
          · exact le_rfl
      · obtain rfl : scd = n := Option.some.inj (hscd.symm.trans hn)
        obtain rfl : w = v := Except.ok.inj (hw.symm.trans hparse)
        rw [ht]
        split_ifs with hearlier
        · exact le_rfl
        · exact not_lt.mp (not_or.mp hearlier).2

end Checked

/-- Accepted conditions are met exactly when nothing in the assertion is ambiguous to the check. -/
theorem checkConditions_honoured_iff (h : checkConditions L assertion sp now skew = .ok t) :
    Honoured L assertion sp now skew t ↔ Unambiguous L assertion sp now skew := by
  obtain ⟨cond, u, hchecked⟩ := checkConditions_checked h
  have hsame : ∀ cond', assertion.find ["Conditions"] = some cond' → cond = cond' := fun _ hc =>
    Option.some.inj (hchecked.conditions.symm.trans hc)
  constructor
  · intro hh
    refine ⟨?_, ?_, ?_⟩
    · intro cond' hc
      exact (hsame cond' hc) ▸ hchecked.addressed_iff.mp (hh.addressed cond hchecked.conditions)
    · obtain ⟨sc, hsc, hdata⟩ := hh.confirmed
      exact ⟨sc, hsc, fun scd hscd => ⟨(hdata scd hscd).1, fun _ => (hdata scd hscd).2⟩⟩
    · intro cond' scd w hc
      exact (hsame cond' hc) ▸ hchecked.expiry_iff.mp hh.expiry scd w
  · intro hu
    refine ⟨?_, ?_, ?_, ?_, ?_⟩
    · intro cond' hc
      exact (hsame cond' hc) ▸ hchecked.addressed_iff.mpr (hu.agreed cond hchecked.conditions)
    · exact fun cond' hc => (hsame cond' hc) ▸ hchecked.started
    · exact fun cond' hc => (hsame cond' hc) ▸ hchecked.unexpired
    · obtain ⟨sc, hsc, hdata⟩ := hu.begun
      refine ⟨sc, hsc, fun scd hscd => ⟨(hdata scd hscd).1, ?_⟩⟩
      by_cases hread : confirmationData assertion = some scd
      · exact hchecked.confirmation_unexpired hread
      · exact (hdata scd hscd).2 hread
    · exact hchecked.expiry_iff.mpr fun scd w => hu.dated cond scd w hchecked.conditions

end

def forwarded : Node :=
  responseWith [⟨"", "InResponseTo", "req-2"⟩] "ana"
    [.elem "saml" "SubjectConfirmation" [] [
      .elem "saml" "SubjectConfirmationData" [⟨"", "NotBefore", "1970-12-31T00:00:00Z"⟩] []]]
    "1970-12-31T00:00:00Z"
    [.elem "saml" "AudienceRestriction" [] [.elem "saml" "Audience" [] [.chars "other"]]]

def forwardedAssertion : Node := ((forwarded.find ["Assertion"]).map unsigned).getD forwarded

theorem forwarded_accepted : checkConditions (sampleLibrary forwarded) forwardedAssertion "sp" 0
    (clampSkew 0) = .ok (364 * 86400 * nanosPerSecond) := by
  decide

theorem checkConditions_honoured_iff_forwarded :
    Honoured (sampleLibrary forwarded) forwardedAssertion "sp" 0 (clampSkew 0)
        (364 * 86400 * nanosPerSecond) ↔
      Unambiguous (sampleLibrary forwarded) forwardedAssertion "sp" 0 (clampSkew 0) :=
  checkConditions_honoured_iff forwarded_accepted

/-- The response signs its subject in, although one restriction leaves the service provider out
and the one confirmation has not begun. -/
theorem forwarded_not_honoured :
    consumeResponse (sampleLibrary forwarded) [] sampleProvider sampleOptions = .ok anaAssertion ∧
      checkConditions (sampleLibrary forwarded) forwardedAssertion "sp" 0 (clampSkew 0) =
        .ok (364 * 86400 * nanosPerSecond) ∧
      (∃ cond, forwardedAssertion.find ["Conditions"] = some cond ∧
        ∃ r ∈ restrictions cond, "sp" ∉ addressees r) ∧
      ¬(∃ sc ∈ subjectConfirmations forwardedAssertion, ∀ scd ∈ confirmationDataOf sc,
        Started (sampleLibrary forwarded) scd 0 (clampSkew 0)) := by
  refine ⟨by decide, forwarded_accepted, ⟨_, rfl, ?_⟩, ?_⟩
  · refine ⟨_, mem_cons_of_mem _ (mem_singleton_self _), ?_⟩
    decide
  · rintro ⟨sc, hsc, hdata⟩
    obtain rfl := mem_singleton.mp hsc
    obtain ⟨t, ht, hle⟩ := hdata _ (mem_singleton_self _) (by decide)
    obtain rfl := Except.ok.inj ht
    exact absurd hle (by decide)

end Signari.SamlConditions
