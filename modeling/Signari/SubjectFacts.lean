import Signari.AuthnContext
import Signari.AuthzConditions

/-!
# What the decision point knows about a subject

`SubjectFacts` of `internal/store/authorization.go`: the groups and the account state from
the directory, and the second factor from the session. The session's methods are matched
against a list written here, while the authorization endpoint derives its level from the
same methods through `acrFromAMR`; `subjectFacts_mfa_iff` compares the two.
-/
namespace Signari.SubjectFacts
open AuthnContext AuthzConditions List

/-- A session row. The stored level is derived from the stored methods. -/
structure Session where
  sid : String
  orgID : String
  userID : String
  amr : List String
  acr : Option String
  revoked : Bool
  notAfter : ℤ
  acr_derived : acr = some (acrFromAMR amr)

structure UserRow where
  id : String
  orgID : String
  email : String
  active : Bool
  emailVerified : Bool

structure Membership where
  userID : String
  orgID : String
  group : String

structure Directory where
  memberships : List Membership
  users : List UserRow
  sessions : List Session

def secondFactorMethods : List String :=
  ["otp", "hwk", "swk", "mfa", "sms", "face", "fpt", "user", "pin"]

def liveSession (dir : Directory) (now : ℤ) (orgID userID sid : String) : Option Session :=
  dir.sessions.find? fun s =>
    s.sid == sid && s.orgID == orgID && s.userID == userID && !s.revoked &&
      decide (now < s.notAfter)

def sessionMFA (s : Session) : Bool :=
  s.amr.any (fun m => secondFactorMethods.contains m) ||
    s.acr.getD "0" == "urn:signari:mfa" || s.acr.getD "0" == "2"

def subjectFacts (dir : Directory) (now : Moment) (orgID userID sid : String) : Facts :=
  let groups := (dir.memberships.filter fun m => m.userID == userID && m.orgID == orgID).map
    Membership.group
  let account := dir.users.find? fun u => u.id == userID && u.orgID == orgID
  let session := if sid = "" then none else liveSession dir now.instant orgID userID sid
  { now := some now
    groups
    active := account.any UserRow.active
    emailVerified := account.any UserRow.emailVerified
    mfa := session.any sessionMFA
    fromSession := session.isSome }

theorem two_le_dedup {kinds : List FactorKind} :
    2 ≤ kinds.dedup.length ↔ .knowledge ∈ kinds ∧ .possession ∈ kinds := by
  constructor
  · intro h
    by_contra hmissing
    have hone : ∃ k, kinds.dedup ⊆ [k] := by
      rw [not_and_or] at hmissing
      rcases hmissing with hk | hp
      · refine ⟨.possession, fun x hx => ?_⟩
        cases x with
        | knowledge => exact absurd (mem_dedup.mp hx) hk
        | possession => exact mem_singleton_self _
      · refine ⟨.knowledge, fun x hx => ?_⟩
        cases x with
        | knowledge => exact mem_singleton_self _
        | possession => exact absurd (mem_dedup.mp hx) hp
    obtain ⟨k, hk⟩ := hone
    have := (subperm_of_subset (nodup_dedup kinds) hk).length_le
    simp only [length_singleton] at this
    omega
  · rintro ⟨hk, hp⟩
    have hsub : [FactorKind.knowledge, .possession] ⊆ kinds.dedup := by
      simp [mem_dedup, hk, hp]
    exact (subperm_of_subset (by decide) hsub).length_le

theorem knowledge_mem {m : String} :
    .knowledge ∈ factorKinds m ↔ m = "pwd" ∨ m = "pin" ∨ m = "mfa" := by
  unfold factorKinds
  split_ifs with hknow hposs huser hmfa
  · rcases hknow with rfl | rfl <;> decide
  · rcases hposs with rfl | rfl | rfl <;> decide
  · subst huser
    decide
  · subst hmfa
    decide
  · simp only [not_or] at hknow
    simp [hknow, hmfa]

theorem possession_mem {m : String} :
    .possession ∈ factorKinds m ↔ m = "otp" ∨ m = "hwk" ∨ m = "sms" ∨ m = "mfa" := by
  unfold factorKinds
  split_ifs with hknow hposs huser hmfa
  · rcases hknow with rfl | rfl <;> decide
  · rcases hposs with rfl | rfl | rfl <;> decide
  · subst huser
    decide
  · subst hmfa
    decide
  · simp only [not_or] at hposs
    simp [hposs, hmfa]

/-- Something known and something held, or the explicit claim of both. -/
def Independent (amr : List String) : Prop :=
  "mfa" ∈ amr ∨ (("pwd" ∈ amr ∨ "pin" ∈ amr) ∧ ("otp" ∈ amr ∨ "hwk" ∈ amr ∨ "sms" ∈ amr))

theorem acrFromAMR_multi {amr : List String} :
    acrFromAMR amr = acrMultiFactor ↔ Independent amr := by
  have hne : acrSingleFactor ≠ acrMultiFactor := by decide
  have hacr : acrFromAMR amr = acrMultiFactor ↔ 2 ≤ (amr.flatMap factorKinds).dedup.length := by
    unfold acrFromAMR
    split_ifs with h <;> simp [h, hne]
  rw [hacr, two_le_dedup, mem_flatMap, mem_flatMap]
  simp only [knowledge_mem, possession_mem, Independent]
  constructor
  · rintro ⟨⟨k, hk, hknow⟩, ⟨p, hp, hposs⟩⟩
    rcases hknow with rfl | rfl | rfl
    · rcases hposs with rfl | rfl | rfl | rfl <;> simp [hk, hp]
    · rcases hposs with rfl | rfl | rfl | rfl <;> simp [hk, hp]
    · exact .inl hk
  · rintro (h | ⟨hknow, hposs⟩)
    · exact ⟨⟨_, h, by simp⟩, ⟨_, h, by simp⟩⟩
    · constructor
      · rcases hknow with h | h <;> exact ⟨_, h, by simp⟩
      · rcases hposs with h | h | h <;> exact ⟨_, h, by simp⟩

theorem sessionMFA_iff (s : Session) :
    sessionMFA s = true ↔ Independent s.amr ∨ ∃ m ∈ s.amr, m ∈ secondFactorMethods := by
  have hurn : acrFromAMR s.amr ≠ "urn:signari:mfa" := by
    unfold acrFromAMR
    split_ifs <;> decide
  have hacr : s.acr.getD "0" = acrFromAMR s.amr := by rw [s.acr_derived]; rfl
  simp only [sessionMFA, hacr, Bool.or_eq_true, any_eq_true, contains_eq_mem,
    decide_eq_true_eq, beq_iff_eq, hurn, or_false]
  rw [← acrFromAMR_multi, or_comm]
  rfl

/-- For every session, the fact the decision point is given and the level the authorization
endpoint derives agree exactly when the methods hold two independent factors, or none of the
names that only one of the two counts. -/
theorem subjectFacts_mfa_iff (dir : Directory) (now : Moment) (orgID userID sid : String)
    (s : Session) (hsid : sid ≠ "")
    (hs : liveSession dir now.instant orgID userID sid = some s) :
    ((subjectFacts dir now orgID userID sid).mfa = true ↔ acrFromAMR s.amr = acrMultiFactor) ↔
      Independent s.amr ∨
        ∀ m ∈ s.amr, m ∉ ["otp", "hwk", "swk", "sms", "face", "fpt", "user", "pin"] := by
  have hfact : (subjectFacts dir now orgID userID sid).mfa = sessionMFA s := by
    simp [subjectFacts, hsid, hs]
  rw [hfact, sessionMFA_iff, acrFromAMR_multi]
  by_cases hind : Independent s.amr
  · simp [hind]
  · have hno : "mfa" ∉ s.amr := fun h => hind (.inl h)
    simp only [hind, false_or, iff_false, not_exists, not_and]
    refine forall₂_congr fun m hm => not_congr ?_
    have hm' : m ≠ "mfa" := fun h => hno (h ▸ hm)
    simp [secondFactorMethods, hm']

def signedInWith (amr : List String) : Directory where
  memberships := []
  users := [⟨"u1", "org", "ann@signari.dev", true, true⟩]
  sessions := [⟨"s1", "org", "u1", amr, some (acrFromAMR amr), false, 1000, rfl⟩]

def noon : Moment := ⟨12, ⟨"Thu", 12, 0⟩⟩

theorem subjectFacts_mfa_password_and_code :
    liveSession (signedInWith ["pwd", "otp"]) noon.instant "org" "u1" "s1" =
        (signedInWith ["pwd", "otp"]).sessions.head? ∧
      ((subjectFacts (signedInWith ["pwd", "otp"]) noon "org" "u1" "s1").mfa = true ↔
        acrFromAMR ["pwd", "otp"] = acrMultiFactor) := by
  have hlive : liveSession (signedInWith ["pwd", "otp"]) noon.instant "org" "u1" "s1" =
      (signedInWith ["pwd", "otp"]).sessions.head? := by rfl
  refine ⟨hlive, (subjectFacts_mfa_iff _ noon _ _ _ _ (by decide) hlive).mpr (.inl ?_)⟩
  exact .inr ⟨.inl (by decide), .inl (by decide)⟩

/-- A passkey used without verifying the person: a second factor for the decision point, a
single one for the authorization endpoint. -/
theorem subjectFacts_mfa_unverified_passkey :
    (subjectFacts (signedInWith ["user", "hwk"]) noon "org" "u1" "s1").mfa = true ∧
      acrFromAMR ["user", "hwk"] = acrSingleFactor := by
  decide

end Signari.SubjectFacts
