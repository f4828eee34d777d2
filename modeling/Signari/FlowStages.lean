import Signari.GoStrings

/-!
# Stages, designations and conditions of a sign-in flow

The closed vocabularies of `internal/flow/stages.go`. A stage name and a designation are
string types in the source, whose constants are the constructors here; text outside the
inventory is kept in `other`, so that validation has something to refuse, and the empty
name is the unset field.

A condition is evaluated through `Evaluator`, whose answers may change from one query to
the next: the server re-reads the database, so its evaluator carries a state of its own.
-/
namespace Signari.FlowStages
open GoStrings List

/-- What a flow is for. It selects which safety rule applies. -/
inductive Designation where
  | authentication | enrolment | recovery | unenrolment
  | other (text : String)
  deriving DecidableEq

def Designation.text : Designation → String
  | .authentication => "authentication"
  | .enrolment => "enrolment"
  | .recovery => "recovery"
  | .unenrolment => "unenrolment"
  | .other t => t

inductive StageName where
  | identify | captcha | password | passkey | mfa | emailOTP | smsOTP
  | certificate | kerberos | federated | delegated | consent | prompt
  | passwordChange | enrolMFA | createUser | session | deny | done
  | other (text : String)
  deriving DecidableEq

/-- The zero value of the source's string type: no stage was named. -/
abbrev StageName.unset : StageName := .other ""

def StageName.text : StageName → String
  | .identify => "identify"
  | .captcha => "captcha"
  | .password => "password"
  | .passkey => "passkey"
  | .mfa => "mfa"
  | .emailOTP => "email_otp"
  | .smsOTP => "sms_otp"
  | .certificate => "certificate"
  | .kerberos => "kerberos"
  | .federated => "federated"
  | .delegated => "delegated"
  | .consent => "consent"
  | .prompt => "prompt"
  | .passwordChange => "password_change"
  | .enrolMFA => "enrol_mfa"
  | .createUser => "create_user"
  | .session => "session"
  | .deny => "deny"
  | .done => "done"
  | .other t => t

/-- The inventory, in the order a reader should meet it. -/
def allStages : List StageName :=
  [.identify, .captcha, .password, .passkey, .mfa, .emailOTP, .smsOTP, .certificate,
    .kerberos, .federated, .delegated, .consent, .prompt, .passwordChange, .enrolMFA,
    .createUser, .session, .deny, .done]

/-- Stages that establish an authenticated subject. -/
def provingStages : List StageName :=
  [.password, .passkey, .mfa, .emailOTP, .smsOTP, .certificate, .kerberos, .federated,
    .delegated]

/-- The narrower set that counts in a recovery flow. -/
def recoveryProving : List StageName :=
  [.emailOTP, .smsOTP, .certificate, .passkey, .federated, .kerberos]

/-- Stages that change what the subject can authenticate with in future. -/
def mutatingStages : List StageName := [.enrolMFA, .passwordChange, .createUser]

def StageName.known (s : StageName) : Bool := allStages.contains s

def StageName.terminal (s : StageName) : Bool := s == .session || s == .deny || s == .done

/-- Whether the stage establishes a subject, for a given flow. -/
def StageName.proves (s : StageName) (d : Designation) : Bool :=
  if d = .recovery then recoveryProving.contains s else provingStages.contains s

def StageName.mutating (s : StageName) : Bool := mutatingStages.contains s

/-- A stage the proof and order rules speak about. -/
def StageName.guarded (s : StageName) : Bool :=
  s == .session || s == .enrolMFA || s == .passwordChange

theorem StageName.proves_proving {s : StageName} {d : Designation}
    (h : s.proves d = true) : s ∈ provingStages := by
  unfold StageName.proves at h
  split_ifs at h with hd
  · simp only [recoveryProving, contains_eq_mem, decide_eq_true_eq, mem_cons,
      not_mem_nil, or_false] at h
    rcases h with rfl | rfl | rfl | rfl | rfl | rfl <;> decide
  · simpa using h

theorem StageName.proves_not_guarded {s : StageName} {d : Designation}
    (h : s.proves d = true) : s.guarded = false ∧ s.terminal = false := by
  have hs := proves_proving h
  simp only [provingStages, mem_cons, not_mem_nil, or_false] at hs
  rcases hs with rfl | rfl | rfl | rfl | rfl | rfl | rfl | rfl | rfl <;> decide

/-- A named fact about the request, the subject or the client. -/
inductive Condition where
  | hasSecondFactor | hasPasskey | userIsNew | passwordChangeRequired | promptsPending
  | consentRequired | captchaRequired | riskElevated | deviceManaged | deviceCompliant
  | networkTrusted | clientRequiresMFA | kerberosAvailable | migrationPending
  | federatedSource

def Condition.text : Condition → String
  | .hasSecondFactor => "user_has_second_factor"
  | .hasPasskey => "user_has_passkey"
  | .userIsNew => "user_is_new"
  | .passwordChangeRequired => "password_change_required"
  | .promptsPending => "prompts_pending"
  | .consentRequired => "consent_required"
  | .captchaRequired => "captcha_required"
  | .riskElevated => "risk_elevated"
  | .deviceManaged => "device_managed"
  | .deviceCompliant => "device_compliant"
  | .networkTrusted => "network_trusted"
  | .clientRequiresMFA => "client_requires_mfa"
  | .kerberosAvailable => "kerberos_available"
  | .migrationPending => "migration_pending"
  | .federatedSource => "federated_source"

def allConditions : List Condition :=
  [.hasSecondFactor, .hasPasskey, .userIsNew, .passwordChangeRequired, .promptsPending,
    .consentRequired, .captchaRequired, .riskElevated, .deviceManaged, .deviceCompliant,
    .networkTrusted, .clientRequiresMFA, .kerberosAvailable, .migrationPending,
    .federatedSource]

def isCondition (s : String) : Bool := allConditions.any fun c => c.text == s

/-- The vocabulary as an error message lists it, in alphabetical order. -/
def knownConditions : String :=
  join ((allConditions.map Condition.text).mergeSort fun a b => decide (a ≤ b)) ", "

def knownStages : String := join (allStages.map StageName.text) ", "

/-- The condition a `when` expression names, with its negation removed. -/
def conditionName (expr : String) : String :=
  let name := trimSpace expr
  match cutPrefix name "not " with
  | some rest => trimSpace rest
  | none => name

/-- Validates a `when` expression: one condition, optionally negated. -/
def checkCondition (expr : String) : Except String Unit :=
  if expr = "" then .ok ()
  else
    let name := trimSpace expr
    let negated := cutPrefix name "not "
    if negated.isSome && conditionName expr == "" then
      .error "`when: not` negates nothing"
    else if containsAny (conditionName expr) " \t" then
      .error ("`when: " ++ expr ++ "` is not a single condition. A `when` is one condition, " ++
        "optionally negated with `not`; two facts are two steps")
    else if !isCondition (conditionName expr) then
      .error (quote (conditionName expr) ++ " is not a condition (" ++ knownConditions ++ ")")
    else .ok ()

theorem checkCondition_known {expr : String} (h : checkCondition expr = .ok ())
    (hne : expr ≠ "") : isCondition (conditionName expr) = true := by
  unfold checkCondition at h
  simp only [hne, if_false] at h
  split_ifs at h with h₁ h₂ h₃
  simpa using h₃

/-- Answers whether a named condition holds. Answering may read the database, so the
evaluator's own state `ε` moves with every query. -/
structure Evaluator (ε : Type) where
  holds : ε → String → Bool × ε

/-- A fixed situation; a condition absent from the map is false. -/
abbrev State := String → Bool

/-- A map as an evaluator: asking changes nothing. -/
def State.evaluator (st : State) : Evaluator Unit := ⟨fun e name => (st name, e)⟩

/-- Evaluates a `when` against an evaluator. The empty expression always holds and asks
nothing. -/
def holds {ε : Type} (ev : Evaluator ε) (e : ε) (expr : String) : Bool × ε :=
  if expr = "" then (true, e)
  else
    let name := trimSpace expr
    match cutPrefix name "not " with
    | some rest =>
      let r := ev.holds e (trimSpace rest)
      (!r.1, r.2)
    | none => ev.holds e name

/-- The same evaluation in a fixed situation. -/
def State.holds (st : State) (expr : String) : Bool := (FlowStages.holds st.evaluator () expr).1

section
variable {ε : Type} (ev : Evaluator ε) (e : ε)

@[simp] theorem holds_empty : holds ev e "" = (true, e) := rfl

/-- A non-empty expression asks exactly once, about the name it carries. -/
theorem holds_query {expr : String} (h : expr ≠ "") :
    holds ev e expr =
      let r := ev.holds e (conditionName expr)
      (if (cutPrefix (trimSpace expr) "not ").isSome then !r.1 else r.1, r.2) := by
  unfold holds conditionName
  simp only [h, if_false]
  cases cutPrefix (trimSpace expr) "not " <;> rfl

end

theorem State.exists_not_holds {expr : String} (h : expr ≠ "") :
    ∃ st : State, st.holds expr = false := by
  refine ⟨fun _ => (cutPrefix (trimSpace expr) "not ").isSome, ?_⟩
  unfold State.holds
  rw [holds_query _ _ h]
  cases hc : (cutPrefix (trimSpace expr) "not ").isSome <;> simp [State.evaluator]

end Signari.FlowStages
