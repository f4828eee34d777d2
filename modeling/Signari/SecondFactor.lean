import Signari.SignInDriver
import Signari.TotpCodes

/-!
# Spending a second factor

The TOTP credential of one account and the requests that use it: a post to the second-factor form,
the confirmation of an enrolment, and the enrolment itself. `LoadTOTP` takes the lock of the row,
and the lock is held until the transaction ends, so the others that need it wait; what a request
does in between is `handleMFAPost` and `handleTOTPConfirm`, over the row that it found.

The other factors, the signing keys and the rest of the database enter as what they answer to one
request.

A sign-in that a stage takes over abandons the transaction, and with it the record that the code was
used.
-/
namespace Signari.SecondFactor
open UrlValues FlowFile SignInDriver TotpCodes List

def maxTOTPFailures : ℕ := 5

/-- Five minutes. -/
def totpLockout : ℤ := 300000000000

structure Credential where
  secret : List UInt8
  digits : ℤ
  period : ℤ
  confirmed : Bool
  lastCounter : ℤ
  failedAttempts : ℕ
  lockedUntil : Option ℤ
  deriving DecidableEq

/-- What `EnrollTOTP` leaves. -/
def enrollTOTP (secret : List UInt8) (digits period : ℤ) : Credential :=
  ⟨secret, digits, period, false, 0, 0, none⟩

/-- A request that loads the credential. `opens`, `writes` and `commits` say whether the
secret can be decrypted, the credential be updated and the transaction be committed. -/
structure Request where
  code : String
  began : ℤ
  loadedAt : ℤ
  checkedAt : ℤ
  opens : Bool
  writes : Bool
  commits : Bool

inductive LoadError where
  | noTOTP | totpLocked | failed

def loadTOTP (r : Request) (row : Option Credential) : Except LoadError Credential := match row with
  | none => .error .noTOTP
  | some c =>
    if c.lockedUntil.any fun t => decide (r.loadedAt < t) then .error .totpLocked
    else if r.opens = false then .error .failed
    else .ok c

def recordTOTPSuccess (counter : ℤ) (c : Credential) : Credential :=
  { c with
    lastCounter := max c.lastCounter counter, failedAttempts := 0, lockedUntil := none,
    confirmed := true }

/-- `now()` is the beginning of the transaction. -/
def recordTOTPFailure (began : ℤ) (c : Credential) : Credential :=
  { c with
    failedAttempts := c.failedAttempts + 1,
    lockedUntil := if maxTOTPFailures ≤ c.failedAttempts + 1 then some (began + totpLockout)
      else c.lockedUntil }

/-- How far the issue of a session gets before its commit. -/
inductive Issue where
  | issued | limitReached | failed

/-- A post to the second-factor form. The other factors answer whether they accept the code,
or fail. -/
structure Post (P : Type) extends Request where
  emailOTP : Except Unit Bool
  smsOTP : Except Unit Bool
  recoveryCode : Except Unit Bool
  pendingAMR : List String
  flow : Option Flow
  subject : Subject P
  authz : Option Values
  issue : Issue

variable {P : Type}

/-- The factors after the authenticator, in their order. -/
def otherFactors (p : Post P) : Except Unit (Option (List String)) := do
  if ← p.emailOTP then return some ["otp"]
  if ← p.smsOTP then return some ["sms"]
  if ← p.recoveryCode then return some ["otp"]
  return none

section

variable (hmac : List UInt8 → List UInt8 → Sum)

/-- What `Verify` says about the code of a request. -/
def checkCode (r : Request) (c : Credential) : Except VerifyError ℤ :=
  verify hmac c.secret r.code r.checkedAt c.digits c.period defaultSkew c.lastCounter

def verifySecondFactor (p : Post P) (row : Option Credential) :
    Except Unit (Option (List String)) × Option Credential :=
  match loadTOTP p.toRequest row with
  | .error .totpLocked => (.ok none, row)
  | .error .noTOTP => (otherFactors p, row)
  | .error .failed => (.error (), row)
  | .ok c =>
    match checkCode hmac p.toRequest c with
    | .ok counter =>
      if p.writes then (.ok (some ["otp"]), some (recordTOTPSuccess counter c))
      else (.error (), row)
    | .error _ =>
      match otherFactors p with
      | .error () => (.error (), row)
      | .ok (some amr) => (.ok (some amr), row)
      | .ok none =>
        if p.writes then (.ok none, some (recordTOTPFailure p.began c))
        else (.error (), row)

/-- The answer to a post. -/
inductive Answer (P : Type) where
  | invalid
  | failed
  | denied
  | limitReached
  | stage (t : Takeover P)
  | done
  | session
  deriving DecidableEq

def completeSignIn (p : Post P) (amr : List String) : Answer P × Bool :=
  match advanceSignIn p.flow p.subject amr p.authz with
  | .handled t => (.stage t, false)
  | .deny => (.denied, false)
  | .done => (.done, p.commits)
  | .session =>
    match p.issue with
    | .failed => (.failed, false)
    | .limitReached => (.limitReached, p.commits)
    | .issued => if p.commits then (.session, true) else (.failed, false)

def handleMFAPost (p : Post P) (row : Option Credential) : Answer P × Option Credential :=
  match verifySecondFactor hmac p row with
  | (.error (), _) => (.failed, row)
  | (.ok none, written) => (.invalid, if p.commits then written else row)
  | (.ok (some amr), written) =>
    let r := completeSignIn p (p.pendingAMR ++ amr ++ ["mfa"])
    (r.1, if r.2 then written else row)

/-- The confirmation of an enrolment; `issues` says whether the recovery codes and the audit
record are written. -/
structure Confirm extends Request where
  issues : Bool

/-- Whether the code is accepted, and the row that is left. -/
def handleTOTPConfirm (q : Confirm) (row : Option Credential) : Bool × Option Credential :=
  match loadTOTP q.toRequest row with
  | .error _ => (false, row)
  | .ok c =>
    match checkCode hmac q.toRequest c with
    | .error _ => (false, row)
    | .ok counter =>
      if q.writes && q.issues && q.commits then (true, some (recordTOTPSuccess counter c))
      else (false, row)

end

section

variable (hmac : List UInt8 → List UInt8 → Sum)

/-- What has happened to the credential of an account, with the row that each found. -/
inductive Entry (P : Type) where
  | enrolled
  | removed
  | post (found : Option Credential) (p : Post P) (answer : Answer P)
  | confirm (found : Option Credential) (q : Confirm) (accepted : Bool)

/-- A transaction that loads the credential. -/
inductive Transaction (P : Type) where
  | post (p : Post P)
  | confirm (q : Confirm)

def Transaction.serve (t : Transaction P) (row : Option Credential) : Entry P × Option Credential :=
  match t with
  | .post p => (.post row p (handleMFAPost hmac p row).1, (handleMFAPost hmac p row).2)
  | .confirm q =>
    (.confirm row q (handleTOTPConfirm hmac q row).1, (handleTOTPConfirm hmac q row).2)

/-- The row of the account, the transaction that holds its lock with the row it found, and
what has happened, the latest first. -/
structure System (P : Type) where
  row : Option Credential
  holder : Option (Transaction P × Credential)
  log : List (Entry P)

/-- One step. Whoever needs the row waits until its lock is free; without a row there is nothing to
lock. -/
inductive Step : System P → System P → Prop
  | load {s : System P} (t : Transaction P) (c : Credential) (hfree : s.holder = none)
      (hrow : s.row = some c) : Step s { s with holder := some (t, c) }
  | finish {s : System P} (t : Transaction P) (c : Credential)
      (hheld : s.holder = some (t, c)) :
      Step s ⟨(t.serve hmac (some c)).2, none, (t.serve hmac (some c)).1 :: s.log⟩
  | absent {s : System P} (t : Transaction P) (hrow : s.row = none) :
      Step s { s with log := (t.serve hmac none).1 :: s.log }
  | enroll {s : System P} (secret : List UInt8) (digits period : ℤ) (hfree : s.holder = none) :
      Step s ⟨some (enrollTOTP secret digits period), none, .enrolled :: s.log⟩
  | remove {s : System P} (hfree : s.holder = none) : Step s ⟨none, none, .removed :: s.log⟩

/-- The states an account without a credential can come to. -/
inductive Reached : System P → Prop
  | start : Reached ⟨none, none, []⟩
  | step {s s' : System P} (h : Reached s) (hstep : Step hmac s s') : Reached s'

/-- The code of a request is looked at. -/
def evaluates (r : Request) (found : Option Credential) : Bool := (loadTOTP r found).toOption.isSome

def rightStep (r : Request) (found : Option Credential) : Option ℤ :=
  (loadTOTP r found).toOption.bind fun c => (checkCode hmac r c).toOption

/-- The sign-in goes on: with a session, at the end of the flow or at its next stage. -/
def Answer.accepts : Answer P → Bool
  | .session | .done | .stage _ => true
  | _ => false

/-- The transaction of a right code is committed. -/
def Answer.records : Answer P → Bool
  | .session | .done | .limitReached => true
  | _ => false

/-- The credential is a new one, or gone. -/
def Entry.renews : Entry P → Bool
  | .enrolled | .removed => true
  | _ => false

def Entry.request : Entry P → Option (Request × Option Credential)
  | .post found p _ => some (p.toRequest, found)
  | .confirm found q _ => some (q.toRequest, found)
  | _ => none

def Entry.accepted : Entry P → Option ℤ
  | .post found p answer => if answer.accepts then rightStep hmac p.toRequest found else none
  | .confirm found q accepted => if accepted then rightStep hmac q.toRequest found else none
  | _ => none

/-- A success that is recorded, or another credential: failures count from here. -/
def Entry.clears : Entry P → Bool
  | .post found p answer => answer.records && (rightStep hmac p.toRequest found).isSome
  | .confirm _ _ accepted => accepted
  | _ => true

/-- A post that is answered with "That code is not valid." -/
def Entry.failedPost : Entry P → Bool
  | .post _ _ .invalid => true
  | _ => false

def Entry.failure : Entry P → Option Request
  | .post found p .invalid => if evaluates p.toRequest found then some p.toRequest else none
  | _ => none

/-- What has happened since the last success. -/
def since (log : List (Entry P)) : List (Entry P) := log.takeWhile fun e => !e.clears hmac

/-- Between two enrolments the steps that are accepted increase. -/
def SpentOnce (log : List (Entry P)) : Prop :=
  ∀ after later between earlier before, log = after ++ later :: (between ++ earlier :: before) →
    (∀ e ∈ between, e.renews = false) →
      ∀ a ∈ earlier.accepted hmac, ∀ b ∈ later.accepted hmac, a < b

/-- After five failed posts without a success no code is looked at before the lock-out has
passed that the latest failure began. -/
def LockedOut (log : List (Entry P)) : Prop :=
  ∀ after e before, log = after ++ e :: before → ∀ r found, e.request = some (r, found) →
    evaluates r found = true → maxTOTPFailures ≤ (since hmac before).countP Entry.failedPost →
      ∃ p ∈ (since hmac before).findSome? Entry.failure, p.began + totpLockout ≤ r.loadedAt

/-- The commits go through, and no right code meets a stage that takes the sign-in over. -/
def Entry.Settles : Entry P → Prop
  | .post found p _ => p.commits = true ∧ ((rightStep hmac p.toRequest found).isSome →
      ∀ t, advanceSignIn p.flow p.subject (p.pendingAMR ++ ["otp"] ++ ["mfa"]) p.authz ≠ .handled t)
  | _ => True

/-- What one transaction does to the credential it found. -/
inductive Effect (c : Credential) (e : Entry P) : Credential → Prop
  | kept (haccepted : e.accepted hmac = none) (hclears : e.clears hmac = false)
      (hfailure : e.failure = none) (hlocked : e.failedPost = true → c.lockedUntil ≠ none) :
      Effect c e c
  | spent (step : ℤ) (hlater : c.lastCounter < step)
      (haccepted : ∀ a ∈ e.accepted hmac, a = step) (hclears : e.clears hmac = true) :
      Effect c e (recordTOTPSuccess step c)
  | counted (r : Request) (haccepted : e.accepted hmac = none) (hclears : e.clears hmac = false)
      (hfailure : e.failure = some r) (hfailed : e.failedPost = true) :
      Effect c e (recordTOTPFailure r.began c)

variable {hmac}

theorem loadTOTP_ok {r : Request} {c c' : Credential} (h : loadTOTP r (some c) = .ok c') :
    c' = c ∧ ∀ t ∈ c.lockedUntil, t ≤ r.loadedAt := by
  unfold loadTOTP at h
  dsimp only at h
  split at h
  · cases h
  · rename_i hlocked
    split at h
    · cases h
    · refine ⟨(Except.ok.inj h).symm, ?_⟩
      intro t ht
      rw [Option.mem_def.mp ht] at hlocked
      simpa using hlocked

theorem evaluates_ok {r : Request} {c : Credential} (h : evaluates r (some c) = true) :
    loadTOTP r (some c) = .ok c := by
  unfold evaluates at h
  cases hload : loadTOTP r (some c) with
  | error e => simp [hload, Except.toOption] at h
  | ok c' => rw [(loadTOTP_ok hload).1]

theorem totpLocked_some {r : Request} {c : Credential}
    (h : loadTOTP r (some c) = .error .totpLocked) : c.lockedUntil ≠ none := by
  intro hnone
  simp only [loadTOTP, hnone, Option.any_none, Bool.false_eq_true, if_false] at h
  split at h <;> cases h

theorem completeSignIn_cases {p : Post P} {amr : List String} (hcommits : p.commits = true)
    (hfree : ∀ t, advanceSignIn p.flow p.subject amr p.authz ≠ .handled t) :
    ((completeSignIn p amr).1.records = true ∧ (completeSignIn p amr).2 = true) ∨
      ((completeSignIn p amr).1.records = false ∧ (completeSignIn p amr).1.accepts = false ∧
        (completeSignIn p amr).1 ≠ .invalid ∧ (completeSignIn p amr).2 = false) := by
  unfold completeSignIn
  cases hdecision : advanceSignIn p.flow p.subject amr p.authz with
  | handled t => exact absurd hdecision (hfree t)
  | deny => exact .inr ⟨rfl, rfl, by simp, rfl⟩
  | done => exact .inl ⟨rfl, hcommits⟩
  | session =>
    cases p.issue with
    | failed => exact .inr ⟨rfl, rfl, by simp, rfl⟩
    | limitReached => exact .inl ⟨rfl, hcommits⟩
    | issued =>
      dsimp only
      rw [if_pos hcommits]
      exact .inl ⟨rfl, rfl⟩

theorem completeSignIn_invalid (p : Post P) (amr : List String) :
    (completeSignIn p amr).1 ≠ .invalid := by
  unfold completeSignIn
  cases advanceSignIn p.flow p.subject amr p.authz with
  | handled t => simp
  | deny => simp
  | done => simp
  | session =>
    cases p.issue with
    | failed => simp
    | limitReached => simp
    | issued =>
      dsimp only
      split <;> simp

theorem failure_eq_none {found : Option Credential} {p : Post P} {answer : Answer P}
    (h : answer ≠ .invalid) :
    (Entry.post found p answer).failure = none ∧
      (Entry.post found p answer).failedPost = false := by
  cases answer with
  | invalid => exact absurd rfl h
  | _ => exact ⟨rfl, rfl⟩

theorem right_effect {p : Post P} {c : Credential} {step : ℤ}
    (hload : loadTOTP p.toRequest (some c) = .ok c)
    (hcheck : checkCode hmac p.toRequest c = .ok step)
    (hcommits : p.commits = true)
    (hfree : ∀ t, advanceSignIn p.flow p.subject (p.pendingAMR ++ ["otp"] ++ ["mfa"]) p.authz ≠
      .handled t) :
    ∃ c', (handleMFAPost hmac p (some c)).2 = some c' ∧
      Effect hmac c (.post (some c) p (handleMFAPost hmac p (some c)).1) c' := by
  have hstep : rightStep hmac p.toRequest (some c) = some step := by
    simp [rightStep, hload, hcheck, Except.toOption]
  unfold handleMFAPost verifySecondFactor
  simp only [hload, hcheck]
  cases hw : p.writes with
  | false =>
    simp only [Bool.false_eq_true, if_false]
    exact ⟨c, rfl, .kept rfl rfl rfl (by simp [Entry.failedPost])⟩
  | true =>
    simp only [if_true]
    rcases completeSignIn_cases hcommits hfree with
      ⟨hrecords, hcommit⟩ | ⟨hno, haccepts, hinv, hcommit⟩
    · refine ⟨recordTOTPSuccess step c, by rw [if_pos hcommit],
        .spent step (verify_ok hmac hcheck).1 ?_ ?_⟩
      · intro a ha
        simp only [Entry.accepted, hstep] at ha
        split at ha
        · exact (Option.some.inj ha).symm
        · cases ha
      · rw [Entry.clears, hrecords, hstep]
        rfl
    · refine ⟨c, by rw [hcommit]; rfl, .kept ?_ ?_ (failure_eq_none hinv).1 ?_⟩
      · rw [Entry.accepted, haccepts]
        rfl
      · rw [Entry.clears, hno]
        rfl
      · rw [(failure_eq_none hinv).2]
        simp

theorem wrong_effect {p : Post P} {c : Credential} {e : VerifyError}
    (hload : loadTOTP p.toRequest (some c) = .ok c)
    (hcheck : checkCode hmac p.toRequest c = .error e)
    (hcommits : p.commits = true) :
    ∃ c', (handleMFAPost hmac p (some c)).2 = some c' ∧
      Effect hmac c (.post (some c) p (handleMFAPost hmac p (some c)).1) c' := by
  have hstep : rightStep hmac p.toRequest (some c) = none := by
    simp [rightStep, hload, hcheck, Except.toOption]
  have haccepted : ∀ answer : Answer P, (Entry.post (some c) p answer).accepted hmac = none := by
    intro answer
    rw [Entry.accepted, hstep, ite_self]
  have hclears : ∀ answer : Answer P, (Entry.post (some c) p answer).clears hmac = false := by
    intro answer
    rw [Entry.clears, hstep, Option.isSome_none, Bool.and_false]
  unfold handleMFAPost verifySecondFactor
  simp only [hload, hcheck]
  cases hother : otherFactors p with
  | error u => exact ⟨c, rfl, .kept (haccepted _) (hclears _) rfl (by simp [Entry.failedPost])⟩
  | ok factors =>
    cases factors with
    | some amr =>
      have hno : _ ∧ (Entry.post (some c) p _).failedPost = false :=
        failure_eq_none (completeSignIn_invalid p (p.pendingAMR ++ amr ++ ["mfa"]))
      refine ⟨c, by dsimp only; split <;> rfl, .kept (haccepted _) (hclears _) hno.1 ?_⟩
      rw [hno.2]
      simp
    | none =>
      cases hw : p.writes with
      | false =>
        simp only [Bool.false_eq_true, if_false]
        exact ⟨c, rfl, .kept (haccepted _) (hclears _) rfl (by simp [Entry.failedPost])⟩
      | true =>
        simp only [if_true, hcommits]
        refine ⟨_, rfl, .counted p.toRequest (haccepted _) (hclears _) ?_ rfl⟩
        simp [Entry.failure, evaluates, hload, Except.toOption]

theorem post_effect {p : Post P} {c : Credential} {answer : Answer P}
    (h : (Entry.post (some c) p answer).Settles hmac) :
    ∃ c', (handleMFAPost hmac p (some c)).2 = some c' ∧
      Effect hmac c (.post (some c) p (handleMFAPost hmac p (some c)).1) c' := by
  obtain ⟨hcommits, hfree⟩ := h
  cases hload : loadTOTP p.toRequest (some c) with
  | ok c' =>
    obtain rfl := (loadTOTP_ok hload).1
    cases hcheck : checkCode hmac p.toRequest c' with
    | ok step =>
      refine right_effect hload hcheck hcommits (hfree ?_)
      simp [rightStep, hload, hcheck, Except.toOption]
    | error e => exact wrong_effect hload hcheck hcommits
  | error e =>
    have hstep : rightStep hmac p.toRequest (some c) = none := by
      simp [rightStep, hload, Except.toOption]
    cases e with
    | noTOTP =>
      unfold loadTOTP at hload
      dsimp only at hload
      split_ifs at hload <;> cases hload
    | totpLocked =>
      unfold handleMFAPost verifySecondFactor
      simp only [hload, hcommits, if_true]
      refine ⟨c, rfl, .kept ?_ ?_ ?_ fun _ => totpLocked_some hload⟩
      · rw [Entry.accepted, hstep, ite_self]
      · rw [Entry.clears, hstep, Option.isSome_none, Bool.and_false]
      · simp [Entry.failure, evaluates, hload, Except.toOption]
    | failed =>
      unfold handleMFAPost verifySecondFactor
      simp only [hload]
      exact ⟨c, rfl, .kept rfl rfl rfl (by simp [Entry.failedPost])⟩

theorem confirm_effect (q : Confirm) (c : Credential) :
    ∃ c', (handleTOTPConfirm hmac q (some c)).2 = some c' ∧
      Effect hmac c (.confirm (some c) q (handleTOTPConfirm hmac q (some c)).1 : Entry P) c' := by
  unfold handleTOTPConfirm
  cases hload : loadTOTP q.toRequest (some c) with
  | error e => exact ⟨c, rfl, .kept rfl rfl rfl (by simp [Entry.failedPost])⟩
  | ok c' =>
    obtain rfl := (loadTOTP_ok hload).1
    cases hcheck : checkCode hmac q.toRequest c' with
    | error e =>
      simp only [hcheck]
      exact ⟨c', rfl, .kept rfl rfl rfl (by simp [Entry.failedPost])⟩
    | ok step =>
      simp only [hcheck]
      split
      · refine ⟨_, rfl, .spent step (verify_ok hmac hcheck).1 ?_ rfl⟩
        intro a ha
        simpa [Entry.accepted, rightStep, hload, hcheck, Except.toOption] using ha.symm
      · exact ⟨c', rfl, .kept rfl rfl rfl (by simp [Entry.failedPost])⟩

theorem serve_effect (t : Transaction P) (c : Credential)
    (h : (t.serve hmac (some c)).1.Settles hmac) :
    ∃ c', (t.serve hmac (some c)).2 = some c' ∧ Effect hmac c (t.serve hmac (some c)).1 c' := by
  cases t with
  | post p => exact post_effect h
  | confirm q => exact confirm_effect q c

/-- What holds of the credential and the log in every state that is reached. -/
structure Sound (hmac : List UInt8 → List UInt8 → Sum) (s : System P) : Prop where
  held : ∀ t c, s.holder = some (t, c) → s.row = some c
  counter : ∀ c, s.row = some c → ∀ between earlier before,
    s.log = between ++ earlier :: before → (∀ e ∈ between, e.renews = false) →
      ∀ a ∈ earlier.accepted hmac, a ≤ c.lastCounter
  attempts : ∀ c, s.row = some c →
    c.failedAttempts = (since hmac s.log).countP fun e => e.failure.isSome
  locked : ∀ c, s.row = some c → c.lockedUntil =
    if maxTOTPFailures ≤ c.failedAttempts then
      ((since hmac s.log).findSome? Entry.failure).map fun p => p.began + totpLockout
    else none
  refused : ∀ c, s.row = some c → ∀ e ∈ since hmac s.log, e.failedPost = true →
    e.failure = none → maxTOTPFailures ≤ c.failedAttempts
  spent : SpentOnce hmac s.log
  lockedOut : LockedOut hmac s.log

theorem since_cons (e : Entry P) (log : List (Entry P)) :
    since hmac (e :: log) = if e.clears hmac then [] else e :: since hmac log := by
  unfold since
  rw [takeWhile_cons]
  cases e.clears hmac <;> rfl

theorem SpentOnce.cons {e : Entry P} {log : List (Entry P)} (h : SpentOnce hmac log)
    (hnew : ∀ between earlier before, log = between ++ earlier :: before →
      (∀ x ∈ between, x.renews = false) →
        ∀ a ∈ earlier.accepted hmac, ∀ b ∈ e.accepted hmac, a < b) :
    SpentOnce hmac (e :: log) := by
  intro after later between earlier before heq hbetween a ha b hb
  rcases cons_eq_append_iff.mp heq with ⟨rfl, hcons⟩ | ⟨after', rfl, hlog⟩
  · obtain ⟨rfl, hlog⟩ := List.cons.inj hcons
    exact hnew between earlier before hlog.symm hbetween a ha b hb
  · exact h after' later between earlier before hlog hbetween a ha b hb

theorem LockedOut.cons {e : Entry P} {log : List (Entry P)} (h : LockedOut hmac log)
    (hnew : ∀ r found, e.request = some (r, found) → evaluates r found = true →
      maxTOTPFailures ≤ (since hmac log).countP Entry.failedPost →
        ∃ p ∈ (since hmac log).findSome? Entry.failure, p.began + totpLockout ≤ r.loadedAt) :
    LockedOut hmac (e :: log) := by
  intro after x before heq
  rcases cons_eq_append_iff.mp heq with ⟨rfl, hcons⟩ | ⟨after', rfl, hlog⟩
  · obtain ⟨rfl, rfl⟩ := List.cons.inj hcons
    exact hnew
  · exact h after' x before hlog

theorem Sound.five_failed {s : System P} (h : Sound hmac s) {c : Credential} (hrow : s.row = some c)
    (hfive : maxTOTPFailures ≤ (since hmac s.log).countP Entry.failedPost) :
    maxTOTPFailures ≤ c.failedAttempts := by
  by_cases hmet : ∃ e ∈ since hmac s.log, e.failedPost = true ∧ e.failure = none
  · obtain ⟨e, he, hfailed, hnone⟩ := hmet
    exact h.refused c hrow e he hfailed hnone
  · rw [h.attempts c hrow]
    refine le_trans hfive (countP_mono_left ?_)
    intro e he hfailed
    by_contra hnone
    rw [Option.not_isSome_iff_eq_none] at hnone
    exact hmet ⟨e, he, hfailed, hnone⟩

theorem Sound.lock_passed {s : System P} (h : Sound hmac s) {c : Credential}
    (hrow : s.row = some c) {r : Request} (heval : evaluates r (some c) = true)
    (hfive : maxTOTPFailures ≤ (since hmac s.log).countP Entry.failedPost) :
    ∃ p ∈ (since hmac s.log).findSome? Entry.failure, p.began + totpLockout ≤ r.loadedAt := by
  have hattempts := h.five_failed hrow hfive
  have hlocked := h.locked c hrow
  rw [if_pos hattempts] at hlocked
  obtain ⟨p, hp⟩ : ∃ p, (since hmac s.log).findSome? Entry.failure = some p := by
    rw [← Option.isSome_iff_exists, findSome?_isSome_iff]
    rw [h.attempts c hrow] at hattempts
    obtain ⟨e, he, hsome⟩ := countP_pos_iff.mp (lt_of_lt_of_le (by decide) hattempts)
    exact ⟨e, he, hsome⟩
  refine ⟨p, hp, ?_⟩
  rw [hp] at hlocked
  exact (loadTOTP_ok (evaluates_ok heval)).2 _ hlocked

theorem Sound.counter_cons {s : System P} (h : Sound hmac s) {c : Credential}
    (hrow : s.row = some c) {e : Entry P} {last : ℤ} (hlast : c.lastCounter ≤ last)
    (he : ∀ a ∈ e.accepted hmac, a ≤ last) :
    ∀ between earlier before, e :: s.log = between ++ earlier :: before →
      (∀ x ∈ between, x.renews = false) → ∀ a ∈ earlier.accepted hmac, a ≤ last := by
  intro between earlier before heq hbetween a ha
  rcases cons_eq_append_iff.mp heq with ⟨rfl, hcons⟩ | ⟨between', rfl, hlog⟩
  · obtain ⟨rfl, -⟩ := List.cons.inj hcons
    exact he a ha
  · refine le_trans (h.counter c hrow between' earlier before hlog ?_ a ha) hlast
    exact fun x hx => hbetween x (mem_cons_of_mem _ hx)

/-- What one transaction does keeps what holds. -/
theorem Sound.serve {s : System P} (h : Sound hmac s) {c c' : Credential}
    (hrow : s.row = some c) {e : Entry P} (heffect : Effect hmac c e c')
    (hfound : ∀ r found, e.request = some (r, found) → found = some c) :
    Sound hmac ⟨some c', none, e :: s.log⟩ := by
  have hlockedOut : LockedOut hmac (e :: s.log) := by
    refine h.lockedOut.cons ?_
    intro r found hrequest heval hfive
    rw [hfound r found hrequest] at heval
    exact h.lock_passed hrow heval hfive
  have hspent : (∀ b ∈ e.accepted hmac, c.lastCounter < b) → SpentOnce hmac (e :: s.log) := by
    intro hlater
    refine h.spent.cons ?_
    intro between earlier before hlog hbetween a ha b hb
    exact lt_of_le_of_lt (h.counter c hrow between earlier before hlog hbetween a ha) (hlater b hb)
  have hattempts := h.attempts c hrow
  have hlocked := h.locked c hrow
  cases heffect with
  | kept haccepted hclears hfailure hmet =>
    have hsince : since hmac (e :: s.log) = e :: since hmac s.log := by
      rw [since_cons, hclears]
      rfl
    refine ⟨by simp, ?_, ?_, ?_, ?_, hspent (by simp [haccepted]), hlockedOut⟩
    · rintro _ ⟨rfl⟩
      exact h.counter_cons hrow le_rfl (by simp [haccepted])
    · rintro _ ⟨rfl⟩
      rw [hattempts, hsince, countP_cons_of_neg (by simp [hfailure])]
    · rintro _ ⟨rfl⟩
      rw [hsince, findSome?_cons_of_isNone (by simp [hfailure])]
      exact hlocked
    · rintro _ ⟨rfl⟩ x hx hfailed hnone
      rw [hsince] at hx
      rcases mem_cons.mp hx with rfl | hx
      · by_contra hfew
        rw [if_neg hfew] at hlocked
        exact hmet hfailed hlocked
      · exact h.refused c hrow x hx hfailed hnone
  | spent step hlater haccepted hclears =>
    have hsince : since hmac (e :: s.log) = [] := by
      rw [since_cons, hclears]
      rfl
    refine ⟨by simp, ?_, ?_, ?_, ?_, hspent ?_, hlockedOut⟩
    · rintro _ ⟨rfl⟩
      refine h.counter_cons hrow (le_max_left _ _) ?_
      intro a ha
      rw [haccepted a ha]
      exact le_max_right _ _
    · rintro _ ⟨rfl⟩
      rw [hsince]
      rfl
    · rintro _ ⟨rfl⟩
      rw [hsince]
      rfl
    · rintro _ ⟨rfl⟩ x hx
      rw [hsince] at hx
      cases hx
    · intro b hb
      rw [haccepted b hb]
      exact hlater
  | counted r haccepted hclears hfailure hfailed =>
    have hsince : since hmac (e :: s.log) = e :: since hmac s.log := by
      rw [since_cons, hclears]
      rfl
    refine ⟨by simp, ?_, ?_, ?_, ?_, hspent (by simp [haccepted]), hlockedOut⟩
    · rintro _ ⟨rfl⟩
      exact h.counter_cons hrow le_rfl (by simp [haccepted])
    · rintro _ ⟨rfl⟩
      rw [hsince, countP_cons_of_pos (by simp [hfailure]), ← hattempts]
      rfl
    · rintro _ ⟨rfl⟩
      rw [hsince, findSome?_cons_of_isSome (by simp [hfailure]), hfailure]
      by_cases hmany : maxTOTPFailures ≤ (recordTOTPFailure r.began c).failedAttempts
      · rw [if_pos hmany]
        exact if_pos hmany
      · have hfew : ¬maxTOTPFailures ≤ c.failedAttempts := fun hle => hmany (Nat.le_succ_of_le hle)
        rw [if_neg hmany]
        exact (if_neg hmany).trans (hlocked.trans (if_neg hfew))
    · rintro _ ⟨rfl⟩ x hx hfailed' hnone
      rw [hsince] at hx
      rcases mem_cons.mp hx with rfl | hx
      · rw [hfailure] at hnone
        cases hnone
      · exact Nat.le_succ_of_le (h.refused c hrow x hx hfailed' hnone)

theorem Sound.renew {s : System P} (h : Sound hmac s) {e : Entry P} {row : Option Credential}
    (he : e = .enrolled ∨ e = .removed)
    (hrow : ∀ c, row = some c → c.failedAttempts = 0 ∧ c.lockedUntil = none) :
    Sound hmac ⟨row, none, e :: s.log⟩ := by
  have hrenews : e.renews = true := by
    rcases he with rfl | rfl <;> rfl
  have haccepted : e.accepted hmac = none := by
    rcases he with rfl | rfl <;> rfl
  have hrequest : e.request = none := by
    rcases he with rfl | rfl <;> rfl
  have hsince : since hmac (e :: s.log) = [] := by
    rw [since_cons]
    rcases he with rfl | rfl <;> rfl
  refine ⟨by simp, ?_, ?_, ?_, ?_, h.spent.cons (by simp [haccepted]),
    h.lockedOut.cons (by simp [hrequest])⟩
  · intro c _ between earlier before heq hbetween a ha
    rcases cons_eq_append_iff.mp heq with ⟨rfl, hcons⟩ | ⟨between', rfl, -⟩
    · obtain ⟨rfl, -⟩ := List.cons.inj hcons
      rw [haccepted] at ha
      cases ha
    · have := hbetween e mem_cons_self
      rw [hrenews] at this
      cases this
  · intro c hc
    rw [hsince, (hrow c hc).1]
    rfl
  · intro c hc
    rw [(hrow c hc).1, (hrow c hc).2]
    rfl
  · intro c _ x hx
    rw [hsince] at hx
    cases hx

theorem serve_request (hmac : List UInt8 → List UInt8 → Sum) (t : Transaction P)
    (row : Option Credential) :
    ∃ r, (t.serve hmac row).1.request = some (r, row) := by
  cases t with
  | post p => exact ⟨p.toRequest, rfl⟩
  | confirm q => exact ⟨q.toRequest, rfl⟩

/-- Without a row there is no code to look at. -/
theorem serve_absent (t : Transaction P) : (t.serve hmac none).1.accepted hmac = none := by
  cases t with
  | post p =>
    simp only [Transaction.serve, Entry.accepted]
    split <;> rfl
  | confirm q => rfl

theorem Sound.step {s s' : System P} (h : Sound hmac s) (hstep : Step hmac s s')
    (hsettles : ∀ e ∈ s'.log, e.Settles hmac) : Sound hmac s' := by
  cases hstep with
  | load t c hfree hrow =>
    refine ⟨?_, h.counter, h.attempts, h.locked, h.refused, h.spent, h.lockedOut⟩
    intro t' c' heq
    obtain ⟨-, rfl⟩ := Prod.mk.inj (Option.some.inj heq)
    exact hrow
  | finish t c hheld =>
    obtain ⟨c', hc', heffect⟩ := serve_effect t c (hsettles _ mem_cons_self)
    rw [hc']
    refine h.serve (h.held t c hheld) heffect ?_
    intro r found hrequest
    obtain ⟨r', hr'⟩ := serve_request hmac t (some c)
    rw [hr'] at hrequest
    exact (Prod.mk.inj (Option.some.inj hrequest)).2.symm
  | absent t hrow =>
    refine ⟨h.held, by simp [hrow], by simp [hrow], by simp [hrow], by simp [hrow],
      h.spent.cons (by simp [serve_absent]), h.lockedOut.cons ?_⟩
    intro r found hrequest heval
    obtain ⟨r', hr'⟩ := serve_request hmac t none
    rw [hr'] at hrequest
    rw [← (Prod.mk.inj (Option.some.inj hrequest)).2] at heval
    cases heval
  | enroll secret digits period hfree =>
    refine h.renew (.inl rfl) ?_
    rintro _ ⟨rfl⟩
    exact ⟨rfl, rfl⟩
  | remove hfree => exact h.renew (.inr rfl) (by simp)

theorem step_log {s s' : System P} (h : Step hmac s s') : s.log ⊆ s'.log := by
  cases h with
  | load t c hfree hrow => exact Subset.refl _
  | _ => exact subset_cons_self _ _

theorem reached_sound {s : System P} (h : Reached hmac s)
    (hsettles : ∀ e ∈ s.log, e.Settles hmac) : Sound hmac s := by
  induction h with
  | start =>
    refine ⟨by simp, by simp, by simp, by simp, by simp, ?_, ?_⟩
    · intro after later between earlier before heq
      simp at heq
    · intro after e before heq
      simp at heq
  | step h hstep ih =>
    exact (ih fun e he => hsettles e (step_log hstep he)).step hstep hsettles

/-- In every state of every run whose commits go through and in which no right code meets a
stage, the steps accepted between two enrolments increase, and five failed posts lock. -/
theorem codes_spent_once {s : System P} (h : Reached hmac s)
    (hsettles : ∀ e ∈ s.log, e.Settles hmac) : SpentOnce hmac s.log ∧ LockedOut hmac s.log :=
  ⟨(reached_sound h hsettles).spent, (reached_sound h hsettles).lockedOut⟩

end

/-- HMAC-SHA1 under the key `12345678901234567890`, on the first three steps. -/
def sampleHmac (_ message : List UInt8) : Sum :=
  if message = putUint64 0 then
    ⟨[204, 147, 207, 24, 80, 141, 148, 147, 76, 100, 182, 93, 139, 167, 102, 127, 183, 205, 228,
      176], rfl⟩
  else if message = putUint64 1 then
    ⟨[117, 164, 138, 25, 212, 203, 225, 0, 100, 78, 138, 193, 57, 126, 234, 116, 122, 45, 51,
      171], rfl⟩
  else if message = putUint64 2 then
    ⟨[11, 172, 183, 250, 8, 47, 239, 48, 120, 34, 17, 147, 139, 193, 197, 231, 4, 22, 255, 68], rfl⟩
  else ⟨List.replicate 20 0, rfl⟩

def sampleSecret : List UInt8 :=
  [49, 50, 51, 52, 53, 54, 55, 56, 57, 48, 49, 50, 51, 52, 53, 54, 55, 56, 57, 48]

def sampleCredential : Credential := enrollTOTP sampleSecret 6 30

def samplePost (prompts : List String) : Post String :=
  { code := "287082", began := 59000000000, loadedAt := 59000000000, checkedAt := 59000000000,
    opens := true, writes := true, commits := true, emailOTP := .ok false, smsOTP := .ok false,
    recoveryCode := .ok false, pendingAMR := ["pwd"],
    flow := some ⟨"sign in", .authentication,
      [⟨.password, "", []⟩, ⟨.mfa, "", []⟩, ⟨.prompt, "", []⟩, ⟨.session, "", []⟩], []⟩,
    subject := ⟨some true, some prompts, some (false, "")⟩, authz := none, issue := .issued }

theorem enrolled_reached :
    Reached sampleHmac (⟨some sampleCredential, none, [.enrolled]⟩ : System String) :=
  .step .start (.enroll sampleSecret 6 30 rfl)

theorem post_reached {c c' : Credential} {log : List (Entry String)} {p : Post String}
    {answer : Answer String} (h : Reached sampleHmac ⟨some c, none, log⟩)
    (hserve : handleMFAPost sampleHmac p (some c) = (answer, some c')) :
    Reached sampleHmac ⟨some c', none, .post (some c) p answer :: log⟩ := by
  have hload := Reached.step h (.load (.post p) c rfl rfl)
  have hfinish := Reached.step hload (.finish (.post p) c rfl)
  simpa only [Transaction.serve, hserve] using hfinish

/-- A code that leads to a session, and the same code again. -/
theorem codes_spent_once_replayed :
    SpentOnce sampleHmac [.post (some (recordTOTPSuccess 1 sampleCredential)) (samplePost [])
        .invalid, .post (some sampleCredential) (samplePost []) .session, .enrolled] ∧
      LockedOut sampleHmac [.post (some (recordTOTPSuccess 1 sampleCredential)) (samplePost [])
        .invalid, .post (some sampleCredential) (samplePost []) .session, .enrolled] := by
  have hsession : advanceSignIn (samplePost []).flow (samplePost []).subject
      ((samplePost []).pendingAMR ++ ["otp"] ++ ["mfa"]) (samplePost []).authz = .session := by
    decide
  have hfirst : handleMFAPost sampleHmac (samplePost []) (some sampleCredential) =
      (.session, some (recordTOTPSuccess 1 sampleCredential)) := by
    decide
  have hagain : handleMFAPost sampleHmac (samplePost [])
      (some (recordTOTPSuccess 1 sampleCredential)) = (.invalid,
        some (recordTOTPFailure 59000000000 (recordTOTPSuccess 1 sampleCredential))) := by
    decide
  refine codes_spent_once (post_reached (post_reached enrolled_reached hfirst) hagain) ?_
  intro e he
  simp only [mem_cons, not_mem_nil, or_false] at he
  rcases he with rfl | rfl | rfl
  · refine ⟨rfl, fun _ t ht => ?_⟩
    rw [hsession] at ht
    cases ht
  · refine ⟨rfl, fun _ t ht => ?_⟩
    rw [hsession] at ht
    cases ht
  · trivial

/-- A prompt takes the sign-in over, and the code is accepted twice for its step. -/
theorem prompted_code_accepted_twice :
    ∃ s : System String, Reached sampleHmac s ∧
      s.log = [.post (some sampleCredential) (samplePost ["terms"]) (.stage (.prompt "terms")),
        .post (some sampleCredential) (samplePost ["terms"]) (.stage (.prompt "terms")),
        .enrolled] ∧
      ¬SpentOnce sampleHmac s.log := by
  have hserve : handleMFAPost sampleHmac (samplePost ["terms"]) (some sampleCredential) =
      (.stage (.prompt "terms"), some sampleCredential) := by
    decide
  refine ⟨_, post_reached (post_reached enrolled_reached hserve) hserve, rfl, fun hspent => ?_⟩
  have hlt := hspent [] _ [] _ _ rfl (by simp) 1 (by decide) 1 (by decide)
  exact lt_irrefl 1 hlt

end Signari.SecondFactor
