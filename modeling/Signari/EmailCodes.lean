import Mathlib.Data.List.Induction
import Signari.GoTime

/-!
# Emailed codes

`internal/store/emailotp.go`: one row holds the factor of a user, with the hash of the code in
force, its expiry, the wrong submissions and the time of the last mail. A request is a transaction
of calls; the first of them locks the row and the lock is held until the transaction ends, so that
requests that need the row wait.

`codes_limited` is about the runs in which whatever was compared is committed and no mail is sent by
a transaction that had to wait.
-/
namespace Signari.EmailCodes
open GoTime List

/-- Ten minutes. -/
def emailOTPLifetime : ℤ := 600 * nanosPerSecond

def emailOTPResendInterval : ℤ := 60 * nanosPerSecond

def emailOTPMaxAttempts : ℕ := 5

variable {D : Type}

structure Credential (D : Type) where
  address : String
  codeHash : Option D
  codeExpiresAt : Option ℤ
  attempts : ℕ
  lastSentAt : Option ℤ

def enrollEmailOTP (address : String) : Option (Credential D) → Credential D
  | none => ⟨address, none, none, 0, none⟩
  | some c => { c with address := address, codeHash := none, codeExpiresAt := none, attempts := 0 }

inductive IssueError where
  | noEmailOTP | tooSoon

variable (hash : String → D)

/-- `code` is the one that is drawn, `began` the `now()` of the transaction. -/
def issueEmailOTP (code : String) (began checked : ℤ) :
    Option (Credential D) → Except IssueError (Credential D)
  | none => .error .noEmailOTP
  | some c =>
    if c.lastSentAt.any fun t => decide (sub checked t < emailOTPResendInterval) then
      .error .tooSoon
    else .ok { c with
      codeHash := some (hash code), codeExpiresAt := some (began + emailOTPLifetime),
      attempts := 0, lastSentAt := some began }

variable [DecidableEq D]

/-- Whether the submitted code was right, if it was compared at all, and the row. -/
def verifyEmailOTP (submitted : String) (checked : ℤ) (c : Credential D) :
    Option Bool × Credential D :=
  match c.codeHash, c.codeExpiresAt with
  | some stored, some expires =>
    if expires < checked then (none, c)
    else if emailOTPMaxAttempts ≤ c.attempts then (none, c)
    else if hash submitted = stored then
      (some true, { c with codeHash := none, codeExpiresAt := none, attempts := 0 })
    else (some false, { c with attempts := c.attempts + 1 })
  | _, _ => (none, c)

/-- A call of one of the three, with what the server's clock reads. -/
inductive Call where
  | enroll (address : String)
  | issue (code : String) (checked : ℤ)
  | verify (submitted : String) (checked : ℤ)

/-- What comes of a call. -/
inductive Entry where
  | enrolled
  | issued (code : String) (began checked : ℤ)
  | compared (submitted : String) (checked : ℤ) (right kept : Bool)
  deriving DecidableEq

/-- A request, and whether its transaction is committed. -/
structure Transaction where
  began : ℤ
  calls : List Call
  commits : Bool

/-- One call: the row as the transaction has it then, and what has come of its calls, the latest
first. A call that fails or finds nothing to compare leaves both alone. -/
def serveCall (t : Transaction) (w : Option (Credential D) × List Entry) :
    Call → Option (Credential D) × List Entry
  | .enroll address => (some (enrollEmailOTP address w.1), .enrolled :: w.2)
  | .issue code checked =>
    match issueEmailOTP hash code t.began checked w.1 with
    | .ok c => (some c, .issued code t.began checked :: w.2)
    | .error _ => w
  | .verify submitted checked =>
    match w.1 with
    | none => w
    | some c =>
      match verifyEmailOTP hash submitted checked c with
      | (some right, c') => (some c', .compared submitted checked right t.commits :: w.2)
      | (none, _) => w

def serve (t : Transaction) (row : Option (Credential D)) : Option (Credential D) × List Entry :=
  t.calls.foldl (serveCall hash t) (row, [])

/-- What is left of a transaction that is rolled back: that codes were compared. -/
def Entry.remains : Entry → Bool
  | .compared .. => true
  | _ => false

/-- The row of the user, the transaction that holds its lock with the row it found, and what has
happened, the latest first. -/
structure System (D : Type) where
  row : Option (Credential D)
  holder : Option (Transaction × Option (Credential D))
  log : List Entry

inductive Step : System D → System D → Prop
  | lock {s : System D} (t : Transaction) (hfree : s.holder = none) :
      Step s { s with holder := some (t, s.row) }
  | commit {s : System D} (t : Transaction) (row : Option (Credential D))
      (hheld : s.holder = some (t, row)) (hcommits : t.commits = true) :
      Step s ⟨(serve hash t row).1, none, (serve hash t row).2 ++ s.log⟩
  | rollback {s : System D} (t : Transaction) (row : Option (Credential D))
      (hheld : s.holder = some (t, row)) (hcommits : t.commits = false) :
      Step s ⟨s.row, none, (serve hash t row).2.filter Entry.remains ++ s.log⟩

inductive Reached : System D → Prop
  | start : Reached ⟨none, none, []⟩
  | step {s s' : System D} (h : Reached s) (hstep : Step hash s s') : Reached s'

def Entry.wrong : Entry → Bool
  | .compared _ _ right _ => !right
  | _ => false

/-- A submission is compared with the latest code only, which neither an enrolment nor a right
submission has ended and which has not expired; no more than five wrong ones are compared
with one code; and codes are issued a minute apart. -/
structure Limited (log : List Entry) : Prop where
  bound : ∀ after submitted checked right kept before,
    log = after ++ Entry.compared submitted checked right kept :: before →
      ∃ between code began sent rest, before = between ++ Entry.issued code began sent :: rest ∧
        (∀ e ∈ between, e.wrong = true) ∧ (right = true ↔ hash submitted = hash code) ∧
        checked ≤ began + emailOTPLifetime
  guesses : ∀ after between code began checked rest,
    log = after ++ (between ++ Entry.issued code began checked :: rest) →
      (∀ e ∈ between, e.wrong = true) → between.length ≤ emailOTPMaxAttempts
  spaced : ∀ after code began checked between code' began' checked' before,
    log = after ++ Entry.issued code began checked ::
      (between ++ Entry.issued code' began' checked' :: before) →
      checked' + emailOTPResendInterval ≤ checked

/-- Whatever was compared is recorded, and the code was issued without a wait. -/
def Entry.Settles : Entry → Prop
  | .enrolled => True
  | .issued _ began checked => checked = began
  | .compared _ _ _ kept => kept = true

section

omit [DecidableEq D]
variable {log : List Entry} {e : Entry}

def Entry.issues : Entry → Bool
  | .issued .. => true
  | _ => false

theorem not_issues_of_wrong (h : e.wrong = true) : e.issues = false := by
  cases e with
  | compared => rfl
  | enrolled => cases h
  | issued => cases h

theorem latest_unique {b b' r r' : List Entry} {i i' : Entry} (hi : i.issues = true)
    (hi' : i'.issues = true) (hb : ∀ e ∈ b, e.issues = false) (hb' : ∀ e ∈ b', e.issues = false)
    (heq : b ++ i :: r = b' ++ i' :: r') : b = b' ∧ i = i' ∧ r = r' := by
  induction b generalizing b' with
  | nil =>
    cases b' with
    | nil =>
      obtain ⟨rfl, rfl⟩ := List.cons.inj heq
      exact ⟨rfl, rfl, rfl⟩
    | cons a b' =>
      obtain ⟨rfl, -⟩ := List.cons.inj heq
      rw [hb' i mem_cons_self] at hi
      cases hi
  | cons a b ih =>
    cases b' with
    | nil =>
      obtain ⟨rfl, -⟩ := List.cons.inj heq
      rw [hb a mem_cons_self] at hi'
      cases hi'
    | cons a' b' =>
      obtain ⟨rfl, htail⟩ := List.cons.inj heq
      obtain ⟨rfl, rfl, rfl⟩ := ih (fun e he => hb e (mem_cons_of_mem _ he))
        (fun e he => hb' e (mem_cons_of_mem _ he)) htail
      exact ⟨rfl, rfl, rfl⟩

theorem Limited.cons (h : Limited hash log)
    (hbound : ∀ submitted checked right kept, e = Entry.compared submitted checked right kept →
      ∃ between code began sent rest, log = between ++ Entry.issued code began sent :: rest ∧
        (∀ e ∈ between, e.wrong = true) ∧ (right = true ↔ hash submitted = hash code) ∧
        checked ≤ began + emailOTPLifetime)
    (hguesses : e.wrong = true → ∀ between code began checked rest,
      log = between ++ Entry.issued code began checked :: rest → (∀ e ∈ between, e.wrong = true) →
        between.length < emailOTPMaxAttempts)
    (hspaced : ∀ code began checked, e = Entry.issued code began checked →
      ∀ between code' began' checked' before,
        log = between ++ Entry.issued code' began' checked' :: before →
          checked' + emailOTPResendInterval ≤ checked) : Limited hash (e :: log) where
  bound after submitted checked right kept before heq := by
    cases after with
    | nil =>
      obtain ⟨rfl, rfl⟩ := List.cons.inj heq
      exact hbound submitted checked right kept rfl
    | cons a after =>
      obtain ⟨-, htail⟩ := List.cons.inj heq
      exact h.bound after submitted checked right kept before htail
  guesses after between code began checked rest heq hwrong := by
    cases after with
    | cons a after =>
      obtain ⟨-, htail⟩ := List.cons.inj heq
      exact h.guesses after between code began checked rest htail hwrong
    | nil =>
      cases between with
      | nil => exact Nat.zero_le _
      | cons a between =>
        obtain ⟨rfl, htail⟩ := List.cons.inj heq
        exact hguesses (hwrong e mem_cons_self) between code began checked rest htail
          fun e he => hwrong e (mem_cons_of_mem _ he)
  spaced after code began checked between code' began' checked' before heq := by
    cases after with
    | nil =>
      obtain ⟨rfl, htail⟩ := List.cons.inj heq
      exact hspaced code began checked rfl between code' began' checked' before htail
    | cons a after =>
      obtain ⟨-, htail⟩ := List.cons.inj heq
      exact h.spaced after code began checked between code' began' checked' before htail

theorem Limited.cons_enrolled (h : Limited hash log) : Limited hash (.enrolled :: log) :=
  h.cons hash (fun _ _ _ _ heq => by cases heq) (fun hwrong => by cases hwrong)
    (fun _ _ _ heq => by cases heq)

end

section

variable {log : List Entry} {row : Option (Credential D)} {c : Credential D} {t : Transaction}

/-- The code in force is the latest that was issued, and its attempts are the wrong submissions
since. -/
structure RowOk (c : Credential D) (log : List Entry) : Prop where
  code : ∀ stored, c.codeHash = some stored →
    ∃ between code began checked rest, log = between ++ Entry.issued code began checked :: rest ∧
      (∀ e ∈ between, e.wrong = true) ∧ stored = hash code ∧
      c.codeExpiresAt = some (began + emailOTPLifetime) ∧ c.attempts = between.length
  sent : ∀ between code began checked rest,
    log = between ++ Entry.issued code began checked :: rest → (∀ e ∈ between, e.issues = false) →
      c.lastSentAt = some began

/-- The log of a user who may not be enrolled. -/
def LogOk (row : Option (Credential D)) (log : List Entry) : Prop :=
  Limited hash log ∧ match row with
    | none => ∀ e ∈ log, e.issues = false
    | some c => RowOk hash c log

omit [DecidableEq D] in
theorem exists_latest {e : Entry} (he : e ∈ log) (hissues : e.issues = true) :
    ∃ between code began checked rest, log = between ++ Entry.issued code began checked :: rest ∧
      ∀ e ∈ between, e.issues = false := by
  have hsome : (log.find? Entry.issues).isSome := find?_isSome.mpr ⟨e, he, hissues⟩
  obtain ⟨i, hi⟩ := Option.isSome_iff_exists.mp hsome
  obtain ⟨hkind, between, rest, hlog, hnone⟩ := find?_eq_some_iff_append.mp hi
  cases i with
  | issued code began checked =>
    exact ⟨between, code, began, checked, rest, hlog, fun e he => by simpa using hnone e he⟩
  | enrolled => cases hkind
  | compared => cases hkind

omit [DecidableEq D] in
/-- An entry that issues nothing leaves the time of the last mail as it is. -/
theorem sent_cons {e : Entry} {sent : Option ℤ} (he : e.issues = false)
    (h : ∀ between code began checked rest,
      log = between ++ Entry.issued code began checked :: rest → (∀ e ∈ between, e.issues = false) →
        sent = some began) :
    ∀ between code began checked rest,
      e :: log = between ++ Entry.issued code began checked :: rest →
        (∀ e ∈ between, e.issues = false) → sent = some began := by
  intro between code began checked rest heq hnone
  cases between with
  | nil =>
    obtain ⟨rfl, -⟩ := List.cons.inj heq
    cases he
  | cons a between =>
    obtain ⟨-, htail⟩ := List.cons.inj heq
    exact h between code began checked rest htail fun e he =>
      hnone e (mem_cons_of_mem _ he)

omit [DecidableEq D] in
theorem LogOk.enroll {address : String} (h : LogOk hash row log) :
    LogOk hash (some (enrollEmailOTP address row)) (.enrolled :: log) := by
  refine ⟨h.1.cons_enrolled, ?_⟩
  cases row with
  | none =>
    refine ⟨(fun stored hcode => by cases hcode), sent_cons rfl ?_⟩
    intro between code began checked rest hlog _
    have hfalse : Entry.issues (.issued code began checked) = false := h.2 _ (by rw [hlog]; simp)
    cases hfalse
  | some c => exact ⟨(fun stored hcode => by cases hcode), sent_cons rfl h.2.sent⟩

omit [DecidableEq D] in
theorem LogOk.issue {code : String} {began checked : ℤ} {c' : Credential D}
    (h : LogOk hash row log) (hsettles : ∀ e ∈ log, e.Settles)
    (hissue : issueEmailOTP hash code began checked row = .ok c') :
    LogOk hash (some c') (.issued code began checked :: log) := by
  cases row with
  | none => cases hissue
  | some c =>
    rw [issueEmailOTP] at hissue
    split_ifs at hissue with hsoon
    obtain rfl := Except.ok.inj hissue
    refine ⟨h.1.cons hash (fun _ _ _ _ heq => by cases heq) (fun hwrong => by cases hwrong) ?_, ?_⟩
    · rintro code' began' checked' heq between old oldBegan oldChecked before hlog
      cases heq
      have hold : Entry.issued old oldBegan oldChecked ∈ log := by rw [hlog]; simp
      obtain ⟨b, lastCode, lastBegan, lastChecked, r, hlast, hnone⟩ := exists_latest hold rfl
      have hsent := h.2.sent b lastCode lastBegan lastChecked r hlast hnone
      have hsame : lastChecked = lastBegan :=
        hsettles (.issued lastCode lastBegan lastChecked) (by rw [hlast]; simp)
      have hlate : lastChecked + emailOTPResendInterval ≤ checked := by
        rw [hsent, Option.any_some, decide_eq_true_eq, not_lt] at hsoon
        simp only [sub, maxDuration, minDuration, emailOTPResendInterval, nanosPerSecond] at hsoon ⊢
        omega
      rw [hlast] at hold
      rcases mem_append.mp hold with hmem | hmem
      · have hfalse := hnone _ hmem
        cases hfalse
      · rcases mem_cons.mp hmem with heq | hmem
        · cases heq
          exact hlate
        · obtain ⟨r₁, r₂, rfl⟩ := append_of_mem hmem
          have hgap := h.1.spaced b lastCode lastBegan lastChecked r₁ old oldBegan oldChecked r₂
            hlast
          have hpos : 0 ≤ emailOTPResendInterval := by decide
          omega
    · refine ⟨fun stored hcode => ?_, ?_⟩
      · obtain rfl := Option.some.inj hcode
        exact ⟨[], code, began, checked, log, rfl, by simp, rfl, rfl, rfl⟩
      · intro between code' began' checked' rest heq hnone
        cases between with
        | nil =>
          cases heq
          rfl
        | cons a between =>
          obtain ⟨rfl, -⟩ := List.cons.inj heq
          have hfalse := hnone _ mem_cons_self
          cases hfalse

theorem LogOk.verify {submitted : String} {checked : ℤ} {right kept : Bool} {c c' : Credential D}
    (h : LogOk hash (some c) log)
    (hverify : verifyEmailOTP hash submitted checked c = (some right, c')) :
    LogOk hash (some c') (.compared submitted checked right kept :: log) := by
  rw [verifyEmailOTP] at hverify
  cases hcode : c.codeHash with
  | none => simp [hcode] at hverify
  | some stored =>
    obtain ⟨between, code, began, sent, rest, hlog, hwrong, rfl, hexpires, hattempts⟩ :=
      h.2.code stored hcode
    rw [hcode, hexpires] at hverify
    dsimp only at hverify
    split_ifs at hverify with hlate hspent hright
    · cases hverify
    · cases hverify
    · cases hverify
      refine ⟨h.1.cons hash ?_ (fun hbad => by cases hbad) (fun _ _ _ heq => by cases heq),
        (fun stored hnone => by cases hnone), sent_cons rfl h.2.sent⟩
      intro submitted' checked' right' kept' heq
      cases heq
      exact ⟨between, code, began, sent, rest, hlog, hwrong, by simp [hright], by omega⟩
    · cases hverify
      refine ⟨h.1.cons hash ?_ ?_ (fun _ _ _ heq => by cases heq), ?_, sent_cons rfl h.2.sent⟩
      · intro submitted' checked' right' kept' heq
        cases heq
        exact ⟨between, code, began, sent, rest, hlog, hwrong, by simp [hright], by omega⟩
      · intro _ b code' began' checked' r hlog' hb
        obtain ⟨rfl, -, -⟩ := latest_unique rfl rfl (fun e he => not_issues_of_wrong (hwrong e he))
          (fun e he => not_issues_of_wrong (hb e he)) (hlog.symm.trans hlog')
        omega
      · intro stored hstored
        obtain rfl := Option.some.inj hstored
        refine ⟨.compared submitted checked false kept :: between, code, began, sent, rest,
          by rw [hlog]; rfl, fun e he => ?_, rfl, rfl, ?_⟩
        · rcases mem_cons.mp he with rfl | he
          · rfl
          · exact hwrong e he
        · rw [length_cons, ← hattempts]

theorem LogOk.serveCall {w : Option (Credential D) × List Entry} {call : Call}
    (h : LogOk hash w.1 (w.2 ++ log)) (hsettles : ∀ e ∈ w.2 ++ log, e.Settles) :
    LogOk hash (serveCall hash t w call).1 ((serveCall hash t w call).2 ++ log) := by
  cases call with
  | enroll address => exact h.enroll
  | issue code checked =>
    rw [EmailCodes.serveCall]
    cases hissue : issueEmailOTP hash code t.began checked w.1 with
    | error e => exact h
    | ok c => exact h.issue hash hsettles hissue
  | verify submitted checked =>
    rw [EmailCodes.serveCall]
    cases hw : w.1 with
    | none => exact h
    | some c =>
      dsimp only
      rw [hw] at h
      cases hverify : verifyEmailOTP hash submitted checked c with
      | mk result c' =>
        cases result with
        | none =>
          dsimp only
          rw [hw]
          exact h
        | some right => exact h.verify hash hverify

theorem serveCall_suffix (w : Option (Credential D) × List Entry) (call : Call) :
    w.2 <:+ (serveCall hash t w call).2 := by
  cases call with
  | enroll address => exact suffix_cons _ _
  | issue code checked =>
    rw [serveCall]
    cases issueEmailOTP hash code t.began checked w.1 with
    | error e => exact suffix_refl _
    | ok c => exact suffix_cons _ _
  | verify submitted checked =>
    rw [serveCall]
    cases hw : w.1 with
    | none => exact suffix_refl _
    | some c =>
      dsimp only
      cases verifyEmailOTP hash submitted checked c with
      | mk result c' =>
        cases result with
        | none => exact suffix_refl _
        | some right => exact suffix_cons _ _

/-- All the calls of a transaction. -/
theorem LogOk.serve (h : LogOk hash row log)
    (hsettles : ∀ e ∈ (serve hash t row).2 ++ log, e.Settles) :
    LogOk hash (serve hash t row).1 ((serve hash t row).2 ++ log) := by
  have hall : ∀ calls : List Call,
      (∀ e ∈ (calls.foldl (EmailCodes.serveCall hash t) (row, [])).2 ++ log, e.Settles) →
        LogOk hash (calls.foldl (EmailCodes.serveCall hash t) (row, [])).1
          ((calls.foldl (EmailCodes.serveCall hash t) (row, [])).2 ++ log) := by
    intro calls
    induction calls using List.reverseRecOn with
    | nil => exact fun _ => h
    | append_singleton calls call ih =>
      intro hsettled
      rw [foldl_append, foldl_cons, foldl_nil] at hsettled ⊢
      have hbefore : ∀ e ∈ (calls.foldl (EmailCodes.serveCall hash t) (row, [])).2 ++ log,
          e.Settles := by
        intro e he
        refine hsettled e ?_
        rcases mem_append.mp he with he | he
        · exact mem_append_left _ ((serveCall_suffix hash _ call).subset he)
        · exact mem_append_right _ he
      exact (ih hbefore).serveCall hash hbefore
  exact hall t.calls hsettles

theorem kept_of_serve {submitted : String} {checked : ℤ} {right kept : Bool}
    (h : .compared submitted checked right kept ∈ (serve hash t row).2) : kept = t.commits := by
  have hall : ∀ (calls : List Call) (w : Option (Credential D) × List Entry),
      .compared submitted checked right kept ∈ (calls.foldl (EmailCodes.serveCall hash t) w).2 →
        .compared submitted checked right kept ∈ w.2 ∨ kept = t.commits := by
    intro calls
    induction calls with
    | nil => exact fun w hmem => .inl hmem
    | cons call calls ih =>
      intro w hmem
      rcases ih _ hmem with hmem | hkept
      · cases call with
        | enroll address => exact .inl ((mem_cons.mp hmem).resolve_left nofun)
        | issue code checkedAt =>
          rw [EmailCodes.serveCall] at hmem
          cases hissue : issueEmailOTP hash code t.began checkedAt w.1 with
          | error e =>
            rw [hissue] at hmem
            exact .inl hmem
          | ok c =>
            rw [hissue] at hmem
            exact .inl ((mem_cons.mp hmem).resolve_left nofun)
        | verify code checkedAt =>
          rw [EmailCodes.serveCall] at hmem
          cases hw : w.1 with
          | none =>
            rw [hw] at hmem
            exact .inl hmem
          | some c =>
            rw [hw] at hmem
            dsimp only at hmem
            cases hverify : verifyEmailOTP hash code checkedAt c with
            | mk result c' =>
              rw [hverify] at hmem
              cases result with
              | none => exact .inl hmem
              | some found =>
                rcases mem_cons.mp hmem with heq | hmem
                · cases heq
                  exact .inr rfl
                · exact .inl hmem
      · exact .inr hkept
  exact (hall t.calls (row, []) h).resolve_left not_mem_nil

/-- What holds of the system when everything that was compared is recorded. -/
def SystemOk (s : System D) : Prop :=
  LogOk hash s.row s.log ∧ ∀ t row, s.holder = some (t, row) → row = s.row

end

section

variable {hash} {s s' : System D}

theorem SystemOk.step (h : SystemOk hash s) (hstep : Step hash s s')
    (hsettles : ∀ e ∈ s'.log, e.Settles) : SystemOk hash s' := by
  cases hstep with
  | lock t hfree =>
    refine ⟨h.1, fun t' row hheld => ?_⟩
    cases hheld
    rfl
  | commit t row hheld hcommits =>
    obtain rfl := h.2 t row hheld
    exact ⟨h.1.serve hash hsettles, fun t' row hheld => by cases hheld⟩
  | rollback t row hheld hcommits =>
    have hnothing : (serve hash t row).2.filter Entry.remains = [] := by
      rw [filter_eq_nil_iff]
      intro e he hremains
      cases e with
      | enrolled => cases hremains
      | issued => cases hremains
      | compared submitted checked right kept =>
        have hsettled : kept = true :=
          hsettles (.compared submitted checked right kept)
            (mem_append_left _ (mem_filter.mpr ⟨he, hremains⟩))
        rw [kept_of_serve hash he, hcommits] at hsettled
        cases hsettled
    rw [hnothing]
    exact ⟨h.1, fun t' row hheld => by cases hheld⟩

theorem log_suffix (hstep : Step hash s s') : s.log <:+ s'.log := by
  cases hstep with
  | lock => exact suffix_refl _
  | commit | rollback => exact suffix_append _ _

/-- As long as every comparison is recorded and no mail waits for the row, an emailed code is
good once, before it expires and until the next, five guesses are all it stands, and mails
are a minute apart. -/
theorem codes_limited (h : Reached hash s) (hsettles : ∀ e ∈ s.log, e.Settles) :
    Limited hash s.log := by
  have hok : SystemOk hash s := by
    induction h with
    | start =>
      refine ⟨⟨⟨?_, ?_, ?_⟩, by simp⟩, fun t row hheld => by cases hheld⟩
      · intro after submitted checked right kept before heq
        simp at heq
      · intro after between code began checked rest heq
        simp at heq
      · intro after code began checked between code' began' checked' before heq
        simp at heq
    | step h hstep ih =>
      exact (ih fun e he => hsettles e ((log_suffix hstep).subset he)).step hstep hsettles
  exact hok.1.1

theorem Reached.transact (h : Reached hash s) (hfree : s.holder = none) (t : Transaction)
    (hcommits : t.commits = true) :
    Reached hash ⟨(serve hash t s.row).1, none, (serve hash t s.row).2 ++ s.log⟩ :=
  (h.step (.lock t hfree)).step (.commit t s.row rfl hcommits)

end

def plain : String → String := id

def enrolment : Transaction := ⟨0, [.enroll "a@b"], true⟩

theorem reached_waiting : Reached plain ⟨some ⟨"a@b", some "2", some 660000000000, 0,
    some 60000000000⟩, none, [.issued "2" 60000000000 60000000000, .issued "1" 0 30000000000,
      .enrolled]⟩ :=
  ((Reached.start.transact rfl enrolment rfl).transact rfl
    ⟨0, [.issue "1" 30000000000], true⟩ rfl).transact rfl
      ⟨60000000000, [.issue "2" 60000000000], true⟩ rfl

theorem issued_too_soon : ¬ ∀ s : System String, Reached plain s →
    (∀ submitted checked right, .compared submitted checked right false ∉ s.log) →
      Limited plain s.log := by
  intro hall
  have hlimited := hall _ reached_waiting (by simp)
  have hgap := hlimited.spaced [] "2" 60000000000 60000000000 [] "1" 0 30000000000 [.enrolled] rfl
  exact absurd hgap (by decide)

def sampleLog : List Entry :=
  [.issued "2" 60000000000 60000000000, .compared "1" 20000000000 true true,
    .compared "3" 10000000000 false true, .issued "1" 0 0, .enrolled]

theorem reached_sample : ∃ s : System String, Reached plain s ∧ s.log = sampleLog :=
  ⟨_, ((((Reached.start.transact rfl enrolment rfl).transact rfl ⟨0, [.issue "1" 0], true⟩ rfl
    ).transact rfl ⟨10000000000, [.verify "3" 10000000000], true⟩ rfl
    ).transact rfl ⟨20000000000, [.verify "1" 20000000000], true⟩ rfl
    ).transact rfl ⟨60000000000, [.issue "2" 60000000000], true⟩ rfl, by decide⟩

theorem codes_limited_sample : Limited plain sampleLog := by
  obtain ⟨s, hreached, hlog⟩ := reached_sample
  rw [← hlog]
  refine codes_limited hreached ?_
  rw [hlog]
  simp [sampleLog, Entry.Settles]

end Signari.EmailCodes
