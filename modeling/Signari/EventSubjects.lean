import Signari.SecurityEvents

/-!
# Who a security event token is about

A token names its subject at several places, and a token that is accepted should name one
principal at all of them, with no member that the source declared critical and the receiver
cannot interpret. `JudgedWhole` says so, with the receiver's own comparison of two
subjects: they agree when all their members print alike, which is an equivalence (`agree_iff`).

The receiver compares what the top level and the first entry say, and looks for critical members
only in the object that it then reads.
-/
namespace Signari.EventSubjects
open IndexedChecks JsonValues SecurityEvents List

def objectsOf (body : Obj) : List Obj := ["sub_id", "subject"].filterMap (objectAt body)

/-- The subject object at the top level; an empty one is read as absent. -/
def topObjects (c : SetClaims) : List Obj := if c.subID = [] then [] else [c.subID]

def subjectObjects (c : SetClaims) : List Obj :=
  topObjects c ++ c.types.flatMap fun t => objectsOf (c.entry t)

def firstEntry (c : SetClaims) : Obj := c.entry (c.types.headD "")

/-- Where the subject of the token is read. -/
def effective (c : SetClaims) : Obj := effectiveSubject (firstEntry c) c.subID

def AgreesWithEffective (rd : Reader) (c : SetClaims) (o : Obj) : Prop :=
  ∃ e, rawSubject (effective c) = some e ∧ subjectsDiffer rd e o = false

/-- Every subject object names the principal of the returned subject and has no critical member
that cannot be interpreted. -/
def JudgedWhole (rd : Reader) (src : Source) (c : SetClaims) (out : ReceivedEvent) : Prop :=
  out.subject = subjectFrom rd (effective c) ∧
    ∀ o ∈ subjectObjects c, AgreesWithEffective rd c o ∧ src.unprocessableCritical o = []

/-- What the checks leave open: the entries after the first, and critical members that are null
in the objects that are compared. -/
structure FirstSpeaksForAll (rd : Reader) (src : Source) (c : SetClaims) : Prop where
  later : ∀ t ∈ c.types.tail, ∀ o ∈ objectsOf (c.entry t),
    AgreesWithEffective rd c o ∧ src.unprocessableCritical o = []
  null : ∀ o ∈ topObjects c ++ objectsOf (firstEntry c), ∀ name ∈ src.criticalSubjectMembers,
    name ∉ processableSubjectMembers → (o.lookup name).isSome = true →
    sprintAt rd o name ≠ sprint rd.printNumber .null

variable {rd : Reader} {src : Source} {c : SetClaims} {a b e o body top : Obj}

theorem sprintAt_absent {k : String} (h : k ∉ a.map Prod.fst) :
    sprintAt rd a k = sprint rd.printNumber .null := by
  have hnone : a.lookup k = none := by
    rw [lookup_eq_none_iff]
    intro p hp
    simp only [bne_iff_ne, ne_eq]
    rintro rfl
    exact h (mem_map_of_mem hp)
  simp [sprintAt, hnone]

theorem agree_iff : subjectsDiffer rd a b = false ↔ ∀ k, sprintAt rd a k = sprintAt rd b k := by
  simp only [subjectsDiffer, any_eq_false, mem_append, bne_iff_ne, ne_eq, not_not]
  constructor
  · intro h k
    by_cases hk : k ∈ a.map Prod.fst ∨ k ∈ b.map Prod.fst
    · exact h k hk
    · rw [not_or] at hk
      rw [sprintAt_absent hk.1, sprintAt_absent hk.2]
  · intro h k _
    exact h k

theorem agree_refl : subjectsDiffer rd a a = false := agree_iff.mpr fun _ => rfl

theorem mem_objectsOf : o ∈ objectsOf body ↔
    objectAt body "sub_id" = some o ∨ objectAt body "subject" = some o := by
  simp [objectsOf]

theorem rawSubject_agree (h : ambiguousSubject rd body = false) (ho : o ∈ objectsOf body) :
    ∃ e, rawSubject body = some e ∧ subjectsDiffer rd e o = false := by
  rw [mem_objectsOf] at ho
  cases hid : objectAt body "sub_id" with
  | none =>
    have hsub : objectAt body "subject" = some o := by simpa [hid] using ho
    exact ⟨o, by simp [rawSubject, hid, hsub], agree_refl⟩
  | some e =>
    refine ⟨e, by simp [rawSubject, hid], ?_⟩
    rcases ho with ho | ho
    · rw [hid, Option.some.injEq] at ho
      rw [ho]
      exact agree_refl
    · simpa [ambiguousSubject, hid, ho] using h

theorem effectiveSubject_of_some (h : rawSubject body = some e) :
    effectiveSubject body top = body := by
  simp [effectiveSubject, h]

theorem rawSubject_effective_none (h : rawSubject body = none) (htop : top ≠ []) :
    rawSubject (effectiveSubject body top) = some top := by
  have heff : effectiveSubject body top = [("sub_id", .obj top)] := by
    simp [effectiveSubject, h, htop]
  rw [heff]
  rfl

theorem checkSubject_ok (h : checkSubject rd src body top = .ok ()) :
    ambiguousSubject rd body = false ∧
      (top ≠ [] → ∀ e, rawSubject body = some e → subjectsDiffer rd e top = false) ∧
      ∀ e, rawSubject (effectiveSubject body top) = some e → src.unprocessableCritical e = [] := by
  simp only [checkSubject, seq_ok, refuseIf_ok, Bool.not_eq_true, not_and] at h
  obtain ⟨hambiguous, htop, hcritical⟩ := h
  refine ⟨hambiguous, fun hne e he => ?_, fun e he => ?_⟩
  · simpa [he] using htop hne
  · simpa [he] using hcritical

theorem receive_ok {out : ReceivedEvent} (h : receive rd src c = .ok out) :
    checkSubject rd src (firstEntry c) c.subID = .ok () ∧
      out.subject = subjectFrom rd (effective c) := by
  unfold receive at h
  split at h
  · cases h
  · rename_i type rest htypes
    simp only [seq_ok, Except.ok.injEq] at h
    obtain ⟨_, hcheck, rfl⟩ := h
    have hfirst : firstEntry c = c.entry type := by simp [firstEntry, htypes]
    rw [effective, hfirst]
    exact ⟨hcheck, rfl⟩

theorem checked_agree (h : checkSubject rd src (firstEntry c) c.subID = .ok ())
    (ho : o ∈ topObjects c ++ objectsOf (firstEntry c)) : AgreesWithEffective rd c o := by
  obtain ⟨hambiguous, htop, _⟩ := checkSubject_ok h
  rcases mem_append.mp ho with ho | ho
  · unfold topObjects at ho
    split_ifs at ho with hempty
    · cases ho
    · obtain rfl : o = c.subID := mem_singleton.mp ho
      cases hraw : rawSubject (firstEntry c) with
      | none => exact ⟨c.subID, rawSubject_effective_none hraw hempty, agree_refl⟩
      | some e =>
        refine ⟨e, ?_, htop hempty e hraw⟩
        rw [effective, effectiveSubject_of_some hraw]
        exact hraw
  · obtain ⟨e, hraw, hagree⟩ := rawSubject_agree hambiguous ho
    refine ⟨e, ?_, hagree⟩
    rw [effective, effectiveSubject_of_some hraw]
    exact hraw

theorem unprocessableCritical_eq_nil : src.unprocessableCritical o = [] ↔
    ∀ name ∈ src.criticalSubjectMembers, name ∉ processableSubjectMembers →
      (o.lookup name).isSome = false := by
  simp only [Source.unprocessableCritical, filter_eq_nil_iff, Bool.and_eq_true,
    Bool.not_eq_true', contains_eq_mem, decide_eq_false_iff_not, not_and', Bool.not_eq_true]

theorem critical_of_agree (hclean : src.unprocessableCritical e = [])
    (hagree : subjectsDiffer rd e o = false) :
    src.unprocessableCritical o = [] ↔ ∀ name ∈ src.criticalSubjectMembers,
      name ∉ processableSubjectMembers → (o.lookup name).isSome = true →
      sprintAt rd o name ≠ sprint rd.printNumber .null := by
  rw [unprocessableCritical_eq_nil] at hclean ⊢
  constructor
  · intro h name hname hproc hsome
    rw [h name hname hproc] at hsome
    cases hsome
  · intro h name hname hproc
    rw [← Bool.not_eq_true]
    intro hsome
    have hnone : e.lookup name = none := by simpa using hclean name hname hproc
    apply h name hname hproc hsome
    rw [← agree_iff.mp hagree name]
    simp [sprintAt, hnone]

theorem subjectObjects_perm (hne : c.types ≠ []) :
    o ∈ subjectObjects c ↔ o ∈ topObjects c ++ objectsOf (firstEntry c) ∨
      ∃ t ∈ c.types.tail, o ∈ objectsOf (c.entry t) := by
  cases htypes : c.types with
  | nil => exact absurd htypes hne
  | cons t ts =>
    simp only [subjectObjects, htypes, firstEntry, flatMap_cons, mem_append,
      mem_flatMap, headD_cons, tail_cons, or_assoc]

/-- Every token that is accepted is judged as a whole exactly when the first entry speaks for
all. -/
theorem judged_whole_iff {raw : String} {now : ℤ} {out : ReceivedEvent}
    (h : verify rd src raw now = .ok out) :
    ∃ c, decodeToken rd raw = .ok c ∧ (JudgedWhole rd src c out ↔ FirstSpeaksForAll rd src c) := by
  simp only [verify, bind_ok] at h
  obtain ⟨c, hdecode, _, _, hreceive⟩ := h
  refine ⟨c, hdecode, ?_⟩
  obtain ⟨hcheck, hsubject⟩ := receive_ok hreceive
  have hne : c.types ≠ [] := by
    intro hnil
    simp [receive, hnil] at hreceive
  have hclean : ∀ e, rawSubject (effective c) = some e → src.unprocessableCritical e = [] :=
    (checkSubject_ok hcheck).2.2
  constructor
  · rintro ⟨_, hall⟩
    refine ⟨fun t ht o ho => ?_, fun o ho => ?_⟩
    · exact hall o ((subjectObjects_perm hne).mpr (.inr ⟨t, ht, ho⟩))
    · obtain ⟨⟨e, he, hagree⟩, hcritical⟩ := hall o ((subjectObjects_perm hne).mpr (.inl ho))
      exact (critical_of_agree (hclean e he) hagree).mp hcritical
  · intro hcond
    refine ⟨hsubject, fun o ho => ?_⟩
    rcases (subjectObjects_perm hne).mp ho with ho | ⟨t, ht, ho⟩
    · obtain ⟨e, he, hagree⟩ := checked_agree hcheck ho
      exact ⟨⟨e, he, hagree⟩, (critical_of_agree (hclean e he) hagree).mpr (hcond.null o ho)⟩
    · exact hcond.later t ht o ho

def eventSessionRevoked : String :=
  "https://schemas.openid.net/secevent/caep/event-type/session-revoked"

def eventCredentialChange : String :=
  "https://schemas.openid.net/secevent/caep/event-type/credential-change"

def person (name : String) : Obj :=
  [("format", .str "iss_sub"), ("iss", .str "https://hr"), ("sub", .str name)]

def entriesOf (first second : String) : List (String × Obj) :=
  [(eventCredentialChange, [("subject", .obj (person first))]),
    (eventSessionRevoked, [("subject", .obj (person second))])]

def twoEntries (first second : String) : SetClaims where
  issuer := "https://hr"
  jti := "e1"
  issuedAt := 1000
  audience := ["https://idp"]
  events := entriesOf first second
  nodup := by simp [entriesOf, eventCredentialChange, eventSessionRevoked]

def payloadOf (first second : String) : Json :=
  .obj [("iss", .str "https://hr"), ("jti", .str "e1"),
    ("iat", .num ⟨"1000", by decide, by decide⟩), ("aud", .str "https://idp"),
    ("events", .obj ((entriesOf first second).map fun e => (e.1, .obj e.2)))]

def hr : Source where
  issuer := "https://hr"
  audience := "https://idp"
  allowedEvents := [eventSessionRevoked, eventCredentialChange]

def readerOf (first second : String) : Reader where
  opened raw := if raw = "set" then .ok (payloadOf first second) else .error "malformed"
  unmarshal _ := .ok (twoEntries first second)
  printNumber n := n.text
  toInt64 _ := 0

def receivedFor (first second : String) : ReceivedEvent where
  jti := "e1"
  type := eventCredentialChange
  types := [eventCredentialChange, eventSessionRevoked]
  allClaims := entriesOf first second
  subject := ⟨"iss_sub", "https://hr", first⟩
  eventTime := 1000
  claims := [("subject", .obj (person first))]

/-- A token about one person, and all of it. -/
theorem judged_whole_alice : JudgedWhole (readerOf "alice" "alice") hr
    (twoEntries "alice" "alice") (receivedFor "alice" "alice") := by
  have hverify : verify (readerOf "alice" "alice") hr "set" 1000000000000 =
      .ok (receivedFor "alice" "alice") := rfl
  obtain ⟨c, hdecode, hiff⟩ := judged_whole_iff hverify
  obtain rfl : twoEntries "alice" "alice" = c := Except.ok.inj hdecode
  refine hiff.mpr ⟨fun t ht o ho => ?_, fun o _ name hname => by cases hname⟩
  obtain rfl : t = eventSessionRevoked := mem_singleton.mp ht
  obtain rfl : o = person "alice" := mem_singleton.mp ho
  exact ⟨⟨person "alice", rfl, agree_refl⟩, rfl⟩

/-- A token whose second entry is about somebody else is accepted for the first. -/
theorem two_principals_accepted :
    verify (readerOf "alice" "bob") hr "set" 1000000000000 = .ok (receivedFor "alice" "bob") ∧
      decodeToken (readerOf "alice" "bob") "set" = .ok (twoEntries "alice" "bob") ∧
      person "bob" ∈ subjectObjects (twoEntries "alice" "bob") ∧
      ¬AgreesWithEffective (readerOf "alice" "bob") (twoEntries "alice" "bob") (person "bob") := by
  refine ⟨rfl, rfl, mem_cons_of_mem _ (mem_singleton_self _), ?_⟩
  rintro ⟨e, he, hagree⟩
  obtain rfl : person "alice" = e := Option.some.inj he
  exact absurd (agree_iff.mp hagree "sub") (by decide)

end Signari.EventSubjects
