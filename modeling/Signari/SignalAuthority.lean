import Signari.EventSubjects

/-!
# Whose sessions a signal source can end

A pushed security event on its way to `TerminateSessions`: `handleSSFReceive` and `applySignals` of
`internal/httpapi`, with `SourceByIssuer`, `ResolveSSFSubject` and `RecordReceived` of
`internal/store`.

Where a query may find several rows and reads the first, the database chooses; `Rows` is that
choice. A source should reach only people whom an identity provider with its own issuer links to the
subject of the event. The query that resolves the subject does not look at the issuer, and an
address is looked up for every source.
-/
namespace Signari.SignalAuthority
open EventSubjects GoStrings SecurityEvents List

section

structure SourceRow where
  id : String
  orgID : String
  jwksURI : String
  source : SecurityEvents.Source
  enabled : Bool := true
  lastEventAt : Option ℤ := none
  deriving DecidableEq

structure Provider where
  id : String
  orgID : String
  issuer : Option String

structure Identity where
  providerID : String
  userID : String
  subject : String

structure User where
  id : String
  orgID : String
  email : Option String

structure Session where
  sid : String
  userID : String
  revokedAt : Option ℤ := none
  reason : String := ""

structure Received where
  sourceID : String
  orgID : String
  jti : String
  eventType : String
  subject : Subject
  userID : Option String
  action : String
  detail : String
  eventTime : ℤ

structure Directory where
  sources : List SourceRow := []
  providers : List Provider := []
  identities : List Identity := []
  users : List User := []
  sessions : List Session := []
  received : List Received := []

/-- The choice among the rows that a query finds. -/
structure Rows where
  source : List SourceRow → Option SourceRow
  user : List String → Option String

structure Library where
  /-- A reader with the keys that are published at an address. -/
  reader : String → Reader
  decodeSegment : String → Option (List UInt8)
  unmarshalIssuer : List UInt8 → Option String
  /-- `lower` of the database. -/
  lower : String → String

variable (L : Library) (rows : Rows)

/-- `strings.Split` at a character, of the part that is still open and the rest. -/
def splitAtChar (c : Char) : List Char → List Char → List String
  | part, [] => [String.ofList part]
  | part, d :: ds =>
    if d = c then String.ofList part :: splitAtChar c [] ds else splitAtChar c (part ++ [d]) ds

def unverifiedIssuer (raw : String) : Option String := match splitAtChar '.' [] raw.toList with
  | [_, payload, _] =>
    ((L.decodeSegment payload).bind L.unmarshalIssuer).filter fun issuer => issuer != ""
  | _ => none

def sourceRows (db : Directory) (issuer : String) : List SourceRow :=
  db.sources.filter fun src => src.source.issuer == issuer && src.enabled

def sourceByIssuer (db : Directory) (issuer : String) : Option SourceRow :=
  rows.source (sourceRows db issuer)

def linkedAccounts (db : Directory) (orgID sub : String) : List String :=
  (db.identities.filter fun f => f.subject == sub &&
    db.providers.any fun p => p.id == f.providerID && p.orgID == orgID).map Identity.userID

def accountsByEmail (db : Directory) (orgID email : String) : List String :=
  (db.users.filter fun u => u.email.any (fun e => L.lower e == L.lower email) &&
    u.orgID == orgID).map User.id

def subjectRows (db : Directory) (orgID : String) (s : Subject) : List String :=
  if s.format = "iss_sub" ∨ s.format = "" then
    if s.sub = "" then [] else linkedAccounts db orgID s.sub
  else if s.format = "email" then accountsByEmail L db orgID s.sub
  else []

def resolveSSFSubject (db : Directory) (orgID : String) (s : Subject) : String :=
  (rows.user (subjectRows L db orgID s)).getD ""

/-- The sessions of a user end, those that have not ended before. -/
def terminateSessions (db : Directory) (userID : String) (now : ℤ) : Directory × ℕ :=
  ({ db with sessions := db.sessions.map fun row =>
      if row.revokedAt = none ∧ row.userID = userID then
        { row with revokedAt := some now, reason := "shared_signal" }
      else row },
    (db.sessions.filter fun row => row.revokedAt = none ∧ row.userID = userID).length)

def eventAssuranceChange : String :=
  "https://schemas.openid.net/secevent/caep/event-type/assurance-level-change"

def signalReason (typ : String) : String :=
  if typ = eventSessionRevoked then "session revoked upstream"
  else if typ = eventCredentialChange then "credential change upstream"
  else if typ = eventAssuranceChange then "assurance level changed upstream"
  else "no handler for " ++ typ

def revokes (typ : String) : Bool := typ == eventSessionRevoked || typ == eventCredentialChange

def applySignals (db : Directory) (event : ReceivedEvent) (userID : String) (now : ℤ) :
    Directory × String × String :=
  if userID = "" then (db, "no_matching_user", event.subject.sub)
  else let reasons := join (event.types.map signalReason) "; "
    if event.types.any revokes then
      let (db, n) := terminateSessions db userID now
      (db, "sessions_revoked", reasons ++ "; " ++ toString n ++ " session(s)")
    else (db, "recorded", reasons)

/-- Refused when the source has sent a token of this name before. -/
def recordReceived (db : Directory) (src : SourceRow) (e : ReceivedEvent)
    (userID action detail : String) (now : ℤ) : Option Directory :=
  if db.received.any fun r => r.sourceID == src.id && r.jti == e.jti then none
  else some { db with
    received := ⟨src.id, src.orgID, e.jti, e.type, e.subject,
      if userID = "" then none else some userID, action, detail, e.eventTime⟩ :: db.received
    sources := db.sources.map fun row =>
      if row.id = src.id then { row with lastEventAt := some now } else row }

structure Response where
  status : ℕ
  err : String := ""
  description : String := ""

def ssfErrorCode (m : String) : String × String :=
  if contains m "aud " then
    ("invalid_audience", "the audience does not identify this recipient")
  else if contains m "iss is" then
    ("invalid_issuer", "the issuer does not match the configured source")
  else if contains m "no key" || contains m "key material" || contains m "JWKS" ||
      contains m "jwks" then
    ("invalid_key", "the token is not signed by a key this source publishes")
  else if contains m "may not send" then
    ("access_denied", "this source is not permitted to send that event type")
  else ("invalid_request", "the token could not be validated")

/-- The transaction for a verified event; one that was received before changes nothing. -/
def receiveEvent (db : Directory) (src : SourceRow) (event : ReceivedEvent) (now : ℤ) :
    Response × Directory :=
  let userID := resolveSSFSubject L rows db src.orgID event.subject
  let (db', action, detail) := applySignals db event userID now
  match recordReceived db' src event userID action detail now with
  | none => (⟨202, "", ""⟩, db)
  | some db'' => (⟨202, "", ""⟩, db'')

def handleSSFReceive (db : Directory) (body : String) (now : ℤ) : Response × Directory :=
  let raw := trimSpace body
  if raw = "" then (⟨400, "", ""⟩, db)
  else match unverifiedIssuer L raw with
    | none =>
      (⟨400, "invalid_request", "the request body could not be parsed as a SET"⟩, db)
    | some issuer =>
      match sourceByIssuer rows db issuer with
      | none => (⟨400, "invalid_issuer", "no source is configured for that issuer"⟩, db)
      | some src =>
        match verify (L.reader src.jwksURI) src.source raw now with
        | .error m => (⟨400, (ssfErrorCode m).1, (ssfErrorCode m).2⟩, db)
        | .ok event => receiveEvent L rows db src event now

end

/-- The database answers a query with one of its rows, if there is any. -/
structure Rows.Answers (rows : Rows) : Prop where
  source : ∀ found src, rows.source found = some src → src ∈ found
  user : ∀ found uid, rows.user found = some uid → uid ∈ found
  user_none : ∀ found, rows.user found = none → found = []

/-- The session is live before, and has ended after. -/
def Ended (db db' : Directory) (row : Session) : Prop :=
  row ∈ db.sessions ∧ row.revokedAt = none ∧ row ∉ db'.sessions

/-- A user of the organisation of the source, whom a provider of it with the source's own issuer
links to exactly the subject, which itself names that issuer. -/
def Named (db : Directory) (src : SourceRow) (s : Subject) (userID : String) : Prop :=
  s.issuer = src.source.issuer ∧ (∃ u ∈ db.users, u.id = userID ∧ u.orgID = src.orgID) ∧
    ∃ p ∈ db.providers, p.orgID = src.orgID ∧ p.issuer = some s.issuer ∧
      ∃ f ∈ db.identities, f.providerID = p.id ∧ f.userID = userID ∧ f.subject = s.sub

/-- What a source may do to a session: an address is no way to name anybody, since no source can
be configured for it. -/
def Authorised (db : Directory) (src : SourceRow) (s : Subject) (row : Session) : Prop :=
  s.format ≠ "email" ∧ Named db src s row.userID

/-- A body that carries an event of the source, verified. -/
structure Delivered (L : Library) (db : Directory) (body : String) (now : ℤ) (src : SourceRow)
    (event : ReceivedEvent) : Prop where
  nonempty : trimSpace body ≠ ""
  source : ∃ issuer, unverifiedIssuer L (trimSpace body) = some issuer ∧ src ∈ sourceRows db issuer
  verified : verify (L.reader src.jwksURI) src.source (trimSpace body) now = .ok event

/-- The event ends whatever sessions its subject has. -/
def Effective (db : Directory) (src : SourceRow) (event : ReceivedEvent) : Prop :=
  (∃ typ ∈ event.types, revokes typ = true) ∧
    ∀ r ∈ db.received, r.sourceID = src.id → r.jti ≠ event.jti

/-- Somebody is signed in to this account. -/
def SignedIn (db : Directory) (userID : String) : Prop :=
  userID ≠ "" ∧ ∃ row ∈ db.sessions, row.revokedAt = none ∧ row.userID = userID

/-- Nobody of the organisation who is signed in has the address; the subject names the source's own
issuer; and everybody who is signed in and has a link with that subject, through whichever provider
of the organisation, is a user of it whose link is through a provider with that issuer. -/
structure OwnPeople (L : Library) (db : Directory) (src : SourceRow) (s : Subject) : Prop where
  email : s.format = "email" → ∀ uid ∈ accountsByEmail L db src.orgID s.sub, ¬SignedIn db uid
  linked : s.format = "iss_sub" ∨ s.format = "" → s.sub ≠ "" →
    ∀ uid ∈ linkedAccounts db src.orgID s.sub, SignedIn db uid → Named db src s uid

variable {L : Library} {rows : Rows} {db db' : Directory} {body : String} {now : ℤ}
  {src : SourceRow} {event : ReceivedEvent} {row : Session} {uid : String}

theorem mem_terminateSessions (hrow : row.revokedAt = none) :
    row ∈ (terminateSessions db uid now).1.sessions ↔ row ∈ db.sessions ∧ row.userID ≠ uid := by
  simp only [terminateSessions, mem_map]
  constructor
  · rintro ⟨r, hr, heq⟩
    by_cases hold : r.revokedAt = none ∧ r.userID = uid
    · rw [if_pos hold] at heq
      rw [← heq] at hrow
      simp at hrow
    · rw [if_neg hold] at heq
      subst heq
      exact ⟨hr, fun huser => hold ⟨hrow, huser⟩⟩
  · rintro ⟨hr, huser⟩
    exact ⟨row, hr, by simp [huser]⟩

theorem applySignals_db : (applySignals db event uid now).1 =
    if uid ≠ "" ∧ event.types.any revokes = true then (terminateSessions db uid now).1 else db := by
  unfold applySignals
  by_cases huid : uid = ""
  · simp [huid]
  · by_cases hrevokes : event.types.any revokes = true
    · rw [if_neg huid, if_pos hrevokes, if_pos ⟨huid, hrevokes⟩]
    · rw [if_neg huid, if_neg hrevokes, if_neg fun h => hrevokes h.2]

theorem applySignals_received : (applySignals db event uid now).1.received = db.received := by
  rw [applySignals_db]
  split_ifs <;> rfl

theorem recordReceived_eq {action detail : String} (hreceived : db'.received = db.received) :
    (recordReceived db' src event uid action detail now).elim db.sessions Directory.sessions =
      if ∀ r ∈ db.received, r.sourceID = src.id → r.jti ≠ event.jti then db'.sessions
      else db.sessions := by
  have hany : (db'.received.any fun r => r.sourceID == src.id && r.jti == event.jti) = true ↔
      ¬∀ r ∈ db.received, r.sourceID = src.id → r.jti ≠ event.jti := by
    simp [hreceived]
  unfold recordReceived
  by_cases hseen : ∀ r ∈ db.received, r.sourceID = src.id → r.jti ≠ event.jti
  · rw [if_neg fun h => hany.mp h hseen, if_pos hseen]
    rfl
  · rw [if_pos (hany.mpr hseen), if_neg hseen]
    rfl

theorem receiveEvent_sessions : (receiveEvent L rows db src event now).2.sessions =
    if ∀ r ∈ db.received, r.sourceID = src.id → r.jti ≠ event.jti then
      (applySignals db event (resolveSSFSubject L rows db src.orgID event.subject) now).1.sessions
    else db.sessions := by
  rw [← recordReceived_eq applySignals_received]
  unfold receiveEvent
  dsimp only
  cases hrecord : recordReceived _ src event _ _ _ now <;> rfl

theorem ended_receiveEvent : Ended db (receiveEvent L rows db src event now).2 row ↔
    row ∈ db.sessions ∧ row.revokedAt = none ∧ Effective db src event ∧
      resolveSSFSubject L rows db src.orgID event.subject = row.userID ∧ row.userID ≠ "" := by
  rw [Ended, receiveEvent_sessions]
  refine and_congr_right fun hmem => and_congr_right fun hlive => ?_
  rw [Effective, ← any_eq_true, applySignals_db]
  split_ifs with hseen hacts
  · rw [mem_terminateSessions hlive]
    constructor
    · intro hended
      have huser : row.userID = _ := by_contra fun hne => hended ⟨hmem, hne⟩
      exact ⟨⟨hacts.2, hseen⟩, huser.symm, huser ▸ hacts.1⟩
    · rintro ⟨-, huser, -⟩ ⟨-, hne⟩
      exact hne huser.symm
  · refine iff_of_false (fun hended => hended hmem) ?_
    rintro ⟨⟨hrevokes, -⟩, huser, hne⟩
    exact hacts ⟨huser ▸ hne, hrevokes⟩
  · exact iff_of_false (fun hended => hended hmem) fun h => hseen h.1.2

theorem handle_delivered (h : Delivered L db body now src event)
    (hsource : ∀ issuer, unverifiedIssuer L (trimSpace body) = some issuer →
      sourceByIssuer rows db issuer = some src) :
    handleSSFReceive L rows db body now = receiveEvent L rows db src event now := by
  obtain ⟨issuer, hissuer, -⟩ := h.source
  simp only [handleSSFReceive, if_neg h.nonempty, hissuer, hsource issuer hissuer, h.verified]

theorem resolve_mem (hrows : rows.Answers) {s : Subject} {orgID : String}
    (hne : resolveSSFSubject L rows db orgID s ≠ "") :
    resolveSSFSubject L rows db orgID s ∈ subjectRows L db orgID s := by
  unfold resolveSSFSubject at hne ⊢
  cases hpick : rows.user (subjectRows L db orgID s) with
  | none => simp [hpick] at hne
  | some uid => exact hrows.user _ _ hpick

/-- Rows that hand out a source and an account wherever a query finds them. -/
def preferring (src : SourceRow) (uid : String) : Rows where
  source found := if src ∈ found then some src else none
  user found := if uid ∈ found then some uid else found.head?

theorem preferring_answers : (preferring src uid).Answers where
  source found src' h := by
    simp only [preferring] at h
    split_ifs at h with hmem
    cases h
    exact hmem
  user found uid' h := by
    simp only [preferring] at h
    split_ifs at h with hmem
    · cases h
      exact hmem
    · exact mem_of_head? h
  user_none found h := by
    simp only [preferring] at h
    split_ifs at h with hmem
    exact head?_eq_none_iff.mp h

theorem ownPeople_iff {s : Subject} : OwnPeople L db src s ↔
    ∀ uid ∈ subjectRows L db src.orgID s, SignedIn db uid →
      s.format ≠ "email" ∧ Named db src s uid := by
  unfold subjectRows
  split_ifs with hsub hempty hemail
  · refine iff_of_true ⟨fun h => ?_, fun _ hne => absurd hempty hne⟩ (by simp)
    rw [h] at hsub
    simp at hsub
  · have hformat : s.format ≠ "email" := by
      intro h
      rw [h] at hsub
      simp at hsub
    constructor
    · exact fun h uid huid hin => ⟨hformat, h.linked hsub hempty uid huid hin⟩
    · exact fun h => ⟨fun he => absurd he hformat, fun _ _ uid huid hin => (h uid huid hin).2⟩
  · constructor
    · exact fun h uid huid hin => absurd hin (h.email hemail uid huid)
    · exact fun h => ⟨fun _ uid huid hin => (h uid huid hin).1 hemail, fun hs => absurd hs hsub⟩
  · refine iff_of_true ⟨fun he => absurd he hemail, fun hs => absurd hs hsub⟩ (by simp)

/-- A verified event of a source ends only sessions that the source may end, whichever rows the
database answers with, exactly when it ends none or the directory has nobody else for its
subject. -/
theorem reaches_own_iff (h : Delivered L db body now src event) :
    (∀ rows : Rows, rows.Answers →
      (∀ issuer, unverifiedIssuer L (trimSpace body) = some issuer →
        sourceByIssuer rows db issuer = some src) →
      ∀ row, Ended db (handleSSFReceive L rows db body now).2 row →
        Authorised db src event.subject row) ↔
    (Effective db src event → OwnPeople L db src event.subject) := by
  constructor
  · intro hall heffective
    rw [ownPeople_iff]
    rintro uid huid ⟨hne, row, hmem, hlive, rfl⟩
    obtain ⟨issuer, hissuer, hsource⟩ := h.source
    have hpicks : ∀ issuer, unverifiedIssuer L (trimSpace body) = some issuer →
        sourceByIssuer (preferring src row.userID) db issuer = some src := by
      intro issuer' hissuer'
      obtain rfl : issuer = issuer' := Option.some.inj (hissuer.symm.trans hissuer')
      simp only [sourceByIssuer, preferring, if_pos hsource]
    have hresolve : resolveSSFSubject L (preferring src row.userID) db src.orgID event.subject =
        row.userID := by
      simp only [resolveSSFSubject, preferring, if_pos huid, Option.getD_some]
    refine hall _ preferring_answers hpicks row ?_
    rw [handle_delivered h hpicks, ended_receiveEvent]
    exact ⟨hmem, hlive, heffective, hresolve, hne⟩
  · intro hown rows hrows hsource row hended
    rw [handle_delivered h hsource, ended_receiveEvent] at hended
    obtain ⟨hmem, hlive, heffective, huser, hne⟩ := hended
    have huid : row.userID ∈ subjectRows L db src.orgID event.subject := by
      rw [← huser] at hne ⊢
      exact resolve_mem hrows hne
    exact ownPeople_iff.mp (hown heffective) row.userID huid ⟨hne, row, hmem, hlive, rfl⟩

def hrRow : SourceRow := ⟨"src", "acme", "https://hr/keys", hr, true, none⟩

def sharedSubject : Directory where
  sources := [hrRow]
  providers := [⟨"p1", "acme", some "https://hr"⟩, ⟨"p2", "acme", some "https://idp2"⟩]
  identities := [⟨"p2", "u-bob", "alice"⟩]
  users := [⟨"u-bob", "acme", some "bob@acme"⟩]
  sessions := [⟨"s1", "u-bob", none, ""⟩]

def sampleLibrary : Library where
  reader _ := { readerOf "alice" "alice" with opened := fun _ => .ok (payloadOf "alice" "alice") }
  decodeSegment _ := some []
  unmarshalIssuer _ := some "https://hr"
  lower := toLower

theorem sharedSubject_delivered : Delivered sampleLibrary sharedSubject "h.p.s" 1000000000000
    hrRow (receivedFor "alice" "alice") where
  nonempty := by decide
  source := ⟨"https://hr", by decide, by decide⟩
  verified := rfl

theorem reaches_own_iff_sharedSubject :
    (∀ rows : Rows, rows.Answers →
      (∀ issuer, unverifiedIssuer sampleLibrary (trimSpace "h.p.s") = some issuer →
        sourceByIssuer rows sharedSubject issuer = some hrRow) →
      ∀ row, Ended sharedSubject
          (handleSSFReceive sampleLibrary rows sharedSubject "h.p.s" 1000000000000).2 row →
        Authorised sharedSubject hrRow (receivedFor "alice" "alice").subject row) ↔
    (Effective sharedSubject hrRow (receivedFor "alice" "alice") →
      OwnPeople sampleLibrary sharedSubject hrRow (receivedFor "alice" "alice").subject) :=
  reaches_own_iff sharedSubject_delivered

/-- An event of the first provider ends the session of the person whom the second one means. -/
theorem shared_subject_ended : ∃ rows : Rows, rows.Answers ∧
    sourceByIssuer rows sharedSubject "https://hr" = some hrRow ∧
    Ended sharedSubject (handleSSFReceive sampleLibrary rows sharedSubject "h.p.s" 1000000000000).2
      ⟨"s1", "u-bob", none, ""⟩ ∧
    ¬Authorised sharedSubject hrRow
      (receivedFor "alice" "alice").subject ⟨"s1", "u-bob", none, ""⟩ := by
  refine ⟨preferring hrRow "u-bob", preferring_answers, by decide, ?_, ?_⟩
  · rw [handle_delivered sharedSubject_delivered (fun issuer h => ?_), ended_receiveEvent]
    · exact ⟨mem_cons_self, rfl, ⟨⟨eventSessionRevoked, by simp [receivedFor],
        by decide⟩, by simp [sharedSubject]⟩, by decide, by decide⟩
    · obtain rfl : "https://hr" = issuer := Option.some.inj h
      decide
  · rintro ⟨-, -, -, p, hp, -, hissuer, f, hf, hprovider, -⟩
    obtain rfl : f = ⟨"p2", "u-bob", "alice"⟩ := mem_singleton.mp hf
    simp only [sharedSubject, mem_cons, not_mem_nil, or_false] at hp
    obtain rfl | rfl := hp
    · simp at hprovider
    · simp [receivedFor] at hissuer

end Signari.SignalAuthority
