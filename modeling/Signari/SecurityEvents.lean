import Signari.GoTime
import Signari.IndexedChecks
import Signari.JsonValues

/-!
# Received security events

`Verify` of `internal/ssf/receive.go`. A security event token carries one or more entries, and
the subject may be named at the top level and inside every entry, there under two names. One
subject is returned for the whole token, and the caller acts on every entry for that one.

The signature, the grammar of JSON and the typed decoding of the claims belong to libraries: they
are the fields of `Reader`, with the printing and rounding of numbers. A JSON object is its list of
members, read by `lookup`.
-/
namespace Signari.SecurityEvents
open GoStrings GoTime IndexedChecks JsonValues

abbrev Obj := List (String × Json)

/-- The claims of a token as they are decoded. `events` is a map, so no type occurs twice; an
absent `sub_id` is the empty map. -/
structure SetClaims where
  issuer : String
  jti : String
  issuedAt : ℤ
  audience : List String
  subID : Obj := []
  expiry : ℤ := 0
  subject : Option String := none
  events : List (String × Obj)
  nodup : (events.map Prod.fst).Nodup

structure Reader where
  opened : String → Except String Json
  unmarshal : Json → Except String SetClaims
  printNumber : Number → String
  toInt64 : Number → ℤ

structure Source where
  issuer : String
  audience : String
  allowedEvents : List String
  criticalSubjectMembers : List String := []
  deriving DecidableEq

structure Subject where
  format : String := ""
  issuer : String := ""
  sub : String := ""

structure ReceivedEvent where
  jti : String
  type : String
  types : List String
  allClaims : List (String × Obj)
  subject : Subject
  eventTime : ℤ
  claims : Obj

mutual

/-- `fmt.Sprint` of a decoded value. -/
def sprint (printNumber : Number → String) : Json → String
  | .null => "<nil>"
  | .bool b => if b then "true" else "false"
  | .num n => printNumber n
  | .str s => s
  | .arr items => "[" ++ join (sprintItems printNumber items) " " ++ "]"
  | .obj members =>
    "map[" ++ join ((sortMembers (sprintMembers printNumber members)).map fun m =>
      m.1 ++ ":" ++ m.2) " " ++ "]"

def sprintItems (printNumber : Number → String) : List Json → List String
  | [] => []
  | j :: js => sprint printNumber j :: sprintItems printNumber js

def sprintMembers (printNumber : Number → String) : List (String × Json) → List (String × String)
  | [] => []
  | (k, j) :: ms => (k, sprint printNumber j) :: sprintMembers printNumber ms

end

/-- How a member of an object prints; a member that is not there prints as nil. -/
def sprintAt (rd : Reader) (o : Obj) (k : String) : String :=
  sprint rd.printNumber ((o.lookup k).getD .null)

def objectAt (o : Obj) (k : String) : Option Obj := match o.lookup k with
  | some (.obj members) => some members
  | _ => none

def stringAt (o : Obj) (k : String) : String := match o.lookup k with
  | some (.str s) => s
  | _ => ""

def processableSubjectMembers : List String := ["format", "iss", "sub", "email", "user"]

/-- The declared members an object carries and this receiver cannot interpret. -/
def Source.unprocessableCritical (src : Source) (raw : Obj) : List String :=
  src.criticalSubjectMembers.filter fun name =>
    (raw.lookup name).isSome && !processableSubjectMembers.contains name

def Source.allows (src : Source) (eventType : String) : Bool := src.allowedEvents.contains eventType

def rawSubject (body : Obj) : Option Obj := objectAt body "sub_id" <|> objectAt body "subject"

/-- Two objects differ when some member of either prints differently. -/
def subjectsDiffer (rd : Reader) (a b : Obj) : Bool :=
  (a.map Prod.fst ++ b.map Prod.fst).any fun k => sprintAt rd a k != sprintAt rd b k

def ambiguousSubject (rd : Reader) (body : Obj) : Bool :=
  match objectAt body "sub_id", objectAt body "subject" with
  | some a, some b => subjectsDiffer rd a b
  | _, _ => false

/-- The object that says who the event is about: the entry's own, or the top level. -/
def effectiveSubject (body top : Obj) : Obj := if (rawSubject body).isSome then body
  else if top = [] then body
  else [("sub_id", .obj top)]

/-- One object's account; a complex subject is read at its `user` member. -/
def accountOf (rd : Reader) (raw : Obj) : Option Obj :=
  if sprintAt rd raw "format" = "complex" then objectAt raw "user" else some raw

def readSubject (rd : Reader) (s : Subject) (raw : Obj) : Subject := match accountOf rd raw with
  | none => s
  | some account =>
    let sub := stringAt account "sub"
    let email := stringAt account "email"
    if sub = "" ∧ email ≠ "" then ⟨"email", stringAt account "iss", email⟩
    else ⟨stringAt account "format", stringAt account "iss", sub⟩

/-- The loop over the two names, which stops at the first that names somebody. -/
def subjectFromKeys (rd : Reader) (body : Obj) : List String → Subject → Subject
  | [], s => s
  | k :: ks, s =>
    match objectAt body k with
    | none => subjectFromKeys rd body ks s
    | some raw =>
      let s := readSubject rd s raw
      if s.sub ≠ "" then s else subjectFromKeys rd body ks s

def subjectFrom (rd : Reader) (body : Obj) : Subject :=
  subjectFromKeys rd body ["sub_id", "subject"] {}

def containsFold (hay : List String) (needle : String) : Bool := hay.any fun h => equalFold h needle

def notVerified (reason : String) : String := "the security event token did not verify: " ++ reason

/-- `%v` of a list of strings. -/
def printList (xs : List String) : String := "[" ++ join xs " " ++ "]"

def SetClaims.types (c : SetClaims) : List String := (c.events.map Prod.fst).insertionSort (· ≤ ·)

def SetClaims.entry (c : SetClaims) (type : String) : Obj := (c.events.lookup type).getD []

/-- What is asked of the claims before the events are looked at. -/
def checkClaims (src : Source) (c : SetClaims) (now : ℤ) : Except String Unit := do
  refuseIf (c.issuer ≠ src.issuer)
    (notVerified ("iss is " ++ quote c.issuer ++ ", want " ++ quote src.issuer))
  refuseIf (containsFold c.audience src.audience = false) (notVerified
    ("aud " ++ printList c.audience ++ " does not include " ++ quote src.audience))
  refuseIf (c.jti = "") (notVerified "no jti")
  refuseIf (c.issuedAt = 0) (notVerified "no iat")
  refuseIf (now + 300 * nanosPerSecond < c.issuedAt * nanosPerSecond)
    (notVerified "issued in the future")
  refuseIf (c.expiry ≠ 0) (notVerified ("the SET carries an `exp` claim, which the Shared " ++
    "Signals Framework forbids (section 4.1.7) as defence in depth against confusion with " ++
    "other kinds of JWT"))
  refuseIf (c.subject.isSome) (notVerified ("the SET carries a top-level `sub` claim, which " ++
    "the Shared Signals Framework forbids (section 4.1.2). An SSF event names its subject in " ++
    "`sub_id`; a JWT with a top-level `sub` is shaped like an ID token"))

def checkSubject (rd : Reader) (src : Source) (body top : Obj) : Except String Unit := do
  refuseIf (ambiguousSubject rd body = true) (notVerified ("the event carries both sub_id and " ++
    "subject and they name different principals; section 3.1.4 requires a subject to refer to " ++
    "exactly one"))
  refuseIf (top ≠ [] ∧ (rawSubject body).any (fun inner => subjectsDiffer rd inner top) = true)
    (notVerified ("the top-level `sub_id` and the subject inside the event name different " ++
      "principals; section 3.1.4 requires a subject to refer to exactly one"))
  match rawSubject (effectiveSubject body top) with
  | none => .ok ()
  | some raw => refuseIf (src.unprocessableCritical raw ≠ []) (notVerified
      ("the subject carries the critical member(s) " ++ printList (src.unprocessableCritical raw) ++
        ", which this receiver cannot interpret; §3.6 requires discarding the event rather than " ++
        "acting on a scope it does not understand"))

def eventTime (rd : Reader) (body : Obj) (issuedAt : ℤ) : ℤ :=
  match body.lookup "event_timestamp" with
  | some (.num n) => rd.toInt64 n
  | _ => issuedAt

/-- The events of a token: all must be allowed, and the first one's subject is the token's. -/
def receive (rd : Reader) (src : Source) (c : SetClaims) : Except String ReceivedEvent :=
  match c.types with
  | [] => .error (notVerified "no events")
  | type :: rest => do
      checkAll (fun _ t => refuseIf (src.allows t = false)
        (notVerified ("this source may not send " ++ t))) 0 (type :: rest)
      checkSubject rd src (c.entry type) c.subID
      .ok {
        jti := c.jti
        type := type
        types := type :: rest
        allClaims := c.events
        subject := subjectFrom rd (effectiveSubject (c.entry type) c.subID)
        eventTime := eventTime rd (c.entry type) c.issuedAt
        claims := c.entry type }

/-- The claims of a signed token; a document that names a member twice is refused. -/
def decodeToken (rd : Reader) (raw : String) : Except String SetClaims := do
  let payload ← (rd.opened raw).mapError notVerified
  match noDuplicateKeys [] payload with
  | some dup => .error (notVerified (duplicateMessage dup))
  | none => (rd.unmarshal payload).mapError fun _ => notVerified "malformed claims"

def verify (rd : Reader) (src : Source) (raw : String) (now : ℤ) : Except String ReceivedEvent := do
  let c ← decodeToken rd raw
  checkClaims src c now
  receive rd src c

end Signari.SecurityEvents
