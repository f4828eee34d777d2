import Signari.AuthzModel
import Signari.SubjectFacts
import Signari.ByteCodecs
import Signari.KeysetPages

/-!
# Search pages

The three search endpoints of `internal/httpapi/authorization.go` with the queries they run
(`ObjectsWith` and `SubjectsWith` of `internal/store/authorization.go`), and the walk a caller
makes by following `next_token`. A token holds the last id of its page and a fingerprint of
the request it was issued for, which the next request must reproduce.

The database's text order is a parameter of the store; a caller's credential is already checked, and
failing queries are left out.
-/
namespace Signari.SearchPages
open GoStrings JsonValues KeyedMaps AuthzConditions AuthzModel SubjectFacts ByteCodecs KeysetPages

structure Subject where
  type : String
  id : String
  properties : List (String × Json) := []

structure Resource where
  type : String
  id : String := ""
  properties : List (String × Json) := []

structure Action where
  name : String
  properties : List (String × Json) := []

structure PageRequest where
  token : String := ""
  limit : ℤ := 0
  properties : List (String × Json) := []

structure SearchRequest where
  subject : Option Subject := none
  resource : Option Resource := none
  action : Option Action := none
  context : Option (List (String × Json)) := none
  page : Option PageRequest := none

structure Item where
  type : String := ""
  id : String := ""
  name : String := ""
  deriving DecidableEq

structure PageResponse where
  nextToken : String := ""
  count : ℕ

structure SearchResponse where
  page : Option PageResponse := none
  results : List Item

def SearchResponse.nextToken (r : SearchResponse) : String :=
  (r.page.map PageResponse.nextToken).getD ""

/-- A status code with its description, or a page. -/
abbrev Answer := Except (ℕ × String) SearchResponse

/-- A struct in its declared order; `omitempty` members are left out by the caller. -/
def encodeStruct (members : List (String × String)) : String :=
  "\x7b" ++ join (members.map fun m => encodeString m.1 ++ ":" ++ m.2) "," ++ "\x7d"

def propertiesMember (properties : List (String × Json)) : List (String × String) :=
  if properties = [] then [] else [("properties", marshal (.obj properties))]

def Subject.encode (s : Subject) : String :=
  encodeStruct ([("type", encodeString s.type), ("id", encodeString s.id)] ++
    propertiesMember s.properties)

def Resource.encode (r : Resource) : String :=
  encodeStruct ([("type", encodeString r.type)] ++
    (if r.id = "" then [] else [("id", encodeString r.id)]) ++ propertiesMember r.properties)

def Action.encode (a : Action) : String :=
  encodeStruct ([("name", encodeString a.name)] ++ propertiesMember a.properties)

/-- `json.Encoder.Encode` of a pointer or a map: nil prints as null, and a line ends it. -/
def encodeLine (text : Option String) : String := text.getD "null" ++ "\n"

def searchEntities (req : SearchRequest) : String :=
  encodeLine (req.subject.map Subject.encode) ++ encodeLine (req.resource.map Resource.encode) ++
    encodeLine (req.action.map Action.encode) ++
    encodeLine (req.context.map fun members => marshal (.obj members))

def fingerprintOf (text : String) : String := encode ((sum256 (textBytes text)).take 12)

def searchFingerprint (req : SearchRequest) : String :=
  fingerprintOf (searchEntities req ++
    (req.page.map fun p => encodeLine (some (toString p.limit))).getD "")

def notIssued : String := "page.token is not a token this PDP issued"

def differentSearch : String :=
  "page.token was issued for a different search: section 8.2 requires every entity and " ++
    "pagination parameter to be identical to the request that produced the token, and at " ++
    "least one of subject, action, resource, context or limit has changed"

def pageOf (req : SearchRequest) : Except String (ℤ × List UInt8) := match req.page with
  | none => .ok (0, [])
  | some p =>
    if p.limit < 0 then .error "page.limit must not be negative"
    else if p.token = "" then .ok (p.limit, [])
    else match decode p.token with
      | none => .error notIssued
      | some raw =>
        match cutByte 46 raw with
        | none => .error notIssued
        | some (fp, cursor) =>
          if fp ≠ textBytes (searchFingerprint req) then .error differentSearch
          else .ok (p.limit, cursor)

def pageToken (req : SearchRequest) (lastID : String) : String :=
  encode (textBytes (searchFingerprint req ++ "." ++ lastID))

def pageResponse (req : SearchRequest) (items : List Item) (more : Bool) (lastID : String) :
    PageResponse where
  nextToken := if more && lastID != "" then pageToken req lastID else ""
  count := items.length

/-- A grant. The table's checks keep both ids non-empty. -/
structure Relation where
  orgID : String
  subjectType : String
  subjectID : String
  relation : String
  objectType : String
  objectID : String
  expiresAt : Option ℤ
  subject_present : subjectID ≠ ""
  object_present : objectID ≠ ""

def Relation.live (r : Relation) (now : ℤ) : Bool := r.expiresAt.all fun t => decide (now < t)

/-- What the search reads. User ids are uuids, so none is empty. -/
structure Store where
  relations : List Relation
  directory : Directory
  models : String → Option Model
  collation : TotalOrder String
  member_present : ∀ m ∈ directory.memberships, m.userID ≠ ""

def pageSize (limit : ℤ) : ℕ := if limit ≤ 0 ∨ 1000 < limit then 1000 else limit.toNat

def cursorKey (after : String) : Option String := if after = "" then none else some after

def grantees (subjectType subjectID : String) (viaGroups : List String) : List (String × String) :=
  (subjectType, subjectID) :: viaGroups.map fun g => ("group", g)

def heldObjects (s : Store) (now : ℤ) (orgID subjectType subjectID : String)
    (relations : List String) (objectType : String) (viaGroups : List String) : List String :=
  (s.relations.filter fun r =>
    (grantees subjectType subjectID viaGroups).contains (r.subjectType, r.subjectID) &&
    r.orgID == orgID && relations.contains r.relation && r.objectType == objectType &&
    r.live now).map Relation.objectID

def objectsWith (s : Store) (now : ℤ) (orgID subjectType subjectID : String)
    (relations : List String) (objectType : String) (viaGroups : List String) (limit : ℤ)
    (after : String) : List String × Bool :=
  if relations = [] then ([], false)
  else page s.collation (heldObjects s now orgID subjectType subjectID relations objectType
    viaGroups) (cursorKey after) (pageSize limit)

def grantsOn (s : Store) (now : ℤ) (orgID : String) (relations : List String)
    (objectType objectID : String) : List Relation :=
  s.relations.filter fun r => r.orgID == orgID && relations.contains r.relation &&
    r.objectType == objectType && r.objectID == objectID && r.live now

def Relation.people (r : Relation) (s : Store) (orgID : String) : List String :=
  if r.subjectType = "user" then [r.subjectID]
  else if r.subjectType = "group" then
    (s.directory.memberships.filter fun m => m.group == r.subjectID && m.orgID == orgID).map
      Membership.userID
  else []

def holders (s : Store) (now : ℤ) (orgID : String) (relations : List String)
    (objectType objectID : String) : List String :=
  (grantsOn s now orgID relations objectType objectID).flatMap fun r => r.people s orgID

def subjectsWith (s : Store) (now : ℤ) (orgID : String) (relations : List String)
    (objectType objectID : String) (limit : ℤ) (after : String) : List String × Bool :=
  if relations = [] then ([], false)
  else page s.collation (holders s now orgID relations objectType objectID) (cursorKey after)
    (pageSize limit)

def resolveSubject (s : Store) (orgID subjectID : String) : Option String :=
  (s.directory.users.find? fun u => u.orgID == orgID &&
    (u.id == subjectID || toLower u.email == toLower subjectID)).map UserRow.id

def contextText (context : Option (List (String × Json))) (key : String) : Option String :=
  match (context.getD []).lookup key with
  | some (.str v) => some v
  | _ => none

def sessionFromContext (context : Option (List (String × Json))) : String :=
  ((contextText context "sid").or (contextText context "session_id")).getD ""

def factsFor (s : Store) (now : Moment) (orgID subjectID : String)
    (context : Option (List (String × Json))) : Facts :=
  match resolveSubject s orgID subjectID with
  | none => {}
  | some userID => subjectFacts s.directory now orgID userID (sessionFromContext context)

def answerPage (req : SearchRequest) (itemType : String)
    (query : ℤ → String → List String × Bool) : Answer := do
  let (limit, cursor) ← (pageOf req).mapError fun e => (400, e)
  let after ← match bytesText cursor with
    | some after => .ok after
    | none => .error (500, "the search could not be run")
  let (ids, more) := query limit after
  let items := ids.map fun id => { type := itemType, id := id }
  return { results := items, page := some (pageResponse req items more (ids.getLast?.getD "")) }

def nothing : Answer := .ok { results := [] }

def handleAuthzSearchResource (s : Store) (now : Moment) (orgID : String) (req : SearchRequest) :
    Answer :=
  match req.subject, req.action, req.resource with
  | some subject, some action, some resource =>
    if subject.id = "" ∨ action.name = "" ∨ resource.type = "" then
      .error (400, "subject.id, action.name and resource.type are required")
    else match s.models orgID with
      | none => nothing
      | some model =>
        match model.relationsFor resource.type action.name with
        | none => nothing
        | some relations =>
          let facts := factsFor s now orgID subject.id req.context
          answerPage req resource.type fun limit after =>
            objectsWith s now.instant orgID subject.type subject.id relations resource.type
              facts.groups limit after
  | _, _, _ => .error (400, "subject.id, action.name and resource.type are required")

def handleAuthzSearchSubject (s : Store) (now : Moment) (orgID : String) (req : SearchRequest) :
    Answer :=
  match req.resource, req.action with
  | some resource, some action =>
    if resource.type = "" ∨ resource.id = "" ∨ action.name = "" then
      .error (400, "resource.type, resource.id and action.name are required")
    else match s.models orgID with
      | none => nothing
      | some model =>
        match model.relationsFor resource.type action.name with
        | none => nothing
        | some relations => answerPage req "user" fun limit after =>
          subjectsWith s now.instant orgID relations resource.type resource.id limit after
  | _, _ => .error (400, "resource.type, resource.id and action.name are required")

def handleAuthzSearchAction (s : Store) (decide : SearchRequest → String → Bool) (orgID : String)
    (req : SearchRequest) : Answer :=
  match req.subject, req.resource with
  | some subject, some resource =>
    if subject.id = "" ∨ resource.type = "" then
      .error (400, "subject.id and resource.type are required")
    else match s.models orgID with
      | none => nothing
      | some model =>
        match model.types.lookup resource.type with
        | none => nothing
        | some t =>
          let names := (t.permissions.keys.filter fun a => decide req a).insertionSort
            fun a b => a ≤ b
          let items := names.map fun a => { name := a }
          .ok { results := items, page := some { count := items.length } }
  | _, _ => .error (400, "subject.id and resource.type are required")

inductive Endpoint where
  | resource | subject | action

def handleSearch (e : Endpoint) (s : Store) (decide : SearchRequest → String → Bool) (now : Moment)
    (orgID : String) (req : SearchRequest) : Answer :=
  match e with
  | .resource => handleAuthzSearchResource s now orgID req
  | .subject => handleAuthzSearchSubject s now orgID req
  | .action => handleAuthzSearchAction s decide orgID req

/-- The next request of a walk: the token set, everything else as it was. -/
def SearchRequest.follow (req : SearchRequest) (token : String) : SearchRequest :=
  { req with page := some { req.page.getD {} with token := token } }

/-- Following `next_token` to the end; the i-th request is answered by `answer i`. -/
inductive Walk (answer : ℕ → SearchRequest → Answer) :
    ℕ → SearchRequest → List SearchResponse → Prop
  | last {i req r} : answer i req = .ok r → r.nextToken = "" → Walk answer i req [r]
  | next {i req r rs} : answer i req = .ok r → r.nextToken ≠ "" →
      Walk answer (i + 1) (req.follow r.nextToken) rs → Walk answer i req (r :: rs)

/-- The grants that make an object a result of a resource search. -/
def Grants (s : Store) (now : Moment) (orgID : String) (req : SearchRequest) (subject : Subject)
    (relations : List String) (r : Relation) : Prop :=
  r.orgID = orgID ∧ r.relation ∈ relations ∧ r.live now.instant = true ∧
    ((r.subjectType = subject.type ∧ r.subjectID = subject.id) ∨
      r.subjectType = "group" ∧ r.subjectID ∈ (factsFor s now orgID subject.id req.context).groups)

def FullResult (e : Endpoint) (s : Store) (decide : SearchRequest → String → Bool) (now : Moment)
    (orgID : String) (req : SearchRequest) : Set Item :=
  {item | ∃ model resource, s.models orgID = some model ∧ req.resource = some resource ∧
    match e with
    | .resource => ∃ subject action relations, req.subject = some subject ∧
        req.action = some action ∧
        model.relationsFor resource.type action.name = some relations ∧
        ∃ r ∈ s.relations, Grants s now orgID req subject relations r ∧
          r.objectType = resource.type ∧ item = { type := resource.type, id := r.objectID }
    | .subject => ∃ action relations, req.action = some action ∧
        model.relationsFor resource.type action.name = some relations ∧
        ∃ r ∈ s.relations, r.orgID = orgID ∧ r.relation ∈ relations ∧ r.live now.instant = true ∧
          r.objectType = resource.type ∧ r.objectID = resource.id ∧
          ∃ id ∈ r.people s orgID, item = { type := "user", id := id }
    | .action => ∃ t a, model.types.lookup resource.type = some t ∧ a ∈ t.permissions.keys ∧
        decide req a = true ∧ item = { name := a }}

end Signari.SearchPages
