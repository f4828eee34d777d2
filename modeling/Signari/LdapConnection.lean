import Signari.LdapSearch

/-!
# One LDAP connection

The state a connection keeps between messages, and `dispatch` with the handler of every
operation: bind, search, the extended operations, the four writes and what is refused. What
the store, the authenticator and the writer answer belongs to the message that asked, so it
may change from one message to the next; the same holds for whether a reply could be sent.

Every bind the server can read drops the identity first. One it cannot read is answered
before that, so it leaves the connection bound as it was. This is the only way in which
the identity is not that of the last bind.
-/
namespace Signari.LdapConnection
open GoStrings KeyedMaps LdapSchema LdapRequests LdapAccounts LdapSearch

def appBindRequest : ℕ := 0
def appBindResponse : ℕ := 1
def appUnbindRequest : ℕ := 2
def appSearchRequest : ℕ := 3
def appModifyRequest : ℕ := 6
def appAddRequest : ℕ := 8
def appDelRequest : ℕ := 10
def appModifyDNRequest : ℕ := 12
def appCompareRequest : ℕ := 14
def appAbandonRequest : ℕ := 16
def appExtendedRequest : ℕ := 23
def appExtendedResponse : ℕ := 24

/-- The per-connection state: bound exactly when there is an identity. -/
structure Session where
  bound : Bool
  identity : Option Identity
  dn : String
  bound_eq : bound = identity.isSome

def Session.unbound : Session := ⟨false, none, "", rfl⟩

def Session.bind (id : Identity) (dn : String) : Session := ⟨true, some id, dn, rfl⟩

inductive AuthError where
  | busy
  | other (text : String)

/-- What is answered while one message is handled. A writer's `none` is success. -/
structure Env where
  store : Authenticator
  authenticate : String → String → Except AuthError (Option Identity)
  expired : Bool
  create : String → NewEntry → Option WriteError
  update : String → String → Update → Option WriteError
  remove : String → String → Option WriteError
  rename : String → String → String → Option WriteError
  delivered : Bool

/-- A call of the writer; the first argument is the actor. -/
inductive Call where
  | create (actor : String) (e : NewEntry)
  | update (actor username : String) (u : Update)
  | remove (actor username : String)
  | rename (actor oldName newName : String)

inductive Reply where
  | result (r : LdapResult)
  | entry (e : Entry)
  | whoAmI (authz : String)

/-- What handling an operation comes to. -/
structure Handled where
  session : Session
  replies : List Reply := []
  call : Option Call := none
  close : Bool := false

def answer (sess : Session) (app : ℕ) (code : ℤ) (matchedDN diagnostic : String) : Handled where
  session := sess
  replies := [.result ⟨app, code, matchedDN, diagnostic⟩]

section
variable (l : Listener) (env : Env) (sess : Session) (op : Packet)

/-! ## Bind -/

/-- A bind that was read, on a connection whose identity is already gone. -/
def bindRead (req : BindRequest) : Handled := let sess := Session.unbound
  if req.version ≠ 3 then
    answer sess appBindResponse resultProtocolError "" "only LDAPv3 is supported"
  else if req.simple = false then
    answer sess appBindResponse resultAuthMethodNotSupported ""
      "only simple authentication is supported"
  else if req.dn = "" ∧ req.password = "" then answer sess appBindResponse resultSuccess "" ""
  else if req.password = "" then
    answer sess appBindResponse resultUnwillingToPerform ""
      "a bind with an empty password authenticates nobody (RFC 4513 section 5.1.2)"
  else match usernameFromDN l req.dn with
    | .error _ => answer sess appBindResponse resultInvalidCredentials "" "invalid credentials"
    | .ok username =>
      match env.authenticate username req.password with
      | .error .busy =>
        answer sess appBindResponse resultBusy "" "too many recent authentication failures"
      | .error (.other _) | .ok none =>
        answer sess appBindResponse resultInvalidCredentials "" "invalid credentials"
      | .ok (some id) => answer (.bind id req.dn) appBindResponse resultSuccess "" ""

def handleBind : Handled := match decodeBind op with
  | .error _ => answer sess appBindResponse resultProtocolError "" "malformed bind request"
  | .ok req => bindRead l env req

/-! ## Search and the extended operations -/

def handleSearch : Handled := match decodeSearch op with
  | .error _ => answer sess 5 resultProtocolError "" "malformed search request"
  | .ok req =>
    let reply := search l env.store sess.bound env.expired req
    { session := sess, replies := reply.1.map .entry ++ [.result reply.2] }

def oidWhoAmI : String := "1.3.6.1.4.1.4203.1.11.3"
def oidStartTLS : String := "1.3.6.1.4.1.1466.20037"

def handleExtended : Handled := let oid := (op.children.head?.map Packet.data).getD ""
  if oid = oidWhoAmI then
    { session := sess, replies := [.whoAmI (if sess.bound then "dn:" ++ sess.dn else "")] }
  else if oid = oidStartTLS then
    answer sess appExtendedResponse resultProtocolError ""
      ("StartTLS is not supported; connect to the LDAPS listener instead. Answering success " ++
        "here without upgrading the connection would have you send credentials in the clear.")
  else answer sess appExtendedResponse resultProtocolError "" "unsupported extended operation"

/-! ## Writes -/

def writesConfigured : Bool := l.writer && l.writeGroup ≠ ""

def mayWrite : Bool :=
  writesConfigured l && sess.bound && sess.identity.any fun id => l.writeGroup ∈ id.groups

def refuseWrite (respTag : ℕ) : Handled :=
  if writesConfigured l = false then
    answer sess respTag resultUnwillingToPerform "" "this directory is read-only"
  else
    answer sess respTag resultInsufficientAccess ""
      "the bound identity is not permitted to write to this directory"

/-- The DN error that says the name is outside the naming context has its own code. -/
def writeDNError (respTag : ℕ) (cause : String) : Handled :=
  if "not under".toList <:+: cause.toList then
    answer sess respTag resultNoSuchObject l.baseDN cause
  else answer sess respTag resultInvalidDNSyntax "" cause

def writeSchemaError (respTag : ℕ) (e : ModifyError) : Handled :=
  answer sess respTag e.code "" e.msg

/-- The answer to what the writer returned. Which of the two name errors a handler knows
differs from one to the next; any other error has the handler's own text. -/
def writerResult (respTag : ℕ) (onExists onNoSuch : Bool) (failure : String) :
    Option WriteError → LdapResult
  | none => ⟨respTag, resultSuccess, "", ""⟩
  | some .entryExists =>
    if onExists then
      ⟨respTag, resultEntryAlreadyExists, "", "an entry with that name already exists"⟩
    else ⟨respTag, resultOther, "", failure⟩
  | some .noSuchEntry =>
    if onNoSuch then ⟨respTag, resultNoSuchObject, l.baseDN, "no such object"⟩
    else ⟨respTag, resultOther, "", failure⟩
  | some (.constraint text) => ⟨respTag, resultConstraintViolation, "", text⟩
  | some (.other _) => ⟨respTag, resultOther, "", failure⟩

def called (call : Call) (r : LdapResult) : Handled :=
  { session := sess, replies := [.result r], call := some call }

def actor : String := (sess.identity.map Identity.username).getD ""

def single (attrs : List (String × List String)) (key : String) :
    Except ModifyError (Option String) :=
  match ((attrs.find? fun a => a.1 = key).map Prod.snd).getD [] with
  | [] => .ok none
  | [v] => .ok (some v)
  | vs => .error ⟨resultConstraintViolation, canonicalAttr key ++ " is single-valued and " ++
      toString vs.length ++ " values were supplied"⟩

def checkAttrs : List (String × List String) → Except ModifyError Unit
  | [] => .ok ()
  | (key, _) :: rest =>
    match lookupAttr key with
    | none => .error ⟨resultUndefinedAttributeType,
        "this directory does not define the attribute " ++ key⟩
    | some d =>
      if d.writable = false ∧ asciiEqual d.name "uid" = false then
        .error ⟨resultConstraintViolation,
          canonicalAttr key ++ " is maintained by this server and cannot be supplied"⟩
      else checkAttrs rest

def addedEntry (username : String) (req : AddRequest) : Except ModifyError NewEntry := do
  checkAttrs req.attrs
  match ← single req.attrs "uid" with
  | some uid =>
    if asciiEqual uid username = false then
      throw ⟨resultNamingViolation,
        "the uid attribute says " ++ uid ++ " and the entry DN says " ++ username⟩
  | none => pure ()
  let commonName ← single req.attrs "cn"
  let surname ← single req.attrs "sn"
  let givenName ← single req.attrs "givenname"
  let displayName ← single req.attrs "displayname"
  let email ← single req.attrs "mail"
  let password ← single req.attrs "userpassword"
  let e : NewEntry :=
    { username := username, email := email.getD "", displayName := displayName.getD "",
      commonName := commonName.getD "", surname := surname.getD "",
      givenName := givenName.getD "", password := password.getD "" }
  validateNewEntry e req.classes
  return e

def handleAdd : Handled := if mayWrite l sess = false then refuseWrite l sess 9
  else match decodeAdd op with
    | .error _ => answer sess 9 resultProtocolError "" "malformed add request"
    | .ok req =>
      match usernameFromDN l req.dn with
      | .error cause => writeDNError l sess 9 cause
      | .ok username =>
        match addedEntry username req with
        | .error e => writeSchemaError sess 9 e
        | .ok e => called sess (.create (actor sess) e)
            (writerResult l 9 true false "the entry could not be added" (env.create (actor sess) e))

def handleModify : Handled := if mayWrite l sess = false then refuseWrite l sess 7
  else match decodeModify op with
    | .error _ => answer sess 7 resultProtocolError "" "malformed modify request"
    | .ok (dn, changes) =>
      match usernameFromDN l dn with
      | .error cause => writeDNError l sess 7 cause
      | .ok username =>
        match env.store.lookup username with
        | none => answer sess 7 resultNoSuchObject l.baseDN "no such object"
        | some id =>
          match applyChanges (entryFor l id) changes with
          | .error e => writeSchemaError sess 7 e
          | .ok u =>
            if u.empty then answer sess 7 resultSuccess "" ""
            else called sess (.update (actor sess) username u)
              (writerResult l 7 false true "the entry could not be modified"
                (env.update (actor sess) username u))

def handleDelete : Handled := if mayWrite l sess = false then refuseWrite l sess 11
  else if asciiEqual (trimSpace op.data) l.baseDN then
    answer sess 11 resultNotAllowedOnNonLeaf l.baseDN "the naming context itself cannot be deleted"
  else match usernameFromDN l op.data with
    | .error cause => writeDNError l sess 11 cause
    | .ok username => called sess (.remove (actor sess) username)
        (writerResult l 11 false true "the entry could not be deleted"
          (env.remove (actor sess) username))

def newName (newRDN : String) : Except ModifyError String := match cutFirst newRDN.toList '=' with
  | none => .error ⟨resultInvalidDNSyntax, "the new RDN is not attribute=value"⟩
  | some (attr, value) =>
    if asciiEqual (trimSpace (String.ofList attr)) l.userAttr = false then
      .error ⟨resultNamingViolation,
        "entries here are named by " ++ l.userAttr ++ ", not by " ++ String.ofList attr⟩
    else if trimSpace (String.ofList value) = "" then
      .error ⟨resultInvalidDNSyntax, "the new RDN has an empty value"⟩
    else .ok (trimSpace (String.ofList value))

def handleModifyDN : Handled := if mayWrite l sess = false then refuseWrite l sess 13
  else match decodeModifyDN op with
    | .error _ => answer sess 13 resultProtocolError "" "malformed modify DN request"
    | .ok req =>
      match usernameFromDN l req.dn with
      | .error cause => writeDNError l sess 13 cause
      | .ok oldName =>
        if req.newSuperior.any fun s => asciiEqual (trimSpace s) l.baseDN = false then
          answer sess 13 resultNoSuchObject l.baseDN
            ("this directory has no subordinate structure; the only superior is " ++ l.baseDN)
        else match newName l req.newRDN with
          | .error e => writeSchemaError sess 13 e
          | .ok name =>
            if req.deleteOldRDN = false then
              answer sess 13 resultConstraintViolation ""
                (l.userAttr ++ " is single-valued here, so the old value cannot be " ++
                  "retained as a non-distinguished value; send deleteoldrdn TRUE")
            else if asciiEqual oldName name then answer sess 13 resultSuccess "" ""
            else called sess (.rename (actor sess) oldName name)
              (writerResult l 13 true true "the entry could not be renamed"
                (env.rename (actor sess) oldName name))

/-! ## Messages -/

def dispatch : Handled := if op.tag = appBindRequest then handleBind l env sess op
  else if op.tag = appSearchRequest then handleSearch l env sess op
  else if op.tag = appUnbindRequest then { session := sess, close := true }
  else if op.tag = appAbandonRequest then { session := sess }
  else if op.tag = appExtendedRequest then handleExtended sess op
  else if op.tag = appAddRequest then handleAdd l env sess op
  else if op.tag = appModifyRequest then handleModify l env sess op
  else if op.tag = appDelRequest then handleDelete l env sess op
  else if op.tag = appModifyDNRequest then handleModifyDN l env sess op
  else if op.tag = appCompareRequest then
    answer sess 15 resultUnwillingToPerform "" "compare is not supported"
  else answer sess appBindResponse resultProtocolError "" "unsupported operation"

end

structure Message where
  bytes : ℕ
  packet : Packet

def maxMessageSize : ℕ := 1048576

def operation (m : Message) : Option Packet := if maxMessageSize < m.bytes then none
  else match m.packet.children with
    | id :: op :: _ => id.value.int?.map fun _ => op
    | _ => none

structure Event where
  env : Env
  message : Message

structure Connection where
  session : Session
  alive : Bool

def Connection.start : Connection := ⟨.unbound, true⟩

section
variable (l : Listener)

/-- What a connection makes of a message; `none` when it is closed or drops the message, and
closes. -/
def handled (c : Connection) (ev : Event) : Option Handled :=
  if c.alive then (operation ev.message).map (dispatch l ev.env c.session) else none

/-- One turn of the loop in `handle`. -/
def step (c : Connection) (ev : Event) : Connection := match handled l c ev with
  | none => ⟨c.session, false⟩
  | some h => ⟨h.session, !h.close && (h.replies.isEmpty || ev.env.delivered)⟩

def run (events : List Event) : Connection := events.foldl (step l) .start

/-- The writer's call a message leads to. -/
def callOf (c : Connection) (ev : Event) : Option Call := (handled l c ev).bind Handled.call

def bindOf (c : Connection) (ev : Event) : Option Packet :=
  if c.alive then (operation ev.message).filter fun op => op.tag = appBindRequest else none

/-! ## What an operation may do -/

def Keeps (sess : Session) (h : Handled) : Prop :=
  h.session = sess ∧ ∀ call ∈ h.call, mayWrite l sess = true

variable {env : Env} {sess : Session} {op : Packet}

theorem keeps_of_no_call {h : Handled} (hsess : h.session = sess) (hcall : h.call = none) :
    Keeps l sess h := by
  refine ⟨hsess, fun call hmem => ?_⟩
  rw [hcall] at hmem
  exact absurd hmem (Option.not_mem_none call)

theorem keeps_answer (app : ℕ) (code : ℤ) (matchedDN diagnostic : String) :
    Keeps l sess (answer sess app code matchedDN diagnostic) :=
  keeps_of_no_call l rfl rfl

theorem keeps_ite {c : Prop} [Decidable c] {h h' : Handled} (hthen : Keeps l sess h)
    (helse : Keeps l sess h') : Keeps l sess (if c then h else h') := by
  split
  · exact hthen
  · exact helse

theorem keeps_refuseWrite (respTag : ℕ) : Keeps l sess (refuseWrite l sess respTag) :=
  keeps_ite l (keeps_answer l _ _ _ _) (keeps_answer l _ _ _ _)

theorem keeps_writeDNError (respTag : ℕ) (cause : String) :
    Keeps l sess (writeDNError l sess respTag cause) :=
  keeps_ite l (keeps_answer l _ _ _ _) (keeps_answer l _ _ _ _)

theorem keeps_called (h : ¬mayWrite l sess = false) (call : Call) (r : LdapResult) :
    Keeps l sess (called sess call r) :=
  ⟨rfl, fun _ _ => by simpa using h⟩

theorem keeps_handleSearch : Keeps l sess (handleSearch l env sess op) := by
  unfold handleSearch
  split
  · exact keeps_answer l _ _ _ _
  · exact keeps_of_no_call l rfl rfl

theorem keeps_handleExtended : Keeps l sess (handleExtended sess op) := by
  refine keeps_ite l (keeps_of_no_call l rfl rfl) ?_
  exact keeps_ite l (keeps_answer l _ _ _ _) (keeps_answer l _ _ _ _)

theorem keeps_handleAdd : Keeps l sess (handleAdd l env sess op) := by
  unfold handleAdd
  split_ifs with hmay
  · exact keeps_refuseWrite l _
  split
  · exact keeps_answer l _ _ _ _
  split
  · exact keeps_writeDNError l _ _
  split
  · exact keeps_answer l _ _ _ _
  · exact keeps_called l hmay _ _

theorem keeps_handleModify : Keeps l sess (handleModify l env sess op) := by
  unfold handleModify
  split_ifs with hmay
  · exact keeps_refuseWrite l _
  split
  · exact keeps_answer l _ _ _ _
  split
  · exact keeps_writeDNError l _ _
  split
  · exact keeps_answer l _ _ _ _
  split
  · exact keeps_answer l _ _ _ _
  split_ifs
  · exact keeps_answer l _ _ _ _
  · exact keeps_called l hmay _ _

theorem keeps_handleDelete : Keeps l sess (handleDelete l env sess op) := by
  unfold handleDelete
  split_ifs with hmay
  · exact keeps_refuseWrite l _
  · exact keeps_answer l _ _ _ _
  split
  · exact keeps_writeDNError l _ _
  · exact keeps_called l hmay _ _

theorem keeps_handleModifyDN : Keeps l sess (handleModifyDN l env sess op) := by
  unfold handleModifyDN
  split
  · exact keeps_refuseWrite l _
  rename_i hmay
  split
  · exact keeps_answer l _ _ _ _
  split
  · exact keeps_writeDNError l _ _
  split
  · exact keeps_answer l _ _ _ _
  split
  · exact keeps_answer l _ _ _ _
  split
  · exact keeps_answer l _ _ _ _
  split
  · exact keeps_answer l _ _ _ _
  · exact keeps_called l hmay _ _

theorem keeps_dispatch (h : op.tag ≠ appBindRequest) : Keeps l sess (dispatch l env sess op) := by
  rw [dispatch, if_neg h]
  refine keeps_ite l (keeps_handleSearch l) ?_
  refine keeps_ite l (keeps_of_no_call l rfl rfl) ?_
  refine keeps_ite l (keeps_of_no_call l rfl rfl) ?_
  refine keeps_ite l (keeps_handleExtended l) ?_
  refine keeps_ite l (keeps_handleAdd l) ?_
  refine keeps_ite l (keeps_handleModify l) ?_
  refine keeps_ite l (keeps_handleDelete l) ?_
  refine keeps_ite l (keeps_handleModifyDN l) ?_
  exact keeps_ite l (keeps_answer l _ _ _ _) (keeps_answer l _ _ _ _)

/-! ## Binds -/

def Session.BoundAs (s : Session) (x : Identity) : Prop := s.bound = true ∧ s.identity = some x

def Accepts (env : Env) (op : Packet) (x : Identity) : Prop :=
  ∃ req username, decodeBind op = .ok req ∧ req.version = 3 ∧ req.simple = true ∧
    req.password ≠ "" ∧ usernameFromDN l req.dn = .ok username ∧
    env.authenticate username req.password = .ok (some x)

theorem unbound_not_boundAs {x : Identity} : ¬Session.unbound.BoundAs x := by
  rintro ⟨h, -⟩
  exact absurd h (by decide)

theorem bindRead_boundAs_iff {req : BindRequest} {x : Identity} :
    (bindRead l env req).session.BoundAs x ↔ req.version = 3 ∧ req.simple = true ∧
      req.password ≠ "" ∧ ∃ username, usernameFromDN l req.dn = .ok username ∧
        env.authenticate username req.password = .ok (some x) := by
  unfold bindRead
  dsimp only
  split_ifs with hversion hsimple hanonymous hempty
  · exact iff_of_false unbound_not_boundAs fun h => hversion h.1
  · exact iff_of_false unbound_not_boundAs fun h => by simp [hsimple] at h
  · exact iff_of_false unbound_not_boundAs fun h => h.2.2.1 hanonymous.2
  · exact iff_of_false unbound_not_boundAs fun h => h.2.2.1 hempty
  have hadmitted : req.version = 3 ∧ req.simple = true ∧ req.password ≠ "" :=
    ⟨not_not.mp hversion, by simpa using hsimple, hempty⟩
  cases hname : usernameFromDN l req.dn with
  | error e => exact iff_of_false unbound_not_boundAs fun h => by simp at h
  | ok username =>
    simp only [Except.ok.injEq, exists_eq_left']
    cases hauth : env.authenticate username req.password with
    | error e =>
      cases e <;> exact iff_of_false unbound_not_boundAs fun h => by simp at h
    | ok id =>
      cases id with
      | none => exact iff_of_false unbound_not_boundAs fun h => by simp at h
      | some y => simp [answer, Session.bind, Session.BoundAs, hadmitted]

theorem bindRead_call {req : BindRequest} : (bindRead l env req).call = none := by
  unfold bindRead
  dsimp only
  split_ifs
  · rfl
  · rfl
  · rfl
  · rfl
  split
  · rfl
  split <;> rfl

theorem handleBind_call : (handleBind l env sess op).call = none := by
  unfold handleBind
  split
  · rfl
  · exact bindRead_call l

theorem handleBind_boundAs_iff {x : Identity} : (handleBind l env sess op).session.BoundAs x ↔
    Accepts l env op x ∨ ((∃ e, decodeBind op = .error e) ∧ sess.BoundAs x) := by
  unfold handleBind Accepts
  cases hop : decodeBind op with
  | error e => simp [answer]
  | ok req =>
    simp only [bindRead_boundAs_iff, Except.ok.injEq, exists_and_left, exists_eq_left']
    simp

/-! ## Runs -/

/-- The most recent bind request the connection read, with what was answered during it. -/
def lastBind (c : Connection) : List Event → Option (Env × Packet)
  | [] => none
  | ev :: rest => (lastBind (step l c ev) rest).or ((bindOf c ev).map (ev.env, ·))

/-- Bound as an identity exactly when the most recent bind request was accepted for it. -/
def BoundByLast (events : List Event) : Prop :=
  ∀ x, (run l events).session.BoundAs x ↔
    ∃ last ∈ lastBind l .start events, Accepts l last.1 last.2 x

def Malformed (op : Packet) : Prop := ∃ e, decodeBind op = .error e

def Sound (c : Connection) (ev : Event) : Prop :=
  ∀ op, bindOf c ev = some op → Malformed op → c.session.bound = false

/-- The connection beside the most recent bind request. -/
def track (t : Connection × Option (Env × Packet)) (ev : Event) :
    Connection × Option (Env × Packet) :=
  (step l t.1 ev, ((bindOf t.1 ev).map (ev.env, ·)).or t.2)

theorem foldl_track (c : Connection) (last : Option (Env × Packet)) (events : List Event) :
    events.foldl (track l) (c, last) =
      (events.foldl (step l) c, (lastBind l c events).or last) := by
  induction events generalizing c last with
  | nil => rfl
  | cons ev rest ih =>
    rw [List.foldl_cons, track, ih, List.foldl_cons, lastBind, Option.or_assoc]

theorem Session.bound_eq_false_iff {s : Session} : s.bound = false ↔ ∀ x, ¬s.BoundAs x := by
  constructor
  · rintro h x ⟨hbound, -⟩
    rw [h] at hbound
    exact absurd hbound (by decide)
  · intro h
    cases hid : s.identity with
    | none => rw [s.bound_eq, hid, Option.isSome_none]
    | some x => exact (h x ⟨by rw [s.bound_eq, hid, Option.isSome_some], hid⟩).elim

theorem handled_of_bindOf {c : Connection} {ev : Event} (h : bindOf c ev = some op) :
    handled l c ev = some (handleBind l ev.env c.session op) := by
  unfold bindOf at h
  split_ifs at h with halive
  obtain ⟨hop, htag⟩ := Option.filter_eq_some_iff.mp h
  rw [handled, if_pos halive, hop, Option.map_some, dispatch, if_pos (by simpa using htag)]

theorem keeps_of_bindOf_none {c : Connection} {ev : Event} (h : bindOf c ev = none)
    {r : Handled} (hr : handled l c ev = some r) : Keeps l c.session r := by
  unfold handled at hr
  split_ifs at hr with halive
  obtain ⟨op, hop, rfl⟩ := Option.map_eq_some_iff.mp hr
  refine keeps_dispatch l fun htag => ?_
  rw [bindOf, if_pos halive, hop] at h
  simp [Option.filter, htag] at h

theorem step_session_of_bindOf_none {c : Connection} {ev : Event} (h : bindOf c ev = none) :
    (step l c ev).session = c.session := by
  unfold step
  split
  · rfl
  · rename_i r hr
    exact (keeps_of_bindOf_none l h hr).1

/-- The session of a tracked connection is that of the request beside it. -/
def Agrees (t : Connection × Option (Env × Packet)) : Prop :=
  ∀ x, t.1.session.BoundAs x ↔ ∃ last ∈ t.2, Accepts l last.1 last.2 x

/-- One message: agreement is lost to a malformed bind request on a bound connection, and
to nothing else. -/
theorem track_agrees_iff {t : Connection × Option (Env × Packet)} {ev : Event}
    (h : Agrees l t) : Agrees l (track l t ev) ↔ Sound t.1 ev := by
  unfold Sound
  cases hbind : bindOf t.1 ev with
  | none =>
    refine iff_of_true (fun x => ?_) (by simp)
    rw [track, step_session_of_bindOf_none l hbind, hbind]
    exact h x
  | some op =>
    have hstep : (step l t.1 ev).session = (handleBind l ev.env t.1.session op).session := by
      rw [step, handled_of_bindOf l hbind]
    have hlast : ∀ x, (∃ last ∈ (track l t ev).2, Accepts l last.1 last.2 x) ↔
        Accepts l ev.env op x := by
      intro x
      simp [track, hbind]
    simp only [Agrees, hlast, Option.some.injEq, forall_eq', Session.bound_eq_false_iff]
    simp only [track, hstep, handleBind_boundAs_iff]
    constructor
    · rintro hall ⟨e, he⟩ x hx
      obtain ⟨req, username, hreq, -⟩ := (hall x).mp (.inr ⟨⟨e, he⟩, hx⟩)
      rw [he] at hreq
      cases hreq
    · intro hall x
      refine ⟨?_, .inl⟩
      rintro (hx | ⟨hbad, hx⟩)
      · exact hx
      · exact (hall hbad x hx).elim

theorem callOf_mayWrite {c : Connection} {ev : Event} {call : Call}
    (h : callOf l c ev = some call) : mayWrite l c.session = true := by
  obtain ⟨r, hr, hcall⟩ := Option.bind_eq_some_iff.mp h
  cases hbind : bindOf c ev with
  | none => exact (keeps_of_bindOf_none l hbind hr).2 call hcall
  | some op =>
    rw [handled_of_bindOf l hbind] at hr
    obtain rfl := Option.some.inj hr
    rw [handleBind_call] at hcall
    cases hcall

def Permitted (s : Session) : Prop := l.writeGroup ≠ "" ∧ ∃ x, s.BoundAs x ∧ l.writeGroup ∈ x.groups

theorem permitted_of_mayWrite {s : Session} (h : mayWrite l s = true) : Permitted l s := by
  simp only [mayWrite, writesConfigured, Bool.and_eq_true, decide_eq_true_eq,
    Option.any_eq_true] at h
  obtain ⟨⟨⟨-, hgroup⟩, hbound⟩, x, hx, hmem⟩ := h
  exact ⟨hgroup, x, ⟨hbound, hx⟩, hmem⟩

/-- In every run: the connection is bound after each message as its most recent bind request
says, and the writer is called only under an identity of the write group, exactly where no
malformed bind request arrives on a bound connection. -/
theorem bound_by_last_iff (events : List Event) :
    ((∀ pre rest, events = pre ++ rest → BoundByLast l pre) ∧
      ∀ pre ev rest call, events = pre ++ ev :: rest →
        callOf l (run l pre) ev = some call → Permitted l (run l pre).session) ↔
    ∀ pre ev rest, events = pre ++ ev :: rest → Sound (run l pre) ev := by
  have hrun : ∀ pre, pre.foldl (track l) (.start, none) = (run l pre, lastBind l .start pre) := by
    intro pre
    rw [foldl_track, Option.or_none]
    rfl
  have hstart : Agrees l (Connection.start, none) := by
    intro x
    simp [Connection.start, unbound_not_boundAs]
  have hthrough := foldl_throughout_iff (f := track l) (C := fun t ev => Sound t.1 ev)
    (track_agrees_iff l) events hstart
  simp only [hrun] at hthrough
  constructor
  · rintro ⟨hbound, -⟩
    exact hthrough.mp hbound
  · intro hsound
    refine ⟨hthrough.mpr hsound, ?_⟩
    intro pre ev rest call _ hcall
    exact permitted_of_mayWrite l (callOf_mayWrite l hcall)

end

def exampleIdentity : Identity := ⟨"alice", "", "alice", true, [], "", ""⟩

def exampleEnv : Env where
  store := ⟨fun _ => none, fun _ => .ok []⟩
  authenticate := fun username password =>
    if username = "alice" ∧ password = "correct-horse" then .ok (some exampleIdentity)
    else .error (.other "invalid credentials")
  expired := false
  create := fun _ _ => none
  update := fun _ _ _ => none
  remove := fun _ _ => none
  rename := fun _ _ _ => none
  delivered := true

def exampleBind (fields : List Packet) : Event :=
  ⟨exampleEnv, 64, .mk 16 .other "" [.mk 2 (.int 1) "" [], .mk 0 .other "" fields]⟩

def exampleFields : List Packet :=
  [.mk 2 (.int 3) "" [], .mk 4 (.str "uid=alice,dc=example,dc=com") "" [],
    .mk 0 .other "correct-horse" []]

/-- A bind request with no fields leaves the connection bound. -/
theorem malformed_bind_keeps_identity :
    ¬BoundByLast exampleListener [exampleBind exampleFields, exampleBind []] := by
  intro h
  have hbound : (run exampleListener [exampleBind exampleFields, exampleBind []]).session.BoundAs
      exampleIdentity := ⟨by decide, by decide⟩
  have halive : (step exampleListener .start (exampleBind exampleFields)).alive = true := by
    decide
  have hsecond : bindOf (step exampleListener .start (exampleBind exampleFields))
      (exampleBind []) = some (.mk 0 .other "" []) := by
    rw [bindOf, if_pos halive]
    rfl
  obtain ⟨last, hlast, req, username, hreq, -⟩ := (h exampleIdentity).mp hbound
  rw [lastBind, lastBind, hsecond] at hlast
  obtain rfl := Option.some.inj hlast
  cases hreq

end Signari.LdapConnection
