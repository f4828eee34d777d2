import Signari.GoStrings

/-!
# The directory schema

The writable surface of `internal/ldapd`: the attributes it defines, the entry an Add asks
for, and the folding of a Modify's changes onto the entry as it stands. Attribute names and
values are compared byte by byte up to ASCII case; the names a request wrote are looked up
in the table, and everything after that goes by the table's own spelling.
-/
namespace Signari.LdapSchema
open GoStrings

/-- `lower` on one byte: ASCII letters only. -/
def asciiLower (c : Char) : Char := if 'A' ≤ c ∧ c ≤ 'Z' then Char.ofNat (c.toNat + 32) else c

/-- The package's own `equalFold`. -/
def asciiEqual (a b : String) : Bool := a.toList.map asciiLower == b.toList.map asciiLower

structure Entry where
  dn : String
  attrs : List (String × List String)
  deriving DecidableEq

structure AttrDef where
  name : String
  single : Bool := false
  writable : Bool := false
  requiredForAdd : Bool := false
  secret : Bool := false

def schema : List AttrDef :=
  [{ name := "uid", single := true, requiredForAdd := true },
   { name := "cn", single := true, writable := true, requiredForAdd := true },
   { name := "sn", single := true, writable := true, requiredForAdd := true },
   { name := "givenName", single := true, writable := true },
   { name := "displayName", single := true, writable := true },
   { name := "mail", single := true, writable := true },
   { name := "userPassword", single := true, writable := true, secret := true },
   { name := "memberOf" },
   { name := "objectClass" }]

def objectClasses : List String := ["top", "person", "organizationalPerson", "inetOrgPerson"]

def lookupAttr (name : String) : Option AttrDef := schema.find? fun a => asciiEqual a.name name

def canonicalAttr (name : String) : String := ((lookupAttr name).map AttrDef.name).getD name

structure NewEntry where
  username : String
  email : String := ""
  displayName : String := ""
  commonName : String := ""
  surname : String := ""
  givenName : String := ""
  password : String := ""

/-- One entry of a ModifyRequest; the operation is the number on the wire. -/
structure Change where
  op : ℤ
  attr : String
  values : List String := []

/-- What a whole ModifyRequest comes to: nothing, or the new value, for each column. -/
structure Update where
  email : Option String := none
  displayName : Option String := none
  commonName : Option String := none
  surname : Option String := none
  givenName : Option String := none
  password : Option String := none
  deriving DecidableEq

def Update.empty (u : Update) : Bool := u = {}

structure ModifyError where
  code : ℤ
  msg : String
  deriving DecidableEq

def resultSuccess : ℤ := 0
def resultProtocolError : ℤ := 2
def resultTimeLimitExceeded : ℤ := 3
def resultAuthMethodNotSupported : ℤ := 7
def resultNoSuchAttribute : ℤ := 16
def resultUndefinedAttributeType : ℤ := 17
def resultConstraintViolation : ℤ := 19
def resultAttributeOrValueExists : ℤ := 20
def resultNoSuchObject : ℤ := 32
def resultInvalidDNSyntax : ℤ := 34
def resultInvalidCredentials : ℤ := 49
def resultInsufficientAccess : ℤ := 50
def resultBusy : ℤ := 51
def resultUnwillingToPerform : ℤ := 53
def resultNamingViolation : ℤ := 64
def resultObjectClassViolation : ℤ := 65
def resultNotAllowedOnNonLeaf : ℤ := 66
def resultNotAllowedOnRDN : ℤ := 67
def resultEntryAlreadyExists : ℤ := 68
def resultObjectClassModsProhibited : ℤ := 69
def resultOther : ℤ := 80

/-! ## Modify -/

def containsFold (list : List String) (v : String) : Bool := list.any fun s => asciiEqual s v

/-- `append(have[:idx], have[idx+1:]...)` at the first value equal up to case. -/
def removeFold (v : String) : List String → Option (List String)
  | [] => none
  | s :: rest => if asciiEqual s v then some rest else (removeFold v rest).map (s :: ·)

def addValues (name : String) : List String → List String → Except ModifyError (List String)
  | held, [] => .ok held
  | held, v :: vs =>
    if containsFold held v then
      .error ⟨resultAttributeOrValueExists, name ++ " already has the value " ++ quote v⟩
    else addValues name (held ++ [v]) vs

def deleteValues (name : String) : List String → List String → Except ModifyError (List String)
  | held, [] => .ok held
  | held, v :: vs =>
    match removeFold v held with
    | none => .error ⟨resultNoSuchAttribute, name ++ " does not have the value " ++ quote v⟩
    | some rest => deleteValues name rest vs

def changedValues (i : ℕ) (d : AttrDef) (held : List String) (ch : Change) :
    Except ModifyError (List String) :=
  if ch.op = 0 then
    if ch.values = [] then
      .error ⟨resultProtocolError, "change " ++ toString i ++ " adds no values to " ++ d.name⟩
    else do
      let after ← addValues d.name held ch.values
      if d.single && 1 < after.length then
        throw ⟨resultConstraintViolation, d.name ++ " is single-valued and this change would " ++
          "give it " ++ toString after.length ++ " values"⟩
      return after
  else if ch.op = 1 then if ch.values = [] then .ok [] else deleteValues d.name held ch.values
  else if ch.op = 2 then
    if d.single && 1 < ch.values.length then
      .error ⟨resultConstraintViolation, d.name ++ " is single-valued and the replacement " ++
        "lists " ++ toString ch.values.length ++ " values"⟩
    else .ok ch.values
  else
    .error ⟨resultProtocolError, "change " ++ toString i ++ " uses operation " ++ toString ch.op ++
      ", which is not add, delete or replace"⟩

def modifiable (i : ℕ) (ch : Change) : Except ModifyError AttrDef := match lookupAttr ch.attr with
  | none => .error ⟨resultUndefinedAttributeType, "change " ++ toString i ++ " names " ++
      quote ch.attr ++ ", which this directory does not define"⟩
  | some d =>
    if asciiEqual d.name "objectClass" then
      .error ⟨resultObjectClassModsProhibited,
        "the structural object class of an entry cannot be changed"⟩
    else if d.writable = false then
      if asciiEqual d.name "uid" then
        .error ⟨resultNotAllowedOnRDN, d.name ++ " forms this entry's RDN and cannot be " ++
          "changed by a modify; use modify DN (RFC 4511 section 4.9)"⟩
      else
        .error ⟨resultConstraintViolation, d.name ++ " is maintained by this server and " ++
          "cannot be written; it is derived from group membership"⟩
    else .ok d

/-- The working copy of the values and the attributes touched so far. -/
structure Working where
  values : String → List String
  touched : List String

def applyChange (i : ℕ) (w : Working) (ch : Change) : Except ModifyError Working := do
  let d ← modifiable i ch
  let after ← changedValues i d (w.values (toLower d.name)) ch
  return ⟨fun k => if k = toLower d.name then after else w.values k, toLower d.name :: w.touched⟩

def foldChanges : ℕ → Working → List Change → Except ModifyError Working
  | _, w, [] => .ok w
  | i, w, ch :: rest =>
    match applyChange i w ch with
    | .error e => .error e
    | .ok w' => foldChanges (i + 1) w' rest

def currentValues (e : Entry) (key : String) : List String :=
  ((e.attrs.find? fun a => toLower a.1 = key).map Prod.snd).getD []

def missingRequired (w : Working) : Option AttrDef :=
  schema.find? fun d => d.requiredForAdd && !d.secret && (w.values (toLower d.name)).isEmpty

def touchedValue (w : Working) (key : String) : Option String :=
  if key ∈ w.touched then some ((w.values key).headD "") else none

def applyChanges (current : Entry) (changes : List Change) : Except ModifyError Update :=
  if changes = [] then .error ⟨resultProtocolError, "the modify request lists no changes"⟩
  else do
    let w ← foldChanges 0 ⟨currentValues current, []⟩ changes
    match missingRequired w with
    | some d =>
      .error ⟨resultObjectClassViolation, "the entry would be left with no " ++ d.name ++
        ", which `person` makes a MUST attribute (RFC 4519 section 3.9)"⟩
    | none =>
      .ok { email := touchedValue w "mail", displayName := touchedValue w "displayname",
            commonName := touchedValue w "cn", surname := touchedValue w "sn",
            givenName := touchedValue w "givenname", password := touchedValue w "userpassword" }

/-! ## Add -/

def classesAcceptable (supplied : List String) : Bool :=
  supplied.all fun s => objectClasses.any fun ours => asciiEqual s ours

def validateNewEntry (e : NewEntry) (suppliedClasses : List String) : Except ModifyError Unit :=
  if e.username = "" then
    .error ⟨resultNamingViolation,
      "the entry has no uid, which is this directory's naming attribute"⟩
  else if e.commonName = "" then
    .error ⟨resultObjectClassViolation,
      "cn is required: `person` makes it a MUST attribute (RFC 4519 section 3.9)"⟩
  else if e.surname = "" then
    .error ⟨resultObjectClassViolation,
      "sn is required: `person` makes it a MUST attribute (RFC 4519 section 3.9)"⟩
  else if suppliedClasses ≠ [] ∧ classesAcceptable suppliedClasses = false then
    .error ⟨resultObjectClassViolation, "this directory stores `person` entries; the object " ++
      "classes it implements are " ++ join objectClasses ", "⟩
  else .ok ()

end Signari.LdapSchema
