import Signari.LdapSchema

/-!
# Requests off the wire

A message as the BER reader hands it over, and the reading of each request from it. A
packet keeps its tag, the value the reader decoded, if it decoded one, its raw contents and
its children; a request is read by position, from the value in one place and from the raw
contents in another.

Maps of attributes are lists in the order the request wrote them; the order in which a map
is ranged over decides at most which of several errors is reported.
-/
namespace Signari.LdapRequests
open GoStrings LdapSchema

/-- What the reader makes of a packet's contents, by the types the server asks for. -/
inductive Value where
  | int (n : ℤ)
  | str (s : String)
  | bool (b : Bool)
  | other

inductive Packet where
  | mk (tag : ℕ) (value : Value) (data : String) (children : List Packet)

def Packet.tag : Packet → ℕ
  | .mk tag _ _ _ => tag

def Packet.value : Packet → Value
  | .mk _ value _ _ => value

def Packet.data : Packet → String
  | .mk _ _ data _ => data

def Packet.children : Packet → List Packet
  | .mk _ _ _ children => children

def Value.int? : Value → Option ℤ
  | .int n => some n
  | _ => none

def Value.str? : Value → Option String
  | .str s => some s
  | _ => none

def Value.bool? : Value → Option Bool
  | .bool b => some b
  | _ => none

/-! ## Bind -/

structure BindRequest where
  version : ℤ
  dn : String
  password : String := ""
  simple : Bool := false

def decodeBind (op : Packet) : Except String BindRequest := match op.children with
  | version :: name :: auth :: _ =>
    match version.value.int? with
    | none => .error "bind version is not an integer"
    | some ver =>
      match name.value.str? with
      | none => .error "bind DN is not a string"
      | some dn =>
        if auth.tag ≠ 0 then .ok { version := ver, dn := dn }
        else .ok { version := ver, dn := dn, password := auth.data, simple := true }
  | fields => .error ("bind request has " ++ toString fields.length ++ " fields, expected 3")

/-! ## Search -/

/-- The filters the server understands; anything else is `unsupported`. -/
inductive Filter where
  | and (children : List Filter)
  | or (children : List Filter)
  | not (child : Filter)
  | equality (attr value : String)
  | present (attr : String)
  | unsupported

mutual

def decodeFilter : Packet → Filter
  | .mk tag _ data children =>
    if tag = 0 then .and (decodeFilters children)
    else if tag = 1 then .or (decodeFilters children)
    else if tag = 2 then match children with
      | [child] => .not (decodeFilter child)
      | _ => .unsupported
    else if tag = 3 then match children with
      | [attr, value] => .equality attr.data value.data
      | _ => .unsupported
    else if tag = 7 then .present data
    else .unsupported

def decodeFilters : List Packet → List Filter
  | [] => []
  | p :: ps => decodeFilter p :: decodeFilters ps

end

/-- `attrValues`: the values under the first name equal up to case. -/
def attrValues (e : Entry) (attr : String) : List String :=
  ((e.attrs.find? fun a => asciiEqual a.1 attr).map Prod.snd).getD []

mutual

def Filter.holds (e : Entry) : Filter → Bool
  | .and children => Filter.allHold e children
  | .or children => Filter.anyHolds e children
  | .not child => !Filter.holds e child
  | .equality attr value => (attrValues e attr).any fun v => asciiEqual v value
  | .present attr => 0 < (attrValues e attr).length
  | .unsupported => false

def Filter.allHold (e : Entry) : List Filter → Bool
  | [] => true
  | c :: cs => Filter.holds e c && Filter.allHold e cs

def Filter.anyHolds (e : Entry) : List Filter → Bool
  | [] => false
  | c :: cs => Filter.holds e c || Filter.anyHolds e cs

end

structure SearchRequest where
  baseDN : String
  scope : ℤ
  sizeLimit : ℤ
  timeLimit : ℤ
  typesOnly : Bool
  filter : Filter
  attrs : List String

def scopeBaseObject : ℤ := 0
def scopeSingleLevel : ℤ := 1
def scopeWholeSubtree : ℤ := 2

def decodeSearch (op : Packet) : Except String SearchRequest := match op.children with
  | base :: scope :: _ :: sizeLimit :: timeLimit :: typesOnly :: filter :: attrs :: _ =>
    .ok { baseDN := base.value.str?.getD ""
          scope := scope.value.int?.getD 0
          sizeLimit := sizeLimit.value.int?.getD 0
          timeLimit := timeLimit.value.int?.getD 0
          typesOnly := typesOnly.value.bool?.getD false
          filter := decodeFilter filter
          attrs := attrs.children.filterMap fun a => a.value.str? }
  | fields =>
    .error ("search request has " ++ toString fields.length ++ " fields, expected at least 8")

/-- Whether an attribute is asked for: `1.1` asks for none and `*` for all, read in order. -/
def attrRequested (name : String) : List String → Bool
  | [] => true
  | requested => scan requested
where
  scan : List String → Bool
    | [] => false
    | r :: rest =>
      if r = "1.1" then false
      else if r = "*" then true
      else if asciiEqual r name then true
      else scan rest

/-- `newSearchEntry`: the attributes asked for, without their values under `typesOnly`. -/
def newSearchEntry (e : Entry) (requested : List String) (typesOnly : Bool) : Entry :=
  { e with attrs := (e.attrs.filter fun a => attrRequested a.1 requested).map fun a =>
      (a.1, if typesOnly then [] else a.2) }

/-! ## Writes -/

structure AddRequest where
  dn : String
  attrs : List (String × List String)
  classes : List String

/-- `m[key] = append(m[key], vals...)`. -/
def appendValues (key : String) (vals : List String) :
    List (String × List String) → List (String × List String)
  | [] => [(key, vals)]
  | (k, held) :: rest =>
    if k = key then (k, held ++ vals) :: rest else (k, held) :: appendValues key vals rest

def addAttributes (req : AddRequest) : List Packet → Except String AddRequest
  | [] => .ok req
  | a :: rest =>
    match a.children with
    | name :: vals :: _ =>
      let vals := vals.children.map Packet.data
      if asciiEqual name.data "objectClass" then
        addAttributes { req with classes := req.classes ++ vals } rest
      else addAttributes { req with attrs := appendValues (toLower name.data) vals req.attrs } rest
    | fields =>
      .error ("an attribute in the add request has " ++ toString fields.length ++ " fields")

def decodeAdd (op : Packet) : Except String AddRequest := match op.children with
  | dn :: list :: _ =>
    addAttributes { dn := dn.value.str?.getD dn.data, attrs := [], classes := [] } list.children
  | fields => .error ("add request has " ++ toString fields.length ++ " fields, expected 2")

def decodeChange (ch : Packet) : Except String Change := match ch.children with
  | op :: mod :: _ =>
    match op.value.int? with
    | none => .error "a change operation is not an integer"
    | some opnum =>
      match mod.children with
      | [] => .error "a modification carries no attribute type"
      | [attr] => .ok { op := opnum, attr := attr.data }
      | attr :: vals :: _ =>
        .ok { op := opnum, attr := attr.data, values := vals.children.map Packet.data }
  | fields => .error ("a change has " ++ toString fields.length ++ " fields, expected 2")

def decodeModify (op : Packet) : Except String (String × List Change) := match op.children with
  | dn :: list :: _ => (list.children.mapM decodeChange).map (dn.value.str?.getD dn.data, ·)
  | fields => .error ("modify request has " ++ toString fields.length ++ " fields, expected 2")

structure ModifyDNRequest where
  dn : String
  newRDN : String
  deleteOldRDN : Bool
  newSuperior : Option String

def decodeModifyDN (op : Packet) : Except String ModifyDNRequest := match op.children with
  | dn :: newRDN :: deleteOld :: rest =>
    .ok { dn := dn.data
          newRDN := newRDN.data
          deleteOldRDN := deleteOld.value.bool?.getD
            (deleteOld.data.toList.head?.any fun c => c.toNat ≠ 0)
          newSuperior := rest.head?.map Packet.data }
  | fields =>
    .error ("modify DN request has " ++ toString fields.length ++ " fields, expected at least 3")

end Signari.LdapRequests
