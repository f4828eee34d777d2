import Signari.ByteCodecs
import Signari.HashChains
import Signari.JsonValues

/-!
# The audit trail

`internal/audit`: the event, the row it is stored as, `Write` on the rows it can see, and the
two walks that verify a trail. A row keeps what PostgreSQL keeps, so a `uuid` column is its
sixteen bytes and prints in one spelling, whatever spelling was inserted, while `chainHash`
is taken by `Write` over the strings of the caller and by the walks over what is printed.

`jsonb` is an argument: its canonical text and what is read out of it.
-/
namespace Signari.AuditTrail
open GoStrings ByteCodecs HashChains JsonValues List

/-- The type `jsonb`: `canonical` is `raw::jsonb::text`, and a canonical text stays as it
is. `decode` scans a value into a Go map and `int64` truncates a scanned number. -/
structure Jsonb where
  canonical : String → Option String
  canonical_idem : ∀ {raw text : String}, canonical raw = some text → canonical text = some text
  decode : String → List (String × Json)
  int64 : Number → ℤ

/-! ## The type `uuid` -/

def hexValue (c : Char) : Option ℕ := if '0' ≤ c ∧ c ≤ '9' then some (c.toNat - 48)
  else if 'a' ≤ c ∧ c ≤ 'f' then some (c.toNat - 87)
  else if 'A' ≤ c ∧ c ≤ 'F' then some (c.toNat - 55)
  else none

def uuidBytes : ℕ → List Char → Option (List UInt8 × List Char)
  | 0, cs => some ([], cs)
  | n + 1, a :: b :: cs => do
      let hi ← hexValue a
      let lo ← hexValue b
      let (bytes, rest) ← uuidBytes n
        (if n % 2 = 0 ∧ 0 < n ∧ cs.head? = some '-' then cs.drop 1 else cs)
      return (UInt8.ofNat (16 * hi + lo) :: bytes, rest)
  | _ + 1, _ => none

/-- The input function of `uuid`: any case, optional braces and hyphens. -/
def uuidIn (s : String) : Option (List UInt8) :=
  if s.toList.head? = some '\x7b' then do
    let (bytes, rest) ← uuidBytes 16 (s.toList.drop 1)
    if rest = ['\x7d'] then some bytes else none
  else do
    let (bytes, rest) ← uuidBytes 16 s.toList
    if rest = [] then some bytes else none

def hexPair (b : UInt8) : List Char := [hexDigit (b.toNat / 16), hexDigit (b.toNat % 16)]

/-- The output function: lower case, with hyphens. -/
def uuidOut (bytes : List UInt8) : String :=
  String.ofList (bytes.zipIdx.flatMap fun p =>
    if p.2 ∈ [4, 6, 8, 10] then '-' :: hexPair p.1 else hexPair p.1)

example : (uuidIn "\x7bA0EEBC999C0B-4EF8BB6D-6BB9BD380A11\x7d").map uuidOut =
    some "a0eebc99-9c0b-4ef8-bb6d-6bb9bd380a11" := by decide

def nullIfEmpty (s : String) : Option String := if s = "" then none else some s

theorem nullIfEmpty_getD (s : String) : (nullIfEmpty s).getD "" = s := by
  unfold nullIfEmpty
  split_ifs with h
  · exact h.symm
  · rfl

/-- `$n::uuid` over `nullIfEmpty(s)`: the column, or no value the cast accepts. -/
def uuidColumn (s : String) : Option (Option (List UInt8)) := match nullIfEmpty s with
  | none => some none
  | some text => (uuidIn text).map some

/-- `COALESCE(column::text, '')`. -/
def uuidText (column : Option (List UInt8)) : String := (column.map uuidOut).getD ""

/-- A spelling that the database prints back. -/
def Canonical (s : String) : Prop := s = "" ∨ (uuidIn s).map uuidOut = some s

instance (s : String) : Decidable (Canonical s) := inferInstanceAs (Decidable (_ ∨ _))

theorem uuidText_of_canonical {s : String} {column : Option (List UInt8)}
    (hc : Canonical s) (h : uuidColumn s = some column) : uuidText column = s := by
  by_cases hs : s = ""
  · simp only [uuidColumn, nullIfEmpty, hs, if_true, Option.some.injEq] at h
    rw [← h, hs]
    rfl
  · simp only [uuidColumn, nullIfEmpty, hs, if_false, Option.map_eq_some_iff] at h
    obtain ⟨bytes, hb, rfl⟩ := h
    have hprint := hc.resolve_left hs
    rw [hb] at hprint
    exact Option.some.inj hprint

/-! ## Events and rows -/

structure Event where
  type : String
  orgID : String := ""
  subjectID : String := ""
  actorID : String := ""
  clientID : String := ""
  correlationID : String := ""
  retention : String := ""
  adminTokenID : String := ""
  detail : List (String × Json) := []

structure Row where
  id : ℤ
  occurredAt : ℤ
  eventType : String
  orgID : Option (List UInt8)
  subjectID : Option (List UInt8)
  actorID : Option (List UInt8)
  clientID : Option String
  correlationID : Option (List UInt8)
  retentionClass : String
  detail : String
  prevHash : List UInt8
  entryHash : List UInt8
  adminTokenID : Option (List UInt8)

/-- The event the walks scan a row into. -/
def Row.event (r : Row) : Event where
  type := r.eventType
  orgID := uuidText r.orgID
  subjectID := uuidText r.subjectID
  actorID := uuidText r.actorID
  clientID := r.clientID.getD ""
  correlationID := uuidText r.correlationID
  retention := r.retentionClass
  adminTokenID := uuidText r.adminTokenID

/-- The strings of an event that are hashed, each before a NUL. -/
def hashedFields (e : Event) : List String :=
  [e.type, e.orgID, e.subjectID, e.actorID, e.clientID, e.correlationID, e.retention] ++
    if e.adminTokenID ≠ "" then [e.adminTokenID] else []

def hashInput (prev : List UInt8) (e : Event) (detail : String) : List UInt8 :=
  prev ++ (terminated 0 ((hashedFields e).map textBytes) ++ textBytes detail)

def chainHash (prev : List UInt8) (e : Event) (detail : String) : List UInt8 :=
  sum256 (hashInput prev e detail)

/-- `ORDER BY id`. -/
def byId (rows : List Row) : List Row := rows.insertionSort fun a b => a.id ≤ b.id

/-! ## Write -/

inductive WriteError where
  | typeRequired
  | canonicalising
  | appending (type : String)

def WriteError.text : WriteError → String
  | .typeRequired => "audit: event type is required"
  | .canonicalising => "audit: canonicalising detail: "
  | .appending type => "audit: appending " ++ type ++ ": "

def classified (e : Event) : Event :=
  { e with retention := if e.retention = "" then "security" else e.retention }

/-- `SELECT entry_hash … ORDER BY id DESC LIMIT 1`. -/
def chainHead (rows : List Row) : List UInt8 := ((byId rows).getLast?.map Row.entryHash).getD []

/-- A `text` column takes any string without a NUL. -/
def textAccepted (s : String) : Bool := !(s.toList.contains '\x00')

/-- The `INSERT` with its casts and constraints. -/
def insertRow (jb : Jsonb) (id now : ℤ) (e : Event) (detail : String) (prev entry : List UInt8) :
    Option Row := do
  let orgID ← uuidColumn e.orgID
  let subjectID ← uuidColumn e.subjectID
  let actorID ← uuidColumn e.actorID
  let correlationID ← uuidColumn e.correlationID
  let adminTokenID ← uuidColumn e.adminTokenID
  let stored ← jb.canonical detail
  if textAccepted e.type && textAccepted e.clientID &&
      (e.retention = "security" || e.retention = "operational" || e.retention = "profile") then
    return {
      id := id, occurredAt := now, eventType := e.type, orgID := orgID, subjectID := subjectID,
      actorID := actorID, clientID := nullIfEmpty e.clientID,
      correlationID := correlationID, retentionClass := e.retention, detail := stored,
      prevHash := prev, entryHash := entry, adminTokenID := adminTokenID }
  else none

/-- `Write` over the rows its transaction sees; `id` and `now` are the column defaults. -/
def write (jb : Jsonb) (rows : List Row) (id now : ℤ) (e : Event) : Except WriteError Row :=
  if e.type = "" then .error .typeRequired
  else match jb.canonical (marshal (.obj e.detail)) with
    | none => .error .canonicalising
    | some detail =>
      match insertRow jb id now (classified e) detail (chainHead rows)
        (chainHash (chainHead rows) (classified e) detail) with
      | none => .error (.appending e.type)
      | some row => .ok row

/-! ## The walks -/

/-- The loop both walks share, from the hash the next row has to name. -/
def walk (expectedPrev : List UInt8) (checked : ℕ) : List Row → ℤ × ℕ
  | [] => (0, checked)
  | r :: rs =>
    if r.prevHash ≠ expectedPrev then (r.id, checked + 1)
    else if chainHash r.prevHash r.event r.detail ≠ r.entryHash then (r.id, checked + 1)
    else walk r.entryHash (checked + 1) rs

def verify (rows : List Row) : ℤ × ℕ := walk [] 0 (byId rows)

/-- The walk from an entry on, whose own link is adopted. -/
def verifyFrom (startID : ℤ) (rows : List Row) : ℤ × ℕ :=
  let segment := byId (rows.filter fun r => startID ≤ r.id)
  walk ((segment.head?.map Row.prevHash).getD []) 0 segment

def links : Links Row (List UInt8) where
  prev := Row.prevHash
  entry := Row.entryHash
  Sealed r := chainHash r.prevHash r.event r.detail = r.entryHash

theorem chained_cons {expected : List UInt8} {r : Row} {rs : List Row} :
    links.Chained expected (r :: rs) ↔ r.prevHash = expected ∧
      chainHash r.prevHash r.event r.detail = r.entryHash ∧ links.Chained r.entryHash rs :=
  Iff.rfl

theorem walk_of_chained {expected : List UInt8} {checked : ℕ} {rows : List Row}
    (h : links.Chained expected rows) :
    walk expected checked rows = (0, checked + rows.length) := by
  induction rows generalizing expected checked with
  | nil => rfl
  | cons r rs ih =>
    obtain ⟨hprev, hseal, hrest⟩ := chained_cons.mp h
    rw [walk, if_neg (not_not.mpr hprev), if_neg (not_not.mpr hseal), ih hrest]
    simp [Nat.add_comm, Nat.add_left_comm]

theorem walk_eq_zero {expected : List UInt8} {checked : ℕ} {rows : List Row}
    (hid : ∀ r ∈ rows, r.id ≠ 0) :
    (walk expected checked rows).1 = 0 ↔ links.Chained expected rows := by
  induction rows generalizing expected checked with
  | nil => simp [walk, Links.Chained]
  | cons r rs ih =>
    have hr := hid r mem_cons_self
    have hrs : (walk r.entryHash (checked + 1) rs).1 = 0 ↔ links.Chained r.entryHash rs :=
      ih fun q hq => hid q (mem_cons_of_mem _ hq)
    rw [walk, chained_cons]
    split_ifs with hprev hseal
    · simp [hr, hprev]
    · simp [hr, hseal]
    · rw [hrs]
      exact ⟨fun h => ⟨not_not.mp hprev, not_not.mp hseal, h⟩, fun h => h.2.2⟩

theorem byId_perm (rows : List Row) : (byId rows).Perm rows := perm_insertionSort _ _

theorem byId_of_sorted {rows : List Row} (h : rows.Pairwise fun a b => a.id < b.id) :
    byId rows = rows :=
  Pairwise.insertionSort_eq (h.imp fun hab => le_of_lt hab)

theorem chainHead_of_sorted {rows : List Row} (h : rows.Pairwise fun a b => a.id < b.id) :
    chainHead rows = links.last [] rows := by
  rw [chainHead, byId_of_sorted h, last_eq_getLast?]
  rfl

end Signari.AuditTrail
