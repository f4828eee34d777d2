import Signari.LdapAccounts
import Signari.LdapRequests

/-!
# Searching the directory

What a search is answered with: the entry each account is shown as, the names of entries, and
`entriesFor` over the accounts of the organisation, with `Lookup` and `List` as the queries compute
them.

The specification reads a DN as its relative names, each a type and a value without the
space around them, compared by the database's `lower`; the scope of a base is a relation
between two such lists. The code never compares a base with an entry: in a base search it
looks an account up by the base's first value, which a mail address answers as well, and in
any other it lists the first accounts up to the limit, filters these, and uses the base only
to refuse what lies outside the naming context. `Meets` says when that makes no difference.
-/
namespace Signari.LdapSearch
open GoStrings LdapSchema LdapRequests LdapAccounts List

structure Identity where
  username : String
  email : String
  displayName : String
  active : Bool
  groups : List String
  surname : String
  givenName : String
  deriving DecidableEq

structure Config where
  baseDN : String
  userAttr : String := ""
  allowAnonymousSearch : Bool := false
  maxResults : ℕ := 0
  writeGroup : String := ""

def Config.withDefaults (c : Config) : Config :=
  { c with
    userAttr := if c.userAttr = "" then "uid" else c.userAttr
    maxResults := if c.maxResults = 0 then 500 else c.maxResults }

/-- A server as it listens: startup refuses an empty base, `New` fills the defaults in, and
`writer` says whether `WithWriter` was called. -/
structure Listener extends Config where
  writer : Bool
  baseDN_ne : baseDN ≠ ""
  maxResults_pos : 0 < maxResults

def Listener.new (c : Config) (h : c.baseDN ≠ "") : Listener where
  toConfig := c.withDefaults
  writer := false
  baseDN_ne := h
  maxResults_pos := by
    simp only [Config.withDefaults]
    split_ifs <;> omega

/-- What the protocol asks of the store; `lookup` has no error to tell from no account. -/
structure Authenticator where
  lookup : String → Option Identity
  list : ℕ → Except String (List Identity)

/-! ## Names and entries -/

section
variable (l : Listener)

def dnFor (username : String) : String := l.userAttr ++ "=" ++ username ++ "," ++ l.baseDN

/-- The leading relative name of a DN and what follows its comma. -/
def cutRDN (dn : List Char) : List Char × List Char := (cutFirst dn ',').getD (dn, [])

def usernameFromDN (dn : String) : Except String String :=
  let dn := trimSpace dn
  if dn = "" then .error "empty DN"
  else
    let (first, rest) := cutRDN dn.toList
    match cutFirst first '=' with
    | none => .error "DN does not begin with attribute=value"
    | some (attr, value) =>
      if asciiEqual (trimSpace (String.ofList attr)) l.userAttr = false then
        .error ("DN begins with " ++ quote (String.ofList attr) ++ ", expected " ++
          quote l.userAttr)
      else if trimSpace (String.ofList value) = "" then
        .error ("DN has an empty " ++ l.userAttr)
      else if asciiEqual (trimSpace (String.ofList rest)) l.baseDN = false then
        .error ("DN is not under " ++ l.baseDN)
      else .ok (trimSpace (String.ofList value))

def underBase (dn : String) : Bool :=
  let dn := trimSpace dn
  asciiEqual dn l.baseDN || (',' :: (toLower l.baseDN).toList).isSuffixOf (toLower dn).toList

def firstNonEmpty (vals : List String) : String := (vals.find? (· ≠ "")).getD ""

def surnameFrom (displayName : String) : String := (fields displayName).getLastD ""

/-- `attrs[key] = vals`. -/
def setAttr (key : String) (vals : List String) :
    List (String × List String) → List (String × List String)
  | [] => [(key, vals)]
  | (k, held) :: rest =>
    if k = key then (k, vals) :: rest else (k, held) :: setAttr key vals rest

def setAttrIf (c : Bool) (key : String) (vals : List String)
    (attrs : List (String × List String)) : List (String × List String) :=
  if c then setAttr key vals attrs else attrs

def entryFor (id : Identity) : Entry where
  dn := dnFor l id.username
  attrs :=
    let attrs := setAttr "objectClass" objectClasses []
    let attrs := setAttr l.userAttr [id.username] attrs
    let attrs := setAttr "cn" [firstNonEmpty [id.displayName, id.username]] attrs
    let attrs := setAttr "sn"
      [firstNonEmpty [id.surname, surnameFrom id.displayName, id.username]] attrs
    let attrs := setAttrIf (id.email ≠ "") "mail" [id.email] attrs
    let attrs := setAttrIf (id.displayName ≠ "") "displayName" [id.displayName] attrs
    let attrs := setAttrIf (id.givenName ≠ "") "givenName" [id.givenName] attrs
    setAttrIf (id.groups ≠ []) "memberOf"
      (id.groups.map fun g => "cn=" ++ g ++ ",ou=groups," ++ l.baseDN) attrs

/-! ## The search -/

/-- The loop over the listed accounts; it stops when `limit` entries match. -/
def collect (filter : Filter) (limit : ℕ) : List Entry → List Identity → List Entry
  | out, [] => out
  | out, id :: rest =>
    if filter.holds (entryFor l id) then
      let out := out ++ [entryFor l id]
      if limit ≤ out.length then out else collect filter limit out rest
    else collect filter limit out rest

/-- The entry a base search finds: the account the base's first value names. -/
def baseEntry (a : Authenticator) (baseDN : String) : Option Entry :=
  match usernameFromDN l baseDN with
  | .error _ => none
  | .ok username => (a.lookup username).map (entryFor l)

def entriesFor (a : Authenticator) (req : SearchRequest) (limit : ℕ) :
    Except String (List Entry) :=
  if req.scope = scopeBaseObject then
    .ok ((baseEntry l a req.baseDN).filter fun e => req.filter.holds e).toList
  else do
    let users ← a.list limit
    return collect l req.filter limit [] users

structure LdapResult where
  app : ℕ
  code : ℤ
  matchedDN : String
  diagnostic : String

def searchDone (code : ℤ) (matchedDN diagnostic : String) : LdapResult :=
  ⟨5, code, matchedDN, diagnostic⟩

def rootDSE : Entry where
  dn := ""
  attrs := [("objectClass", ["top", "LDAProotDSE"]), ("namingContexts", [l.baseDN]),
    ("supportedLDAPVersion", ["3"]), ("vendorName", ["Signari"])]

def searchLimit (req : SearchRequest) : ℕ :=
  if 0 < req.sizeLimit ∧ req.sizeLimit < l.maxResults then req.sizeLimit.toNat else l.maxResults

/-- The entries a search is answered with and the result after them; `expired` says whether
the deadline the request set had passed when the store failed. -/
def search (a : Authenticator) (bound expired : Bool) (req : SearchRequest) :
    List Entry × LdapResult :=
  let view := fun e => newSearchEntry e req.attrs req.typesOnly
  if req.baseDN = "" ∧ req.scope = scopeBaseObject then
    ([view (rootDSE l)], searchDone resultSuccess "" "")
  else if bound = false ∧ l.allowAnonymousSearch = false then
    ([], searchDone resultInsufficientAccess ""
      "bind before searching; anonymous search is disabled")
  else if underBase l req.baseDN = false then
    ([], searchDone resultNoSuchObject l.baseDN "no such object")
  else
    match entriesFor l a req (searchLimit l req) with
    | .error _ =>
      if expired ∧ 0 < req.timeLimit then
        ([], searchDone resultTimeLimitExceeded "" "the search exceeded the requested timeLimit")
      else ([], searchDone resultOther "" "search failed")
    | .ok entries => (entries.map view, searchDone resultSuccess "" "")

end

/-! ## The accounts as a directory -/

section
variable {w : Writer} (d : Directory w) (groups : ℕ → List String)

/-- `COALESCE(NULLIF(username,''), email, id::text)`. -/
def identityName (u : User) : String :=
  (u.username.filter (· ≠ "")).getD (u.email.getD (toString u.id))

def identity (u : User) (groups : List String) : Identity where
  username := identityName u
  email := u.email.getD ""
  displayName :=
    if u.displayName.getD "" = "" then identityName u else u.displayName.getD ""
  active := u.status = .active
  groups := groups
  surname := u.surname.getD ""
  givenName := u.givenName.getD ""

def members : List User := d.users.filter fun u => u.org = w.orgID && u.status = .active

/-- `Lookup`: the groups are those of the first account that answers, whatever its status. -/
def lookup (username : String) : Option Identity :=
  ((members d).find? (answersTo w username)).map fun u =>
    identity u (((d.users.find? fun v => v.org = w.orgID && answersTo w username v).map
      fun v => groups v.id).getD [])

def list (limit : ℕ) : List Identity :=
  ((members d).take limit).map fun u => identity u (groups u.id)

def authenticator : Authenticator where
  lookup := lookup d groups
  list := fun limit => .ok (list d groups limit)

/-- Every entry of the directory, in the order of `List`. -/
def directoryEntries (l : Listener) : List Entry :=
  (members d).map fun u => entryFor l (identity u (groups u.id))

end

/-! ## The scope of a base -/

/-- A relative name: its type and its value, if it has one. -/
def rdn (lower : String → String) (cs : List Char) : String × Option String :=
  match cutFirst cs '=' with
  | none => (lower (trimSpace (String.ofList cs)), none)
  | some (attr, value) =>
    (lower (trimSpace (String.ofList attr)), some (lower (trimSpace (String.ofList value))))

def rdns (lower : String → String) (dn : String) : List (String × Option String) :=
  (dn.toList.splitOn ',').map (rdn lower)

/-- The base itself, what is strictly below it, or what is weakly below it. -/
def InScope (lower : String → String) (scope : ℤ) (base dn : String) : Prop :=
  if scope = scopeBaseObject then rdns lower dn = rdns lower base
  else if scope = scopeSingleLevel then
    rdns lower base <:+ rdns lower dn ∧ rdns lower dn ≠ rdns lower base
  else rdns lower base <:+ rdns lower dn

instance (lower : String → String) (scope : ℤ) (base dn : String) :
    Decidable (InScope lower scope base dn) :=
  inferInstanceAs (Decidable (if scope = scopeBaseObject then _ else
    if scope = scopeSingleLevel then _ ∧ _ else _))

theorem rdns_dnFor (lower : String → String) (l : Listener) (username : String) :
    rdns lower (dnFor l username) =
      rdns lower (l.userAttr ++ "=" ++ username) ++ rdns lower l.baseDN := by
  have hchars : (dnFor l username).toList =
      (l.userAttr ++ "=" ++ username).toList ++ ',' :: l.baseDN.toList := by
    simp [dnFor]
  rw [rdns, hchars, splitOn_append_cons_self, map_append]
  rfl

/-- Every entry lies strictly below the naming context. -/
theorem inScope_root (lower : String → String) (l : Listener) {scope : ℤ}
    (hscope : scope ≠ scopeBaseObject) (username : String) :
    InScope lower scope l.baseDN (dnFor l username) := by
  have hsuffix : rdns lower l.baseDN <:+ rdns lower (dnFor l username) := by
    rw [rdns_dnFor]
    exact suffix_append _ _
  have hne : rdns lower (dnFor l username) ≠ rdns lower l.baseDN := by
    rw [rdns_dnFor]
    intro h
    have hnil := append_left_eq_self.mp h
    simp [rdns] at hnil
  rw [InScope, if_neg hscope]
  split_ifs
  · exact ⟨hsuffix, hne⟩
  · exact hsuffix

section
variable {w : Writer} (l : Listener) (d : Directory w) (groups : ℕ → List String)
variable (req : SearchRequest)

/-- The entries a search is about. -/
def wanted : List Entry :=
  (directoryEntries d groups l).filter fun e =>
    InScope w.lower req.scope req.baseDN e.dn && req.filter.holds e

def Exact (out : List Entry) : Prop :=
  out.Subperm (wanted l d groups req) ∧
    out.length = min (searchLimit l req) (wanted l d groups req).length

/-- An account as an entry, with the groups of another. -/
def shown (u v : User) : Entry := entryFor l (identity u (groups v.id))

/-- The accounts that answer to the name in the base's leading relative name: the first active
one, and the first of any status. -/
def Answer (u v : User) : Prop :=
  ∃ name, usernameFromDN l req.baseDN = .ok name ∧
    (members d).find? (answersTo w name) = some u ∧
    d.users.find? (fun v => v.org = w.orgID && answersTo w name v) = some v

/-- An active account that has the base for its DN and that the filter matches. -/
def Meant (u : User) : Prop :=
  u ∈ members d ∧ rdns w.lower (dnFor l (identityName u)) = rdns w.lower req.baseDN ∧
    req.filter.holds (shown l groups u u) = true

/-- In a base search: where the filter matches the account that answers, as it is shown, it is
shown as a meant account is, and as the only one if the limit leaves room for two; and where
an account is meant, the filter matches the one that answers. -/
structure BaseMeets : Prop where
  own : ∀ u v, Answer l d req u v → req.filter.holds (shown l groups u v) = true →
    ∃ x, Meant l d groups req x ∧ shown l groups x x = shown l groups u v
  alone : ∀ u v, Answer l d req u v → req.filter.holds (shown l groups u v) = true →
    searchLimit l req = 1 ∨ ∀ x y, Meant l d groups req x → Meant l d groups req y → x = y
  answers : ∀ x, Meant l d groups req x →
    ∃ u v, Answer l d req u v ∧ req.filter.holds (shown l groups u v) = true

/-- In any other search: of the first entries up to the limit, those the filter matches lie
in the scope of the base; and they all match, or no later entry that matches is in scope. -/
def ListMeets : Prop :=
  (∀ e ∈ (directoryEntries d groups l).take (searchLimit l req), req.filter.holds e = true →
    InScope w.lower req.scope req.baseDN e.dn) ∧
  ((∀ e ∈ (directoryEntries d groups l).take (searchLimit l req), req.filter.holds e = true) ∨
    ∀ e ∈ (directoryEntries d groups l).drop (searchLimit l req), req.filter.holds e = true →
      ¬InScope w.lower req.scope req.baseDN e.dn)

def Meets : Prop :=
  if req.scope = scopeBaseObject then BaseMeets l d groups req else ListMeets l d groups req

/-! ## Exact searches -/

theorem collect_eq {filter : Filter} {limit : ℕ} {out : List Entry} {ids : List Identity}
    (h : out.length + ids.length ≤ limit) :
    collect l filter limit out ids =
      out ++ (ids.map (entryFor l)).filter fun e => filter.holds e := by
  induction ids generalizing out with
  | nil => simp [collect]
  | cons id rest ih =>
    rw [length_cons] at h
    rw [collect, map_cons, filter_cons]
    by_cases hmatch : filter.holds (entryFor l id) = true
    · simp only [hmatch, if_true, length_append, length_singleton]
      split_ifs with hfull
      · obtain rfl : rest = [] := eq_nil_of_length_eq_zero (by omega)
        simp
      · rw [ih (by rw [length_append, length_singleton]; omega)]
        simp
    · rw [if_neg hmatch, if_neg hmatch]
      exact ih (by omega)

theorem searchLimit_pos : 0 < searchLimit l req := by
  unfold searchLimit
  split_ifs with h
  · omega
  · exact l.maxResults_pos

theorem mem_baseEntry {e : Entry} :
    e ∈ baseEntry l (authenticator d groups) req.baseDN ↔
      ∃ u v, Answer l d req u v ∧ shown l groups u v = e := by
  unfold baseEntry Answer
  cases hname : usernameFromDN l req.baseDN with
  | error cause => simp
  | ok name =>
    cases hu : (members d).find? (answersTo w name) with
    | none => simp [authenticator, lookup, hu]
    | some u =>
      have hmember : u.org = w.orgID ∧ u ∈ d.users := by
        have hmem := mem_filter.mp (mem_of_find?_eq_some hu)
        rw [Bool.and_eq_true, decide_eq_true_eq] at hmem
        exact ⟨hmem.2.1, hmem.1⟩
      cases hv : d.users.find? fun v => v.org = w.orgID && answersTo w name v with
      | none =>
        have hnone := find?_eq_none.mp hv u hmember.2
        simp [hmember.1, find?_some hu] at hnone
      | some v =>
        have hlookup : lookup d groups name = some (identity u (groups v.id)) := by
          simp [lookup, hu, hv]
        simp only [authenticator, hlookup, hu, hv, Option.map_some, Option.mem_some,
          Except.ok.injEq, exists_eq_left', Option.some.injEq]
        constructor
        · rintro rfl
          exact ⟨u, v, ⟨rfl, rfl⟩, rfl⟩
        · rintro ⟨_, _, ⟨rfl, rfl⟩, rfl⟩
          rfl

theorem entriesFor_base (a : Authenticator) (limit : ℕ) (h : req.scope = scopeBaseObject) :
    entriesFor l a req limit =
      .ok ((baseEntry l a req.baseDN).filter fun e => req.filter.holds e).toList := by
  rw [entriesFor, if_pos h]

theorem entriesFor_list (h : req.scope ≠ scopeBaseObject) :
    entriesFor l (authenticator d groups) req (searchLimit l req) =
      .ok (((directoryEntries d groups l).take (searchLimit l req)).filter
        fun e => req.filter.holds e) := by
  have hlen : ([] : List Entry).length + (list d groups (searchLimit l req)).length ≤
      searchLimit l req := by
    simp [list]
  rw [entriesFor, if_neg h]
  change Except.ok (collect l req.filter (searchLimit l req) []
    (list d groups (searchLimit l req))) = _
  rw [collect_eq l hlen, nil_append, list, map_map, map_take]
  rfl

theorem filter_take_subperm_iff {α : Type} {p q : α → Bool} {xs : List α} {n : ℕ} :
    ((xs.take n).filter p).Subperm (xs.filter fun x => q x && p x) ↔
      ∀ x ∈ xs.take n, p x = true → q x = true := by
  constructor
  · intro h x hx hp
    have hmem := h.subset (mem_filter.mpr ⟨hx, hp⟩)
    rw [mem_filter, Bool.and_eq_true] at hmem
    exact hmem.2.1
  · intro h
    have heq : (xs.take n).filter p = (xs.take n).filter fun x => q x && p x := by
      refine filter_congr fun x hx => ?_
      cases hp : p x with
      | false => simp
      | true => simp [h x hx hp]
    rw [heq]
    exact ((take_sublist n xs).filter _).subperm

/-- A limit applied before a filter: nothing is lost where what it keeps all matches or what
it drops does not. -/
theorem filter_take_exact_iff {α : Type} {p q : α → Bool} {xs : List α} {n : ℕ} :
    (((xs.take n).filter p).Subperm (xs.filter fun x => q x && p x) ∧
      ((xs.take n).filter p).length = min n (xs.filter fun x => q x && p x).length) ↔
    (∀ x ∈ xs.take n, p x = true → q x = true) ∧
      ((∀ x ∈ xs.take n, p x = true) ∨ ∀ x ∈ xs.drop n, p x = true → ¬q x = true) := by
  rw [filter_take_subperm_iff]
  refine and_congr_right fun h => ?_
  have hsplit : (xs.filter fun x => q x && p x).length =
      ((xs.take n).filter p).length + ((xs.drop n).filter fun x => q x && p x).length := by
    conv_lhs => rw [← take_append_drop n xs, filter_append, length_append]
    congr 2
    refine filter_congr fun x hx => ?_
    cases hp : p x with
    | false => simp
    | true => simp [h x hx hp]
  have hall : (∀ x ∈ xs.take n, p x = true) ↔
      ((xs.take n).filter p).length = (xs.take n).length := by
    rw [length_filter_eq_length_iff]
  have hnone : (∀ x ∈ xs.drop n, p x = true → ¬q x = true) ↔
      ((xs.drop n).filter fun x => q x && p x).length = 0 := by
    rw [length_eq_zero_iff, filter_eq_nil_iff]
    refine forall₂_congr fun x _ => ?_
    rw [Bool.and_eq_true, not_and, imp_not_comm]
  have hle : ((xs.take n).filter p).length ≤ (xs.take n).length := length_filter_le _ _
  have htake : (xs.take n).length = min n xs.length := length_take
  have hdrop : ((xs.drop n).filter fun x => q x && p x).length ≤ xs.length - n := by
    rw [← length_drop]
    exact length_filter_le _ _
  rw [hsplit, hall, hnone]
  omega

theorem mem_wanted {e : Entry} : e ∈ wanted l d groups req ↔ e ∈ directoryEntries d groups l ∧
    InScope w.lower req.scope req.baseDN e.dn ∧ req.filter.holds e = true := by
  rw [wanted, mem_filter, Bool.and_eq_true, decide_eq_true_eq]

theorem exact_list_iff : Exact l d groups req
    (((directoryEntries d groups l).take (searchLimit l req)).filter
      fun e => req.filter.holds e) ↔ ListMeets l d groups req := by
  rw [Exact, ListMeets, wanted, filter_take_exact_iff]
  simp only [decide_eq_true_eq]

theorem exact_nil_iff : Exact l d groups req [] ↔ wanted l d groups req = [] := by
  have hpos := searchLimit_pos l req
  rw [Exact, ← length_eq_zero_iff, length_nil]
  constructor
  · rintro ⟨-, h⟩
    omega
  · intro h
    exact ⟨nil_subperm, by omega⟩

theorem exact_singleton_iff {e : Entry} : Exact l d groups req [e] ↔
    e ∈ wanted l d groups req ∧
      (searchLimit l req = 1 ∨ (wanted l d groups req).length = 1) := by
  have hpos := searchLimit_pos l req
  rw [Exact, singleton_subperm_iff, length_singleton]
  refine and_congr_right fun h => ?_
  have hlen := length_pos_of_mem h
  omega

theorem length_le_one_iff {α : Type} {xs : List α} (h : xs.Nodup) :
    xs.length ≤ 1 ↔ ∀ x ∈ xs, ∀ y ∈ xs, x = y := by
  cases xs with
  | nil => simp
  | cons x xs =>
    cases xs with
    | nil => simp
    | cons y xs =>
      have hne : x ≠ y := fun heq => (nodup_cons.mp h).1 (heq ▸ mem_cons_self)
      refine iff_of_false (by simp) fun hall => hne (hall x mem_cons_self y ?_)
      exact mem_cons_of_mem x mem_cons_self

section

variable {l d groups req}

theorem mem_wanted_base (h : req.scope = scopeBaseObject) {e : Entry} :
    e ∈ wanted l d groups req ↔ ∃ x, Meant l d groups req x ∧ shown l groups x x = e := by
  simp only [mem_wanted, InScope, if_pos h, directoryEntries, mem_map, Meant]
  constructor
  · rintro ⟨⟨x, hx, rfl⟩, hdn, hmatch⟩
    exact ⟨x, ⟨hx, hdn, hmatch⟩, rfl⟩
  · rintro ⟨x, ⟨hx, hdn, hmatch⟩, rfl⟩
    exact ⟨⟨x, hx, rfl⟩, hdn, hmatch⟩

theorem length_wanted_le_one (h : req.scope = scopeBaseObject) :
    (wanted l d groups req).length ≤ 1 ↔
      ∀ x y, Meant l d groups req x → Meant l d groups req y → x = y := by
  let meant : List User := (members d).filter fun u =>
    rdns w.lower (dnFor l (identityName u)) = rdns w.lower req.baseDN &&
      req.filter.holds (shown l groups u u)
  have hmem (x : User) : x ∈ meant ↔ Meant l d groups req x := by simp [meant, Meant]
  have hlength : (wanted l d groups req).length = meant.length := by
    simp only [wanted, directoryEntries, filter_map, length_map, InScope, if_pos h]
    rfl
  have hnodup : meant.Nodup := ((d.ids.of_map User.id).filter _).filter _
  rw [hlength, length_le_one_iff hnodup]
  simp only [hmem]
  exact ⟨fun hall x y hx hy => hall x hx y hy, fun hall x hx y hy => hall x y hx hy⟩

theorem exact_base_iff (h : req.scope = scopeBaseObject) : Exact l d groups req
    ((baseEntry l (authenticator d groups) req.baseDN).filter
      fun e => req.filter.holds e).toList ↔ BaseMeets l d groups req := by
  have hanswer (e : Entry) := mem_baseEntry l d groups req (e := e)
  have hwanted (e : Entry) : e ∈ wanted l d groups req ↔ _ := mem_wanted_base h
  cases hbase : (baseEntry l (authenticator d groups) req.baseDN).filter
      fun e => req.filter.holds e with
  | none =>
    have hnone (u v : User) (huv : Answer l d req u v) :
        req.filter.holds (shown l groups u v) ≠ true := by
      rw [Option.filter_eq_none_iff] at hbase
      exact hbase _ ((hanswer _).mpr ⟨u, v, huv, rfl⟩)
    rw [Option.toList_none, exact_nil_iff, eq_nil_iff_forall_not_mem]
    constructor
    · intro hnil
      exact ⟨fun u v huv hm => absurd hm (hnone u v huv),
        fun u v huv hm => absurd hm (hnone u v huv),
        fun x hx => absurd ((hwanted _).mpr ⟨x, hx, rfl⟩) (hnil _)⟩
    · rintro hmeets e he
      obtain ⟨x, hx, -⟩ := (hwanted e).mp he
      obtain ⟨u, v, huv, hm⟩ := hmeets.answers x hx
      exact hnone u v huv hm
  | some e =>
    obtain ⟨hreached, hmatch⟩ := Option.filter_eq_some_iff.mp hbase
    obtain ⟨u, v, huv, rfl⟩ := (hanswer e).mp hreached
    have hsame (x y : User) (hxy : Answer l d req x y) :
        shown l groups x y = shown l groups u v :=
      Option.some.inj (((hanswer _).mpr ⟨x, y, hxy, rfl⟩).symm.trans hreached)
    rw [Option.toList_some, exact_singleton_iff, hwanted]
    constructor
    · rintro ⟨hown, halone⟩
      refine ⟨fun x y hxy _ => hsame x y hxy ▸ hown, fun x y _ _ => halone.imp id fun hone => ?_,
        fun x _ => ⟨u, v, huv, hmatch⟩⟩
      exact (length_wanted_le_one h).mp hone.le
    · intro hmeets
      have hown := hmeets.own u v huv hmatch
      refine ⟨hown, (hmeets.alone u v huv hmatch).imp id fun hone => ?_⟩
      have hpos := length_pos_of_mem ((hwanted _).mpr hown)
      have hle := (length_wanted_le_one h).mpr hone
      omega

end

theorem underBase_empty : underBase l "" = false := by
  have htrim : trimSpace "" = "" := rfl
  have hne : l.baseDN.toList ≠ [] := fun h => l.baseDN_ne (String.toList_inj.mp h)
  have hequal : asciiEqual "" l.baseDN = false := by
    cases hchars : l.baseDN.toList with
    | nil => exact (hne hchars).elim
    | cons c cs => simp [asciiEqual, hchars]
  simp [underBase, htrim, hequal, toLower]

theorem meets_root_iff (hbase : req.baseDN = l.baseDN) (hscope : req.scope ≠ scopeBaseObject) :
    Meets l d groups req ↔
      (∀ e ∈ (directoryEntries d groups l).take (searchLimit l req),
        req.filter.holds e = true) ∨
      ∀ e ∈ (directoryEntries d groups l).drop (searchLimit l req),
        req.filter.holds e = false := by
  have hin : ∀ e ∈ directoryEntries d groups l, InScope w.lower req.scope req.baseDN e.dn := by
    intro e he
    obtain ⟨u, -, rfl⟩ := mem_map.mp he
    rw [hbase]
    exact inScope_root w.lower l hscope _
  rw [Meets, if_neg hscope, ListMeets]
  constructor
  · rintro ⟨-, hall | hnone⟩
    · exact .inl hall
    · refine .inr fun e he => ?_
      rw [← Bool.not_eq_true]
      exact fun hmatch => hnone e he hmatch (hin e (mem_of_mem_drop he))
  · intro h
    refine ⟨fun e he _ => hin e (mem_of_mem_take he), h.imp id fun hnone e he hmatch => ?_⟩
    rw [hnone e he] at hmatch
    exact absurd hmatch (by decide)

end

def exampleListener : Listener :=
  .new { baseDN := "dc=example,dc=com" } (by decide)

def exampleAccounts : Directory exampleWriter where
  users := [⟨1, "acme", some "alice", some "alice@example.com", none, none, none, .active⟩,
    ⟨2, "acme", some "bob", none, none, none, none, .active⟩]
  ids := by decide
  usernames := by decide
  emails := by decide
  identified := by decide
  passwords := fun _ => none
  events := []

def exampleSearch (sizeLimit : ℤ) : SearchRequest where
  baseDN := "dc=example,dc=com"
  scope := scopeWholeSubtree
  sizeLimit := sizeLimit
  timeLimit := 0
  typesOnly := false
  filter := .equality "uid" "bob"
  attrs := []

end Signari.LdapSearch
