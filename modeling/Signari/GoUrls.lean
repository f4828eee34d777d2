import Signari.ByteCodecs
import Signari.GoStrings
import Signari.IndexedChecks

/-!
# Go's `net/url`, on bytes

`url.Parse`, `Hostname` and `url.ParseQuery` as Go 1.26 has them. A text is first taken apart
at its delimiters, which loses nothing (`pieces_bytes`), and the pieces are then checked and
percent-decoded. The host in brackets has to be an IPv6 address, and a colon in another host
starts the port.

What `url.Parse` keeps and is not needed here is left out: the hints on the escaped spelling,
the opaque part and the mark of an empty query.
-/
namespace Signari.GoUrls
open ByteCodecs GoStrings IndexedChecks List

abbrev Bytes := List UInt8

/-- The byte of an ASCII character. -/
def ch (c : Char) : UInt8 := c.toNat.toUInt8

/-! ## Text -/

def runesFrom : ℕ → Bytes → List (Char × Bytes)
  | 0, _ => []
  | fuel + 1, bs =>
    if bs = [] then []
    else ((decodeRune bs).1, bs.take (decodeRune bs).2) ::
      runesFrom fuel (bs.drop (decodeRune bs).2)

def runes (bs : Bytes) : List (Char × Bytes) := runesFrom bs.length bs

/-- `strings.ToLower`. -/
def toLowerBytes (bs : Bytes) : Bytes :=
  (runes bs).flatMap fun r => String.utf8EncodeChar (lowerChar r.1)

/-- A rune of `strconv.Quote`; a byte that is no part of one is written in hexadecimal. -/
def quoteRune (r : Char × Bytes) : List Char :=
  match r.2 with
  | [b] =>
    if r.1 = Char.ofNat 0xFFFD then
      ['\\', 'x', hexDigit (b.toNat / 16), hexDigit (b.toNat % 16)]
    else quoteChar r.1
  | _ => quoteChar r.1

/-- `strconv.Quote`. -/
def quoteBytes (bs : Bytes) : String :=
  String.ofList ('"' :: (runes bs).flatMap quoteRune ++ ['"'])

/-- `strings.Cut` at a byte; the second part is `none` when the byte is absent. -/
def cut (b : UInt8) (s : Bytes) : Bytes × Option Bytes :=
  match cutByte b s with
  | some (x, y) => (x, some y)
  | none => (s, none)

/-- The text around the last occurrence of a byte. -/
def cutLastByte (b : UInt8) : Bytes → Option (Bytes × Bytes)
  | [] => none
  | c :: cs =>
    match cutLastByte b cs with
    | some (x, y) => some (c :: x, y)
    | none => if c = b then some ([], cs) else none

/-- What a cut took away: the byte and what stood behind it. -/
def marked (b : UInt8) : Option Bytes → Bytes
  | none => []
  | some t => b :: t

def isDigit (b : UInt8) : Bool := ch '0' ≤ b && b ≤ ch '9'

def isLetter (b : UInt8) : Bool :=
  (ch 'a' ≤ b && b ≤ ch 'z') || (ch 'A' ≤ b && b ≤ ch 'Z')

def unhex (b : UInt8) : Option ℕ :=
  if isDigit b then some (b.toNat - 48)
  else if ch 'a' ≤ b ∧ b ≤ ch 'f' then some (b.toNat - 87)
  else if ch 'A' ≤ b ∧ b ≤ ch 'F' then some (b.toNat - 55)
  else none

/-! ## Percent-decoding -/

inductive Encoding
  | path | host | zone | userPassword | queryComponent | fragment
  deriving DecidableEq

/-- The bytes that `shouldEscape` leaves alone in a host. -/
def hostByte (b : UInt8) : Bool :=
  isLetter b || isDigit b || (textBytes "-_.~!$&'()*+,;=:[]<>\"").contains b

/-- An escape that must not stand in the host: it may only give a byte past ASCII, or, in a
zone, one that could stand there itself; `%25` may stand in both. -/
def refusesEscape (mode : Encoding) (v : ℕ) : Bool :=
  match mode with
  | .host => v < 128 && v != 0x25
  | .zone => v != 0x25 && v != 0x20 && !hostByte v.toUInt8
  | _ => false

def escapeError (s : Bytes) : String := "invalid URL escape " ++ quoteBytes (s.take 3)

def unescape (mode : Encoding) : Bytes → Except String Bytes
  | [] => .ok []
  | c :: cs =>
    if c = ch '%' then
      match cs with
      | x :: y :: rest =>
        match unhex x, unhex y with
        | some hi, some lo =>
          if refusesEscape mode (16 * hi + lo) then .error (escapeError [c, x, y])
          else (unescape mode rest).map ((16 * hi + lo).toUInt8 :: ·)
        | _, _ => .error (escapeError (c :: x :: y :: rest))
      | _ => .error (escapeError (c :: cs))
    else if (mode = .host ∨ mode = .zone) ∧ c < 128 ∧ !hostByte c then
      .error ("invalid character " ++ quoteBytes [c] ++ " in host name")
    else if c = ch '+' ∧ mode = .queryComponent then (unescape mode cs).map (ch ' ' :: ·)
    else (unescape mode cs).map (c :: ·)

/-! ## Addresses -/

/-- A field of an IPv4 address: no leading zero, at most 255. -/
def validOctet (f : Bytes) : Bool :=
  f != [] && f.all isDigit && (f.length == 1 || f.head? != some (ch '0')) &&
    f.foldl (fun n b => 10 * n + (b.toNat - 48)) 0 ≤ 255

def validIPv4 (s : Bytes) : Bool :=
  (s.splitOn (ch '.')).length == 4 && (s.splitOn (ch '.')).all validOctet

def hexField (f : Bytes) : Bool := f != [] && f.length ≤ 4 && f.all fun b => (unhex b).isSome

/-- The number of two-byte fields between colons, the last of which may be an IPv4 address. -/
def fieldCount (s : Bytes) : Option ℕ :=
  let fs := s.splitOn (ch ':')
  if s = [] then some 0
  else if fs.all hexField then some fs.length
  else if fs.dropLast.all hexField && validIPv4 (fs.getLastD []) then some (fs.length + 1)
  else none

/-- The text around the first `::`. -/
def cutEllipsis : Bytes → Option (Bytes × Bytes)
  | [] => none
  | c :: cs =>
    if c = ch ':' ∧ cs.head? = some (ch ':') then some ([], cs.tail)
    else (cutEllipsis cs).map fun p => (c :: p.1, p.2)

/-- `netip.ParseAddr` accepts an IPv6 address. -/
def validIPv6 (addr : Bytes) : Bool :=
  let (s, zone) := cut (ch '%') addr
  zone != some [] &&
    match cutEllipsis s with
    | none => fieldCount s == some 8
    | some (x, y) =>
      (x == [] || (x.splitOn (ch ':')).all hexField) &&
        match fieldCount x, fieldCount y with
        | some m, some n => m + n < 8
        | _, _ => false

/-! ## Pieces of a URL -/

/-- A URI reference taken apart at its delimiters. -/
structure Pieces where
  scheme : Option Bytes
  authority : Option Bytes
  path : Bytes
  query : Option Bytes
  fragment : Option Bytes

/-- The scan of `getScheme`, up to the colon. -/
def scanScheme (first : Bool) : Bytes → Option (Bytes × Bytes)
  | [] => none
  | c :: cs =>
    if isLetter c ∨ !first ∧ (isDigit c ∨ (textBytes "+-.").contains c) then
      (scanScheme false cs).map fun p => (c :: p.1, p.2)
    else if c = ch ':' ∧ !first then some ([], cs)
    else none

/-- The scheme and what stands behind its colon. -/
def cutScheme (s : Bytes) : Option Bytes × Bytes :=
  match scanScheme true s with
  | some (scheme, rest) => (some scheme, rest)
  | none => (none, s)

/-- The authority behind two slashes; without a scheme a third slash makes them a path. -/
def cutAuthority (hasScheme : Bool) (s : Bytes) : Option Bytes × Bytes :=
  match s with
  | a :: b :: rest =>
    if a = ch '/' ∧ b = ch '/' ∧ (hasScheme ∨ rest.head? ≠ some (ch '/')) then
      (some (rest.takeWhile (· != ch '/')), rest.dropWhile (· != ch '/'))
    else (none, s)
  | _ => (none, s)

def pieces (raw : Bytes) : Pieces :=
  let (main, fragment) := cut (ch '#') raw
  let (scheme, rest) := cutScheme main
  let (rest, query) := cut (ch '?') rest
  let (authority, path) := cutAuthority scheme.isSome rest
  { scheme, authority, path, query, fragment }

def schemePart : Option Bytes → Bytes
  | none => []
  | some s => s ++ [ch ':']

def authorityPart : Option Bytes → Bytes
  | none => []
  | some a => ch '/' :: ch '/' :: a

/-- Everything in front of the fragment. -/
def Pieces.main (p : Pieces) : Bytes :=
  schemePart p.scheme ++ (authorityPart p.authority ++ p.path ++ marked (ch '?') p.query)

def Pieces.bytes (p : Pieces) : Bytes := p.main ++ marked (ch '#') p.fragment

/-! ## Parsing -/

structure Userinfo where
  username : Bytes
  password : Option Bytes
  deriving DecidableEq

structure URL where
  scheme : Bytes := []
  user : Option Userinfo := none
  host : Bytes := []
  path : Bytes := []
  rawQuery : Bytes := []
  fragment : Bytes := []
  deriving DecidableEq

/-- `IsAbs`. -/
def URL.isAbs (u : URL) : Bool := u.scheme != []

/-- A colon and digits, or nothing. -/
def validOptionalPort : Bytes → Bool
  | [] => true
  | c :: ds => c == ch ':' && ds.all isDigit

def cutPort (hostPort : Bytes) : Bytes :=
  match cutLastByte (ch ':') hostPort with
  | some (h, port) => if port.all isDigit then h else hostPort
  | none => hostPort

def URL.hostname (u : URL) : Bytes :=
  let host := cutPort u.host
  if host.head? = some (ch '[') ∧ host.getLast? = some (ch ']') then host.tail.dropLast else host

/-- The address of an IP literal, whose zone starts at `%25`. -/
def unescapeAddress (s : Bytes) : Except String Bytes :=
  match cutZone s with
  | some (addr, zone) => do return (← unescape .host addr) ++ (← unescape .zone zone)
  | none => unescape .host s
where
  cutZone : Bytes → Option (Bytes × Bytes)
    | [] => none
    | c :: cs =>
      if (textBytes "%25").isPrefixOf (c :: cs) then some ([], c :: cs)
      else (cutZone cs).map fun p => (c :: p.1, p.2)

def invalidPort (colonPort : Bytes) : String :=
  "invalid port " ++ quoteBytes colonPort ++ " after host"

def parseHost (host : Bytes) : Except String Bytes :=
  match cutLastByte (ch '[') host with
  | some (_ :: _, _) => .error "invalid IP-literal"
  | some ([], literal) =>
    match cutLastByte (ch ']') literal with
    | none => .error "missing ']' in host"
    | some (address, colonPort) =>
      if !validOptionalPort colonPort then .error (invalidPort colonPort)
      else do
        let port ← unescape .host colonPort
        let addr ← unescapeAddress address
        if !validIPv6 addr then .error "invalid host"
        else return ch '[' :: addr ++ ch ']' :: port
  | none =>
    match cut (ch ':') host with
    | (_, some port) =>
      if !port.all isDigit then .error (invalidPort (ch ':' :: port)) else unescape .host host
    | (_, none) => unescape .host host

def userinfoByte (b : UInt8) : Bool :=
  isLetter b || isDigit b || (textBytes "-._:~!$&'()*+,;=%@").contains b

def parseUserinfo (s : Bytes) : Except String Userinfo :=
  if !s.all userinfoByte then .error "net/url: invalid userinfo"
  else
    match cut (ch ':') s with
    | (name, none) => return ⟨← unescape .userPassword name, none⟩
    | (name, some password) =>
      return ⟨← unescape .userPassword name, some (← unescape .userPassword password)⟩

def cutUserinfo (authority : Bytes) : Option Bytes × Bytes :=
  match cutLastByte (ch '@') authority with
  | some (user, hostPort) => (some user, hostPort)
  | none => (none, authority)

def parseAuthority (authority : Bytes) : Except String (Option Userinfo × Bytes) := do
  let (user, hostPort) := cutUserinfo authority
  let host ← parseHost hostPort
  match user with
  | none => return (none, host)
  | some s => return (some (← parseUserinfo s), host)

def lowerAscii (b : UInt8) : UInt8 := if ch 'A' ≤ b ∧ b ≤ ch 'Z' then b + 32 else b

def isControl (b : UInt8) : Bool := b < 32 || b == 127

def parseRest (p : Pieces) : Except String URL :=
  let u : URL := { scheme := (p.scheme.getD []).map lowerAscii, rawQuery := p.query.getD [] }
  match p.authority with
  | some authority => do
      let (user, host) ← parseAuthority authority
      return { u with user := user, host := host, path := ← unescape .path p.path }
  | none =>
    if p.path.head? = some (ch '/') then do
      return { u with path := ← unescape .path p.path }
    else if p.scheme.isSome then .ok u
    else if (cut (ch '/') p.path).1.contains (ch ':') then
      .error "first path segment in URL cannot contain colon"
    else do return { u with path := ← unescape .path p.path }

/-- The URL of everything in front of the fragment. -/
def parseMain (p : Pieces) : Except String URL :=
  if p.main.any isControl then .error "net/url: invalid control character in URL"
  else if p.main = [ch '*'] then .ok { path := p.main }
  else if p.main.head? = some (ch ':') then .error "missing protocol scheme"
  else parseRest p

/-- The text of a `url.Error`. -/
def urlError (raw : Bytes) (reason : String) : String :=
  "parse " ++ quoteBytes raw ++ ": " ++ reason

def parsePieces (p : Pieces) : Except String URL := do
  let u ← (parseMain p).mapError (urlError p.main)
  match p.fragment with
  | none | some [] => return u
  | some f => return { u with fragment := ← (unescape .fragment f).mapError (urlError p.bytes) }

/-- `url.Parse`. -/
def parse (raw : Bytes) : Except String URL := parsePieces (pieces raw)

/-! ## Queries -/

def maxParams : ℕ := 10000

def parsePart (part : Bytes) : Except String (Option (Bytes × Bytes)) :=
  if part.contains (ch ';') then .error "invalid semicolon separator in query"
  else if part = [] then .ok none
  else do
    let (name, value) := cut (ch '=') part
    let name ← unescape .queryComponent name
    let value ← unescape .queryComponent (value.getD [])
    return some (name, value)

/-- `url.ParseQuery`, when it reports no error: the pairs in order. -/
def parseQuery (query : Bytes) : Except String (List (Bytes × Bytes)) :=
  let parts := query.splitOn (ch '&')
  if maxParams < parts.length then
    .error ("number of URL query parameters exceeded limit")
  else do return (← parts.mapM parsePart).reduceOption

/-! ## Lower case -/

theorem not_low (x : UInt8) : ¬x ||| 0x80 < 128 ∧ ¬x ||| 0xc0 < 128 ∧ ¬x ||| 0xe0 < 128 ∧
    ¬x ||| 0xf0 < 128 := by
  have hall : ∀ n < 256, ¬UInt8.ofNat n ||| 0x80 < 128 ∧ ¬UInt8.ofNat n ||| 0xc0 < 128 ∧
      ¬UInt8.ofNat n ||| 0xe0 < 128 ∧ ¬UInt8.ofNat n ||| 0xf0 < 128 := by decide +kernel
  simpa using hall x.toNat x.toNat_lt

theorem encode_ascii {c : Char} {b : UInt8} (hb : b ∈ String.utf8EncodeChar c) (hlow : b < 128) :
    String.utf8EncodeChar c = [b] := by
  obtain h | h | h | h := c.utf8Size_eq
  · rw [String.utf8EncodeChar_eq_singleton h] at hb ⊢
    rw [mem_singleton.mp hb]
  · rw [String.utf8EncodeChar_eq_cons_cons h] at hb
    simp only [mem_cons, not_mem_nil, or_false] at hb
    rcases hb with rfl | rfl
    · exact absurd hlow (not_low _).2.1
    · exact absurd hlow (not_low _).1
  · rw [String.utf8EncodeChar_eq_cons_cons_cons h] at hb
    simp only [mem_cons, not_mem_nil, or_false] at hb
    rcases hb with rfl | rfl | rfl
    · exact absurd hlow (not_low _).2.2.1
    · exact absurd hlow (not_low _).1
    · exact absurd hlow (not_low _).1
  · rw [String.utf8EncodeChar_eq_cons_cons_cons_cons h] at hb
    simp only [mem_cons, not_mem_nil, or_false] at hb
    rcases hb with rfl | rfl | rfl | rfl
    · exact absurd hlow (not_low _).2.2.2
    · exact absurd hlow (not_low _).1
    · exact absurd hlow (not_low _).1
    · exact absurd hlow (not_low _).1

theorem runesFrom_ascii {c : Char} {b : UInt8} (hc : String.utf8EncodeChar c = [b])
    (hlow : b < 128) {fuel : ℕ} {bs : Bytes} (hfuel : bs.length ≤ fuel) (hb : b ∈ bs) :
    c ∈ (runesFrom fuel bs).map Prod.fst := by
  induction fuel generalizing bs with
  | zero =>
    rw [length_eq_zero_iff.mp (Nat.le_zero.mp hfuel)] at hb
    cases hb
  | succ fuel ih =>
    have hne : bs ≠ [] := ne_nil_of_mem hb
    rw [runesFrom, if_neg hne, map_cons]
    have hpos := decodeRune_pos bs
    have hdrop : (bs.drop (decodeRune bs).2).length ≤ fuel := by
      rw [length_drop]
      omega
    rw [← take_append_drop (decodeRune bs).2 bs, mem_append] at hb
    rcases hb with hb | hb
    · refine mem_cons.mpr (.inl ?_)
      cases hdecode : bs.toByteArray.utf8DecodeChar? 0 with
      | some d =>
        obtain ⟨rest, hrest⟩ := ByteArray.exists_of_utf8DecodeChar?_eq_some hdecode
        obtain ⟨more, rfl⟩ : ∃ more, bs = String.utf8EncodeChar d ++ more := by
          have hlist := congrArg (fun bytes : ByteArray => bytes.data.toList) hrest
          exact ⟨rest.data.toList, by simpa using hlist⟩
        have hd := decodeRune_encode d more
        rw [hd, ← String.length_utf8EncodeChar, take_left] at hb
        have hc' := decodeRune_encode c more
        rw [hc, ← encode_ascii hb hlow, hd] at hc'
        rw [hd]
        exact (Prod.mk.inj hc').1.symm
      | none =>
        obtain ⟨x, xs, rfl⟩ := exists_cons_of_ne_nil hne
        have hone : (decodeRune (x :: xs)).2 = 1 := by rw [decodeRune, hdecode]
        rw [hone] at hb
        obtain rfl : b = x := by simpa using hb
        have hsome := decodeRune_encode c xs
        rw [hc] at hsome
        exact (Prod.mk.inj hsome).1.symm
    · exact mem_cons_of_mem _ (ih hdrop hb)

theorem mem_toLowerBytes {c : Char} {b : UInt8} {bs : Bytes}
    (hc : String.utf8EncodeChar c = [b]) (hlow : b < 128) (hsame : lowerChar c = c)
    (hb : b ∈ bs) : b ∈ toLowerBytes bs := by
  obtain ⟨r, hr, hrc⟩ := mem_map.mp (runesFrom_ascii hc hlow le_rfl hb)
  refine mem_flatMap.mpr ⟨r, hr, ?_⟩
  rw [hrc, hsame, hc]
  exact mem_cons_self

/-! ## Cuts -/

section
variable {b : UInt8} {s x y : Bytes}

theorem cut_cons (c : UInt8) (cs : Bytes) :
    cut b (c :: cs) = if c = b then ([], some cs) else (c :: (cut b cs).1, (cut b cs).2) := by
  by_cases h : c = b
  · simp [cut, cutByte, h]
  · cases hcut : cutByte b cs <;> simp [cut, cutByte, h, hcut]

/-- A cut loses nothing. -/
theorem cut_eq (b : UInt8) (s : Bytes) : (cut b s).1 ++ marked b (cut b s).2 = s := by
  induction s with
  | nil => rfl
  | cons c cs ih =>
    rw [cut_cons]
    split_ifs with h
    · simp [marked, h]
    · simpa using ih

theorem cut_not_mem (b : UInt8) (s : Bytes) : b ∉ (cut b s).1 := by
  induction s with
  | nil => simp [cut, cutByte]
  | cons c cs ih =>
    rw [cut_cons]
    split_ifs with h
    · simp
    · simpa [Ne.symm h] using ih

theorem cut_append (h : b ∉ x) (t : Option Bytes) : cut b (x ++ marked b t) = (x, t) := by
  induction x with
  | nil =>
    cases t with
    | none => rfl
    | some t => simp [marked, cut_cons]
  | cons c x ih =>
    obtain ⟨hc, hx⟩ := not_or.mp (mt mem_cons.mpr h)
    rw [cons_append, cut_cons, if_neg (Ne.symm hc), ih hx]

theorem cut_append_left (h : b ∉ x) (t : Bytes) :
    cut b (x ++ t) = (x ++ (cut b t).1, (cut b t).2) := by
  induction x with
  | nil => rfl
  | cons c x ih =>
    obtain ⟨hc, hx⟩ := not_or.mp (mt mem_cons.mpr h)
    rw [cons_append, cut_cons, if_neg (Ne.symm hc), ih hx]
    rfl

theorem splitOn_cut (b : UInt8) (s : Bytes) :
    s.splitOn b = (cut b s).1 :: ((cut b s).2.elim [] fun t => t.splitOn b) := by
  have hs := cut_eq b s
  have hmem := cut_not_mem b s
  have hfalse : ∀ c ∈ (cut b s).1, (c == b) = false := by
    intro c hc
    simpa using fun heq : c = b => hmem (heq ▸ hc)
  cases ht : (cut b s).2 with
  | none =>
    rw [ht, marked, append_nil] at hs
    rw [hs] at hfalse
    rw [splitOn_eq_splitOnP, splitOnP_eq_singleton hfalse, hs]
    rfl
  | some t =>
    rw [ht, marked] at hs
    rw [splitOn_eq_splitOnP]
    conv_lhs => rw [← hs]
    rw [splitOnP_append_cons_of_forall_mem hfalse b (by simp)]
    rfl

theorem cutLastByte_not_mem (h : cutLastByte b s = none) : b ∉ s := by
  induction s with
  | nil => simp
  | cons c cs ih =>
    rw [cutLastByte] at h
    cases hcut : cutLastByte b cs with
    | some p => simp [hcut] at h
    | none =>
      simp only [hcut, ite_eq_right_iff, reduceCtorEq, imp_false] at h
      simp [Ne.symm h, ih hcut]

theorem cutLastByte_eq (h : cutLastByte b s = some (x, y)) : s = x ++ b :: y ∧ b ∉ y := by
  induction s generalizing x with
  | nil => cases h
  | cons c cs ih =>
    rw [cutLastByte] at h
    cases hcut : cutLastByte b cs with
    | some p =>
      simp only [hcut, Option.some.injEq, Prod.mk.injEq] at h
      obtain ⟨rfl, rfl⟩ := h
      obtain ⟨rfl, hmem⟩ := ih hcut
      exact ⟨rfl, hmem⟩
    | none =>
      simp only [hcut, Option.ite_none_right_eq_some, Option.some.injEq, Prod.mk.injEq] at h
      obtain ⟨rfl, rfl, rfl⟩ := h
      exact ⟨rfl, cutLastByte_not_mem hcut⟩

theorem cutLastByte_none (h : b ∉ s) : cutLastByte b s = none := by
  cases hcut : cutLastByte b s with
  | none => rfl
  | some p =>
    obtain ⟨rfl, -⟩ := cutLastByte_eq hcut
    simp at h

theorem cutLastByte_append (x : Bytes) (h : b ∉ y) : cutLastByte b (x ++ b :: y) = some (x, y) := by
  induction x with
  | nil => simp [cutLastByte, cutLastByte_none h]
  | cons c x ih => simp [cutLastByte, ih]

theorem cutPort_append {h port : Bytes} (hport : validOptionalPort (ch ':' :: port) = true) :
    cutPort (h ++ ch ':' :: port) = h := by
  have hdigits : port.all isDigit = true := by simpa [validOptionalPort] using hport
  have hmem : ch ':' ∉ port := by
    intro hmem
    exact absurd (all_eq_true.mp hdigits _ hmem) (by decide)
  rw [cutPort, cutLastByte_append h hmem]
  simp [hdigits]

theorem cutPort_none (h : ch ':' ∉ s) : cutPort s = s := by
  rw [cutPort, cutLastByte_none h]

end

/-! ## Taking apart and putting together -/

section
variable {first : Bool} {s x y : Bytes}

theorem scanScheme_eq (h : scanScheme first s = some (x, y)) : s = x ++ ch ':' :: y := by
  induction s generalizing first x with
  | nil => cases h
  | cons c cs ih =>
    rw [scanScheme] at h
    split_ifs at h with hname hcolon
    · simp only [Option.map_eq_some_iff, Prod.mk.injEq] at h
      obtain ⟨p, hp, rfl, rfl⟩ := h
      rw [cons_append, ← ih hp]
    · cases h
      rw [hcolon.1]
      rfl

theorem scanScheme_append (h : scanScheme first s = some (x, y)) (t : Bytes) :
    scanScheme first (x ++ ch ':' :: t) = some (x, t) := by
  induction s generalizing first x with
  | nil => cases h
  | cons c cs ih =>
    rw [scanScheme] at h
    split_ifs at h with hname hcolon
    · simp only [Option.map_eq_some_iff, Prod.mk.injEq] at h
      obtain ⟨p, hp, rfl, rfl⟩ := h
      rw [cons_append, scanScheme, if_pos hname, ih hp]
      rfl
    · cases h
      rw [← hcolon.1, nil_append, scanScheme, if_neg hname, if_pos hcolon]

theorem cutScheme_eq (s : Bytes) : schemePart (cutScheme s).1 ++ (cutScheme s).2 = s := by
  unfold cutScheme
  cases h : scanScheme true s with
  | none => rfl
  | some p =>
    rw [scanScheme_eq h]
    simp [schemePart]

theorem cutAuthority_eq (hasScheme : Bool) (s : Bytes) :
    authorityPart (cutAuthority hasScheme s).1 ++ (cutAuthority hasScheme s).2 = s := by
  unfold cutAuthority
  split
  · rename_i a b rest
    split_ifs with h
    · obtain ⟨rfl, rfl, -⟩ := h
      simp [authorityPart, takeWhile_append_dropWhile]
    · rfl
  · rfl

theorem main_eq (raw : Bytes) : (pieces raw).main = (cut (ch '#') raw).1 := by
  rw [Pieces.main, pieces]
  simp only [← List.append_assoc]
  rw [List.append_assoc (schemePart _), cutAuthority_eq, List.append_assoc, cut_eq, cutScheme_eq]

/-- Taking a URL apart loses nothing. -/
theorem pieces_bytes (raw : Bytes) : (pieces raw).bytes = raw := by
  rw [Pieces.bytes, main_eq]
  exact cut_eq (ch '#') raw

theorem cutScheme_append {scheme rest : Bytes} (h : cutScheme s = (some scheme, rest))
    (t : Bytes) : cutScheme (schemePart (some scheme) ++ t) = (some scheme, t) := by
  unfold cutScheme at h
  cases hscan : scanScheme true s with
  | none => simp [hscan] at h
  | some p =>
    simp only [hscan, Prod.mk.injEq, Option.some.injEq] at h
    obtain ⟨rfl, rfl⟩ := h
    have happend : schemePart (some p.1) ++ t = p.1 ++ ch ':' :: t := by simp [schemePart]
    rw [happend, cutScheme, scanScheme_append hscan t]

theorem cutAuthority_path {hasScheme : Bool} {authority path : Bytes}
    (h : cutAuthority hasScheme s = (some authority, path)) :
    path = [] ∨ path.head? = some (ch '/') := by
  unfold cutAuthority at h
  split at h
  · rename_i c d rest
    split_ifs at h
    · simp only [Prod.mk.injEq] at h
      obtain ⟨-, rfl⟩ := h
      cases hdrop : rest.dropWhile (· != ch '/') with
      | nil => exact .inl rfl
      | cons e es =>
        have hhead := head?_dropWhile_not (· != ch '/') rest
        simp only [hdrop, head?_cons] at hhead
        exact .inr (by simpa using hhead)
    · cases h
  · cases h

theorem cutAuthority_not_mem {hasScheme : Bool} {authority path : Bytes}
    (h : cutAuthority hasScheme s = (some authority, path)) : ch '/' ∉ authority := by
  unfold cutAuthority at h
  split at h
  · split_ifs at h
    · simp only [Prod.mk.injEq, Option.some.injEq] at h
      obtain ⟨rfl, -⟩ := h
      intro hmem
      simpa using mem_takeWhile_imp hmem
    · cases h
  · cases h

theorem cutAuthority_append {a path : Bytes} (ha : ch '/' ∉ a)
    (hpath : path = [] ∨ path.head? = some (ch '/')) :
    cutAuthority true (authorityPart (some a) ++ path) = (some a, path) := by
  have hall : ∀ c ∈ a, (c != ch '/') = true := by
    intro c hc
    simpa using fun heq : c = ch '/' => ha (heq ▸ hc)
  have hstop : path.takeWhile (· != ch '/') = [] ∧ path.dropWhile (· != ch '/') = path := by
    cases path with
    | nil => simp
    | cons c cs =>
      obtain rfl : c = ch '/' := by simpa using hpath
      simp
  simp only [authorityPart, cons_append, cutAuthority, true_or, and_self, if_true,
    takeWhile_append_of_pos hall, dropWhile_append_of_pos hall, hstop, append_nil]

/-- The pieces of a URL with a scheme and an authority, none of which has a delimiter of the
next ones in it. -/
structure Delimited (p : Pieces) (scheme authority : Bytes) : Prop where
  hasScheme : p.scheme = some scheme
  hasAuthority : p.authority = some authority
  scan : ∀ t, cutScheme (schemePart (some scheme) ++ t) = (some scheme, t)
  slash : ch '/' ∉ authority
  question : ch '?' ∉ authorityPart (some authority) ++ p.path
  hash : ch '#' ∉ p.main
  path : p.path = [] ∨ p.path.head? = some (ch '/')

theorem delimited {raw scheme authority : Bytes} (hscheme : (pieces raw).scheme = some scheme)
    (hauthority : (pieces raw).authority = some authority) :
    Delimited (pieces raw) scheme authority := by
  obtain ⟨main, hmain⟩ : ∃ main, main = (cut (ch '#') raw).1 := ⟨_, rfl⟩
  obtain ⟨rest, hrest⟩ : ∃ rest, rest = (cut (ch '?') (cutScheme main).2).1 := ⟨_, rfl⟩
  have hcut : cutScheme main = (some scheme, (cutScheme main).2) := by
    rw [hmain, ← hscheme]
    rfl
  have hsome : (cutScheme main).1.isSome = true := by rw [hcut]; rfl
  have hpath : (pieces raw).path = (cutAuthority true rest).2 := by
    rw [← hsome, hrest, hmain]
    rfl
  have hauth : cutAuthority true rest = (some authority, (pieces raw).path) := by
    rw [hpath, ← hauthority, ← hsome, hrest, hmain]
    rfl
  have hwhole : authorityPart (some authority) ++ (pieces raw).path = rest := by
    have h := cutAuthority_eq true rest
    rwa [hauth] at h
  exact
    { hasScheme := hscheme
      hasAuthority := hauthority
      scan := cutScheme_append hcut
      slash := cutAuthority_not_mem hauth
      question := by
        rw [hwhole, hrest]
        exact cut_not_mem _ _
      hash := by
        rw [main_eq]
        exact cut_not_mem _ _
      path := cutAuthority_path hauth }

theorem Delimited.main_eq {p : Pieces} {scheme authority : Bytes}
    (h : Delimited p scheme authority) : p.main = schemePart (some scheme) ++
      (authorityPart (some authority) ++ p.path ++ marked (ch '?') p.query) := by
  rw [Pieces.main, h.hasScheme, h.hasAuthority]

theorem Delimited.pieces {p : Pieces} {scheme authority : Bytes}
    (h : Delimited p scheme authority) : pieces p.bytes = p := by
  obtain ⟨s, a, path, query, fragment⟩ := p
  obtain rfl : s = some scheme := h.hasScheme
  obtain rfl : a = some authority := h.hasAuthority
  have hmain := h.main_eq
  rw [GoUrls.pieces, Pieces.bytes, cut_append h.hash]
  simp only [hmain, h.scan, cut_append h.question, Option.isSome_some,
    cutAuthority_append h.slash h.path]

theorem Delimited.replace {p : Pieces} {scheme authority a : Bytes}
    (h : Delimited p scheme authority) (hslash : ch '/' ∉ a) (hquestion : ch '?' ∉ a)
    (hhash : ch '#' ∉ a) : Delimited { p with authority := some a } scheme a where
  hasScheme := h.hasScheme
  hasAuthority := rfl
  scan := h.scan
  slash := hslash
  question := by
    have hold := h.question
    simp only [authorityPart, cons_append, mem_cons, mem_append, not_or] at hold ⊢
    exact ⟨hold.1, hold.2.1, hquestion, hold.2.2.2⟩
  hash := by
    have hold := h.hash
    rw [h.main_eq] at hold
    simp only [Pieces.main, h.hasScheme, authorityPart, cons_append, mem_cons,
      mem_append, not_or] at hold ⊢
    exact ⟨hold.1, hold.2.1, hold.2.2.1, ⟨hhash, hold.2.2.2.1.2⟩, hold.2.2.2.2⟩
  path := h.path

end

/-! ## What is decoded -/

/-- The byte that a byte stands for outside an escape. -/
def plainByte (mode : Encoding) (c : UInt8) : UInt8 :=
  if c = ch '+' ∧ mode = .queryComponent then ch ' ' else c

/-- The texts and what they decode to. -/
inductive Unescapes (mode : Encoding) : Bytes → Bytes → Prop
  | nil : Unescapes mode [] []
  | escape {x y : UInt8} {hi lo : ℕ} {rest t : Bytes} :
      unhex x = some hi → unhex y = some lo → refusesEscape mode (16 * hi + lo) = false →
      Unescapes mode rest t →
      Unescapes mode (ch '%' :: x :: y :: rest) ((16 * hi + lo).toUInt8 :: t)
  | plain {c : UInt8} {cs t : Bytes} :
      c ≠ ch '%' → ¬((mode = .host ∨ mode = .zone) ∧ c < 128 ∧ !hostByte c) →
      Unescapes mode cs t → Unescapes mode (c :: cs) (plainByte mode c :: t)

section
variable {mode : Encoding} {s t x y : Bytes}

theorem Unescapes.unescape (h : Unescapes mode s t) : unescape mode s = .ok t := by
  induction h with
  | nil => rfl
  | escape hhi hlo hallowed _ ih =>
    simp [GoUrls.unescape, hhi, hlo, hallowed, ih, Except.map]
  | plain hc hallowed _ ih =>
    unfold GoUrls.unescape
    rw [if_neg hc, if_neg hallowed, plainByte, ih]
    split_ifs <;> rfl

theorem map_ok {α β ε : Type} {f : α → β} {r : Except ε α} {b : β} (h : r.map f = .ok b) :
    ∃ a, r = .ok a ∧ b = f a := by
  cases r with
  | error e => cases h
  | ok a => exact ⟨a, rfl, (Except.ok.inj h).symm⟩

theorem unescapes (h : unescape mode s = .ok t) : Unescapes mode s t := by
  fun_induction unescape mode s generalizing t with
  | case1 =>
    cases h
    exact .nil
  | case2 | case4 | case5 | case6 => cases h
  | case3 x y rest hi lo hlo hhi hallowed ih =>
    obtain ⟨t, ht, rfl⟩ := map_ok h
    exact .escape hhi hlo (by simpa using hallowed) (ih ht)
  | case7 c cs hc hallowed hplus ih | case8 c cs hc hallowed hplus ih =>
    obtain ⟨t, ht, rfl⟩ := map_ok h
    have hstep := Unescapes.plain hc hallowed (ih ht)
    simpa only [plainByte, hplus, and_self, if_true, if_false] using hstep

theorem unescape_ok_iff : unescape mode s = .ok t ↔ Unescapes mode s t :=
  ⟨unescapes, Unescapes.unescape⟩

theorem Unescapes.append {a b : Bytes} (h : Unescapes mode s a) (ht : Unescapes mode t b) :
    Unescapes mode (s ++ t) (a ++ b) := by
  induction h with
  | nil => exact ht
  | escape hhi hlo hallowed _ ih => exact .escape hhi hlo hallowed ih
  | plain hc hallowed _ ih => exact .plain hc hallowed ih

/-- A byte that no escape can reach over splits what is decoded. -/
theorem Unescapes.split {sep : UInt8} (hsep : unhex sep = none) (hpercent : sep ≠ ch '%')
    (h : Unescapes mode (x ++ sep :: y) t) :
    ∃ a b, Unescapes mode x a ∧ Unescapes mode y b ∧ t = a ++ plainByte mode sep :: b := by
  generalize hs : x ++ sep :: y = s at h
  induction h generalizing x with
  | nil => simp at hs
  | escape hhi hlo hallowed htail ih =>
    rcases x with _ | ⟨p, _ | ⟨q, _ | ⟨r, x⟩⟩⟩
    · simp only [nil_append, List.cons.injEq] at hs
      exact absurd hs.1 hpercent
    · simp only [cons_append, nil_append, List.cons.injEq] at hs
      rw [← hs.2.1, hsep] at hhi
      cases hhi
    · simp only [cons_append, nil_append, List.cons.injEq] at hs
      rw [← hs.2.2.1, hsep] at hlo
      cases hlo
    · simp only [cons_append, List.cons.injEq] at hs
      obtain ⟨rfl, rfl, rfl, hs⟩ := hs
      obtain ⟨a, b, ha, hb, rfl⟩ := ih hs
      exact ⟨_, b, .escape hhi hlo hallowed ha, hb, rfl⟩
  | plain hc hallowed htail ih =>
    rcases x with _ | ⟨p, x⟩
    · simp only [nil_append, List.cons.injEq] at hs
      obtain ⟨rfl, rfl⟩ := hs
      exact ⟨[], _, .nil, htail, rfl⟩
    · simp only [cons_append, List.cons.injEq] at hs
      obtain ⟨rfl, hs⟩ := hs
      obtain ⟨a, b, ha, hb, rfl⟩ := ih hs
      exact ⟨_, b, .plain hc hallowed ha, hb, rfl⟩

theorem Unescapes.fragment_of_query (h : Unescapes .queryComponent s t) (ht : ch ' ' ∉ t) :
    Unescapes .fragment s t := by
  induction h with
  | nil => exact .nil
  | escape hhi hlo _ _ ih =>
    exact .escape hhi hlo rfl (ih fun hmem => ht (mem_cons_of_mem _ hmem))
  | @plain c cs t hc _ _ ih =>
    have hplain : plainByte .queryComponent c = plainByte .fragment c := by
      by_cases hplus : c = ch '+'
      · exact absurd (by simp [plainByte, hplus]) ht
      · simp [plainByte, hplus]
    rw [hplain]
    exact .plain hc (by simp) (ih fun hmem => ht (mem_cons_of_mem _ hmem))

theorem query_plain (hpercent : ch '%' ∉ s) (hplus : ch '+' ∉ s) :
    Unescapes .queryComponent s s := by
  induction s with
  | nil => exact .nil
  | cons c cs ih =>
    obtain ⟨hc, hcs⟩ := not_or.mp (mt mem_cons.mpr hpercent)
    obtain ⟨hp, hps⟩ := not_or.mp (mt mem_cons.mpr hplus)
    have hstep : Unescapes .queryComponent (c :: cs) (plainByte .queryComponent c :: cs) :=
      .plain (Ne.symm hc) (by simp) (ih hcs hps)
    simpa only [plainByte, Ne.symm hp, false_and, if_false] using hstep

theorem Unescapes.unique (h : Unescapes mode s x) (h' : Unescapes mode s y) : x = y :=
  Except.ok.inj (h.unescape.symm.trans h'.unescape)

theorem plainByte_host (c : UInt8) : plainByte .host c = c := by simp [plainByte]

theorem escape_host {v : ℕ} (hv : v < 256) (h : refusesEscape .host v = false) :
    128 ≤ v.toUInt8 ∨ v.toUInt8 = ch '%' := by
  by_cases hlow : v < 128
  · have h25 : v = 0x25 := by simpa [refusesEscape, hlow] using h
    exact .inr (by rw [h25]; rfl)
  · refine .inl ?_
    rw [UInt8.le_iff_toNat_le, UInt8.toNat_ofNat', Nat.mod_eq_of_lt hv]
    exact not_lt.mp hlow

theorem unhex_lt {b : UInt8} {n : ℕ} (h : unhex b = some n) : n < 16 := by
  simp only [unhex, isDigit, Bool.and_eq_true, decide_eq_true_eq, UInt8.le_iff_toNat_le] at h
  split_ifs at h with hdigit hlower hupper
  · obtain rfl := Option.some.inj h
    have : (ch '9').toNat = 57 := rfl
    omega
  · obtain rfl := Option.some.inj h
    have : (ch 'f').toNat = 102 := rfl
    omega
  · obtain rfl := Option.some.inj h
    have : (ch 'F').toNat = 70 := rfl
    omega

theorem escape_lt {b c : UInt8} {hi lo : ℕ} (hhi : unhex b = some hi) (hlo : unhex c = some lo) :
    16 * hi + lo < 256 := by
  have := unhex_lt hhi
  have := unhex_lt hlo
  omega

theorem host_mem (h : Unescapes .host s t) {b : UInt8} (hb : b ∈ t) (hascii : b < 128)
    (hpercent : b ≠ ch '%') : b ∈ s := by
  induction h with
  | nil => exact hb
  | escape hhi hlo hallowed _ ih =>
    rcases mem_cons.mp hb with rfl | hb
    · rcases escape_host (escape_lt hhi hlo) hallowed with h128 | h25
      · exact absurd hascii (UInt8.not_lt.mpr h128)
      · exact absurd h25 hpercent
    · exact mem_cons_of_mem _ (mem_cons_of_mem _ (mem_cons_of_mem _ (ih hb)))
  | plain hc hallowed _ ih =>
    rw [plainByte_host] at hb
    rcases mem_cons.mp hb with rfl | hb
    · exact mem_cons_self
    · exact mem_cons_of_mem _ (ih hb)

theorem host_eq (h : Unescapes .host s t) (ht : ∀ b ∈ t, b < 128 ∧ b ≠ ch '%') : s = t := by
  induction h with
  | nil => rfl
  | escape hhi hlo hallowed _ ih =>
    obtain ⟨hascii, hpercent⟩ := ht _ mem_cons_self
    rcases escape_host (escape_lt hhi hlo) hallowed with h128 | h25
    · exact absurd hascii (UInt8.not_lt.mpr h128)
    · exact absurd h25 hpercent
  | plain hc hallowed _ ih =>
    rw [plainByte_host] at ht ⊢
    rw [ih fun b hb => ht b (mem_cons_of_mem _ hb)]

theorem host_plain (h : ∀ b ∈ s, b ≠ ch '%' ∧ hostByte b = true) : Unescapes .host s s := by
  induction s with
  | nil => exact .nil
  | cons c s ih =>
    obtain ⟨hc, hhost⟩ := h c mem_cons_self
    have hstep : Unescapes .host (c :: s) (plainByte .host c :: s) :=
      .plain hc (by simp [hhost]) (ih fun b hb => h b (mem_cons_of_mem _ hb))
    rwa [plainByte_host] at hstep

theorem digit_plain {b : UInt8} (h : isDigit b = true) : b ≠ ch '%' ∧ hostByte b = true := by
  constructor
  · rintro rfl
    exact absurd h (by decide)
  · simp [hostByte, h]

theorem port_unescapes {port : Bytes} (h : validOptionalPort port = true) :
    Unescapes .host port port := by
  refine host_plain fun b hb => ?_
  cases port with
  | nil => cases hb
  | cons c ds =>
    simp only [validOptionalPort, Bool.and_eq_true, beq_iff_eq, all_eq_true] at h
    obtain ⟨rfl, hds⟩ := h
    rcases mem_cons.mp hb with rfl | hb
    · decide +kernel
    · exact digit_plain (hds b hb)

theorem parseHost_cases {host H : Bytes} (h : parseHost host = .ok H) :
    (∃ address port addr, host = ch '[' :: address ++ ch ']' :: port ∧
      validOptionalPort port = true ∧ unescapeAddress address = .ok addr ∧
      validIPv6 addr = true ∧ H = ch '[' :: addr ++ ch ']' :: port) ∨
    ∃ name port t, host = name ++ port ∧ ch '[' ∉ name ∧ ch ':' ∉ name ∧
      validOptionalPort port = true ∧ Unescapes .host name t ∧ H = t ++ port := by
  unfold parseHost at h
  cases hopen : cutLastByte (ch '[') host with
  | some p =>
    obtain ⟨_ | ⟨c, cs⟩, literal⟩ := p
    · left
      obtain ⟨rfl, -⟩ := cutLastByte_eq hopen
      simp only [hopen] at h
      cases hclose : cutLastByte (ch ']') literal with
      | none => simp [hclose] at h
      | some q =>
        obtain ⟨address, port⟩ := q
        obtain ⟨rfl, -⟩ := cutLastByte_eq hclose
        simp only [hclose] at h
        by_cases hport : validOptionalPort port = true
        · simp only [hport, Bool.not_true, Bool.false_eq_true, if_false,
            (port_unescapes hport).unescape, bind, Except.bind] at h
          cases haddr : unescapeAddress address with
          | error e => simp [haddr] at h
          | ok addr =>
            simp only [haddr] at h
            by_cases hvalid : validIPv6 addr = true
            · simp only [hvalid, Bool.not_true, Bool.false_eq_true, if_false, pure,
                Except.pure, Except.ok.injEq] at h
              exact ⟨address, port, addr, rfl, hport, haddr, hvalid, h.symm⟩
            · simp [hvalid] at h
        · simp [hport] at h
    · simp [hopen] at h
  | none =>
    right
    simp only [hopen] at h
    have hname := cut_eq (ch ':') host
    have hcolon := cut_not_mem (ch ':') host
    have hbracket : ch '[' ∉ (cut (ch ':') host).1 := by
      intro hmem
      refine cutLastByte_not_mem hopen ?_
      rw [← hname]
      exact mem_append_left _ hmem
    cases hport : (cut (ch ':') host).2 with
    | none =>
      rw [hport, marked, append_nil] at hname
      have hcut : cut (ch ':') host = (host, none) := Prod.ext hname hport
      rw [hname] at hcolon hbracket
      simp only [hcut] at h
      exact ⟨host, [], H, by simp, hbracket, hcolon, rfl, unescapes h, by simp⟩
    | some port =>
      rw [hport] at hname
      have hcut : cut (ch ':') host = ((cut (ch ':') host).1, some port) :=
        Prod.ext rfl hport
      rw [hcut] at h
      by_cases hdigits : port.all isDigit = true
      · simp only [hdigits, Bool.not_true, Bool.false_eq_true, if_false] at h
        have hvalid : validOptionalPort (ch ':' :: port) = true := by
          simpa [validOptionalPort] using hdigits
        rw [← hname] at h
        obtain ⟨t, b, ht, hb, rfl⟩ := (unescapes h).split (by decide) (by decide)
        have hpart := port_unescapes hvalid
        have hsame := unescape_ok_iff.mpr hb
        refine ⟨_, ch ':' :: port, t, hname.symm, hbracket, hcolon, hvalid, ht, ?_⟩
        cases hpart with
        | plain _ _ htail =>
          rw [htail.unescape] at hsame
          rw [plainByte_host, Except.ok.inj hsame]
      · simp [hdigits] at h

theorem cutPort_brackets (addr : Bytes) :
    cutPort (ch '[' :: addr ++ [ch ']']) = ch '[' :: addr ++ [ch ']'] := by
  unfold cutPort
  cases hcolon : cutLastByte (ch ':') (ch '[' :: addr ++ [ch ']']) with
  | none => rfl
  | some p =>
    obtain ⟨h, ds⟩ := p
    have heq := (cutLastByte_eq hcolon).1
    have hnot : ¬ds.all isDigit = true := by
      intro hall
      rcases eq_nil_or_concat ds with rfl | ⟨es, e, rfl⟩
      · have hlast := append_inj_right' heq rfl
        exact absurd hlast (by decide)
      · rw [concat_eq_append, ← cons_append, ← List.append_assoc] at heq
        have hlast := append_inj_right' heq rfl
        obtain rfl := singleton_inj.mp hlast
        exact absurd (all_eq_true.mp hall (ch ']') (by simp)) (by decide)
    simp only [hnot, if_false, Bool.false_eq_true]

theorem hostname_literal {u : URL} {addr port : Bytes}
    (hhost : u.host = ch '[' :: addr ++ ch ']' :: port) (hport : validOptionalPort port = true) :
    u.hostname = addr := by
  have hcut : cutPort u.host = ch '[' :: addr ++ [ch ']'] := by
    rw [hhost]
    cases port with
    | nil => exact cutPort_brackets addr
    | cons c ds =>
      obtain rfl : c = ch ':' := by
        simp only [validOptionalPort, Bool.and_eq_true, beq_iff_eq] at hport
        exact hport.1
      have hsplit : ch '[' :: addr ++ ch ']' :: ch ':' :: ds =
          ch '[' :: addr ++ [ch ']'] ++ ch ':' :: ds := by simp
      rw [hsplit, cutPort_append hport]
  have hlast : (ch '[' :: addr ++ [ch ']']).getLast? = some (ch ']') := getLast?_concat
  rw [URL.hostname, hcut, if_pos ⟨rfl, hlast⟩, cons_append, tail_cons,
    dropLast_concat]

theorem hostname_name {u : URL} {name port : Bytes} (hhost : u.host = name ++ port)
    (hbracket : ch '[' ∉ name) (hcolon : ch ':' ∉ name) (hport : validOptionalPort port = true) :
    u.hostname = name := by
  have hcut : cutPort u.host = name := by
    rw [hhost]
    cases port with
    | nil => rw [append_nil, cutPort_none hcolon]
    | cons c ds =>
      obtain rfl : c = ch ':' := by
        simp only [validOptionalPort, Bool.and_eq_true, beq_iff_eq] at hport
        exact hport.1
      exact cutPort_append hport
  have hhead : name.head? ≠ some (ch '[') := fun h => hbracket (mem_of_mem_head? h)
  simp [URL.hostname, hcut, hhead]

end

/-! ## What is parsed -/

section
variable {p : Pieces} {u : URL} {raw scheme authority : Bytes}

theorem parsePieces_ok : parsePieces p = .ok u ↔ ∃ v fragment, parseMain p = .ok v ∧
    unescape .fragment (p.fragment.getD []) = .ok fragment ∧
    u = if p.fragment.getD [] = [] then v else { v with fragment := fragment } := by
  unfold parsePieces
  rw [bind_ok]
  simp only [mapError_ok]
  cases hf : p.fragment with
  | none => simp [unescape, pure, Except.pure, eq_comm]
  | some f =>
    cases f with
    | nil => simp [unescape, pure, Except.pure, eq_comm]
    | cons c cs =>
      simp only [bind_ok, mapError_ok, pure, Except.pure, Except.ok.injEq, Option.getD_some,
        reduceCtorEq, if_false]
      constructor
      · rintro ⟨v, hv, f, hf, rfl⟩
        exact ⟨v, f, hv, hf, rfl⟩
      · rintro ⟨v, f, hv, hf, rfl⟩
        exact ⟨v, hv, f, hf, rfl⟩

theorem parseRest_fields (h : parseRest p = .ok u) :
    u.scheme = (p.scheme.getD []).map lowerAscii ∧ u.rawQuery = p.query.getD [] ∧
      u.fragment = [] ∧ (p.authority = none → u.host = []) := by
  unfold parseRest at h
  cases hauthority : p.authority with
  | some a =>
    simp only [hauthority, bind_ok] at h
    obtain ⟨⟨user, host⟩, -, path, -, h⟩ := h
    cases h
    exact ⟨rfl, rfl, rfl, fun h => by cases h⟩
  | none =>
    simp only [hauthority] at h
    split_ifs at h with hslash hscheme hsegment
    · obtain ⟨path, -, h⟩ := bind_ok.mp h
      cases h
      exact ⟨rfl, rfl, rfl, fun _ => rfl⟩
    · cases h
      exact ⟨rfl, rfl, rfl, fun _ => rfl⟩
    · obtain ⟨path, -, h⟩ := bind_ok.mp h
      cases h
      exact ⟨rfl, rfl, rfl, fun _ => rfl⟩

theorem parseMain_rest (hstar : p.main ≠ [ch '*']) : parseMain p = .ok u ↔
    p.main.any isControl = false ∧ p.main.head? ≠ some (ch ':') ∧ parseRest p = .ok u := by
  unfold parseMain
  split_ifs with hcontrol hcolon <;> simp_all

theorem cutScheme_colon (t : Bytes) : cutScheme (ch ':' :: t) = (none, ch ':' :: t) := by
  rw [cutScheme, scanScheme, if_neg (by decide), if_neg (by decide)]

theorem Delimited.scheme_ne_nil (h : Delimited p scheme authority) : scheme ≠ [] := by
  rintro rfl
  exact absurd (h.scan []) (by decide)

theorem Delimited.parseMain_ok (h : Delimited p scheme authority) : parseMain p = .ok u ↔
    p.main.any isControl = false ∧ ∃ user host path,
      parseAuthority authority = .ok (user, host) ∧ unescape .path p.path = .ok path ∧
      u = { scheme := scheme.map lowerAscii, user, host, path, rawQuery := p.query.getD [] } := by
  have hmain := h.main_eq
  have hstar : p.main ≠ [ch '*'] := by
    intro heq
    have hlength := congrArg List.length (hmain.symm.trans heq)
    simp [schemePart, authorityPart] at hlength
    omega
  have hcolon : p.main.head? ≠ some (ch ':') := by
    obtain ⟨c, cs, hs⟩ := exists_cons_of_ne_nil h.scheme_ne_nil
    intro hhead
    rw [hmain, hs] at hhead
    obtain rfl : c = ch ':' := by simpa [schemePart] using hhead
    have hscan := h.scan []
    rw [hs, schemePart, cons_append, cons_append, cutScheme_colon] at hscan
    cases hscan
  rw [parseMain_rest hstar, parseRest, h.hasAuthority, h.hasScheme]
  simp only [bind_ok]
  constructor
  · rintro ⟨hcontrol, -, ⟨user, host⟩, hauthority, path, hpath, hu⟩
    exact ⟨hcontrol, user, host, path, hauthority, hpath, (Except.ok.inj hu).symm⟩
  · rintro ⟨hcontrol, user, host, path, hauthority, hpath, rfl⟩
    exact ⟨hcontrol, hcolon, (user, host), hauthority, path, hpath, rfl⟩

theorem Delimited.parsePieces_ok (h : Delimited p scheme authority) : parsePieces p = .ok u ↔
    p.main.any isControl = false ∧ ∃ user host path fragment,
      parseAuthority authority = .ok (user, host) ∧ unescape .path p.path = .ok path ∧
      unescape .fragment (p.fragment.getD []) = .ok fragment ∧
      u = { scheme := scheme.map lowerAscii, user, host, path, rawQuery := p.query.getD [],
            fragment } := by
  rw [GoUrls.parsePieces_ok]
  constructor
  · rintro ⟨v, fragment, hmain, hfragment, hu⟩
    obtain ⟨hcontrol, user, host, path, hauthority, hpath, rfl⟩ := h.parseMain_ok.mp hmain
    refine ⟨hcontrol, user, host, path, fragment, hauthority, hpath, hfragment, ?_⟩
    rw [hu]
    split_ifs with hnil
    · rw [hnil] at hfragment
      cases hfragment
      rfl
    · rfl
  · rintro ⟨hcontrol, user, host, path, fragment, hauthority, hpath, hfragment, rfl⟩
    refine ⟨_, fragment, h.parseMain_ok.mpr ⟨hcontrol, user, host, path, hauthority, hpath, rfl⟩,
      hfragment, ?_⟩
    split_ifs with hnil
    · rw [hnil] at hfragment
      cases hfragment
      rfl
    · rfl

theorem parse_delimited (h : parse raw = .ok u) (hscheme : u.scheme ≠ []) (hhost : u.host ≠ []) :
    ∃ scheme authority, Delimited (pieces raw) scheme authority := by
  obtain ⟨v, fragment, hmain, -, hu⟩ := parsePieces_ok.mp h
  have hvscheme : v.scheme ≠ [] := by
    rw [hu] at hscheme
    split_ifs at hscheme <;> exact hscheme
  have hvhost : v.host ≠ [] := by
    rw [hu] at hhost
    split_ifs at hhost <;> exact hhost
  have hstar : (pieces raw).main ≠ [ch '*'] := by
    intro hstar
    rw [parseMain, if_neg (by rw [hstar]; decide), if_pos hstar] at hmain
    cases hmain
    exact hvscheme rfl
  obtain ⟨hfield, -, -, hnone⟩ := parseRest_fields ((parseMain_rest hstar).mp hmain).2.2
  cases hs : (pieces raw).scheme with
  | none =>
    rw [hs] at hfield
    exact absurd hfield hvscheme
  | some scheme =>
    cases ha : (pieces raw).authority with
    | none => exact absurd (hnone ha) hvhost
    | some authority => exact ⟨scheme, authority, delimited hs ha⟩

end

end Signari.GoUrls
