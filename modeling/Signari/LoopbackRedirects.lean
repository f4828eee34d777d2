import Signari.GoUrls

/-!
# The loopback exception for redirect URIs

`HasRedirectURI`, `loopbackPortMatch` and `isLoopbackHost` of `clients.go`. Two URIs that are not
equal as strings match when both parse as http URIs on one loopback host with the same path, query
and fragment.

`spelling` is what the comparison leaves out, and the URIs without their ports are equal exactly
when it agrees.
-/
namespace Signari.LoopbackRedirects
open ByteCodecs GoUrls IndexedChecks List

def http : Bytes := textBytes "http"

def isLoopbackHost (h : Bytes) : Bool :=
  h == textBytes "127.0.0.1" || h == textBytes "::1" || h == textBytes "localhost"

def loopbackPortMatch (registered candidate : Bytes) : Bool :=
  match parse registered, parse candidate with
  | .ok a, .ok b =>
    if a.scheme != http || b.scheme != http then false
    else if !isLoopbackHost a.hostname || !isLoopbackHost b.hostname then false
    else if a.hostname != b.hostname then false
    else a.path == b.path && a.rawQuery == b.rawQuery && a.fragment == b.fragment
  | _, _ => false

def hasRedirectURI (redirectURIs : List Bytes) (candidate : Bytes) : Bool :=
  redirectURIs.any fun u => u == candidate || loopbackPortMatch u candidate

/-! ## URIs without their ports -/

def portless (authority : Bytes) : Bytes := match cutLastByte (ch '@') authority with
  | some (user, hostPort) => user ++ ch '@' :: cutPort hostPort
  | none => cutPort authority

/-- A URI with the port deleted, if it has one. -/
def withoutPort (raw : Bytes) : Bytes := match (pieces raw).authority with
  | some a => ({ pieces raw with authority := some (portless a) } : Pieces).bytes
  | none => raw

def IsLoopbackURI (raw : Bytes) : Prop :=
  ∃ u, parse raw = .ok u ∧ u.scheme = http ∧ isLoopbackHost u.hostname = true

/-- What the comparison does not look at: how scheme, path and fragment are spelled, the user
information and whether there is a query at all. -/
structure Spelling where
  scheme : Option Bytes
  userinfo : Option Bytes
  path : Bytes
  hasQuery : Bool
  fragment : Option Bytes
  deriving DecidableEq

def spelling (raw : Bytes) : Spelling where
  scheme := (pieces raw).scheme
  userinfo := (pieces raw).authority.bind fun a => (cutUserinfo a).1
  path := (pieces raw).path
  hasQuery := (pieces raw).query.isSome
  fragment := (pieces raw).fragment

/-! ## Hosts -/

/-- A host name as it stands in a URI. -/
def spelled (name : Bytes) : Bytes := if name = textBytes "::1" then textBytes "[::1]" else name

theorem isLoopbackHost_cases {n : Bytes} (h : isLoopbackHost n = true) :
    n = textBytes "127.0.0.1" ∨ n = textBytes "::1" ∨ n = textBytes "localhost" := by
  simpa [isLoopbackHost, or_assoc] using h

theorem zone_percent {s t : Bytes} (h : unescapeAddress s = .ok t) (ht : ch '%' ∉ t) :
    unescape .host s = .ok t := by
  have hzone : ∀ s a z, unescapeAddress.cutZone s = some (a, z) →
      ∃ rest, z = ch '%' :: ch '2' :: ch '5' :: rest := by
    intro s
    induction s with
    | nil =>
      intro a z h
      cases h
    | cons c cs ih =>
      intro a z h
      rw [unescapeAddress.cutZone] at h
      split_ifs at h with hp
      · cases h
        obtain ⟨rest, hrest⟩ := isPrefixOf_iff_prefix.mp hp
        exact ⟨rest, hrest.symm⟩
      · simp only [Option.map_eq_some_iff, Prod.mk.injEq] at h
        obtain ⟨p, hp, rfl, rfl⟩ := h
        exact ih p.1 p.2 hp
  unfold unescapeAddress at h
  cases hcut : unescapeAddress.cutZone s with
  | none => simpa only [hcut] using h
  | some p =>
    obtain ⟨a, z⟩ := p
    obtain ⟨rest, rfl⟩ := hzone s a z hcut
    simp only [hcut, bind_ok] at h
    obtain ⟨x, -, y, hy, h⟩ := h
    cases h
    refine absurd ?_ ht
    cases unescapes hy with
    | escape hhi hlo _ _ =>
      cases hhi
      cases hlo
      exact mem_append_right _ mem_cons_self
    | plain hc => exact absurd rfl hc

theorem parseHost_loopback {host : Bytes} {u : URL} (h : parseHost host = .ok u.host)
    (hn : isLoopbackHost u.hostname = true) :
    ∃ port, host = spelled u.hostname ++ port ∧ validOptionalPort port = true := by
  rcases parseHost_cases h with ⟨address, port, addr, rfl, hport, haddr, hvalid, hhost⟩ |
    ⟨name, port, t, rfl, hbracket, hcolon, hport, ht, hhost⟩
  · have hname := hostname_literal hhost hport
    rw [hname] at hn ⊢
    obtain rfl : addr = textBytes "::1" := by
      rcases isLoopbackHost_cases hn with rfl | rfl | rfl
      · exact absurd hvalid (by decide)
      · rfl
      · exact absurd hvalid (by decide)
    have haddress := host_eq (unescapes (zone_percent haddr (by decide)))
      (by decide +kernel)
    refine ⟨port, ?_, hport⟩
    rw [haddress]
    rfl
  · have hbracket' : ch '[' ∉ t := fun hmem =>
      hbracket (host_mem ht hmem (by decide) (by decide))
    have hcolon' : ch ':' ∉ t := fun hmem =>
      hcolon (host_mem ht hmem (by decide) (by decide))
    have hname := hostname_name hhost hbracket' hcolon' hport
    rw [hname] at hn ⊢
    refine ⟨port, ?_, hport⟩
    rcases isLoopbackHost_cases hn with rfl | rfl | rfl
    · rw [host_eq ht (by decide +kernel)]
      rfl
    · exact absurd hcolon' (by decide)
    · rw [host_eq ht (by decide +kernel)]
      rfl

theorem cutPort_spelled {n port : Bytes} (hn : isLoopbackHost n = true)
    (hport : validOptionalPort port = true) : cutPort (spelled n ++ port) = spelled n := by
  cases port with
  | nil =>
    rw [append_nil]
    rcases isLoopbackHost_cases hn with rfl | rfl | rfl <;> decide
  | cons c ds =>
    obtain rfl : c = ch ':' := by
      simp only [validOptionalPort, Bool.and_eq_true, beq_iff_eq] at hport
      exact hport.1
    exact cutPort_append hport

theorem parseHost_spelled {n : Bytes} (hn : isLoopbackHost n = true) :
    parseHost (spelled n) = .ok (spelled n) ∧ ({ host := spelled n } : URL).hostname = n := by
  rcases isLoopbackHost_cases hn with rfl | rfl | rfl <;> constructor <;> decide +kernel

/-! ## Authorities -/

/-- The user information with its delimiter. -/
def userPart : Option Bytes → Bytes
  | none => []
  | some user => user ++ [ch '@']

theorem userPart_injective : Function.Injective userPart := by
  intro a b h
  cases a <;> cases b <;> simp_all [userPart]

theorem authority_eq (a : Bytes) : a = userPart (cutUserinfo a).1 ++ (cutUserinfo a).2 := by
  unfold cutUserinfo
  cases h : cutLastByte (ch '@') a with
  | none => rfl
  | some p =>
    obtain ⟨user, hostPort⟩ := p
    rw [(cutLastByte_eq h).1]
    simp [userPart]

theorem portless_eq (a : Bytes) :
    portless a = userPart (cutUserinfo a).1 ++ cutPort (cutUserinfo a).2 := by
  unfold portless cutUserinfo
  cases cutLastByte (ch '@') a with
  | none => rfl
  | some p => simp [userPart]

theorem cutPort_subset {s : Bytes} {b : UInt8} (hb : b ∈ cutPort s) : b ∈ s := by
  unfold cutPort at hb
  cases h : cutLastByte (ch ':') s with
  | none => simpa only [h] using hb
  | some p =>
    obtain ⟨x, port⟩ := p
    simp only [h] at hb
    split_ifs at hb
    · rw [(cutLastByte_eq h).1]
      exact mem_append_left _ hb
    · exact hb

theorem portless_subset {a : Bytes} {b : UInt8} (hb : b ∈ portless a) : b ∈ a := by
  rw [portless_eq, mem_append] at hb
  rw [authority_eq a, mem_append]
  exact hb.imp_right cutPort_subset

theorem at_not_mem (a : Bytes) : ch '@' ∉ (cutUserinfo a).2 := by
  unfold cutUserinfo
  cases h : cutLastByte (ch '@') a with
  | none => exact cutLastByte_not_mem h
  | some p => exact (cutLastByte_eq h).2

theorem cutUserinfo_portless (a : Bytes) :
    cutUserinfo (portless a) = ((cutUserinfo a).1, cutPort (cutUserinfo a).2) := by
  have hat : ch '@' ∉ cutPort (cutUserinfo a).2 := fun hmem => at_not_mem a (cutPort_subset hmem)
  rw [portless_eq]
  cases (cutUserinfo a).1 with
  | none => rw [cutUserinfo, userPart, nil_append, cutLastByte_none hat]
  | some user =>
    rw [cutUserinfo, userPart, List.append_assoc, singleton_append, cutLastByte_append user hat]

theorem parseAuthority_host {a : Bytes} {user : Option Userinfo} {host : Bytes}
    (h : parseAuthority a = .ok (user, host)) : parseHost (cutUserinfo a).2 = .ok host := by
  rcases hcut : cutUserinfo a with ⟨us, hostPort⟩
  rw [parseAuthority, hcut] at h
  obtain ⟨host', hhost, h⟩ := bind_ok.mp h
  cases us with
  | none =>
    cases h
    exact hhost
  | some s =>
    obtain ⟨v, -, h⟩ := bind_ok.mp h
    cases h
    exact hhost

theorem parseAuthority_portless {a : Bytes} {user : Option Userinfo} {host host' : Bytes}
    (h : parseAuthority a = .ok (user, host))
    (hhost : parseHost (cutPort (cutUserinfo a).2) = .ok host') :
    parseAuthority (portless a) = .ok (user, host') := by
  rw [parseAuthority, cutUserinfo_portless]
  rcases hcut : cutUserinfo a with ⟨us, hostPort⟩
  rw [parseAuthority, hcut] at h
  rw [hcut] at hhost
  obtain ⟨old, -, h⟩ := bind_ok.mp h
  refine bind_ok.mpr ⟨host', hhost, ?_⟩
  cases us with
  | none =>
    cases h
    rfl
  | some s =>
    obtain ⟨v, hv, h⟩ := bind_ok.mp h
    cases h
    exact bind_ok.mpr ⟨v, hv, rfl⟩

/-! ## What matching URIs look like -/

/-- A URI that parses as one on a loopback host. -/
structure OnLoopback (raw : Bytes) (u : URL) (scheme authority : Bytes) : Prop where
  parsed : parse raw = .ok u
  http : u.scheme = http
  loopback : isLoopbackHost u.hostname = true
  parts : Delimited (pieces raw) scheme authority

section
variable {raw scheme authority : Bytes} {u : URL}

theorem onLoopback (hparsed : parse raw = .ok u) (hhttp : u.scheme = http)
    (hloopback : isLoopbackHost u.hostname = true) :
    ∃ scheme authority, OnLoopback raw u scheme authority := by
  have hscheme : u.scheme ≠ [] := by
    rw [hhttp]
    decide
  have hhost : u.host ≠ [] := by
    intro hnil
    have hname : u.hostname = [] := by
      rw [URL.hostname, hnil]
      rfl
    rw [hname] at hloopback
    exact absurd hloopback (by decide)
  obtain ⟨scheme, authority, hparts⟩ := parse_delimited hparsed hscheme hhost
  exact ⟨scheme, authority, hparsed, hhttp, hloopback, hparts⟩

theorem OnLoopback.decoded (h : OnLoopback raw u scheme authority) :
    (pieces raw).main.any isControl = false ∧ scheme.map lowerAscii = LoopbackRedirects.http ∧
      parseAuthority authority = .ok (u.user, u.host) ∧
      unescape .path (pieces raw).path = .ok u.path ∧
      unescape .fragment ((pieces raw).fragment.getD []) = .ok u.fragment ∧
      u.rawQuery = (pieces raw).query.getD [] := by
  obtain ⟨hcontrol, user, host, path, fragment, hauthority, hpath, hfragment, hu⟩ :=
    h.parts.parsePieces_ok.mp h.parsed
  have hhttp := h.http
  rw [hu] at hhttp ⊢
  exact ⟨hcontrol, hhttp, hauthority, hpath, hfragment, rfl⟩

theorem OnLoopback.cutPort (h : OnLoopback raw u scheme authority) :
    cutPort (cutUserinfo authority).2 = spelled u.hostname := by
  obtain ⟨-, -, hauthority, -, -, -⟩ := h.decoded
  obtain ⟨port, hhost, hport⟩ := parseHost_loopback (parseAuthority_host hauthority) h.loopback
  rw [hhost, cutPort_spelled h.loopback hport]

theorem OnLoopback.portless_eq (h : OnLoopback raw u scheme authority) :
    portless authority = userPart (cutUserinfo authority).1 ++ spelled u.hostname := by
  rw [LoopbackRedirects.portless_eq, h.cutPort]

theorem OnLoopback.withoutPort_eq (h : OnLoopback raw u scheme authority) :
    withoutPort raw =
      ({ pieces raw with authority := some (portless authority) } : Pieces).bytes := by
  rw [withoutPort, h.parts.hasAuthority]

/-- The URI without its port still has its other parts. -/
theorem OnLoopback.delimited (h : OnLoopback raw u scheme authority) :
    Delimited { pieces raw with authority := some (portless authority) } scheme
      (portless authority) := by
  have hquestion := h.parts.question
  have hhash := h.parts.hash
  rw [h.parts.main_eq] at hhash
  simp only [authorityPart, cons_append, mem_cons, mem_append, not_or] at hquestion hhash
  exact h.parts.replace (fun hb => h.parts.slash (portless_subset hb))
    (fun hb => hquestion.2.2.1 (portless_subset hb))
    (fun hb => hhash.2.2.2.1.1 (portless_subset hb))

theorem OnLoopback.pieces_withoutPort (h : OnLoopback raw u scheme authority) :
    pieces (withoutPort raw) = { pieces raw with authority := some (portless authority) } := by
  rw [h.withoutPort_eq, h.delimited.pieces]

theorem OnLoopback.isLoopbackURI (h : OnLoopback raw u scheme authority) :
    IsLoopbackURI (withoutPort raw) := by
  obtain ⟨hcontrol, hhttp, hauthority, hpath, hfragment, -⟩ := h.decoded
  obtain ⟨hhost, hname⟩ := parseHost_spelled h.loopback
  rw [← h.cutPort] at hhost
  have hparsed := parseAuthority_portless hauthority hhost
  rw [h.cutPort] at hparsed
  have hsafe : ({ pieces raw with authority := some (portless authority) } : Pieces).main.any
      isControl = false := by
    rw [any_eq_false] at hcontrol ⊢
    intro b hb
    refine hcontrol b ?_
    rw [h.delimited.main_eq] at hb
    rw [h.parts.main_eq]
    simp only [authorityPart, cons_append, mem_cons, mem_append] at hb ⊢
    have hsub : b ∈ portless authority → b ∈ authority := portless_subset
    grind
  refine ⟨{ scheme := scheme.map lowerAscii, user := u.user, host := spelled u.hostname,
            path := u.path, rawQuery := (pieces raw).query.getD [], fragment := u.fragment },
    ?_, hhttp, ?_⟩
  · rw [parse, h.pieces_withoutPort]
    exact h.delimited.parsePieces_ok.mpr
      ⟨hsafe, u.user, _, u.path, u.fragment, hparsed, hpath, hfragment, rfl⟩
  · change isLoopbackHost ({ host := spelled u.hostname } : URL).hostname = true
    rw [hname]
    exact h.loopback

theorem OnLoopback.withoutPort_eq_iff {raw' scheme' authority' : Bytes} {u' : URL}
    (h : OnLoopback raw u scheme authority) (h' : OnLoopback raw' u' scheme' authority')
    (hname : u.hostname = u'.hostname) (hquery : u.rawQuery = u'.rawQuery) :
    withoutPort raw = withoutPort raw' ↔ spelling raw = spelling raw' := by
  have huser : ∀ {r a s v}, OnLoopback r v s a → (spelling r).userinfo = (cutUserinfo a).1 := by
    intro r a s v h
    rw [spelling, h.parts.hasAuthority]
    rfl
  constructor
  · intro heq
    have hpieces := congrArg pieces heq
    rw [h.pieces_withoutPort, h'.pieces_withoutPort] at hpieces
    simp only [Pieces.mk.injEq, Option.some.injEq] at hpieces
    obtain ⟨hscheme, hportless, hpath, hq, hfragment⟩ := hpieces
    rw [h.portless_eq, h'.portless_eq, hname, append_cancel_right_eq] at hportless
    have hinfo : (spelling raw).userinfo = (spelling raw').userinfo := by
      rw [huser h, huser h', userPart_injective hportless]
    simp only [spelling, Spelling.mk.injEq] at hinfo ⊢
    exact ⟨hscheme, hinfo, hpath, by rw [hq], hfragment⟩
  · intro heq
    have hinfo := congrArg Spelling.userinfo heq
    rw [huser h, huser h'] at hinfo
    simp only [spelling, Spelling.mk.injEq] at heq
    obtain ⟨hscheme, -, hpath, hq, hfragment⟩ := heq
    obtain ⟨-, -, -, -, -, hraw⟩ := h.decoded
    obtain ⟨-, -, -, -, -, hraw'⟩ := h'.decoded
    have hqueries : (pieces raw).query = (pieces raw').query := by
      rw [hraw, hraw'] at hquery
      cases hx : (pieces raw).query <;> cases hy : (pieces raw').query <;> simp_all
    have hportless : portless authority = portless authority' := by
      rw [h.portless_eq, h'.portless_eq, hname, hinfo]
    rw [h.withoutPort_eq, h'.withoutPort_eq]
    refine congrArg Pieces.bytes ?_
    simp only [Pieces.mk.injEq]
    exact ⟨hscheme, congrArg some hportless, hpath, hqueries, hfragment⟩

end

theorem loopbackPortMatch_iff {registered candidate : Bytes} :
    loopbackPortMatch registered candidate = true ↔ ∃ a b,
      parse registered = .ok a ∧ parse candidate = .ok b ∧ a.scheme = http ∧ b.scheme = http ∧
      isLoopbackHost a.hostname = true ∧ isLoopbackHost b.hostname = true ∧
      a.hostname = b.hostname ∧ a.path = b.path ∧ a.rawQuery = b.rawQuery ∧
      a.fragment = b.fragment := by
  unfold loopbackPortMatch
  cases parse registered <;> cases parse candidate <;> simp [and_assoc]

/-- A candidate is accepted beside the registered URIs only through a match, and then the two
URIs without their ports are one loopback URI exactly when they are spelled alike. -/
theorem hasRedirectURI_loopback {redirectURIs : List Bytes} {candidate : Bytes}
    (h : hasRedirectURI redirectURIs candidate = true) (hne : candidate ∉ redirectURIs) :
    (∃ u ∈ redirectURIs, loopbackPortMatch u candidate = true) ∧
    ∀ u ∈ redirectURIs, loopbackPortMatch u candidate = true →
      ((withoutPort u = withoutPort candidate ∧ IsLoopbackURI (withoutPort u)) ↔
        spelling u = spelling candidate) := by
  constructor
  · obtain ⟨u, hu, hmatch⟩ := any_eq_true.mp h
    rcases Bool.or_eq_true_iff.mp hmatch with heq | hmatch
    · exact absurd (eq_of_beq heq ▸ hu) hne
    · exact ⟨u, hu, hmatch⟩
  · intro u _ hmatch
    obtain ⟨a, b, ha, hb, hahttp, hbhttp, haloop, hbloop, hname, -, hquery, -⟩ :=
      loopbackPortMatch_iff.mp hmatch
    obtain ⟨s, x, hu⟩ := onLoopback ha hahttp haloop
    obtain ⟨s', x', hc⟩ := onLoopback hb hbhttp hbloop
    rw [← hu.withoutPort_eq_iff hc hname hquery]
    exact and_iff_left_of_imp fun _ => hu.isLoopbackURI

/-- User information in the candidate is not looked at. -/
theorem candidate_with_userinfo :
    hasRedirectURI [textBytes "http://127.0.0.1:80/cb"] (textBytes "http://x@127.0.0.1:81/cb") =
      true ∧
    textBytes "http://x@127.0.0.1:81/cb" ∉ [textBytes "http://127.0.0.1:80/cb"] ∧
    ¬withoutPort (textBytes "http://127.0.0.1:80/cb") =
      withoutPort (textBytes "http://x@127.0.0.1:81/cb") := by
  decide +kernel

theorem hasRedirectURI_loopback_sample :
    withoutPort (textBytes "http://127.0.0.1:80/cb") =
      withoutPort (textBytes "http://127.0.0.1:81/cb") := by
  have h : hasRedirectURI [textBytes "http://127.0.0.1:80/cb"]
      (textBytes "http://127.0.0.1:81/cb") = true := by decide +kernel
  have hiff := (hasRedirectURI_loopback h (by decide)).2
    (textBytes "http://127.0.0.1:80/cb") mem_cons_self (by decide +kernel)
  exact (hiff.mpr (by decide)).1

end Signari.LoopbackRedirects
