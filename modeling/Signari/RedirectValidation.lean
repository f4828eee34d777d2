import Signari.ElementReads
import Signari.GoUrls
import Mathlib.Data.List.ReduceOption

/-!
# Validating redirect URIs

`ValidateRedirectURI` of `redirect.go`. The query and the fragment may not carry a parameter
that the authorization response appends. They are read with `url.ParseQuery`, and where it
reports an error nothing is checked: the comment there speaks of fragments that are no
parameters, but one bad escape or one semicolon anywhere also lets a query through whose other
parts carry such a parameter.

`Seeds` says of a text as it stands in the URI that one of its parts has a forbidden name. An
accepted URI has none exactly when what does not parse has none.
-/
namespace Signari.RedirectValidation
open ByteCodecs GoStrings GoUrls IndexedChecks ElementReads List

def forbiddenRedirectParams : List Bytes :=
  ["code", "id_token", "access_token", "token_type", "expires_in", "state", "scope", "iss",
    "error", "error_description", "error_uri", "session_state"].map textBytes

/-- The check of the query and of the fragment. Where several names are forbidden the source
reports any one of them. -/
def checkPart (name : String) (value : Bytes) : Except String Unit := if value = [] then .ok ()
  else match parseQuery value with
    | .error _ => .ok ()
    | .ok pairs =>
      match pairs.find? fun p => forbiddenRedirectParams.contains (toLowerBytes p.1) with
      | some p => .error ("a redirect URI must not carry " ++ quoteBytes p.1 ++ " in its " ++
          name ++ ": the authorization response appends that parameter, and a relying party " ++
          "that reads the first occurrence would read this one instead")
      | none => .ok ()

def validateRedirectURI (raw : Bytes) : Except String Unit := do
  refuseIf (raw = []) "a redirect URI is required"
  refuseIf (ch '*' ∈ raw) (quoteBytes raw ++ " contains a wildcard; redirect URIs are compared " ++
    "by exact string match (OAuth 2.1, RFC 9700 section 4.1.3), so register each URI in full")
  let u ← (parse raw).mapError ("that redirect URI does not parse: " ++ ·)
  refuseIf (!u.isAbs) (quoteBytes raw ++ " must be an absolute URI")
  refuseIf (u.scheme = textBytes "http" ∧ u.hostname ≠ textBytes "localhost" ∧
      u.hostname ≠ textBytes "127.0.0.1" ∧ u.hostname ≠ textBytes "::1")
    (quoteBytes raw ++ " uses http on a non-loopback host; the authorization code would cross " ++
      "the network in the clear. Use https, or http on a loopback address for local development")
  refuseIf (u.scheme ≠ textBytes "https" ∧ u.scheme ≠ textBytes "http" ∧ ch '.' ∉ u.scheme)
    (quoteBytes raw ++ " uses the " ++ quoteBytes u.scheme ++ " scheme; a redirect URI must be " ++
      "https, http on a loopback address, or a private-use scheme in reverse-domain form -- " ++
      "anything else hands the authorization code to whatever on the device claims that scheme")
  refuseIf u.user.isSome ("a redirect URI must not contain user information before the host: " ++
    "it reads as one host and resolves to another")
  checkPart "query" u.rawQuery
  checkPart "fragment" u.fragment

/-! ## Names in a query or a fragment -/

def Seeds (s : Bytes) : Prop :=
  ∃ part ∈ s.splitOn (ch '&'), ∃ name,
    unescape .queryComponent (cut (ch '=') part).1 = .ok name ∧
      toLowerBytes name ∈ forbiddenRedirectParams

/-- `url.ParseQuery` reports an error. -/
def Malformed (s : Bytes) : Prop := ∃ reason, parseQuery s = .error reason

def queryOf (raw : Bytes) : Bytes := (pieces raw).query.getD []

def fragmentOf (raw : Bytes) : Bytes := (pieces raw).fragment.getD []

/-- The fragment as `url.Parse` keeps it. -/
def decodedFragment (raw : Bytes) : Bytes := (unescape .fragment (fragmentOf raw)).toOption.getD []

theorem forbidden_words : ∀ w ∈ forbiddenRedirectParams,
    w ≠ [] ∧ ch '%' ∉ w ∧ ch '+' ∉ w ∧ ch ' ' ∉ w ∧ ch '&' ∉ w ∧ ch '=' ∉ w := by
  decide +kernel

theorem parseQuery_seeds {s : Bytes} {pairs : List (Bytes × Bytes)}
    (h : parseQuery s = .ok pairs) (hs : Seeds s) :
    ∃ p ∈ pairs, toLowerBytes p.1 ∈ forbiddenRedirectParams := by
  obtain ⟨part, hpart, name, hname, hforbidden⟩ := hs
  simp only [parseQuery] at h
  split_ifs at h
  obtain ⟨results, hresults, h⟩ := bind_ok.mp h
  cases h
  obtain ⟨r, hr, hparsed⟩ := mapM_mem hresults hpart
  rw [parsePart] at hparsed
  by_cases hsemicolon : part.contains (ch ';') = true
  · rw [if_pos hsemicolon] at hparsed
    cases hparsed
  by_cases hempty : part = []
  · rw [hempty] at hname
    cases hname
    exact absurd rfl (forbidden_words _ hforbidden).1
  · rw [if_neg hsemicolon, if_neg hempty] at hparsed
    obtain ⟨n, hn, hparsed⟩ := bind_ok.mp hparsed
    obtain ⟨v, -, hparsed⟩ := bind_ok.mp hparsed
    cases hname.symm.trans hn
    cases hparsed
    exact ⟨(name, v), reduceOption_mem_iff.mpr hr, hforbidden⟩

theorem checkPart_ok {name : String} {s : Bytes} (h : checkPart name s = .ok ()) (hs : Seeds s) :
    Malformed s := by
  unfold checkPart at h
  split_ifs at h with hempty
  · rw [hempty] at hs
    obtain ⟨part, hpart, n, hn, hforbidden⟩ := hs
    obtain rfl : part = [] := by simpa using hpart
    cases hn
    exact absurd rfl (forbidden_words _ hforbidden).1
  · cases hparse : parseQuery s with
    | error e => exact ⟨e, hparse⟩
    | ok pairs =>
      obtain ⟨p, hp, hforbidden⟩ := parseQuery_seeds hparse hs
      simp only [hparse] at h
      cases hfind : pairs.find? fun p => forbiddenRedirectParams.contains (toLowerBytes p.1) with
      | some q =>
        rw [hfind] at h
        cases h
      | none => exact absurd hforbidden (by simpa using find?_eq_none.mp hfind p hp)

/-! ## Names in the decoded fragment -/

theorem forbidden_plain {name : Bytes} (h : toLowerBytes name ∈ forbiddenRedirectParams) :
    ch '%' ∉ name ∧ ch '+' ∉ name ∧ ch ' ' ∉ name ∧ ch '&' ∉ name ∧ ch '=' ∉ name := by
  obtain ⟨-, h1, h2, h3, h4, h5⟩ := forbidden_words _ h
  have hkeep : ∀ c : Char, String.utf8EncodeChar c = [ch c] → ch c < 128 →
      GoStrings.lowerChar c = c → ch c ∉ toLowerBytes name → ch c ∉ name :=
    fun c hc hlow hsame hnot hmem => hnot (mem_toLowerBytes hc hlow hsame hmem)
  exact ⟨hkeep '%' (by decide) (by decide) (by decide) h1,
    hkeep '+' (by decide) (by decide) (by decide) h2,
    hkeep ' ' (by decide) (by decide) (by decide) h3,
    hkeep '&' (by decide) (by decide) (by decide) h4,
    hkeep '=' (by decide) (by decide) (by decide) h5⟩

theorem part_decoded {f d part : Bytes} (h : Unescapes .fragment f d)
    (hpart : part ∈ f.splitOn (ch '&')) : ∃ t, Unescapes .fragment part t ∧
      (cut (ch '&') t).1 ∈ d.splitOn (ch '&') := by
  induction hn : f.length using Nat.strong_induction_on generalizing f d with
  | _ n ih =>
    have hf := cut_eq (ch '&') f
    rw [splitOn_cut] at hpart
    cases hcut : (cut (ch '&') f).2 with
    | none =>
      rw [hcut, marked, append_nil] at hf
      rw [hcut, hf] at hpart
      obtain rfl : part = f := by simpa using hpart
      refine ⟨d, h, ?_⟩
      rw [splitOn_cut]
      exact mem_cons_self
    | some rest =>
      rw [hcut, marked] at hf
      rw [hcut, Option.elim_some] at hpart
      rw [← hf] at h
      obtain ⟨a, b, ha, hb, rfl⟩ := h.split (by decide) (by decide)
      have hsplit : (a ++ plainByte .fragment (ch '&') :: b).splitOn (ch '&') =
          a.splitOn (ch '&') ++ b.splitOn (ch '&') := by
        rw [splitOn_eq_splitOnP, splitOnP_append_cons _ _ (by decide)]
        rfl
      rw [hsplit]
      rcases mem_cons.mp hpart with rfl | hpart
      · refine ⟨a, ha, mem_append_left _ ?_⟩
        rw [splitOn_cut]
        exact mem_cons_self
      · have hless : rest.length < n := by
          rw [← hn, ← hf, length_append, length_cons]
          omega
        obtain ⟨t, ht, hmem⟩ := ih _ hless hb hpart rfl
        exact ⟨t, ht, mem_append_right _ hmem⟩

theorem seeds_decoded {f d : Bytes} (h : Unescapes .fragment f d) (hs : Seeds f) : Seeds d := by
  obtain ⟨part, hpart, name, hname, hforbidden⟩ := hs
  obtain ⟨hpercent, hplus, hspace, hand, heq⟩ := forbidden_plain hforbidden
  obtain ⟨t, ht, hmem⟩ := part_decoded h hpart
  have hsame := (unescapes hname).fragment_of_query hspace
  obtain ⟨value, rfl⟩ : ∃ value, t = name ++ marked (ch '=') value := by
    have hp := cut_eq (ch '=') part
    cases hvalue : (cut (ch '=') part).2 with
    | none =>
      rw [hvalue, marked, append_nil] at hp
      rw [hp] at hsame
      exact ⟨none, by rw [ht.unique hsame, marked, append_nil]⟩
    | some v =>
      rw [hvalue, marked] at hp
      rw [← hp] at ht
      obtain ⟨a, b, ha, -, rfl⟩ := ht.split (by decide) (by decide)
      exact ⟨some b, by rw [ha.unique hsame]; rfl⟩
  refine ⟨_, hmem, name, ?_, hforbidden⟩
  rw [cut_append_left hand]
  have hcut : (cut (ch '&') (marked (ch '=') value)).1 =
      marked (ch '=') (value.map fun v => (cut (ch '&') v).1) := by
    cases value with
    | none => rfl
    | some v =>
      rw [marked, cut_cons, if_neg (by decide)]
      rfl
  rw [hcut, cut_append heq]
  exact (query_plain hpercent hplus).unescape

/-! ## Accepted URIs -/

theorem parse_parts {raw : Bytes} {u : URL} (h : parse raw = .ok u) (hstar : ch '*' ∉ raw) :
    u.rawQuery = queryOf raw ∧ unescape .fragment (fragmentOf raw) = .ok u.fragment := by
  obtain ⟨v, fragment, hmain, hfragment, hu⟩ := parsePieces_ok.mp h
  have hne : (pieces raw).main ≠ [ch '*'] := by
    intro heq
    refine hstar ?_
    rw [← pieces_bytes raw, Pieces.bytes, heq]
    exact mem_append_left _ mem_cons_self
  obtain ⟨-, hquery, hnil, -⟩ := parseRest_fields ((parseMain_rest hne).mp hmain).2.2
  rw [hu]
  split_ifs with hempty
  · refine ⟨hquery, ?_⟩
    rw [fragmentOf, hempty, hnil]
    rfl
  · exact ⟨hquery, hfragment⟩

theorem validateRedirectURI_checks {raw : Bytes} (h : validateRedirectURI raw = .ok ()) :
    checkPart "query" (queryOf raw) = .ok () ∧ checkPart "fragment" (decodedFragment raw) = .ok () ∧
      Unescapes .fragment (fragmentOf raw) (decodedFragment raw) := by
  unfold validateRedirectURI at h
  obtain ⟨-, h⟩ := seq_ok.mp h
  obtain ⟨hstar, h⟩ := seq_ok.mp h
  obtain ⟨u, hu, h⟩ := bind_ok.mp h
  obtain ⟨-, h⟩ := seq_ok.mp h
  obtain ⟨-, h⟩ := seq_ok.mp h
  obtain ⟨-, h⟩ := seq_ok.mp h
  obtain ⟨-, h⟩ := seq_ok.mp h
  obtain ⟨hquery, hfragment⟩ := seq_ok.mp h
  obtain ⟨hq, hf⟩ := parse_parts ((mapError_ok _ _ _).mp hu) (refuseIf_ok.mp hstar)
  have hdecoded : decodedFragment raw = u.fragment := by
    rw [decodedFragment, hf]
    rfl
  rw [hdecoded, ← hq]
  exact ⟨hquery, hfragment, unescapes hf⟩

/-- An accepted URI carries no forbidden parameter exactly when what does not parse, of its
query and its fragment, carries none. -/
theorem accepted_seeds_iff {raw : Bytes} (h : validateRedirectURI raw = .ok ()) :
    (¬Seeds (queryOf raw) ∧ ¬Seeds (fragmentOf raw)) ↔
      (Malformed (queryOf raw) → ¬Seeds (queryOf raw)) ∧
        (Malformed (decodedFragment raw) → ¬Seeds (fragmentOf raw)) := by
  obtain ⟨hquery, hfragment, hdecoded⟩ := validateRedirectURI_checks h
  constructor
  · intro hnone
    exact ⟨fun _ => hnone.1, fun _ => hnone.2⟩
  · intro hbad
    constructor
    · intro hs
      exact hbad.1 (checkPart_ok hquery hs) hs
    · intro hs
      exact hbad.2 (checkPart_ok hfragment (seeds_decoded hdecoded hs)) hs

/-- A bad escape in another part lets `code` through. -/
theorem accepted_with_code :
    validateRedirectURI (textBytes "https://app.example/cb?code=1&x=%zz") = .ok () ∧
      Seeds (queryOf (textBytes "https://app.example/cb?code=1&x=%zz")) := by
  refine ⟨by decide +kernel, textBytes "code=1", by decide +kernel, textBytes "code", ?_, ?_⟩
  · decide +kernel
  · decide +kernel

theorem accepted_seeds_iff_sample : ¬Seeds (queryOf (textBytes "https://app.example/cb?x=1")) := by
  have hquery : parseQuery (queryOf (textBytes "https://app.example/cb?x=1")) =
      .ok [(textBytes "x", textBytes "1")] := by decide +kernel
  have hfragment : parseQuery (decodedFragment (textBytes "https://app.example/cb?x=1")) =
      .ok [] := by decide +kernel
  have haccepted : validateRedirectURI (textBytes "https://app.example/cb?x=1") = .ok () := by
    decide +kernel
  refine ((accepted_seeds_iff haccepted).mpr ⟨?_, ?_⟩).1
  · rintro ⟨e, he⟩
    rw [hquery] at he
    cases he
  · rintro ⟨e, he⟩
    rw [hfragment] at he
    cases he

end Signari.RedirectValidation
