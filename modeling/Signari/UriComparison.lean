import Mathlib
import Signari.LetterCase

/-!
# The request URI of a proof

`sameURI` of `internal/dpop` compares the `htu` of a proof with the URI of the request: both are
parsed, query and fragment are dropped, and scheme, host and path are compared, the first two
under case folding. Three things that `url.Parse` files elsewhere or undoes are not seen: the
user information, whether there is an authority at all (and what an opaque URI is made of), and
how the host and the path are spelled before they are percent-decoded.

Two accepted URIs that are the same up to the letter case of scheme and host always pass.
`sameURI_exact` says that where nothing is filed elsewhere or undone in either (`Plain`), no
others do.
-/
namespace Signari.UriComparison
open ByteCodecs GoUrls IndexedChecks LetterCase List

variable (F : Folding)

/-- Whether a proof is for the request. -/
def sameURI (htu actual : Bytes) : Bool := match parse htu, parse actual with
  | .ok a, .ok b =>
    let a := { a with rawQuery := [], fragment := [] }
    let b := { b with rawQuery := [], fragment := [] }
    equalFoldBytes F a.scheme b.scheme && equalFoldBytes F a.host b.host && a.path == b.path
  | _, _ => false

/-- The same, up to query and fragment, except for the letter case of scheme and host. -/
structure SameButCase (p q : Pieces) : Prop where
  scheme : Option.Rel (CaseEq F) p.scheme q.scheme
  authority : Option.Rel (fun x y => (cutUserinfo x).1 = (cutUserinfo y).1 ∧
    CaseEq F (cutUserinfo x).2 (cutUserinfo y).2) p.authority q.authority
  path : p.path = q.path

/-- The components that are compared agree. -/
def ReadAlike (a b : URL) : Prop :=
  equalFoldBytes F a.scheme b.scheme = true ∧ equalFoldBytes F a.host b.host = true ∧
    a.path = b.path

/-- A URI without user information whose host is text, whose path is read, and in which neither
has an escape. -/
structure Plain (p : Pieces) : Prop where
  user : ∀ x, p.authority = some x → (cutUserinfo x).1 = none
  host : ∀ x, p.authority = some x → ch '%' ∉ (cutUserinfo x).2 ∧
    ∃ cs : List Char, (cutUserinfo x).2 = cs.flatMap String.utf8EncodeChar
  path : ch '%' ∉ p.path
  read : p.authority.isSome ∨ p.scheme = none ∨ p.path.head? = some (ch '/')

variable {F} {raw htu actual : Bytes} {p q : Pieces} {u a b : URL}

theorem sameURI_iff (ha : parse htu = .ok a) (hb : parse actual = .ok b) :
    sameURI F htu actual = true ↔ ReadAlike F a b := by
  simp [sameURI, ha, hb, ReadAlike, and_assoc]

theorem scanScheme_bytes {first : Bool} {s x y : Bytes} (h : scanScheme first s = some (x, y)) :
    (first = true → x ≠ []) ∧ ∀ b ∈ x, b < 128 ∧ b ≠ ch '?' ∧ b ≠ ch '#' := by
  induction s generalizing first x with
  | nil => cases h
  | cons c s ih =>
    rw [scanScheme] at h
    split_ifs at h with hname hcolon
    · obtain ⟨⟨x', y'⟩, hrest, heq⟩ := Option.map_eq_some_iff.mp h
      cases heq
      refine ⟨fun _ => cons_ne_nil c x', fun b hb => ?_⟩
      rcases mem_cons.mp hb with rfl | hb
      · have hall : ∀ n < 256, (isLetter n.toUInt8 ∨ !first ∧ (isDigit n.toUInt8 ∨
            (textBytes "+-.").contains n.toUInt8)) →
              n.toUInt8 < 128 ∧ n.toUInt8 ≠ ch '?' ∧ n.toUInt8 ≠ ch '#' := by
          cases first <;> decide +kernel
        have hb' := hall b.toNat b.toNat_lt
        rw [show b.toNat.toUInt8 = b from UInt8.ofNat_toNat] at hb'
        exact hb' hname
      · exact (ih hrest).2 b hb
    · obtain ⟨rfl, rfl⟩ := Prod.mk.inj (Option.some.inj h)
      exact ⟨fun hf => absurd hcolon.2 (by simp [hf]), fun _ hb => by cases hb⟩

theorem scheme_bytes {x : Bytes} (h : (pieces raw).scheme = some x) :
    x ≠ [] ∧ ∀ b ∈ x, b < 128 ∧ b ≠ ch '?' ∧ b ≠ ch '#' := by
  have hcut : (cutScheme (cut (ch '#') raw).1).1 = some x := h
  unfold cutScheme at hcut
  cases hscan : scanScheme true (cut (ch '#') raw).1 with
  | none => simp [hscan] at hcut
  | some r =>
    simp only [hscan, Option.some.injEq] at hcut
    subst hcut
    exact ⟨(scanScheme_bytes hscan).1 rfl, (scanScheme_bytes hscan).2⟩

/-- What the components that are compared are read from. -/
structure Reads (p : Pieces) (u : URL) : Prop where
  scheme : u.scheme = (p.scheme.getD []).map lowerAscii
  host : ∀ x, p.authority = some x → parseHost (cutUserinfo x).2 = .ok u.host
  noHost : p.authority = none → u.host = []
  path : (p.authority.isSome ∨ p.scheme = none ∨ p.path.head? = some (ch '/')) →
    unescape .path p.path = .ok u.path
  noPath : ¬(p.authority.isSome ∨ p.scheme = none ∨ p.path.head? = some (ch '/')) → u.path = []

theorem reads_rest (h : parseRest p = .ok u) : Reads p u := by
  obtain ⟨hscheme, -, -, hnone⟩ := parseRest_fields h
  unfold parseRest at h
  cases hauthority : p.authority with
  | some x =>
    simp only [hauthority, bind_ok] at h
    obtain ⟨⟨user, host⟩, hparts, path, hpath, hu⟩ := h
    cases hu
    simp only [parseAuthority, bind_ok] at hparts
    obtain ⟨host', hhost, hparts⟩ := hparts
    have hsame : host' = host := by
      cases huser : (cutUserinfo x).1 with
      | none =>
        simp only [huser] at hparts
        cases hparts
        rfl
      | some info =>
        simp only [huser, bind_ok] at hparts
        obtain ⟨_, _, hparts⟩ := hparts
        cases hparts
        rfl
    subst hsame
    refine ⟨hscheme, fun y hy => ?_, fun hno => absurd (hauthority.symm.trans hno) nofun,
      fun _ => hpath, fun hno => absurd (.inl (by rw [hauthority]; rfl)) hno⟩
    obtain rfl := Option.some.inj (hauthority.symm.trans hy)
    exact hhost
  | none =>
    have hno : ∀ y, p.authority = some y → parseHost (cutUserinfo y).2 = .ok u.host :=
      fun y hy => absurd (hauthority.symm.trans hy) nofun
    simp only [hauthority] at h
    split_ifs at h with hslash hopaque hsegment
    · obtain ⟨path, hpath, hu⟩ := bind_ok.mp h
      cases hu
      exact ⟨hscheme, hno, hnone, fun _ => hpath, fun hout => absurd (.inr (.inr hslash)) hout⟩
    · cases h
      refine ⟨hscheme, hno, hnone, fun hin => ?_, fun _ => rfl⟩
      rcases hin with hin | hin | hin
      · simp [hauthority] at hin
      · simp [hin] at hopaque
      · exact absurd hin hslash
    · obtain ⟨path, hpath, hu⟩ := bind_ok.mp h
      cases hu
      refine ⟨hscheme, hno, hnone, fun _ => hpath, fun hout => absurd (.inr (.inl ?_)) hout⟩
      simpa using hopaque

theorem reads_star (h : p.main = [ch '*']) : Reads p { path := p.main } := by
  have hscheme : p.scheme = none := by
    cases hs : p.scheme with
    | none => rfl
    | some x =>
      rw [Pieces.main, hs] at h
      have hmem : ch ':' ∈ [ch '*'] := h ▸ by simp [schemePart]
      exact absurd hmem (by decide)
  have hauthority : p.authority = none := by
    cases ha : p.authority with
    | none => rfl
    | some x =>
      rw [Pieces.main, ha] at h
      have hmem : ch '/' ∈ [ch '*'] := h ▸ by simp [authorityPart]
      exact absurd hmem (by decide)
  have hpath : p.path = [ch '*'] := by
    cases hq : p.query with
    | none =>
      simpa [Pieces.main, hscheme, hauthority, hq, schemePart, authorityPart, marked] using h
    | some x =>
      rw [Pieces.main, hq] at h
      have hmem : ch '?' ∈ [ch '*'] := h ▸ by simp [marked]
      exact absurd hmem (by decide)
  refine ⟨by rw [hscheme]; rfl, fun y hy => (by cases hauthority.symm.trans hy), fun _ => rfl,
    fun _ => ?_, fun hout => absurd (.inr (.inl hscheme)) hout⟩
  rw [hpath, h]
  decide

theorem reads_parse (h : parse raw = .ok u) : Reads (pieces raw) u := by
  obtain ⟨v, fragment, hmain, -, hu⟩ := parsePieces_ok.mp h
  have hv : Reads (pieces raw) v := by
    by_cases hstar : (pieces raw).main = [ch '*']
    · rw [parseMain, if_neg (by rw [hstar]; decide), if_pos hstar] at hmain
      exact Except.ok.inj hmain ▸ reads_star hstar
    · exact reads_rest ((parseMain_rest hstar).mp hmain).2.2
  rw [hu]
  split_ifs
  · exact hv
  · exact ⟨hv.scheme, hv.host, hv.noHost, hv.path, hv.noPath⟩

/-- Where bytes do not stand for others, decoding is the same in every part. -/
theorem unescapes_path {mode : Encoding} {s t : Bytes} (h : Unescapes mode s t)
    (hmode : mode ≠ .queryComponent) : Unescapes .path s t := by
  induction h with
  | nil => exact .nil
  | escape hhi hlo _ _ ih => exact .escape hhi hlo rfl ih
  | plain hc _ _ ih =>
    have hstep := @Unescapes.plain .path _ _ _ hc (by simp) ih
    simpa [plainByte, hmode] using hstep

theorem cutZone_eq {s a z : Bytes} (h : unescapeAddress.cutZone s = some (a, z)) : s = a ++ z := by
  induction s generalizing a with
  | nil => cases h
  | cons c cs ih =>
    rw [unescapeAddress.cutZone] at h
    split_ifs at h
    · cases h
      rfl
    · obtain ⟨⟨a', z'⟩, hrest, heq⟩ := Option.map_eq_some_iff.mp h
      cases heq
      rw [ih hrest]
      rfl

theorem unescapes_address {s t : Bytes} (h : unescapeAddress s = .ok t) : Unescapes .path s t := by
  unfold unescapeAddress at h
  cases hcut : unescapeAddress.cutZone s with
  | none =>
    simp only [hcut] at h
    exact unescapes_path (unescapes h) (by decide)
  | some r =>
    obtain ⟨a, z⟩ := r
    simp only [hcut, bind_ok] at h
    obtain ⟨x, hx, y, hy, h⟩ := h
    cases h
    rw [cutZone_eq hcut]
    exact (unescapes_path (unescapes hx) (by decide)).append
      (unescapes_path (unescapes hy) (by decide))

theorem unescapes_host {host H : Bytes} (h : parseHost host = .ok H) : Unescapes .path host H := by
  have hplain {c : UInt8} {s t : Bytes} (hc : c ≠ ch '%') (hrest : Unescapes .path s t) :
      Unescapes .path (c :: s) (c :: t) := by
    simpa [plainByte] using @Unescapes.plain .path _ _ _ hc (by simp) hrest
  rcases parseHost_cases h with ⟨address, port, addr, rfl, hport, haddr, -, rfl⟩ |
    ⟨name, port, t, rfl, -, -, hport, ht, rfl⟩
  · have hports := unescapes_path (port_unescapes hport) (by decide)
    exact hplain (by decide) ((unescapes_address haddr).append (hplain (by decide) hports))
  · exact (unescapes_path ht (by decide)).append (unescapes_path (port_unescapes hport) (by decide))

theorem rel_isSome {r : Bytes → Bytes → Prop} {x y : Option Bytes} (h : Option.Rel r x y) :
    x.isSome = y.isSome := by
  cases h <;> rfl

theorem schemes_iff (ha : Reads (pieces htu) a) (hb : Reads (pieces actual) b) :
    equalFoldBytes F a.scheme b.scheme = true ↔
      Option.Rel (CaseEq F) (pieces htu).scheme (pieces actual).scheme := by
  rw [ha.scheme, hb.scheme]
  have hascii {raw x : Bytes} (hx : (pieces raw).scheme = some x) : ∀ c ∈ x, c < 128 :=
    fun c hc => ((scheme_bytes hx).2 c hc).1
  have hnil {x : Bytes} (hx : CaseEq F x []) : x = [] := by
    generalize hy : ([] : Bytes) = y at hx
    cases hx with
    | nil => rfl
    | byte => cases hy
    | letter =>
      rename_i c d _ _ _ _
      obtain ⟨b, tail, henc, -⟩ := encode_cons d
      rw [henc] at hy
      cases hy
  cases hs : (pieces htu).scheme with
  | none =>
    cases ht : (pieces actual).scheme with
    | none => exact iff_of_true ((CaseEq.refl []).equalFold) .none
    | some y =>
      refine iff_of_false (fun h => ?_) nofun
      have hcase := (equalFold_lowerAscii_iff (s := []) nofun (hascii ht)).mp h
      exact (scheme_bytes ht).1 (hnil hcase.symm)
  | some x =>
    cases ht : (pieces actual).scheme with
    | none =>
      refine iff_of_false (fun h => ?_) nofun
      have hcase := (equalFold_lowerAscii_iff (t := []) (hascii hs) nofun).mp h
      exact (scheme_bytes hs).1 (hnil hcase)
    | some y =>
      have hsame := equalFold_lowerAscii_iff (F := F) (hascii hs) (hascii ht)
      exact hsame.trans ⟨.some, fun h => by cases h; assumption⟩

theorem paths_eq (ha : Reads p a) (hb : Reads q b) (hscheme : p.scheme.isSome = q.scheme.isSome)
    (hauthority : p.authority.isSome = q.authority.isSome) (hpath : p.path = q.path) :
    a.path = b.path := by
  have hkind : (p.authority.isSome ∨ p.scheme = none ∨ p.path.head? = some (ch '/')) ↔
      (q.authority.isSome ∨ q.scheme = none ∨ q.path.head? = some (ch '/')) := by
    rw [hauthority, hpath, ← Option.isNone_iff_eq_none, ← Option.isNone_iff_eq_none,
      ← Option.not_isSome, ← Option.not_isSome, hscheme]
  by_cases hin : p.authority.isSome ∨ p.scheme = none ∨ p.path.head? = some (ch '/')
  · have hp := ha.path hin
    rw [hpath, hb.path (hkind.mp hin)] at hp
    exact (Except.ok.inj hp).symm
  · rw [ha.noPath hin, hb.noPath (hkind.not.mp hin)]

theorem SameButCase.readAlike (h : SameButCase F (pieces htu) (pieces actual))
    (ha : Reads (pieces htu) a) (hb : Reads (pieces actual) b) : ReadAlike F a b := by
  refine ⟨(schemes_iff ha hb).mpr h.scheme, ?_,
    paths_eq ha hb (rel_isSome h.scheme) (rel_isSome h.authority) h.path⟩
  have hrel := h.authority
  cases hx : (pieces htu).authority with
  | none =>
    cases hy : (pieces actual).authority with
    | none =>
      rw [ha.noHost hx, hb.noHost hy]
      exact (CaseEq.refl []).equalFold
    | some y =>
      rw [hx, hy] at hrel
      cases hrel
  | some x =>
    cases hy : (pieces actual).authority with
    | none =>
      rw [hx, hy] at hrel
      cases hrel
    | some y =>
      rw [hx, hy] at hrel
      obtain ⟨-, hhosts⟩ : (cutUserinfo x).1 = (cutUserinfo y).1 ∧
          CaseEq F (cutUserinfo x).2 (cutUserinfo y).2 := by
        cases hrel
        assumption
      exact (hhosts.unescapes (unescapes_host (ha.host x hx))
        (unescapes_host (hb.host y hy))).equalFold

theorem eq_of_unescapes {s t : Bytes} (h : Unescapes .path s t) (hs : ch '%' ∉ s) :
    t = s := by
  induction h with
  | nil => rfl
  | escape _ _ _ _ _ => exact absurd mem_cons_self hs
  | plain _ _ _ ih =>
    rw [ih fun hmem => hs (mem_cons_of_mem _ hmem), plainByte, if_neg (by simp)]

theorem runes_text (cs : List Char) :
    (runes (cs.flatMap String.utf8EncodeChar)).map (fun r => r.1) = cs := by
  induction cs with
  | nil => rfl
  | cons c cs ih => rw [flatMap_cons, runes_encode, map_cons, ih]

/-- Texts that fold to the same letters are the same except for letter case. -/
theorem caseEq_of_equalFold {cs ds : List Char}
    (h : equalFoldBytes F (cs.flatMap String.utf8EncodeChar)
      (ds.flatMap String.utf8EncodeChar) = true) :
    CaseEq F (cs.flatMap String.utf8EncodeChar) (ds.flatMap String.utf8EncodeChar) := by
  have hletters (xs : List Char) : (runes (xs.flatMap String.utf8EncodeChar)).map
      (fun r => F.fold r.1) = xs.map F.fold := by
    rw [← runes_text xs, map_map, runes_text xs]
    rfl
  rw [equalFoldBytes, beq_iff_eq, hletters, hletters] at h
  induction cs generalizing ds with
  | nil =>
    obtain rfl := map_eq_nil_iff.mp h.symm
    exact .nil
  | cons c cs ih =>
    cases ds with
    | nil => cases h
    | cons d ds =>
      obtain ⟨hfold, hrest⟩ := List.cons.inj h
      exact .letter hfold (ih hrest)

theorem Plain.host_eq (hp : Plain p) (hu : Reads p u) {x : Bytes} (hx : p.authority = some x) :
    u.host = (cutUserinfo x).2 :=
  eq_of_unescapes (unescapes_host (hu.host x hx)) (hp.host x hx).1

theorem Plain.path_eq (hp : Plain p) (hu : Reads p u) : u.path = p.path :=
  eq_of_unescapes (unescapes (hu.path hp.read)) hp.path

theorem ReadAlike.sameButCase (h : ReadAlike F a b) (ha : Reads (pieces htu) a)
    (hb : Reads (pieces actual) b) (hplain : Plain (pieces htu)) (hplain' : Plain (pieces actual))
    (hauthority : (pieces htu).authority.isSome = (pieces actual).authority.isSome) :
    SameButCase F (pieces htu) (pieces actual) := by
  obtain ⟨hscheme, hhost, hpath⟩ := h
  refine ⟨(schemes_iff ha hb).mp hscheme, ?_, ?_⟩
  · cases hx : (pieces htu).authority with
    | none =>
      cases hy : (pieces actual).authority with
      | none => exact .none
      | some y => simp [hx, hy] at hauthority
    | some x =>
      cases hy : (pieces actual).authority with
      | none => simp [hx, hy] at hauthority
      | some y =>
        refine .some ⟨by rw [hplain.user x hx, hplain'.user y hy], ?_⟩
        obtain ⟨cs, hcs⟩ := (hplain.host x hx).2
        obtain ⟨ds, hds⟩ := (hplain'.host y hy).2
        rw [hplain.host_eq ha hx, hplain'.host_eq hb hy, hcs, hds] at hhost
        rw [hcs, hds]
        exact caseEq_of_equalFold hhost
  · rw [← hplain.path_eq ha, ← hplain'.path_eq hb, hpath]

/-- URIs that are the same except for the letter case of scheme and host pass, and of plain ones,
both or neither with an authority, no others. -/
theorem sameURI_exact (ha : parse htu = .ok a) (hb : parse actual = .ok b) :
    (SameButCase F (pieces htu) (pieces actual) → sameURI F htu actual = true) ∧
      (Plain (pieces htu) → Plain (pieces actual) →
        (pieces htu).authority.isSome = (pieces actual).authority.isSome →
        (sameURI F htu actual = true ↔ SameButCase F (pieces htu) (pieces actual))) := by
  have hra := reads_parse ha
  have hrb := reads_parse hb
  rw [sameURI_iff ha hb]
  refine ⟨fun hsame => hsame.readAlike hra hrb, fun hplain hplain' hauthority => ⟨fun hread => ?_,
    fun hsame => hsame.readAlike hra hrb⟩⟩
  exact hread.sameButCase hra hrb hplain hplain' hauthority

def requestURL : URL :=
  { scheme := textBytes "https", host := textBytes "h", path := textBytes "/p" }

def userURL : URL := { requestURL with user := some ⟨textBytes "u", none⟩ }

/-- The scheme and the host in capitals. -/
def capitalURL : URL := { requestURL with host := textBytes "H" }

theorem parse_samples : parse (textBytes "https://h/p") = .ok requestURL ∧
    parse (textBytes "https://u@h/p") = .ok userURL ∧
    parse (textBytes "HTTPS://H/p") = .ok capitalURL := by
  decide +kernel

theorem plain_request : Plain (pieces (textBytes "https://h/p")) ∧
    Plain (pieces (textBytes "HTTPS://H/p")) := by
  have hx : (pieces (textBytes "https://h/p")).authority = some (textBytes "h") := by
    decide
  have hy : (pieces (textBytes "HTTPS://H/p")).authority = some (textBytes "H") := by
    decide
  refine ⟨⟨fun x h => ?_, fun x h => ?_, by decide, .inl (by rw [hx]; rfl)⟩,
    ⟨fun x h => ?_, fun x h => ?_, by decide, .inl (by rw [hy]; rfl)⟩⟩
  · obtain rfl := Option.some.inj (hx.symm.trans h)
    decide
  · obtain rfl := Option.some.inj (hx.symm.trans h)
    exact ⟨by decide, ['h'], by decide⟩
  · obtain rfl := Option.some.inj (hy.symm.trans h)
    decide
  · obtain rfl := Option.some.inj (hy.symm.trans h)
    exact ⟨by decide, ['H'], by decide⟩

theorem sameURI_exact_request :
    sameURI simpleFolding (textBytes "https://h/p") (textBytes "HTTPS://H/p") = true ↔
      SameButCase simpleFolding (pieces (textBytes "https://h/p"))
        (pieces (textBytes "HTTPS://H/p")) :=
  (sameURI_exact parse_samples.1 parse_samples.2.2).2 plain_request.1 plain_request.2
    (by decide)

/-- User information is not compared. -/
theorem user_ignored :
    sameURI simpleFolding (textBytes "https://u@h/p") (textBytes "https://h/p") = true ∧
      ¬SameButCase simpleFolding (pieces (textBytes "https://u@h/p"))
        (pieces (textBytes "https://h/p")) := by
  constructor
  · rw [sameURI_iff parse_samples.2.1 parse_samples.1]
    exact ⟨(CaseEq.refl _).equalFold, (CaseEq.refl _).equalFold, rfl⟩
  · intro h
    have hparts := h.authority
    have hx : (pieces (textBytes "https://u@h/p")).authority = some (textBytes "u@h") := by
      decide
    have hy : (pieces (textBytes "https://h/p")).authority = some (textBytes "h") := by
      decide
    rw [hx, hy] at hparts
    cases hparts
    rename_i hsame
    exact absurd hsame.1 (by decide)

end Signari.UriComparison
