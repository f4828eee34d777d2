import Signari.GoUrls
import Signari.JsonValues
import Signari.TextCuts

/-!
# The userName filter of the SCIM client and of the SCIM server

`FindByUserName` of `internal/scim/client.go` asks for an account with `userName eq` and the name as
`encoding/json` writes it: in quotes, with escapes for quotes, backslashes, control characters, what
HTML would read and bytes that are no UTF-8. `ParseUserNameFilter` of `internal/scim/patch.go` takes
the quotes away and undoes one of these escapes, that of the quote.

The filter text is always UTF-8, so the reader is modelled on text.
-/
namespace Signari.UserNameFilters
open ByteCodecs GoStrings GoUrls JsonValues TextCuts IndexedChecks List

/-- One rune of `json.Marshal`; a byte that is no part of one is written as the replacement
character. -/
def marshalRune (r : Char × Bytes) : List Char :=
  if r.1 = Char.ofNat 0xFFFD ∧ r.2.length = 1 then "\\ufffd".toList else encodeChar r.1

/-- The filter that `FindByUserName` sends. -/
def userNameFilter (userName : Bytes) : String :=
  "userName eq " ++ String.ofList ('"' :: (runes userName).flatMap marshalRune ++ ['"'])

/-- `strings.ReplaceAll` of an escaped quote by a quote. -/
def unescapeQuotes : List Char → List Char
  | '\\' :: '"' :: cs => '"' :: unescapeQuotes cs
  | c :: cs => c :: unescapeQuotes cs
  | [] => []

/-- The text between the quotes, where there are two. -/
def unquote (v : List Char) : List Char :=
  if 2 ≤ v.length ∧ v.head? = some '"' ∧ v.getLast? = some '"' then v.tail.dropLast else v

def parseUserNameFilter (filter : String) : Except String String := let filter := trimSpace filter
  if filter = "" then .ok ""
  else if hasPrefix (toLower filter) "username eq " = false then
    .error ("only \x60userName eq \"...\"\x60 is supported as a filter, got " ++
      quote filter ++ ". Returning everything for an unrecognised filter would let a caller " ++
      "match the wrong person")
  else let v := unquote (trimChars (filter.toList.drop "username eq ".length))
    if v = [] then .error "the filter has no value" else .ok (String.ofList (unescapeQuotes v))

theorem runesFrom_text (cs : List Char) {fuel : ℕ}
    (hfuel : (cs.flatMap String.utf8EncodeChar).length ≤ fuel) :
    runesFrom fuel (cs.flatMap String.utf8EncodeChar) =
      cs.map fun c => (c, String.utf8EncodeChar c) := by
  induction cs generalizing fuel with
  | nil => cases fuel <;> rfl
  | cons c cs ih =>
    have hsize := c.utf8Size_pos
    rw [flatMap_cons, length_append, String.length_utf8EncodeChar] at hfuel
    obtain ⟨fuel, rfl⟩ : ∃ n, fuel = n + 1 := ⟨fuel - 1, by omega⟩
    have hne : String.utf8EncodeChar c ++ cs.flatMap String.utf8EncodeChar ≠ [] :=
      append_ne_nil_of_left_ne_nil String.utf8EncodeChar_ne_nil _
    rw [flatMap_cons, runesFrom, if_neg hne, decodeRune_encode,
      ← String.length_utf8EncodeChar, take_left, drop_left, ih (by omega)]
    rfl

theorem runes_text (cs : List Char) :
    runes (cs.flatMap String.utf8EncodeChar) = cs.map fun c => (c, String.utf8EncodeChar c) :=
  runesFrom_text cs le_rfl

/-- The forms in which a rune is written. -/
inductive Written (c : Char) : List Char → Prop
  | quote : c = '"' → Written c ['\\', '"']
  | backslash : c = '\\' → Written c ['\\', '\\']
  | escape {e : Char} {es : List Char} :
      '\\' ∉ e :: es → e ≠ '"' → c ≠ '"' → Written c ('\\' :: e :: es)
  | plain : c ≠ '"' → c ≠ '\\' → Written c [c]

theorem hexDigit_ne (n : ℕ) : hexDigit n ≠ '\\' := by
  have hlow : ∀ n < 16, hexDigit n ≠ '\\' := by decide
  rcases Nat.lt_or_ge n 16 with h | h
  · exact hlow n h
  · rw [hexDigit, getD_eq_getElem?_getD, getElem?_eq_none h]
    decide

theorem encodeChar_written (c : Char) : Written c (encodeChar c) := by
  have hhex : ∀ a b, '\\' ∉ ['u', '0', '0', hexDigit a, hexDigit b] := by
    intro a b
    simp [(hexDigit_ne a).symm, (hexDigit_ne b).symm]
  unfold encodeChar
  refine iteInduction .quote fun hquote => ?_
  refine iteInduction .backslash fun hescape => ?_
  have hshort : ∀ {p : Prop} {e : Char}, '\\' ∉ [e] → e ≠ '"' → p → Written c ['\\', e] :=
    fun he hne _ => .escape he hne hquote
  iterate 5 refine iteInduction (hshort (by decide) (by decide)) fun _ => ?_
  refine iteInduction (fun _ => .escape (hhex _ _) (by decide) hquote) fun _ => ?_
  refine iteInduction (fun _ => .escape (by decide) (by decide) hquote) fun _ => ?_
  refine iteInduction (fun _ => .escape (by decide) (by decide) hquote) fun _ => ?_
  exact .plain hquote hescape

theorem marshalRune_written (r : Char × Bytes) : Written r.1 (marshalRune r) := by
  refine iteInduction (fun h => ?_) fun _ => encodeChar_written r.1
  exact .escape (by decide) (by decide) (by rw [h.1]; decide)

theorem Written.head {c : Char} {e : List Char} (h : Written c e) (rest : List Char) :
    (e ++ rest).head? ≠ some '"' := by
  cases h with
  | quote => simp
  | backslash => simp
  | escape => simp
  | plain hquote => simpa using hquote

theorem unescapeQuotes_cons {c : Char} {cs : List Char} (h : c = '\\' → cs.head? ≠ some '"') :
    unescapeQuotes (c :: cs) = c :: unescapeQuotes cs := by
  cases cs with
  | nil => simp [unescapeQuotes]
  | cons d ds =>
    rw [unescapeQuotes]
    intro ds' hc hds
    exact h hc (by rw [hds]; rfl)

theorem unescapeQuotes_append {cs : List Char} (h : '\\' ∉ cs) (rest : List Char) :
    unescapeQuotes (cs ++ rest) = cs ++ unescapeQuotes rest := by
  induction cs with
  | nil => rfl
  | cons c cs ih =>
    rw [mem_cons, not_or] at h
    rw [cons_append, unescapeQuotes_cons fun hc => absurd hc.symm h.1, ih h.2]
    rfl

/-- What is left of a written rune: the escape of a quote is undone, any other stays. -/
def left (r : Char × Bytes) : List Char := if r.1 = '"' then ['"'] else marshalRune r

theorem Written.unescape {c : Char} {e rest : List Char} (h : Written c e)
    (hrest : rest.head? ≠ some '"') :
    unescapeQuotes (e ++ rest) = (if c = '"' then ['"'] else e) ++ unescapeQuotes rest := by
  cases h with
  | quote hc =>
    subst hc
    rfl
  | backslash hc =>
    subst hc
    rw [cons_append, unescapeQuotes_cons (by simp), cons_append,
      unescapeQuotes_cons fun _ => by simpa using hrest]
    rfl
  | escape hplain he hc =>
    rw [if_neg hc, cons_append, unescapeQuotes_cons (by simpa using he),
      unescapeQuotes_append hplain]
    rfl
  | plain hquote hescape =>
    rw [if_neg hquote, unescapeQuotes_append (by simpa using Ne.symm hescape)]

theorem unescapeQuotes_marshal (rs : List (Char × Bytes)) :
    unescapeQuotes (rs.flatMap marshalRune) = rs.flatMap left := by
  induction rs with
  | nil => rfl
  | cons r rs ih =>
    have hhead : (rs.flatMap marshalRune).head? ≠ some '"' := by
      cases rs with
      | nil => simp
      | cons r' rs' => exact (marshalRune_written r').head (rs'.flatMap marshalRune)
    rw [flatMap_cons, flatMap_cons, (marshalRune_written r).unescape hhead, ih, left]

theorem unquote_quoted (mid : List Char) : unquote ('"' :: mid ++ ['"']) = mid := by
  rw [unquote, if_pos ⟨by simp, by simp, getLast?_concat⟩]
  simp

theorem parse_quoted (mid : List Char) :
    parseUserNameFilter ("userName eq " ++ String.ofList ('"' :: mid ++ ['"'])) =
      if mid = [] then .error "the filter has no value"
      else .ok (String.ofList (unescapeQuotes mid)) := by
  have htrim : ∀ {c : Char} {cs : List Char}, isSpace c = false →
      trimChars (c :: cs ++ ['"']) = c :: cs ++ ['"'] := by
    intro c cs hc
    have hlast : ∀ d ∈ (c :: cs ++ ['"']).getLast?, isSpace d = false := by
      rw [getLast?_concat]
      rintro d ⟨⟩
      decide
    exact trimChars_append (by simp) (by simpa using hc) hlast []
  have htext : ("userName eq " ++ String.ofList ('"' :: mid ++ ['"'])).toList =
      'u' :: ("serName eq ".toList ++ '"' :: mid) ++ ['"'] := by
    simp
  generalize "userName eq " ++ String.ofList ('"' :: mid ++ ['"']) = filter at htext
  have hspace : trimSpace filter = filter := by
    rw [trimSpace, htext, htrim (by decide), ← htext, String.ofList_toList]
  have hne : filter ≠ "" := by
    rintro rfl
    cases htext
  have hprefix : hasPrefix (toLower filter) "username eq " = true := by
    rw [hasPrefix, toLower, String.toList_ofList, htext]
    simp
    decide
  have hdrop : filter.toList.drop "username eq ".length = '"' :: mid ++ ['"'] := by
    rw [htext]
    rfl
  simp only [parseUserNameFilter, hspace, hne, hprefix, if_false, hdrop, htrim (c := '"') rfl,
    unquote_quoted, Bool.true_eq_false]

theorem flatMap_eq_self {α : Type*} {k : α → List α} (hk : ∀ a, k a ≠ []) (as : List α) :
    as.flatMap k = as ↔ ∀ a ∈ as, k a = [a] := by
  have hlength : ∀ as : List α, as.length ≤ (as.flatMap k).length := by
    intro as
    induction as with
    | nil => simp
    | cons a as ih =>
      have hpos := length_pos_iff.mpr (hk a)
      simp only [flatMap_cons, length_append, length_cons]
      omega
  induction as with
  | nil => simp
  | cons a as ih =>
    rw [flatMap_cons, forall_mem_cons]
    refine ⟨fun h => ?_, fun ⟨ha, has⟩ => by rw [ha, ih.mpr has]; rfl⟩
    have hone : (k a).length = 1 := by
      have hpos := length_pos_iff.mpr (hk a)
      have htotal := congrArg List.length h
      have hrest := hlength as
      simp only [length_append, length_cons] at htotal
      omega
    obtain ⟨b, hb⟩ := length_eq_one_iff.mp hone
    rw [hb, singleton_append, List.cons.injEq] at h
    exact ⟨by rw [hb, h.1], ih.mp h.2⟩

/-- A character that needs no escape but that of a quote. -/
def Kept (c : Char) : Prop :=
  c ≠ '\\' ∧ 32 ≤ c.toNat ∧ c ≠ '<' ∧ c ≠ '>' ∧ c ≠ '&' ∧ c.toNat ≠ 0x2028 ∧ c.toNat ≠ 0x2029

/-- A name that is text, is not empty and has such characters only. -/
def Survives (userName : Bytes) : Prop :=
  ∃ s : String, userName = textBytes s ∧ s ≠ "" ∧ ∀ c ∈ s.toList, Kept c

theorem marshalRune_text (c : Char) : marshalRune (c, String.utf8EncodeChar c) = encodeChar c := by
  refine if_neg fun ⟨hc, hlen⟩ => ?_
  subst hc
  revert hlen
  decide

theorem encodeChar_iff {c : Char} (hquote : c ≠ '"') : encodeChar c = [c] ↔ Kept c := by
  have hlong : ∀ {p : Prop} {d e : Char} {es : List Char}, (p → ¬ Kept c) →
      p → (d :: e :: es = [c] ↔ Kept c) := by
    intro p d e es hp h
    simp [hp h]
  have hite : ∀ {p : Prop} [Decidable p] {t e : List Char}, (p → (t = [c] ↔ Kept c)) →
      (¬ p → (e = [c] ↔ Kept c)) → ((if p then t else e) = [c] ↔ Kept c) :=
    iteInduction (motive := fun w => w = [c] ↔ Kept c)
  unfold encodeChar
  rw [if_neg hquote]
  refine hite (hlong fun h hk => hk.1 h) fun hescape => ?_
  iterate 5 refine hite (hlong fun h hk => absurd hk.2.1 (by omega)) fun _ => ?_
  refine hite (hlong fun h hk => ?_) fun hlow => ?_
  · obtain ⟨_, hspace, hlt, hgt, hamp, _⟩ := hk
    rcases h with h | h | h | h
    · exact absurd hspace (Nat.not_le.mpr h)
    · exact hlt h
    · exact hgt h
    · exact hamp h
  refine hite (hlong fun h hk => hk.2.2.2.2.2.1 h) fun hline => ?_
  refine hite (hlong fun h hk => hk.2.2.2.2.2.2 h) fun hpara => ?_
  simp only [not_or, Nat.not_lt] at hlow
  exact iff_of_true rfl ⟨hescape, hlow.1, hlow.2.1, hlow.2.2.1, hlow.2.2.2, hline, hpara⟩

theorem left_text_iff (c : Char) : left (c, String.utf8EncodeChar c) = [c] ↔ Kept c := by
  rw [left, marshalRune_text]
  by_cases hc : c = '"'
  · subst hc
    simp [Kept]
  · rw [if_neg hc, encodeChar_iff hc]

theorem Written.ne_nil {c : Char} {e : List Char} (h : Written c e) : e ≠ [] := by
  cases h <;> simp

theorem left_ne_nil (r : Char × Bytes) : left r ≠ [] := by
  unfold left
  split_ifs
  · simp
  · exact (marshalRune_written r).ne_nil

theorem marshal_text_ne {cs : List Char} (h : cs ≠ []) :
    (cs.map fun c => (c, String.utf8EncodeChar c)).flatMap marshalRune ≠ [] := by
  obtain ⟨c, cs, rfl⟩ := exists_cons_of_ne_nil h
  exact append_ne_nil_of_left_ne_nil (marshalRune_written _).ne_nil _

/-- A user name comes back from its filter exactly when it is not empty and needs no escape
but that of a quote. -/
theorem userName_comes_back_iff (userName : Bytes) :
    (parseUserNameFilter (userNameFilter userName)).map textBytes = .ok userName ↔
      Survives userName := by
  rw [userNameFilter, parse_quoted, unescapeQuotes_marshal]
  constructor
  · intro h
    split_ifs at h with hempty
    · cases h
    have htext : ((runes userName).flatMap left).flatMap String.utf8EncodeChar = userName := by
      have hbytes := Except.ok.inj h
      rwa [textBytes, String.toList_ofList] at hbytes
    have hrunes := runes_text ((runes userName).flatMap left)
    rw [htext] at hrunes
    generalize hcs : (runes userName).flatMap left = cs at htext hrunes
    rw [hrunes, flatMap_map, flatMap_eq_self fun c => left_ne_nil _] at hcs
    refine ⟨String.ofList cs, by rw [textBytes, String.toList_ofList, htext], ?_, ?_⟩
    · intro hnil
      rw [String.ofList_eq_empty_iff] at hnil
      rw [hrunes, hnil] at hempty
      exact hempty rfl
    · rw [String.toList_ofList]
      exact fun c hc => (left_text_iff c).mp (hcs c hc)
  · rintro ⟨s, rfl, hne, hkept⟩
    have hchars : s.toList ≠ [] := by simpa using hne
    have hstay : (s.toList.map fun c => (c, String.utf8EncodeChar c)).flatMap left = s.toList := by
      rw [flatMap_map, flatMap_eq_self fun c => left_ne_nil _]
      exact fun c hc => (left_text_iff c).mpr (hkept c hc)
    rw [textBytes, runes_text, if_neg (marshal_text_ne hchars), hstay, String.ofList_toList]
    rfl

/-- The escape of an ampersand stays in the name that is read. -/
theorem ampersand_lost :
    (parseUserNameFilter (userNameFilter (textBytes "a&b"))).map textBytes ≠
      .ok (textBytes "a&b") := by
  intro hname
  rw [userNameFilter, parse_quoted, textBytes, runes_text] at hname
  revert hname
  decide

end Signari.UserNameFilters
