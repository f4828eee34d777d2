import Signari.FilterSyntax

/-!
# The filter grammar of RFC 7644 against the parser

`Derives` is the grammar of a value filter as section 3.4.2.2 gives it: an attribute path with `pr`
or with an operator and a JSON value, a parenthesised filter with or without `not` before it, and
two filters joined by `and` or `or`. The word `not` is the operator and names no attribute, and a
schema URI holds no parenthesis, where a word of the tokenizer ends.

The parser of `internal/scim/path.go` accepts more, since a token forgets how it was written: any
token does for an attribute, an operator or a value, and a string with the text `)` closes a group.
Among the texts it accepts the derivable ones are those that are spelled as the grammar spells them,
place by place.
-/
namespace Signari.FilterGrammar
open GoStrings IndexedChecks ScimPath FilterSyntax List

attribute [local instance] decidableAlong

def nameChar (c : Char) : Bool := c.isAlphanum || c = '-' || c = '_'

def uriChar (c : Char) : Bool := c.isAlphanum || "-._~:/?#[]@!$&'*+,;=%".toList.contains c

/-- `ATTRNAME`. -/
def AttrName (w : List Char) : Prop := (∃ c cs, w = c :: cs ∧ c.isAlpha) ∧ ∀ c ∈ w, nameChar c

def Uri (w : List Char) : Prop := (∃ c cs, w = c :: cs ∧ c.isAlpha) ∧ ∀ c ∈ w, uriChar c

/-- `attrPath`. -/
def AttrPath (w : List Char) : Prop :=
  ∃ uri name sub, w = uri ++ (name ++ sub) ∧ (uri = [] ∨ ∃ u, Uri u ∧ uri = u ++ [':']) ∧
    AttrName name ∧ (sub = [] ∨ ∃ n, AttrName n ∧ sub = '.' :: n)

def Digits (ds : List Char) : Prop := ds ≠ [] ∧ ∀ c ∈ ds, c.isDigit

def JsonNumber (v : List Char) : Prop :=
  ∃ sign int frac exp, v = sign ++ (int ++ (frac ++ exp)) ∧ (sign = [] ∨ sign = ['-']) ∧
    (int = ['0'] ∨ Digits int ∧ int.head? ≠ some '0') ∧
    (frac = [] ∨ ∃ ds, Digits ds ∧ frac = '.' :: ds) ∧
    (exp = [] ∨ ∃ e s ds, (e = 'e' ∨ e = 'E') ∧ (s = [] ∨ s = ['+'] ∨ s = ['-']) ∧
      Digits ds ∧ exp = e :: (s ++ ds))

def isHex (c : Char) : Bool := c.isDigit || ('a' ≤ c && c ≤ 'f') || ('A' ≤ c && c ≤ 'F')

/-- The characters between the quotes of a JSON string. -/
inductive JsonChars : List Char → Prop
  | nil : JsonChars []
  | plain {c : Char} {cs : List Char} : c ≠ '"' → c ≠ '\\' → 0x20 ≤ c.toNat → JsonChars cs →
      JsonChars (c :: cs)
  | escape {c : Char} {cs : List Char} : c ∈ ['"', '\\', '/', 'b', 'f', 'n', 'r', 't'] →
      JsonChars cs → JsonChars ('\\' :: c :: cs)
  | unicode {hex cs : List Char} : hex.length = 4 → (∀ c ∈ hex, isHex c) → JsonChars cs →
      JsonChars ('\\' :: 'u' :: (hex ++ cs))

/-- `compValue`. -/
def CompValue (v : List Char) : Prop :=
  v ∈ ["true".toList, "false".toList, "null".toList] ∨ JsonNumber v ∨
    ∃ cs, JsonChars cs ∧ v = '"' :: (cs ++ ['"'])

/-- The text is the keyword, in any case. -/
def Spells (w : List Char) (keyword : String) : Prop := equalFold (String.ofList w) keyword

/-- `attrExp`. -/
inductive AttrExp : List Char → Prop
  | present {attr op : List Char} : AttrPath attr → ¬ Spells attr "not" →
      toLower (String.ofList op) = "pr" → AttrExp (attr ++ ' ' :: op)
  | compare {attr op val : List Char} : AttrPath attr → ¬ Spells attr "not" →
      toLower (String.ofList op) ∈ comparisonOps → CompValue val →
      AttrExp (attr ++ ' ' :: (op ++ ' ' :: val))

/-- The space that may stand between `not` and its parenthesis. -/
def Optional (blank : List Char) : Prop := blank = [] ∨ blank = [' ']

/-- The value filters of RFC 7644. -/
inductive Derives : List Char → Prop
  | test {s : List Char} : AttrExp s → Derives s
  | group {s : List Char} : Derives s → Derives ('(' :: (s ++ [')']))
  | not {w blank s : List Char} : Spells w "not" → Optional blank → Derives s →
      Derives (w ++ (blank ++ '(' :: (s ++ [')'])))
  | logical {w l r : List Char} : Derives l → Spells w "and" ∨ Spells w "or" → Derives r →
      Derives (l ++ ' ' :: (w ++ ' ' :: r))

/-- The pieces a filter text is made of. -/
inductive Piece where
  | opening
  | negation (word blank : List Char)
  | closing
  | test (text : List Char)
  | connective (word : List Char)

def Piece.text : Piece → List Char
  | .opening => ['(']
  | .negation word blank => word ++ (blank ++ ['('])
  | .closing => [')']
  | .test text => text
  | .connective word => ' ' :: (word ++ [' '])

def text (ps : List Piece) : List Char := ps.flatMap Piece.text

/-- Whether an operand is due or stands there already. -/
inductive Place where
  | due | done

/-- Pieces that take turns as the grammar has it, whether or not their parentheses
match. -/
inductive Turns : Place → List Piece → Prop
  | nil : Turns .done []
  | opening {ps : List Piece} : Turns .due ps → Turns .due (.opening :: ps)
  | negation {w blank : List Char} {ps : List Piece} : Spells w "not" → Optional blank →
      Turns .due ps → Turns .due (.negation w blank :: ps)
  | test {s : List Char} {ps : List Piece} : AttrExp s → Turns .done ps →
      Turns .due (.test s :: ps)
  | closing {ps : List Piece} : Turns .done ps → Turns .done (.closing :: ps)
  | connective {w : List Char} {ps : List Piece} : Spells w "and" ∨ Spells w "or" →
      Turns .due ps → Turns .done (.connective w :: ps)

/-- Every token of the text is written as the grammar writes what stands at its place. -/
def Spelled (s : List Char) : Prop := ∃ ps, Turns .due ps ∧ s = text ps

@[simp] theorem text_nil : text [] = [] := rfl

@[simp] theorem text_cons (p : Piece) (ps : List Piece) :
    text (p :: ps) = p.text ++ text ps := flatMap_cons

@[simp] theorem text_append (ps qs : List Piece) : text (ps ++ qs) = text ps ++ text qs :=
  flatMap_append

theorem turns_of_derives {s : List Char} (h : Derives s) :
    ∃ ps, s = text ps ∧ ∀ qs, Turns .done qs → Turns .due (ps ++ qs) := by
  induction h with
  | @test s hs => exact ⟨[.test s], (append_nil s).symm, fun qs hqs => .test hs hqs⟩
  | @group s _ ih =>
    obtain ⟨ps, rfl, hps⟩ := ih
    refine ⟨.opening :: (ps ++ [.closing]), by simp [Piece.text], fun qs hqs => ?_⟩
    rw [cons_append, List.append_assoc]
    exact .opening (hps _ (.closing hqs))
  | @not w blank s hw hblank _ ih =>
    obtain ⟨ps, rfl, hps⟩ := ih
    refine ⟨.negation w blank :: (ps ++ [.closing]), by simp [Piece.text], fun qs hqs => ?_⟩
    rw [cons_append, List.append_assoc]
    exact .negation hw hblank (hps _ (.closing hqs))
  | @logical w l r _ hw _ ihl ihr =>
    obtain ⟨ps, rfl, hps⟩ := ihl
    obtain ⟨ps', rfl, hps'⟩ := ihr
    refine ⟨ps ++ .connective w :: ps', by simp [Piece.text], fun qs hqs => ?_⟩
    rw [List.append_assoc, cons_append]
    exact hps _ (.connective hw (hps' qs hqs))

theorem spelled_of_derives {s : List Char} (h : Derives s) : Spelled s := by
  obtain ⟨ps, rfl, hps⟩ := turns_of_derives h
  exact ⟨ps, append_nil ps ▸ hps [] .nil, rfl⟩

/-- The five characters a word is told from. -/
def separators : List Char := [' ', '\t', '(', ')', '"']

theorem word_of_chars {w : List Char} (hne : w ≠ []) (h : ∀ c ∈ w, c ∉ separators) : Word w := by
  refine ⟨hne, fun c hc => ⟨?_, ?_⟩, fun hhead => ?_⟩
  · rintro (rfl | rfl) <;> exact h _ hc (by decide)
  · rintro (rfl | rfl) <;> exact h _ hc (by decide)
  · obtain ⟨c, cs, rfl⟩ := exists_cons_of_ne_nil hne
    cases hhead
    exact h _ mem_cons_self (by decide)

theorem not_separator {p : Char → Bool} {c : Char} (hp : separators.all fun d => !p d)
    (hc : p c) : c ∉ separators := by
  intro hmem
  have hd := all_eq_true.1 hp c hmem
  rw [hc] at hd
  exact nomatch hd

theorem word_of_mapped {g : Char → Char} {w : List Char} {s : String} (hs : s.toList ≠ [])
    (hsolid : ∀ c ∈ s.toList, c ∉ separators) (hfix : ∀ c ∈ separators, g c = c)
    (h : w.map g = s.toList) : Word w := by
  refine word_of_chars (fun hw => hs (by rw [← h, hw]; rfl)) fun c hc hsep => ?_
  have hmem : g c ∈ s.toList := h ▸ mem_map_of_mem hc
  rw [hfix c hsep] at hmem
  exact hsolid c hmem hsep

theorem word_of_lower {w : List Char} {s : String} (hs : s.toList ≠ [])
    (hsolid : ∀ c ∈ s.toList, c ∉ separators) (h : toLower (String.ofList w) = s) : Word w := by
  refine word_of_mapped hs hsolid (g := lowerChar) (by decide) ?_
  rw [← h, toLower, String.toList_ofList, String.toList_ofList]

theorem word_of_operator {w : List Char} (h : toLower (String.ofList w) ∈ comparisonOps) :
    Word w := by
  have hall : ∀ o ∈ comparisonOps, o.toList ≠ [] ∧ ∀ c ∈ o.toList, c ∉ separators := by decide
  exact word_of_lower (hall _ h).1 (hall _ h).2 rfl

theorem word_of_spells {w : List Char} {keyword : String} (hne : keyword.toList ≠ [])
    (hsolid : ∀ c ∈ keyword.toList.map foldChar, c ∉ separators) (h : Spells w keyword) :
    Word w := by
  have hmap : w.map foldChar = (String.ofList (keyword.toList.map foldChar)).toList := by
    rw [Spells, equalFold, beq_iff_eq, String.toList_ofList] at h
    rw [String.toList_ofList, h]
  refine word_of_mapped (fun heq => hne ?_) (fun c hc => hsolid c ?_) (by decide) hmap
  · rw [String.toList_ofList] at heq
    exact map_eq_nil_iff.1 heq
  · rwa [String.toList_ofList] at hc

theorem word_of_connective {w : List Char} (h : Spells w "and" ∨ Spells w "or") : Word w := by
  rcases h with h | h <;> exact word_of_spells (by decide) (by decide) h

theorem word_of_name {w : List Char} (h : AttrName w) : w ≠ [] ∧ ∀ c ∈ w, c ∉ separators := by
  obtain ⟨⟨c, cs, rfl, _⟩, hall⟩ := h
  exact ⟨cons_ne_nil _ _, fun d hd => not_separator (by decide) (hall d hd)⟩

theorem word_of_path {w : List Char} (h : AttrPath w) : Word w := by
  obtain ⟨uri, name, sub, rfl, huri, hname, hsub⟩ := h
  have huri' : ∀ c ∈ uri, c ∉ separators := by
    rcases huri with rfl | ⟨u, hu, rfl⟩
    · exact forall_mem_nil _
    · exact forall_mem_append.2 ⟨fun c hc => not_separator (by decide) (hu.2 c hc),
        forall_mem_singleton.2 (by decide)⟩
  have hsub' : ∀ c ∈ sub, c ∉ separators := by
    rcases hsub with rfl | ⟨n, hn, rfl⟩
    · exact forall_mem_nil _
    · exact forall_mem_cons.2 ⟨by decide, (word_of_name hn).2⟩
  exact word_of_chars (by simp [(word_of_name hname).1]) (forall_mem_append.2
    ⟨huri', forall_mem_append.2 ⟨(word_of_name hname).2, hsub'⟩⟩)

theorem Digits.solid {ds : List Char} (h : Digits ds) : ∀ c ∈ ds, c ∉ separators :=
  fun c hc => not_separator (by decide) (h.2 c hc)

theorem word_of_number {v : List Char} (h : JsonNumber v) : Word v := by
  obtain ⟨sign, int, frac, exp, rfl, hsign, hint, hfrac, hexp⟩ := h
  have hsign' : ∀ c ∈ sign, c ∉ separators := by
    rcases hsign with rfl | rfl <;> decide
  have hint' : int ≠ [] ∧ ∀ c ∈ int, c ∉ separators := by
    rcases hint with rfl | ⟨hint, _⟩
    · decide
    · exact ⟨hint.1, hint.solid⟩
  have hfrac' : ∀ c ∈ frac, c ∉ separators := by
    rcases hfrac with rfl | ⟨ds, hds, rfl⟩
    · exact forall_mem_nil _
    · exact forall_mem_cons.2 ⟨by decide, hds.solid⟩
  have hexp' : ∀ c ∈ exp, c ∉ separators := by
    rcases hexp with rfl | ⟨e, s, ds, he, hs, hds, rfl⟩
    · exact forall_mem_nil _
    · refine forall_mem_cons.2 ⟨?_, forall_mem_append.2 ⟨?_, hds.solid⟩⟩
      · rcases he with rfl | rfl <;> decide
      · rcases hs with rfl | rfl | rfl <;> decide
  exact word_of_chars (by simp [hint'.1]) (forall_mem_append.2 ⟨hsign',
    forall_mem_append.2 ⟨hint'.2, forall_mem_append.2 ⟨hfrac', hexp'⟩⟩⟩)

theorem tokenize_hex {hex : List Char} (h : ∀ c ∈ hex, isHex c) (q rest : List Char) :
    tokenizeFrom (hex ++ rest) (.quoted q) = tokenizeFrom rest (.quoted (q ++ hex)) := by
  induction hex generalizing q with
  | nil => rw [nil_append, append_nil]
  | cons c cs ih =>
    obtain ⟨hc, hcs⟩ := forall_mem_cons.1 h
    have hslash : c ≠ '\\' := fun heq => by subst heq; exact absurd hc (by decide)
    have hquote : c ≠ '"' := fun heq => by subst heq; exact absurd hc (by decide)
    rw [cons_append, tokenize_quoted q _ hslash hquote, ih hcs, List.append_assoc]
    rfl

theorem tokenize_jsonChars {cs : List Char} (h : JsonChars cs) (q rest : List Char) :
    ∃ r, tokenizeFrom (cs ++ '"' :: rest) (.quoted q) =
      push ⟨r, true⟩ (tokenizeFrom rest .outside) := by
  induction h generalizing q with
  | nil => exact ⟨_, tokenize_endQuote q rest⟩
  | @plain c cs hquote hslash _ _ ih =>
    obtain ⟨r, hr⟩ := ih (q ++ [c])
    exact ⟨r, (tokenize_quoted q _ hslash hquote).trans hr⟩
  | @escape c cs _ _ ih =>
    obtain ⟨r, hr⟩ := ih (q ++ [c])
    exact ⟨r, (tokenize_escape q _ c).trans hr⟩
  | @unicode hex cs _ hhex _ ih =>
    obtain ⟨r, hr⟩ := ih (q ++ ['u'] ++ hex)
    refine ⟨r, ?_⟩
    show tokenizeFrom ('\\' :: 'u' :: (hex ++ cs ++ '"' :: rest)) _ = _
    rw [tokenize_escape, List.append_assoc, tokenize_hex hhex, hr]

theorem tokenize_value {v : List Char} (h : CompValue v) {rest : List Char}
    (hrest : Delimits rest) :
    ∃ t, tokenizeFrom (v ++ rest) .outside = push t (tokenizeFrom rest .outside) := by
  rcases h with h | h | ⟨cs, hcs, rfl⟩
  · have hword : Word v := (by decide : ∀ w ∈ ["true".toList, "false".toList, "null".toList],
      Word w) v h
    exact ⟨_, tokenize_word hword hrest⟩
  · exact ⟨_, tokenize_word (word_of_number h) hrest⟩
  · obtain ⟨r, hr⟩ := tokenize_jsonChars hcs [] rest
    refine ⟨⟨r, true⟩, ?_⟩
    rw [cons_append, tokenize_string, List.append_assoc]
    exact hr

/-- The tokens of pieces in turn. -/
inductive Aligned : Place → List Piece → List Token → Prop
  | nil : Aligned .done [] []
  | opening {ps : List Piece} {ts : List Token} : Aligned .due ps ts →
      Aligned .due (.opening :: ps) (⟨"(", false⟩ :: ts)
  | negation {w blank : List Char} {ps : List Piece} {ts : List Token} : Spells w "not" →
      Optional blank → Aligned .due ps ts →
      Aligned .due (.negation w blank :: ps) (⟨String.ofList w, false⟩ :: ⟨"(", false⟩ :: ts)
  | present {s attr op : List Char} {ps : List Piece} {ts : List Token} : AttrExp s →
      ¬ Spells attr "not" → Word attr → toLower (String.ofList op) = "pr" → Aligned .done ps ts →
      Aligned .due (.test s :: ps) (⟨String.ofList attr, false⟩ :: ⟨String.ofList op, false⟩ :: ts)
  | compare {s attr op : List Char} {val : Token} {ps : List Piece} {ts : List Token} :
      AttrExp s → ¬ Spells attr "not" → Word attr →
      toLower (String.ofList op) ∈ comparisonOps → Aligned .done ps ts →
      Aligned .due (.test s :: ps)
        (⟨String.ofList attr, false⟩ :: ⟨String.ofList op, false⟩ :: val :: ts)
  | closing {ps : List Piece} {ts : List Token} : Aligned .done ps ts →
      Aligned .done (.closing :: ps) (⟨")", false⟩ :: ts)
  | connective {w : List Char} {ps : List Piece} {ts : List Token} :
      Spells w "and" ∨ Spells w "or" → Aligned .due ps ts →
      Aligned .done (.connective w :: ps) (⟨String.ofList w, false⟩ :: ts)

theorem delimits_done {ps : List Piece} (h : Turns .done ps) : Delimits (text ps) := by
  cases h with
  | nil => exact delimits_nil
  | closing => exact delimits_cons (.inr (.inr rfl))
  | connective => exact delimits_cons (.inl (.inl rfl))

theorem not_opens_of_word {w : List Char} (h : Word w) : ¬ Opens ⟨String.ofList w, false⟩ :=
  Word.not_opens (by rwa [String.toList_ofList])

theorem blank_delimits (cs : List Char) : Delimits (' ' :: cs) := delimits_cons (.inl (.inl rfl))

theorem tokenize_attrExp {s rest : List Char} {ts : List Token} (h : AttrExp s)
    (hrest : Delimits rest) (hts : tokenizeFrom rest .outside = .ok ts) :
    ∃ us, tokenizeFrom (s ++ rest) .outside = .ok us ∧
      ∀ ps, Aligned .done ps ts → Aligned .due (.test s :: ps) us := by
  cases h with
  | @present attr op hattr hnot hop =>
    have hword : Word op := word_of_lower (by decide) (by decide) hop
    refine ⟨⟨String.ofList attr, false⟩ :: ⟨String.ofList op, false⟩ :: ts, ?_, fun ps hps =>
      .present (.present hattr hnot hop) hnot (word_of_path hattr) hop hps⟩
    rw [List.append_assoc, cons_append, tokenize_word (word_of_path hattr)
      (blank_delimits _), tokenize_blank _ (.inl rfl), tokenize_word hword hrest, hts, push_ok,
      push_ok]
  | @compare attr op val hattr hnot hop hval =>
    obtain ⟨v, hv⟩ := tokenize_value hval hrest
    refine ⟨⟨String.ofList attr, false⟩ :: ⟨String.ofList op, false⟩ :: v :: ts, ?_, fun ps hps =>
      .compare (.compare hattr hnot hop hval) hnot (word_of_path hattr) hop hps⟩
    rw [List.append_assoc, cons_append, tokenize_word (word_of_path hattr)
      (blank_delimits _), tokenize_blank _ (.inl rfl), List.append_assoc, cons_append,
      tokenize_word (word_of_operator hop) (blank_delimits _), tokenize_blank _ (.inl rfl), hv,
      hts, push_ok, push_ok, push_ok]

theorem tokenize_opening {rest : List Char} {ts : List Token}
    (hts : tokenizeFrom rest .outside = .ok ts) :
    tokenizeFrom ('(' :: rest) .outside = .ok (⟨"(", false⟩ :: ts) := by
  rw [tokenize_paren _ (.inl rfl), hts]
  rfl

theorem tokenize_turns {place : Place} {ps : List Piece} (h : Turns place ps) :
    ∃ ts, tokenizeFrom (text ps) .outside = .ok ts ∧ Aligned place ps ts := by
  induction h with
  | nil => exact ⟨[], rfl, .nil⟩
  | @opening ps _ ih =>
    obtain ⟨ts, hts, hal⟩ := ih
    exact ⟨⟨"(", false⟩ :: ts, tokenize_opening hts, .opening hal⟩
  | @negation w blank ps hw hblank _ ih =>
    obtain ⟨ts, hts, hal⟩ := ih
    have hword : Word w := word_of_spells (by decide) (by decide) hw
    refine ⟨⟨String.ofList w, false⟩ :: ⟨"(", false⟩ :: ts, ?_, .negation hw hblank hal⟩
    show tokenizeFrom (w ++ (blank ++ ['(']) ++ text ps) _ = _
    rw [List.append_assoc, List.append_assoc, singleton_append]
    rcases hblank with rfl | rfl
    · rw [nil_append, tokenize_word hword (delimits_cons (.inr (.inl rfl))),
        tokenize_opening hts, push_ok]
    · rw [singleton_append, tokenize_word hword (blank_delimits _),
        tokenize_blank _ (.inl rfl), tokenize_opening hts, push_ok]
  | @test s ps hs hps ih =>
    obtain ⟨ts, hts, hal⟩ := ih
    obtain ⟨us, hus, hal'⟩ := tokenize_attrExp hs (delimits_done hps) hts
    exact ⟨us, hus, hal' ps hal⟩
  | @closing ps _ ih =>
    obtain ⟨ts, hts, hal⟩ := ih
    refine ⟨⟨")", false⟩ :: ts, ?_, .closing hal⟩
    show tokenizeFrom (')' :: text ps) _ = _
    rw [tokenize_paren _ (.inr rfl), hts]
    rfl
  | @connective w ps hw _ ih =>
    obtain ⟨ts, hts, hal⟩ := ih
    refine ⟨⟨String.ofList w, false⟩ :: ts, ?_, .connective hw hal⟩
    show tokenizeFrom (' ' :: (w ++ [' ']) ++ text ps) _ = _
    rw [cons_append, tokenize_blank _ (.inl rfl), List.append_assoc, singleton_append,
      tokenize_word (word_of_connective hw) (blank_delimits _), tokenize_blank _ (.inl rfl), hts,
      push_ok]

section

variable {isFloat : String → Bool}

theorem derives_ne_nil {s : List Char} (h : Derives s) : s ≠ [] := by
  cases h with
  | test hs => cases hs <;> simp
  | group => exact cons_ne_nil _ _
  | not => simp
  | logical => simp

/-- What an operand leaves behind its opening parenthesis. -/
def Encloses (qs : List Piece) : Prop :=
  ∀ qs', qs = .opening :: qs' → ∃ s, Derives s ∧ text qs' = s ++ [')']

theorem derives_join {t : Token} {mid rest : List Token} {qs ps : List Piece}
    (hqs : Derives (text qs)) (hal : Aligned .done ps (t :: mid)) (ht : t.text ≠ ")")
    (hright : ∀ ps, Aligned .due ps mid → ∃ qs ps', ps = qs ++ ps' ∧ Aligned .done ps' rest ∧
      Derives (text qs)) :
    ∃ qs' ps', qs ++ ps = qs' ++ ps' ∧ Aligned .done ps' rest ∧ Derives (text qs') := by
  cases hal with
  | closing => exact absurd rfl ht
  | @connective w ps _ hw hal =>
    obtain ⟨qs', ps', rfl, hal', hqs'⟩ := hright ps hal
    refine ⟨qs ++ .connective w :: qs', ps', by simp, hal', ?_⟩
    simpa [Piece.text] using hqs.logical hw hqs'

theorem derives_of_reads {level : Level} {ts rest : List Token} {f : Filter}
    (h : Reads isFloat level ts f rest) :
    ∀ ps, Aligned .due ps ts → ∃ qs ps', ps = qs ++ ps' ∧ Aligned .done ps' rest ∧
      Derives (text qs) ∧ (level = .operand → Encloses qs) := by
  induction h with
  | @present attr op rest hnot ht hop =>
    intro ps hps
    cases hps with
    | opening => exact absurd ⟨rfl, rfl⟩ ht
    | negation hw => exact absurd hw (Bool.eq_false_iff.1 hnot)
    | @present s _ _ ps _ hs _ _ _ hal =>
      exact ⟨[.test s], ps, rfl, hal, by simpa [Piece.text] using Derives.test hs,
        fun _ _ heq => nomatch heq⟩
    | compare _ _ _ hop' => exact absurd (hop ▸ hop') (by decide)
  | @compare attr op val rest hnot ht hop =>
    intro ps hps
    cases hps with
    | opening => exact absurd ⟨rfl, rfl⟩ ht
    | negation hw => exact absurd hw (Bool.eq_false_iff.1 hnot)
    | present _ _ _ hop' => exact absurd (hop' ▸ hop) (by decide)
    | @compare s _ _ _ ps _ hs _ _ _ hal =>
      exact ⟨[.test s], ps, rfl, hal, by simpa [Piece.text] using Derives.test hs,
        fun _ _ heq => nomatch heq⟩
  | @not t ts rest f ht _ ih =>
    intro ps hps
    cases hps with
    | opening => exact absurd ht (by decide)
    | @negation w blank ps ts hw hblank hal =>
      obtain ⟨qs, ps', heq, hal', hqs, henc⟩ := ih _ (.opening hal)
      cases qs with
      | nil => exact absurd rfl (derives_ne_nil hqs)
      | cons q qs =>
        cases heq
        obtain ⟨s, hs, htext⟩ := henc rfl qs rfl
        refine ⟨.negation w blank :: qs, ps', rfl, hal', ?_, fun _ _ heq => nomatch heq⟩
        have hnot := Derives.not hw hblank hs
        rw [text_cons, Piece.text, htext]
        simpa using hnot
    | present _ hnot => exact absurd ht hnot
    | compare _ hnot => exact absurd ht hnot
  | @group t c ts rest f ht _ hc ih =>
    intro ps hps
    cases hps with
    | @opening ps ts hal =>
      obtain ⟨qs, ps', rfl, hal', hqs, _⟩ := ih ps hal
      cases hal' with
      | @closing ps' ts hal' =>
        refine ⟨.opening :: (qs ++ [.closing]), ps', by simp, hal', ?_, fun _ qs' heq => ?_⟩
        · simpa [Piece.text] using hqs.group
        · cases heq
          exact ⟨text qs, hqs, by simp [Piece.text]⟩
      | connective hw =>
        have hw' : ∀ word, equalFold ")" word = false → ¬ Spells _ word := fun word hne hw =>
          absurd (isKeyword_close hc hne) (Bool.eq_false_iff.not.2 (not_not.2 hw))
        rcases hw with hw | hw
        · exact absurd hw ( hw' "and" (by decide))
        · exact absurd hw ( hw' "or" (by decide))
    | @negation w _ _ _ hw =>
      have hparen : equalFold (String.ofList w) "not" = true := hw
      rw [show String.ofList w = "(" from ht.2] at hparen
      exact absurd hparen (by decide)
    | present _ _ hword => exact absurd ht (not_opens_of_word hword)
    | compare _ _ hword => exact absurd ht (not_opens_of_word hword)
  | @operand ts rest f _ ih =>
    intro ps hps
    obtain ⟨qs, ps', heq, hal, hqs, _⟩ := ih ps hps
    exact ⟨qs, ps', heq, hal, hqs, fun hlevel => nomatch hlevel⟩
  | @and t ts mid rest l r _ ht _ ihl ihr =>
    intro ps hps
    obtain ⟨qs, ps', rfl, hal, hqs, _⟩ := ihl ps hps
    have hclose : t.text ≠ ")" := fun hc =>
      Bool.eq_false_iff.1 (isKeyword_close hc (by decide)) ht
    obtain ⟨qs', ps'', heq, hal', hqs'⟩ := derives_join hqs hal hclose fun ps hps =>
      (ihr ps hps).imp fun _ h => h.imp fun _ h => ⟨h.1, h.2.1, h.2.2.1⟩
    exact ⟨qs', ps'', heq, hal', hqs', fun hlevel => nomatch hlevel⟩
  | @conjunction ts rest f _ ih =>
    intro ps hps
    obtain ⟨qs, ps', heq, hal, hqs, _⟩ := ih ps hps
    exact ⟨qs, ps', heq, hal, hqs, fun hlevel => nomatch hlevel⟩
  | @or t ts mid rest l r _ ht _ ihl ihr =>
    intro ps hps
    obtain ⟨qs, ps', rfl, hal, hqs, _⟩ := ihl ps hps
    have hclose : t.text ≠ ")" := fun hc =>
      Bool.eq_false_iff.1 (isKeyword_close hc (by decide)) ht
    obtain ⟨qs', ps'', heq, hal', hqs'⟩ := derives_join hqs hal hclose fun ps hps =>
      (ihr ps hps).imp fun _ h => h.imp fun _ h => ⟨h.1, h.2.1, h.2.2.1⟩
    exact ⟨qs', ps'', heq, hal', hqs', fun hlevel => nomatch hlevel⟩

end

/-- An accepted text is derivable exactly when every token of it is spelled as the
grammar spells what stands there. -/
theorem accepted_derives_iff (isFloat : String → Bool) (s : List Char) (f : Filter)
    (h : parseFilter isFloat s = .ok f) : Derives s ↔ Spelled s := by
  refine ⟨spelled_of_derives, ?_⟩
  rintro ⟨ps, hps, rfl⟩
  obtain ⟨ts, hts, hread⟩ := parseFilter_ok.1 h
  obtain ⟨us, hus, hal⟩ := tokenize_turns hps
  cases hus.symm.trans (tokenizeFilter_ok hts)
  obtain ⟨qs, ps', rfl, hrest, hqs, _⟩ := derives_of_reads hread ps hal
  cases hrest
  rwa [append_nil]

def Strung (ts : List Token) : Prop :=
  (∀ t ∈ ts.head?, t.quoted = false) ∧
    ts.IsChain fun t u => u.quoted = true → toLower t.text ∈ comparisonOps

/-- A word or a parenthesis may stand in front of anything. -/
theorem Strung.bare {t : Token} {ts : List Token} (ht : t.quoted = false) (h : Strung ts) :
    Strung (t :: ts) := by
  refine ⟨by simpa using ht, isChain_cons.2 ⟨fun u hu hq => ?_, h.2⟩⟩
  rw [h.1 u hu] at hq
  exact nomatch hq

theorem Strung.value {op val : Token} {ts : List Token} (hbare : op.quoted = false)
    (hop : toLower op.text ∈ comparisonOps) (h : Strung ts) : Strung (op :: val :: ts) := by
  refine ⟨by simpa using hbare, isChain_cons.2 ⟨fun u hu _ => hop,
    isChain_cons.2 ⟨fun u hu hq => ?_, h.2⟩⟩⟩
  rw [h.1 u hu] at hq
  exact nomatch hq

theorem strung_aligned {place : Place} {ps : List Piece} {ts : List Token}
    (h : Aligned place ps ts) : Strung ts := by
  induction h with
  | nil => exact ⟨fun _ ht => absurd ht (by simp), .nil⟩
  | opening _ ih => exact ih.bare rfl
  | negation _ _ _ ih => exact (ih.bare rfl).bare rfl
  | present _ _ _ _ _ ih => exact (ih.bare rfl).bare rfl
  | @compare s attr op val ps ts _ _ _ hop _ ih =>
    have hvalue : Strung (⟨String.ofList op, false⟩ :: val :: ts) := ih.value rfl hop
    exact hvalue.bare rfl
  | closing _ ih => exact ih.bare rfl
  | connective _ _ ih => exact ih.bare rfl

theorem strung_derives {s : List Char} {ts : List Token} (h : Derives s)
    (hts : tokenizeFilter s = .ok ts) : Strung ts := by
  obtain ⟨ps, hps, rfl⟩ := spelled_of_derives h
  obtain ⟨us, hus, hal⟩ := tokenize_turns hps
  cases hus.symm.trans (tokenizeFilter_ok hts)
  exact strung_aligned hal

/-- A string with the text of a parenthesis closes a group. -/
theorem quoted_parenthesis_closes :
    parseFilter (fun _ => false) "(type eq \"a\" \")\"".toList =
        .ok (.compare "eq" "type" (.text "a")) ∧
      ¬ Derives "(type eq \"a\" \")\"".toList := by
  have htokens : tokenizeFilter "(type eq \"a\" \")\"".toList =
      .ok [⟨"(", false⟩, ⟨"type", false⟩, ⟨"eq", false⟩, ⟨"a", true⟩, ⟨")", true⟩] := rfl
  refine ⟨parseFilter_ok.2 ⟨_, htokens, ?_⟩, fun h => ?_⟩
  · have hread : Reads (fun _ => false) .operand
        [⟨"type", false⟩, ⟨"eq", false⟩, ⟨"a", true⟩, ⟨")", true⟩]
        (.compare "eq" "type" (.text "a")) [⟨")", true⟩] :=
      .compare (by decide) (by decide) (by decide)
    exact (Reads.group ⟨rfl, rfl⟩ hread.lift rfl).lift
  · exact absurd (strung_derives h htokens).2 (by decide)

theorem accepted_derives_iff_sample :
    Derives "not(type pr)".toList ↔ Spelled "not(type pr)".toList := by
  have hread : Reads (fun _ => false) .operand
      [⟨"type", false⟩, ⟨"pr", false⟩, ⟨")", false⟩] (.present "type") [⟨")", false⟩] :=
    .present (by decide) (by decide) (by decide)
  exact accepted_derives_iff (fun _ => false) _ (.not (.present "type"))
    (parseFilter_ok.2 ⟨[⟨"not", false⟩, ⟨"(", false⟩, ⟨"type", false⟩, ⟨"pr", false⟩, ⟨")", false⟩],
      rfl, (Reads.not (by decide) (Reads.group ⟨rfl, rfl⟩ hread.lift rfl)).lift⟩)

end Signari.FilterGrammar
