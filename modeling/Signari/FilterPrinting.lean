import Signari.FilterSyntax

/-!
# Printing filters and reading them back

The printer goes by the levels of the parser in `internal/scim/path.go`: an `or` stands
bare only where anything may stand, an `and` only where operands may be joined, and
everything else sets parentheses around itself. Tokens are separated by one space, save
at the inside of a parenthesis; a text value is a string whose quotes and backslashes
are escaped, and any other value is the bare word it was read from.

The name `not` is no attribute for it: the word is the negation wherever an operand begins.
-/
namespace Signari.FilterPrinting
open GoStrings IndexedChecks ScimPath FilterSyntax List

attribute [local instance] decidableAlong

def word (s : String) : Token := ⟨s, false⟩

/-- A value as the token it is read from. -/
def literalToken : Literal → Token
  | .text s => ⟨s, true⟩
  | .bool true => word "true"
  | .bool false => word "false"
  | .null => word "null"
  | .number t => word t

/-- Parentheses where the level needs them. -/
def grouped (needed : Bool) (ts : List Token) : List Token :=
  if needed then word "(" :: (ts ++ [word ")"]) else ts

def tokensAt : Level → Filter → List Token
  | _, .compare op attr value => [word attr, word op, literalToken value]
  | _, .present attr => [word attr, word "pr"]
  | _, .not f => word "not" :: tokensAt .operand f
  | level, .and l r =>
    grouped (level = .operand) (tokensAt .conjunction l ++ word "and" :: tokensAt .operand r)
  | level, .or l r =>
    grouped (level ≠ .disjunction) (tokensAt .disjunction l ++ word "or" :: tokensAt .conjunction r)

def escapeChar (c : Char) : List Char := if c = '"' ∨ c = '\\' then ['\\', c] else [c]

def printToken (t : Token) : List Char :=
  if t.quoted then '"' :: (t.text.toList.flatMap escapeChar ++ ['"']) else t.text.toList

/-- The space between two tokens. -/
def gap (t u : Token) : List Char := if t = word "(" ∨ u = word ")" then [] else [' ']

def printTokens : List Token → List Char
  | [] => []
  | [t] => printToken t
  | t :: u :: ts => printToken t ++ (gap t u ++ printTokens (u :: ts))

/-- The canonical text of a filter. -/
def printFilter (f : Filter) : List Char := printTokens (tokensAt .disjunction f)

/-- An attribute the parser can be given by name. -/
structure Nameable (attr : String) : Prop where
  word : Word attr.toList
  lower : toLower attr = attr
  operand : equalFold attr "not" = false

/-- The trees the printer has a text for. -/
def Printable (isFloat : String → Bool) : Filter → Prop
  | .compare op attr value => op ∈ comparisonOps ∧ Nameable attr ∧
      match value with
      | .number t => Word t.toList ∧ literal isFloat (word t) = .number t
      | _ => True
  | .present attr => Nameable attr
  | .and l r | .or l r => Printable isFloat l ∧ Printable isFloat r
  | .not f => Printable isFloat f

/-- A token that its own text is read back into. -/
def Legible (t : Token) : Prop :=
  t.quoted = true ∨ t = word "(" ∨ t = word ")" ∨ t.quoted = false ∧ Word t.text.toList

theorem tokenize_escaped (s rest q : List Char) :
    tokenizeFrom (s.flatMap escapeChar ++ '"' :: rest) (.quoted q) =
      push ⟨String.ofList (q ++ s), true⟩ (tokenizeFrom rest .outside) := by
  induction s generalizing q with
  | nil => rw [flatMap_nil, nil_append, append_nil, tokenize_endQuote]
  | cons c cs ih =>
    rw [flatMap_cons, escapeChar]
    by_cases hc : c = '"' ∨ c = '\\'
    · rw [if_pos hc]
      show tokenizeFrom ('\\' :: c :: (cs.flatMap escapeChar ++ '"' :: rest)) _ = _
      rw [tokenize_escape, ih, List.append_assoc]
      rfl
    · rw [if_neg hc]
      show tokenizeFrom (c :: (cs.flatMap escapeChar ++ '"' :: rest)) _ = _
      rw [tokenize_quoted _ _ (fun h => hc (.inr h)) (fun h => hc (.inl h)), ih, List.append_assoc]
      rfl

theorem tokenize_printToken {t : Token} {rest : List Char} (ht : Legible t)
    (hrest : t.quoted = true ∨ t = word "(" ∨ Delimits rest) :
    tokenizeFrom (printToken t ++ rest) .outside = push t (tokenizeFrom rest .outside) := by
  rcases ht with hquoted | rfl | rfl | ⟨hbare, hword⟩
  · obtain ⟨text, quoted⟩ := t
    obtain rfl : quoted = true := hquoted
    show tokenizeFrom ('"' :: (text.toList.flatMap escapeChar ++ ['"']) ++ rest) .outside = _
    rw [cons_append, tokenize_string, List.append_assoc, singleton_append,
      tokenize_escaped, nil_append, String.ofList_toList]
  · exact tokenize_paren rest (.inl rfl)
  · exact tokenize_paren rest (.inr rfl)
  · obtain ⟨text, quoted⟩ := t
    obtain rfl : quoted = false := hbare
    have hdelim : Delimits rest := by
      rcases hrest with h | h | h
      · cases h
      · cases h
        exact absurd (.inl rfl) (hword.solid '(' mem_cons_self).2
      · exact h
    show tokenizeFrom (text.toList ++ rest) .outside = _
    rw [tokenize_word hword hdelim, String.ofList_toList]

theorem tokenize_printTokens {ts : List Token} (h : ∀ t ∈ ts, Legible t) :
    tokenizeFrom (printTokens ts) .outside = .ok ts := by
  induction ts with
  | nil => rfl
  | cons t ts ih =>
    obtain ⟨ht, hts⟩ := forall_mem_cons.1 h
    cases ts with
    | nil =>
      rw [printTokens, ← append_nil (printToken t),
        tokenize_printToken ht (.inr (.inr delimits_nil))]
      rfl
    | cons u us =>
      rw [printTokens]
      by_cases hopen : t = word "("
      · rw [tokenize_printToken ht (.inr (.inl hopen)), gap, if_pos (.inl hopen), nil_append,
          ih hts, push_ok]
      · by_cases hclose : u = word ")"
        · rw [gap, if_pos (.inr hclose), nil_append, tokenize_printToken ht, ih hts, push_ok]
          subst hclose
          refine .inr (.inr ?_)
          cases us <;> exact delimits_cons (.inr (.inr rfl))
        · rw [gap, if_neg (not_or.2 ⟨hopen, hclose⟩), singleton_append,
            tokenize_printToken ht (.inr (.inr (delimits_cons (.inl (.inl rfl))))),
            tokenize_blank _ (.inl rfl), ih hts, push_ok]

section

variable {isFloat : String → Bool}

theorem literal_literalToken {v : Literal}
    (h : ∀ t, v = .number t → literal isFloat (word t) = .number t) :
    literal isFloat (literalToken v) = v := by
  rcases v with s | b | _ | t
  · rfl
  · cases b <;> rfl
  · rfl
  · exact h t rfl

theorem reads_grouped {needed : Bool} {level : Level} {ts rest : List Token} {f : Filter}
    (hbare : needed = false → Reads isFloat level (ts ++ rest) f rest)
    (hgroup : Reads isFloat .disjunction (ts ++ word ")" :: rest) f (word ")" :: rest)) :
    Reads isFloat level (grouped needed ts ++ rest) f rest := by
  cases needed with
  | false => exact hbare rfl
  | true =>
    show Reads isFloat level (word "(" :: (ts ++ [word ")"] ++ rest)) f rest
    rw [List.append_assoc, singleton_append]
    exact (Reads.group ⟨rfl, rfl⟩ hgroup rfl).lift

theorem reads_tokensAt {f : Filter} (hf : Printable isFloat f) (level : Level)
    (rest : List Token) : Reads isFloat level (tokensAt level f ++ rest) f rest := by
  induction f generalizing level rest with
  | compare op attr value =>
    obtain ⟨hop, hattr, hvalue⟩ := hf
    have hlower : toLower op = op := (by decide : ∀ o ∈ comparisonOps, toLower o = o) op hop
    have hlit : literal isFloat (literalToken value) = value :=
      literal_literalToken fun t heq => by subst heq; exact hvalue.2
    have hread : Reads isFloat .operand (word attr :: word op :: literalToken value :: rest)
        (.compare (toLower op) (toLower attr) (literal isFloat (literalToken value))) rest :=
      .compare (Bool.and_eq_false_iff.2 (.inr hattr.operand)) (Word.not_opens hattr.word)
        (by rwa [word, hlower])
    rw [hlower, hattr.lower, hlit] at hread
    exact hread.lift
  | present attr =>
    have hread : Reads isFloat .operand (word attr :: word "pr" :: rest)
        (.present (toLower attr)) rest :=
      .present (Bool.and_eq_false_iff.2 (.inr hf.operand)) (Word.not_opens hf.word) (by decide)
    rw [hf.lower] at hread
    exact hread.lift
  | and l r ihl ihr =>
    have hjoin : ∀ rest, Reads isFloat .conjunction
        (tokensAt .conjunction l ++ word "and" :: tokensAt .operand r ++ rest) (.and l r) rest := by
      intro rest
      rw [List.append_assoc, cons_append]
      exact (ihl hf.1 .conjunction _).and (by decide) (ihr hf.2 .operand rest)
    refine reads_grouped (fun hneeded => ?_) (hjoin _).conjunction
    cases level with
    | operand => exact nomatch hneeded
    | conjunction => exact hjoin rest
    | disjunction => exact (hjoin rest).conjunction
  | or l r ihl ihr =>
    have hjoin : ∀ rest, Reads isFloat .disjunction
        (tokensAt .disjunction l ++ word "or" :: tokensAt .conjunction r ++ rest)
        (.or l r) rest := by
      intro rest
      rw [List.append_assoc, cons_append]
      exact (ihl hf.1 .disjunction _).or (by decide) (ihr hf.2 .conjunction rest)
    refine reads_grouped (fun hneeded => ?_) (hjoin _)
    cases level with
    | operand => exact nomatch hneeded
    | conjunction => exact nomatch hneeded
    | disjunction => exact hjoin rest
  | not f ih => exact (Reads.not (by decide) (ih hf .operand rest)).lift

theorem legible_word {s : String} (h : Word s.toList) : Legible (word s) :=
  .inr (.inr (.inr ⟨rfl, h⟩))

theorem legible_grouped {needed : Bool} {ts : List Token} (h : ∀ t ∈ ts, Legible t) :
    ∀ t ∈ grouped needed ts, Legible t := by
  cases needed with
  | false => exact h
  | true =>
    intro t ht
    rcases mem_cons.1 ht with rfl | ht
    · exact .inr (.inl rfl)
    · rcases mem_append.1 ht with ht | ht
      · exact h t ht
      · exact .inr (.inr (.inl (mem_singleton.1 ht)))

theorem legible_tokensAt {f : Filter} (hf : Printable isFloat f) (level : Level) :
    ∀ t ∈ tokensAt level f, Legible t := by
  induction f generalizing level with
  | compare op attr value =>
    obtain ⟨hop, hattr, hvalue⟩ := hf
    have hlit : Legible (literalToken value) := by
      rcases value with s | b | _ | t
      · exact .inl rfl
      · cases b <;> exact legible_word (by decide)
      · exact legible_word (by decide)
      · exact legible_word hvalue.1
    simp only [tokensAt, forall_mem_cons]
    exact ⟨legible_word hattr.word, legible_word
      ((by decide : ∀ o ∈ comparisonOps, Word o.toList) op hop), hlit, forall_mem_nil _⟩
  | present attr =>
    simp only [tokensAt, forall_mem_cons]
    exact ⟨legible_word hf.word, legible_word (by decide), forall_mem_nil _⟩
  | and l r ihl ihr | or l r ihl ihr =>
    refine legible_grouped (forall_mem_append.2 ⟨ihl hf.1 _, forall_mem_cons.2
      ⟨legible_word (by decide), ihr hf.2 _⟩⟩)
  | not f ih => exact forall_mem_cons.2 ⟨legible_word (by decide), ih hf _⟩

end

theorem tokensAt_ne_nil (level : Level) (f : Filter) : tokensAt level f ≠ [] := by
  induction f generalizing level with
  | and l r => cases level <;> simp [tokensAt, grouped]
  | or l r => cases level <;> simp [tokensAt, grouped]
  | _ => exact cons_ne_nil _ _

/-- Parsing inverts printing: `not` binds its operand, `and` and `or` what their
levels hold, each with the trees to its left. -/
theorem parseFilter_printFilter (isFloat : String → Bool) (f : Filter)
    (hf : Printable isFloat f) : parseFilter isFloat (printFilter f) = .ok f := by
  have htokens := tokenize_printTokens (legible_tokensAt hf .disjunction)
  have hread := reads_tokensAt hf .disjunction []
  rw [append_nil] at hread
  exact parseFilter_ok.2 ⟨_, tokenizeFilter_of htokens (tokensAt_ne_nil _ _), hread⟩

example :
    String.ofList (printFilter (.or (.and (.not (.present "a")) (.present "b"))
      (.not (.and (.present "c") (.compare "eq" "d" (.text "\"")))))) =
      "not a pr and b pr or not (c pr and d eq \"\\\"\")" := by decide

theorem nameable_type : Nameable "type" := ⟨by decide, by decide, by decide⟩

def sample : Filter :=
  .and (.or (.present "type") (.not (.compare "sw" "type" (.text "a\\\"")))) (.present "type")

theorem parseFilter_printFilter_sample :
    parseFilter (fun _ => false) (printFilter sample) = .ok sample :=
  parseFilter_printFilter (fun _ => false) sample
    ⟨⟨nameable_type, by decide, nameable_type, trivial⟩, nameable_type⟩

/-- A comparison of an attribute named `not` prints to a negation of no filter. -/
theorem parseFilter_printFilter_not :
    ¬∃ f, parseFilter (fun _ => false) (printFilter (.compare "eq" "not" (.text "x"))) = .ok f := by
  rintro ⟨f, h⟩
  obtain ⟨ts, hts, hread⟩ := parseFilter_ok.1 h
  cases (rfl : tokenizeFilter (printFilter (.compare "eq" "not" (.text "x"))) =
    .ok [word "not", word "eq", ⟨"x", true⟩]).symm.trans hts
  have hor := (parse_of_reads hread (halts_nil _)).trans (orRestOf_nil f)
  rw [orOf_eq, andOf_eq, unaryOf_not _ (by decide),
    unaryOf_comparison _ (by decide) (by decide)] at hor
  exact nomatch hor

end Signari.FilterPrinting
