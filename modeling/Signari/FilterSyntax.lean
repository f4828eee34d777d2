import Mathlib
import Signari.ScimPath

/-!
# The grammar that the filter parser recognises

`parseOr`, `parseAnd` and `parseUnary` of `internal/scim/path.go` are a recursive descent with two
loops. `Reads` is the grammar read off them, as a relation between the tokens before and after a
filter: an operand is a comparison, a negated operand or a parenthesised filter, `and` joins
operands, `or` joins what `and` has joined, and both associate to the left.

Below the grammar stands the tokenizer: what it makes of a word, of a parenthesis and of
a string, in front of any text that lets the token end.
-/
namespace Signari.FilterSyntax
open GoStrings IndexedChecks ScimPath List

attribute [local instance] decidableAlong

/-- What may stand at a place of a filter: anything, operands joined by `and`, or one
operand. -/
inductive Level where
  | disjunction | conjunction | operand
  deriving DecidableEq

/-- Whether the token opens a group for the parser. -/
abbrev Opens (t : Token) : Prop := t.quoted = false ∧ t.text = "("

/-- The filter grammar, between the tokens before and after a filter. -/
inductive Reads (isFloat : String → Bool) :
    Level → List Token → Filter → List Token → Prop
  | present {attr op : Token} {rest : List Token} :
      isKeyword attr "not" = false → ¬ Opens attr → toLower op.text = "pr" →
      Reads isFloat .operand (attr :: op :: rest) (.present (toLower attr.text)) rest
  | compare {attr op val : Token} {rest : List Token} :
      isKeyword attr "not" = false → ¬ Opens attr → toLower op.text ∈ comparisonOps →
      Reads isFloat .operand (attr :: op :: val :: rest)
        (.compare (toLower op.text) (toLower attr.text) (literal isFloat val)) rest
  | not {t : Token} {ts rest : List Token} {f : Filter} :
      isKeyword t "not" → Reads isFloat .operand ts f rest →
      Reads isFloat .operand (t :: ts) (.not f) rest
  | group {t c : Token} {ts rest : List Token} {f : Filter} :
      Opens t → Reads isFloat .disjunction ts f (c :: rest) → c.text = ")" →
      Reads isFloat .operand (t :: ts) f rest
  | operand {ts rest : List Token} {f : Filter} :
      Reads isFloat .operand ts f rest → Reads isFloat .conjunction ts f rest
  | and {t : Token} {ts mid rest : List Token} {l r : Filter} :
      Reads isFloat .conjunction ts l (t :: mid) → isKeyword t "and" →
      Reads isFloat .operand mid r rest → Reads isFloat .conjunction ts (.and l r) rest
  | conjunction {ts rest : List Token} {f : Filter} :
      Reads isFloat .conjunction ts f rest → Reads isFloat .disjunction ts f rest
  | or {t : Token} {ts mid rest : List Token} {l r : Filter} :
      Reads isFloat .disjunction ts l (t :: mid) → isKeyword t "or" →
      Reads isFloat .conjunction mid r rest → Reads isFloat .disjunction ts (.or l r) rest

abbrev IsBlank (c : Char) : Prop := c = ' ' ∨ c = '\t'

abbrev IsParen (c : Char) : Prop := c = '(' ∨ c = ')'

/-- The text lets a word in front of it end. -/
def Delimits (rest : List Char) : Prop := ∀ c cs, rest = c :: cs → IsBlank c ∨ IsParen c

theorem delimits_nil : Delimits [] := fun _ _ h => nomatch h

theorem delimits_cons {c : Char} {cs : List Char} (h : IsBlank c ∨ IsParen c) :
    Delimits (c :: cs) := by
  rintro _ _ heq
  cases heq
  exact h

/-- One more token in front of the rest. -/
def push (t : Token) (r : Except String (List Token)) : Except String (List Token) :=
  r >>= fun ts => .ok (t :: ts)

@[simp] theorem push_ok (t : Token) (ts : List Token) : push t (.ok ts) = .ok (t :: ts) := rfl

theorem tokenize_blank {c : Char} (cs : List Char) (hc : IsBlank c) :
    tokenizeFrom (c :: cs) .outside = tokenizeFrom cs .outside := by
  rw [tokenizeFrom, if_pos hc]

theorem not_blank_of_paren {c : Char} (hc : IsParen c) : ¬ IsBlank c := by
  rcases hc with rfl | rfl <;> exact fun h => by rcases h with h | h <;> cases h

theorem tokenize_paren {c : Char} (cs : List Char) (hc : IsParen c) :
    tokenizeFrom (c :: cs) .outside =
      push ⟨String.ofList [c], false⟩ (tokenizeFrom cs .outside) := by
  rw [tokenizeFrom, if_neg (not_blank_of_paren hc), if_pos hc]
  rfl

theorem tokenize_word_from {w rest : List Char} (hw : ∀ c ∈ w, ¬ IsBlank c ∧ ¬ IsParen c)
    (hrest : Delimits rest) (pre : List Char) :
    tokenizeFrom (w ++ rest) (.word pre) =
      push ⟨String.ofList (pre ++ w), false⟩ (tokenizeFrom rest .outside) := by
  induction w generalizing pre with
  | nil =>
    rw [nil_append, append_nil]
    cases rest with
    | nil => rfl
    | cons c cs =>
      by_cases hc : IsBlank c
      · rw [tokenize_blank cs hc, tokenizeFrom, if_pos hc]
        rfl
      · have hp := (hrest c cs rfl).resolve_left hc
        rw [tokenize_paren cs hp, tokenizeFrom, if_neg hc, if_pos hp]
        cases tokenizeFrom cs .outside <;> rfl
  | cons c cs ih =>
    obtain ⟨hc, hcs⟩ := forall_mem_cons.1 hw
    rw [cons_append, tokenizeFrom, if_neg hc.1, if_neg hc.2, ih hcs, List.append_assoc]
    rfl

/-- A bare word: nothing in it delimits, and it does not begin a string. -/
structure Word (w : List Char) : Prop where
  nonempty : w ≠ []
  solid : ∀ c ∈ w, ¬ IsBlank c ∧ ¬ IsParen c
  bare : w.head? ≠ some '"'

instance (w : List Char) : Decidable (Word w) :=
  decidable_of_iff (w ≠ [] ∧ (∀ c ∈ w, ¬ IsBlank c ∧ ¬ IsParen c) ∧ w.head? ≠ some '"')
    ⟨fun h => ⟨h.1, h.2.1, h.2.2⟩, fun h => ⟨h.nonempty, h.solid, h.bare⟩⟩

theorem Word.not_opens {t : Token} (h : Word t.text.toList) : ¬ Opens t := by
  intro ht
  have hmem : '(' ∈ t.text.toList := by rw [ht.2]; exact mem_cons_self
  exact (h.solid '(' hmem).2 (.inl rfl)

theorem tokenize_word {w rest : List Char} (hw : Word w) (hrest : Delimits rest) :
    tokenizeFrom (w ++ rest) .outside =
      push ⟨String.ofList w, false⟩ (tokenizeFrom rest .outside) := by
  obtain ⟨c, cs, rfl⟩ := exists_cons_of_ne_nil hw.nonempty
  obtain ⟨hc, hcs⟩ := forall_mem_cons.1 hw.solid
  have hquote : c ≠ '"' := fun h => hw.bare (h ▸ rfl)
  rw [cons_append, tokenizeFrom, if_neg hc.1, if_neg hc.2, if_neg hquote,
    tokenize_word_from hcs hrest]
  rfl

theorem tokenize_string (cs : List Char) :
    tokenizeFrom ('"' :: cs) .outside = tokenizeFrom cs (.quoted []) := by
  rw [tokenizeFrom, if_neg (by rintro (h | h) <;> cases h),
    if_neg (by rintro (h | h) <;> cases h), if_pos rfl]

theorem tokenize_endQuote (q cs : List Char) :
    tokenizeFrom ('"' :: cs) (.quoted q) =
      push ⟨String.ofList q, true⟩ (tokenizeFrom cs .outside) := by
  rw [tokenizeFrom, if_neg (by decide), if_pos rfl]
  rfl

theorem tokenize_escape (q cs : List Char) (c : Char) :
    tokenizeFrom ('\\' :: c :: cs) (.quoted q) = tokenizeFrom cs (.quoted (q ++ [c])) := by
  rw [tokenizeFrom, if_pos rfl, tokenizeFrom]

theorem tokenize_quoted {c : Char} (q cs : List Char) (hslash : c ≠ '\\') (hquote : c ≠ '"') :
    tokenizeFrom (c :: cs) (.quoted q) = tokenizeFrom cs (.quoted (q ++ [c])) := by
  rw [tokenizeFrom, if_neg hslash, if_neg hquote]

theorem tokenizeFilter_of {s : List Char} {ts : List Token}
    (h : tokenizeFrom s .outside = .ok ts) (hne : ts ≠ []) : tokenizeFilter s = .ok ts := by
  exact bind_ok.2 ⟨ts, h, bind_ok.2 ⟨(), refuseIf_ok.2 hne, rfl⟩⟩

theorem tokenizeFilter_ok {s : List Char} {ts : List Token} (h : tokenizeFilter s = .ok ts) :
    tokenizeFrom s .outside = .ok ts := by
  obtain ⟨us, hus, hok⟩ := bind_ok.1 h
  obtain ⟨_, _, heq⟩ := bind_ok.1 hok
  cases heq
  exact hus

variable {isFloat : String → Bool}

theorem Reads.shorter {level : Level} {ts rest : List Token} {f : Filter}
    (h : Reads isFloat level ts f rest) : rest.length < ts.length := by
  induction h with
  | present => simp only [length_cons]; omega
  | compare => simp only [length_cons]; omega
  | not _ _ ih => exact Nat.lt_succ_of_lt ih
  | group _ _ _ ih => simp only [length_cons] at ih ⊢; omega
  | operand _ ih => exact ih
  | and _ _ _ ihl ihr => simp only [length_cons] at ihl; omega
  | conjunction _ ih => exact ih
  | or _ _ _ ihl ihr => simp only [length_cons] at ihl; omega

theorem Reads.lift {level : Level} {ts rest : List Token} {f : Filter}
    (h : Reads isFloat .operand ts f rest) : Reads isFloat level ts f rest := by
  cases level with
  | operand => exact h
  | conjunction => exact h.operand
  | disjunction => exact h.operand.conjunction

abbrev Result := Except String (Filter × List Token)

/-- A parser's result without the bound on the remainder. -/
def plain {p : List Token → Prop} (r : Except String (Filter × { rest // p rest })) : Result :=
  r.map fun q => (q.1, q.2.1)

@[simp] theorem plain_error {p : List Token → Prop} (e : String) :
    plain (.error e : Except String (Filter × { rest // p rest })) = .error e := rfl

@[simp] theorem plain_ok {p : List Token → Prop} (f : Filter) (r : { rest // p rest }) :
    plain (.ok (f, r)) = .ok (f, r.1) := rfl

def unaryOf (isFloat : String → Bool) (ts : List Token) : Result := plain (parseUnary isFloat ts)

def andOf (isFloat : String → Bool) (ts : List Token) : Result := plain (parseAnd isFloat ts)

def andRestOf (isFloat : String → Bool) (left : Filter) (ts : List Token) : Result :=
  plain (parseAndRest isFloat left ts)

def orOf (isFloat : String → Bool) (ts : List Token) : Result := plain (parseOr isFloat ts)

def orRestOf (isFloat : String → Bool) (left : Filter) (ts : List Token) : Result :=
  plain (parseOrRest isFloat left ts)

@[simp] theorem unaryOf_nil : unaryOf isFloat [] = .error "filter ended early" := by
  rw [unaryOf, parseUnary]; rfl

theorem unaryOf_not {t : Token} (ts : List Token) (ht : isKeyword t "not") :
    unaryOf isFloat (t :: ts) = unaryOf isFloat ts >>= fun q => .ok (.not q.1, q.2) := by
  rw [unaryOf, parseUnary, if_pos ht, unaryOf]
  cases parseUnary isFloat ts with
  | error e => rfl
  | ok q => rfl

/-- A group ends at the token that follows the filter in it. -/
def closed : Filter × List Token → Result
  | (_, []) => .error "unclosed ( in filter"
  | (f, c :: rest) => if c.text ≠ ")" then .error "unclosed ( in filter" else .ok (f, rest)

theorem closed_ok {q : Filter × List Token} {f : Filter} {rest : List Token}
    (h : closed q = .ok (f, rest)) : ∃ c, q = (f, c :: rest) ∧ c.text = ")" := by
  obtain ⟨g, _ | ⟨c, ts⟩⟩ := q
  · exact nomatch h
  · rw [closed] at h
    split at h
    · exact nomatch h
    · rename_i hc
      cases h
      exact ⟨c, rfl, not_not.1 hc⟩

theorem unaryOf_group {t : Token} (ts : List Token) (hnot : isKeyword t "not" = false)
    (ht : Opens t) : unaryOf isFloat (t :: ts) = orOf isFloat ts >>= closed := by
  rw [unaryOf, parseUnary, if_neg (Bool.eq_false_iff.1 hnot), if_pos ht, orOf]
  rcases parseOr isFloat ts with e | ⟨f, rest, h⟩
  · rfl
  · rcases rest with _ | ⟨c, rest⟩
    · rfl
    · simp only [plain_ok, bind, Except.bind, closed]
      split <;> rfl

theorem unaryOf_comparison {t : Token} (ts : List Token) (hnot : isKeyword t "not" = false)
    (ht : ¬ Opens t) : unaryOf isFloat (t :: ts) = plain (parseComparison isFloat (t :: ts)) := by
  rw [unaryOf, parseUnary, if_neg (Bool.eq_false_iff.1 hnot), if_neg ht]

theorem andOf_eq (ts : List Token) :
    andOf isFloat ts = unaryOf isFloat ts >>= fun q => andRestOf isFloat q.1 q.2 := by
  rw [andOf, parseAnd, unaryOf]
  rcases parseUnary isFloat ts with e | ⟨f, rest, h⟩
  · rfl
  · simp only [plain_ok, bind, Except.bind, andRestOf]
    cases parseAndRest isFloat f rest with
    | error e => rfl
    | ok q => rfl

theorem andRestOf_nil (left : Filter) : andRestOf isFloat left [] = .ok (left, []) := by
  rw [andRestOf, parseAndRest]; rfl

theorem andRestOf_stop {t : Token} (left : Filter) (ts : List Token)
    (ht : isKeyword t "and" = false) : andRestOf isFloat left (t :: ts) = .ok (left, t :: ts) := by
  rw [andRestOf, parseAndRest, if_neg (Bool.eq_false_iff.1 ht)]; rfl

theorem andRestOf_step {t : Token} (left : Filter) (ts : List Token) (ht : isKeyword t "and") :
    andRestOf isFloat left (t :: ts) =
      unaryOf isFloat ts >>= fun q => andRestOf isFloat (.and left q.1) q.2 := by
  rw [andRestOf, parseAndRest, if_pos ht, unaryOf]
  rcases parseUnary isFloat ts with e | ⟨f, rest, h⟩
  · rfl
  · simp only [plain_ok, bind, Except.bind, andRestOf]
    cases parseAndRest isFloat (.and left f) rest with
    | error e => rfl
    | ok q => rfl

theorem orOf_eq (ts : List Token) :
    orOf isFloat ts = andOf isFloat ts >>= fun q => orRestOf isFloat q.1 q.2 := by
  rw [orOf, parseOr, andOf]
  rcases parseAnd isFloat ts with e | ⟨f, rest, h⟩
  · rfl
  · simp only [plain_ok, bind, Except.bind, orRestOf]
    cases parseOrRest isFloat f rest with
    | error e => rfl
    | ok q => rfl

theorem orRestOf_nil (left : Filter) : orRestOf isFloat left [] = .ok (left, []) := by
  rw [orRestOf, parseOrRest]; rfl

theorem orRestOf_stop {t : Token} (left : Filter) (ts : List Token)
    (ht : isKeyword t "or" = false) : orRestOf isFloat left (t :: ts) = .ok (left, t :: ts) := by
  rw [orRestOf, parseOrRest, if_neg (Bool.eq_false_iff.1 ht)]; rfl

theorem orRestOf_step {t : Token} (left : Filter) (ts : List Token) (ht : isKeyword t "or") :
    orRestOf isFloat left (t :: ts) =
      andOf isFloat ts >>= fun q => orRestOf isFloat (.or left q.1) q.2 := by
  rw [orRestOf, parseOrRest, if_pos ht, andOf]
  rcases parseAnd isFloat ts with e | ⟨f, rest, h⟩
  · rfl
  · simp only [plain_ok, bind, Except.bind, orRestOf]
    cases parseOrRest isFloat (.or left f) rest with
    | error e => rfl
    | ok q => rfl

/-- A comparison that was read has an attribute, an operator and, unless the operator
is `pr`, a value. -/
theorem reads_of_comparison {t : Token} {ts rest : List Token} {f : Filter}
    (hnot : isKeyword t "not" = false) (ht : ¬ Opens t)
    (h : plain (parseComparison isFloat (t :: ts)) = .ok (f, rest)) :
    Reads isFloat .operand (t :: ts) f rest := by
  cases ts with
  | nil => cases h
  | cons op ts =>
    simp only [parseComparison] at h
    by_cases hpr : toLower op.text = "pr"
    · rw [if_pos hpr, plain_ok] at h
      cases h
      exact .present hnot ht hpr
    · rw [if_neg hpr] at h
      by_cases hop : comparisonOps.contains (toLower op.text) = false
      · rw [if_pos hop] at h
        cases h
      · rw [if_neg hop] at h
        cases ts with
        | nil => cases h
        | cons val ts =>
          cases h
          exact .compare hnot ht (contains_iff_mem.1 (Bool.not_eq_false _ ▸ hop))

theorem comparison_of_present {attr op : Token} (rest : List Token) (hop : toLower op.text = "pr") :
    plain (parseComparison isFloat (attr :: op :: rest)) =
      .ok (.present (toLower attr.text), rest) := by
  simp only [parseComparison, if_pos hop, plain_ok]

theorem comparison_of_compare {attr op val : Token} (rest : List Token)
    (hop : toLower op.text ∈ comparisonOps) :
    plain (parseComparison isFloat (attr :: op :: val :: rest)) =
      .ok (.compare (toLower op.text) (toLower attr.text) (literal isFloat val), rest) := by
  have hpr : toLower op.text ≠ "pr" := fun heq => absurd (heq ▸ hop) (by decide)
  have hnot : ¬ comparisonOps.contains (toLower op.text) = false := by
    simpa only [Bool.not_eq_false, contains_iff_mem] using hop
  simp only [parseComparison, if_neg hpr, if_neg hnot, plain_ok]

/-- What the parser accepts within `n` tokens is derived, and its loops extend what
they were given. -/
theorem reads_of_parse (n : ℕ) :
    (∀ ts f rest, ts.length < n → unaryOf isFloat ts = .ok (f, rest) →
      Reads isFloat .operand ts f rest) ∧
    (∀ ts all l f rest, ts.length < n → Reads isFloat .conjunction all l ts →
      andRestOf isFloat l ts = .ok (f, rest) → Reads isFloat .conjunction all f rest) ∧
    (∀ ts all l f rest, ts.length < n → Reads isFloat .disjunction all l ts →
      orRestOf isFloat l ts = .ok (f, rest) → Reads isFloat .disjunction all f rest) := by
  induction n with
  | zero =>
    exact ⟨fun ts _ _ hn => absurd hn (Nat.not_lt_zero _),
      fun ts _ _ _ _ hn => absurd hn (Nat.not_lt_zero _),
      fun ts _ _ _ _ hn => absurd hn (Nat.not_lt_zero _)⟩
  | succ n ih =>
    obtain ⟨ihUnary, ihAnd, ihOr⟩ := ih
    have hand : ∀ ts f rest, ts.length < n → andOf isFloat ts = .ok (f, rest) →
        Reads isFloat .conjunction ts f rest := by
      intro ts f rest hn h
      rw [andOf_eq] at h
      obtain ⟨⟨l, mid⟩, hl, hrest⟩ := bind_ok.1 h
      have hread := ihUnary ts l mid hn hl
      exact ihAnd mid ts l f rest (hread.shorter.trans hn) hread.operand hrest
    have hor : ∀ ts f rest, ts.length < n → orOf isFloat ts = .ok (f, rest) →
        Reads isFloat .disjunction ts f rest := by
      intro ts f rest hn h
      rw [orOf_eq] at h
      obtain ⟨⟨l, mid⟩, hl, hrest⟩ := bind_ok.1 h
      have hread := hand ts l mid hn hl
      exact ihOr mid ts l f rest (hread.shorter.trans hn) hread.conjunction hrest
    refine ⟨fun ts f rest hn h => ?_, fun ts all l f rest hn hl h => ?_,
      fun ts all l f rest hn hl h => ?_⟩
    · cases ts with
      | nil =>
        rw [unaryOf_nil] at h
        exact nomatch h
      | cons t ts =>
        have hn' : ts.length < n := Nat.lt_of_succ_lt_succ hn
        cases hnot : isKeyword t "not" with
        | true =>
          rw [unaryOf_not ts hnot] at h
          obtain ⟨⟨inner, mid⟩, hinner, heq⟩ := bind_ok.1 h
          cases heq
          exact .not hnot (ihUnary ts inner mid hn' hinner)
        | false =>
          by_cases ht : Opens t
          · rw [unaryOf_group ts hnot ht] at h
            obtain ⟨q, hinner, hclosed⟩ := bind_ok.1 h
            obtain ⟨c, rfl, hc⟩ := closed_ok hclosed
            exact .group ht (hor ts _ _ hn' hinner) hc
          · rw [unaryOf_comparison ts hnot ht] at h
            exact reads_of_comparison hnot ht h
    · cases ts with
      | nil =>
        rw [andRestOf_nil] at h
        cases h
        exact hl
      | cons t ts =>
        have hn' : ts.length < n := Nat.lt_of_succ_lt_succ hn
        cases ht : isKeyword t "and" with
        | true =>
          rw [andRestOf_step l ts ht] at h
          obtain ⟨⟨r, mid⟩, hr, hrest⟩ := bind_ok.1 h
          have hread := ihUnary ts r mid hn' hr
          exact ihAnd mid all _ f rest (hread.shorter.trans hn') (hl.and ht hread) hrest
        | false =>
          rw [andRestOf_stop l ts ht] at h
          cases h
          exact hl
    · cases ts with
      | nil =>
        rw [orRestOf_nil] at h
        cases h
        exact hl
      | cons t ts =>
        have hn' : ts.length < n := Nat.lt_of_succ_lt_succ hn
        cases ht : isKeyword t "or" with
        | true =>
          rw [orRestOf_step l ts ht] at h
          obtain ⟨⟨r, mid⟩, hr, hrest⟩ := bind_ok.1 h
          have hread := hand ts r mid hn' hr
          exact ihOr mid all _ f rest (hread.shorter.trans hn') (hl.or ht hread) hrest
        | false =>
          rw [orRestOf_stop l ts ht] at h
          cases h
          exact hl

def Halts (word : String) (ts : List Token) : Prop :=
  ∀ t rest, ts = t :: rest → isKeyword t word = false

theorem halts_cons {word : String} {t : Token} {ts : List Token}
    (ht : isKeyword t word = false) : Halts word (t :: ts) := by
  rintro _ _ heq
  cases heq
  exact ht

theorem andRestOf_halt {ts : List Token} (left : Filter) (h : Halts "and" ts) :
    andRestOf isFloat left ts = .ok (left, ts) := by
  cases ts with
  | nil => exact andRestOf_nil left
  | cons t ts => exact andRestOf_stop left ts (h t ts rfl)

theorem orRestOf_halt {ts : List Token} (left : Filter) (h : Halts "or" ts) :
    orRestOf isFloat left ts = .ok (left, ts) := by
  cases ts with
  | nil => exact orRestOf_nil left
  | cons t ts => exact orRestOf_stop left ts (h t ts rfl)

theorem isKeyword_ne {t : Token} {word other : String} (h : isKeyword t word)
    (hne : equalFold word other = false) : isKeyword t other = false := by
  simp only [isKeyword, equalFold, Bool.and_eq_true, beq_iff_eq] at h
  simp only [isKeyword, equalFold, h.2, Bool.and_eq_false_iff] at hne ⊢
  exact .inr hne

theorem isKeyword_close {c : Token} {word : String} (hc : c.text = ")")
    (hne : equalFold ")" word = false) : isKeyword c word = false := by
  rw [isKeyword, hc, hne, Bool.and_false]

theorem parse_of_reads {level : Level} {ts rest : List Token} {f : Filter}
    (h : Reads isFloat level ts f rest) :
    match level with
    | .operand => unaryOf isFloat ts = .ok (f, rest)
    | .conjunction => andOf isFloat ts = andRestOf isFloat f rest
    | .disjunction => Halts "and" rest → orOf isFloat ts = orRestOf isFloat f rest := by
  induction h with
  | @present attr op rest hnot ht hop =>
    exact (unaryOf_comparison _ hnot ht).trans (comparison_of_present rest hop)
  | @compare attr op val rest hnot ht hop =>
    exact (unaryOf_comparison _ hnot ht).trans (comparison_of_compare rest hop)
  | @not t ts rest f ht _ ih =>
    show unaryOf isFloat (t :: ts) = _
    rw [unaryOf_not ts ht, show unaryOf isFloat ts = _ from ih]
    rfl
  | @group t c ts rest f ht _ hc ih =>
    have hnot : isKeyword t "not" = false := by
      rw [isKeyword, ht.2]
      exact Bool.and_eq_false_iff.2 (.inr (by decide))
    have hor : orOf isFloat ts = .ok (f, c :: rest) :=
      (ih (halts_cons (isKeyword_close hc (by decide)))).trans
        (orRestOf_halt f (halts_cons (isKeyword_close hc (by decide))))
    show unaryOf isFloat (t :: ts) = _
    rw [unaryOf_group ts hnot ht, hor]
    exact if_neg (not_not.2 hc)
  | @operand ts rest f _ ih =>
    show andOf isFloat ts = _
    rw [andOf_eq, show unaryOf isFloat ts = _ from ih]
    rfl
  | @and t ts mid rest l r _ ht _ ihl ihr =>
    show andOf isFloat ts = _
    rw [show andOf isFloat ts = _ from ihl, andRestOf_step l mid ht,
      show unaryOf isFloat mid = _ from ihr]
    rfl
  | @conjunction ts rest f _ ih =>
    intro hrest
    rw [orOf_eq, show andOf isFloat ts = _ from ih, andRestOf_halt f hrest]
    rfl
  | @or t ts mid rest l r _ ht _ ihl ihr =>
    intro hrest
    rw [show orOf isFloat ts = _ from ihl (halts_cons (isKeyword_ne ht (by decide))),
      orRestOf_step l mid ht, show andOf isFloat mid = _ from ihr, andRestOf_halt r hrest]
    rfl

theorem halts_nil (word : String) : Halts word [] := fun _ _ h => nomatch h

/-- The parser reads exactly what the grammar derives, and the same tree. -/
theorem parseFilter_ok {s : List Char} {f : Filter} :
    parseFilter isFloat s = .ok f ↔
      ∃ ts, tokenizeFilter s = .ok ts ∧ Reads isFloat .disjunction ts f [] := by
  rw [parseFilter, bind_ok]
  refine exists_congr fun ts => and_congr_right fun _ => ?_
  have hplain : orOf isFloat ts = .ok (f, []) ↔ Reads isFloat .disjunction ts f [] := by
    refine ⟨fun h => ?_, fun h => ?_⟩
    · rw [orOf_eq] at h
      obtain ⟨⟨l, mid⟩, hl, hrest⟩ := bind_ok.1 h
      rw [andOf_eq] at hl
      obtain ⟨⟨u, more⟩, hu, hmore⟩ := bind_ok.1 hl
      have hunary := (reads_of_parse (ts.length + 1)).1 ts u more (Nat.lt_succ_self _) hu
      have hconj := (reads_of_parse (more.length + 1)).2.1 more ts u l mid (Nat.lt_succ_self _)
        hunary.operand hmore
      exact (reads_of_parse (mid.length + 1)).2.2 mid ts l f [] (Nat.lt_succ_self _)
        hconj.conjunction hrest
    · exact (parse_of_reads h (halts_nil _)).trans (orRestOf_nil f)
  rw [← hplain, orOf]
  rcases parseOr isFloat ts with e | ⟨g, rest, hrest⟩
  · simp
  · cases rest <;> simp

theorem parsePath_filtered {s sub : String} {attr after inner rest : List Char} {f : Filter}
    (hraw : trimChars s.toList ≠ [])
    (hurn : hasPrefix (toLower (String.ofList (trimChars s.toList))) "urn:" = false)
    (hopen : cutFirst (trimChars s.toList) '[' = some (attr, after))
    (hclose : cutLast after ']' = some (inner, rest)) (hf : parseFilter isFloat inner = .ok f)
    (hsub : parseSub s rest = .ok sub) (hattr : lowerTrim attr ≠ "") :
    parsePath isFloat s = .ok { attr := lowerTrim attr, sub, filter := some f } := by
  refine bind_ok.2 ⟨(), refuseIf_ok.2 hraw, ?_⟩
  simp only [hurn, Bool.false_eq_true, if_false, hopen]
  rw [parseFiltered, hclose]
  refine bind_ok.2 ⟨f, (mapError_ok _ _ _).2 hf, bind_ok.2 ⟨sub, hsub, ?_⟩⟩
  exact bind_ok.2 ⟨(), refuseIf_ok.2 hattr, rfl⟩

end Signari.FilterSyntax
