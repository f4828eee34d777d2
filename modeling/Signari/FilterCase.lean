import Signari.FilterSyntax
import Signari.TextCuts

/-!
# Filters in lower case

`normalisePath` of `internal/scim/patch.go` lowers a path before the path parser sees it, with the
value filter in it. Lowering a text moves no delimiter, so the tokens of the lowered text are the
lowered tokens; keywords, operators and parentheses are told without regard to case, so the parser
takes the same steps on them.
-/
namespace Signari.FilterCase
open GoStrings IndexedChecks TextCuts ScimPath FilterSyntax List

attribute [local instance] decidableAlong

abbrev IsLower (c : Char) : Prop := 97 ≤ c.toNat ∧ c.toNat ≤ 122

theorem toNat_lowered {c : Char} (h : 'A' ≤ c ∧ c ≤ 'Z') :
    (Char.ofNat (c.toNat + 32)).toNat = c.toNat + 32 := by
  have hle : c.toNat ≤ 90 := h.2
  have hall : ∀ n < 91, (Char.ofNat (n + 32)).toNat = n + 32 := by decide
  exact hall c.toNat (Nat.lt_succ_of_le hle)

theorem lowerChar_ascii {c : Char} (h : c.toNat < 128) :
    lowerChar c = c ∨ IsLower (lowerChar c) ∧ isSpace c = false := by
  unfold lowerChar
  split_ifs with hupper
  · have hle : c.toNat ≤ 90 := hupper.2
    have hge : 65 ≤ c.toNat := hupper.1
    refine .inr ⟨?_, ?_⟩
    · rw [IsLower, toNat_lowered hupper]
      omega
    · simp [isSpace]
      omega
  · exact .inl rfl

theorem lowerChar_wide {c : Char} (h : 128 ≤ c.toNat) :
    lowerChar c = Char.ofNat (CaseTables.lowerCode c.toNat) := by
  have hupper : ¬('A' ≤ c ∧ c ≤ 'Z') := fun hc => by
    have hle : c.toNat ≤ 90 := hc.2
    omega
  rw [lowerChar, if_neg hupper, if_neg (by omega)]

theorem toNat_lowerChar {c : Char} (h : 128 ≤ c.toNat) :
    (lowerChar c).toNat = CaseTables.lowerCode c.toNat := by
  rw [lowerChar_wide h]
  exact CaseTables.toNat_ofNat (CaseTables.lowerCode_valid c.valid)

theorem isSpace_blanks {c : Char} (h : isSpace c = true) :
    ∃ b ∈ CaseTables.blanks, b.1 ≤ c.toNat ∧ c.toNat ≤ b.2 := by
  simp only [isSpace, Bool.or_eq_true, Bool.and_eq_true, decide_eq_true_eq, beq_iff_eq] at h
  simp only [CaseTables.blanks, exists_mem_cons_iff, not_mem_nil, false_and, exists_false, or_false]
  omega

/-- Case mapping leaves a character alone, or makes it a lower-case letter of ASCII, or stays
outside ASCII; what it changes is no white space, and is not made white space. -/
theorem lowerChar_cases (c : Char) :
    lowerChar c = c ∨ (IsLower (lowerChar c) ∨ 128 ≤ c.toNat ∧ 128 ≤ (lowerChar c).toNat) ∧
      isSpace c = false ∧ isSpace (lowerChar c) = false := by
  have hsolid {d : Char} (hd : IsLower d) : isSpace d = false := by
    simp [isSpace]
    omega
  by_cases hascii : c.toNat < 128
  · exact (lowerChar_ascii hascii).imp id fun h => ⟨.inl h.1, h.2, hsolid h.1⟩
  · have hwide := not_lt.mp hascii
    have hcode := toNat_lowerChar hwide
    by_cases heq : CaseTables.lowerCode c.toNat = c.toNat
    · exact .inl (by rw [lowerChar_wide hwide, heq, Char.ofNat_toNat])
    · refine .inr ⟨?_, ?_, ?_⟩
      · rcases CaseTables.lowerCode_ascii hwide with h | ⟨-, h⟩ | ⟨-, h⟩
        · exact .inr ⟨hwide, hcode ▸ h⟩
        · exact .inl (by rw [IsLower, hcode, h]; decide)
        · exact .inl (by rw [IsLower, hcode, h]; decide)
      · refine Bool.eq_false_iff.mpr fun hspace => ?_
        obtain ⟨b, hb, hin⟩ := isSpace_blanks hspace
        exact (CaseTables.lowerCode_solid heq hb).1 hin
      · refine Bool.eq_false_iff.mpr fun hspace => ?_
        obtain ⟨b, hb, hin⟩ := isSpace_blanks hspace
        exact (CaseTables.lowerCode_solid heq hb).2 (hcode ▸ hin)

theorem lowerChar_of_lower {c : Char} (h : IsLower c) : lowerChar c = c := by
  have hupper : ¬ ('A' ≤ c ∧ c ≤ 'Z') := fun hc => by
    have hle : c.toNat ≤ 90 := hc.2
    omega
  rw [lowerChar, if_neg hupper, if_pos (by omega)]

theorem lowerChar_lowerChar (c : Char) : lowerChar (lowerChar c) = lowerChar c := by
  rcases lowerChar_cases c with h | ⟨h | ⟨hwide, hstays⟩, -⟩
  · rw [h, h]
  · exact lowerChar_of_lower h
  · rw [lowerChar_wide hstays, toNat_lowerChar hwide, CaseTables.lowerCode_lowerCode,
      ← lowerChar_wide hwide]

theorem toLower_toLower (s : String) : toLower (toLower s) = toLower s := by
  simp only [toLower, String.toList_ofList, map_map]
  exact congrArg String.ofList (map_congr_left fun c _ => lowerChar_lowerChar c)

theorem keeps_lowerChar {d : Char} (hd : ¬ IsLower d) (hascii : d.toNat < 128)
    (hfix : lowerChar d = d) : Keeps lowerChar d := by
  intro c
  constructor
  · intro h
    rcases lowerChar_cases c with heq | ⟨hlower | ⟨-, hwide⟩, -⟩
    · rw [← heq, h]
    · exact absurd (h ▸ hlower) hd
    · exact absurd (h ▸ hascii) (not_lt.mpr hwide)
  · rintro rfl
    exact hfix

theorem isSpace_lowerChar (c : Char) : isSpace (lowerChar c) = isSpace c := by
  rcases lowerChar_cases c with heq | ⟨-, hfrom, hto⟩
  · rw [heq]
  · rw [hfrom, hto]

theorem toLower_eq_iff {s w : String} (hw : ∀ c ∈ w.toList, Keeps lowerChar c) :
    toLower s = w ↔ s = w := by
  have hchars : ∀ (cs ds : List Char), (∀ d ∈ ds, Keeps lowerChar d) →
      (cs.map lowerChar = ds ↔ cs = ds) := by
    intro cs ds hds
    induction cs generalizing ds with
    | nil => simp
    | cons c cs ih =>
      cases ds with
      | nil => simp
      | cons d ds =>
        obtain ⟨hd, hds⟩ := forall_mem_cons.mp hds
        rw [map_cons, List.cons.injEq, List.cons.injEq, hd c, ih ds hds]
  rw [toLower, ← String.toList_inj, String.toList_ofList, hchars _ _ hw, String.toList_inj]

theorem foldChar_wide {c : Char} (h : 128 ≤ c.toNat) :
    foldChar c = Char.ofNat (CaseTables.foldCode c.toNat) := if_neg (not_lt.mpr h)

theorem foldChar_lowerChar {c : Char} (hdotted : c.toNat ≠ 0x130) :
    foldChar (lowerChar c) = foldChar c := by
  rcases lowerChar_cases c with heq | ⟨hlower | ⟨hwide, hstays⟩, -⟩
  · rw [heq]
  · have hfold : foldChar (lowerChar c) = lowerChar c := by
      rw [foldChar, if_pos (by omega), lowerChar_of_lower hlower]
    by_cases hascii : c.toNat < 128
    · rw [hfold, foldChar, if_pos hascii]
    · have hwide := not_lt.mp hascii
      have hkelvin : c.toNat = 0x212A := by
        have hcode := toNat_lowerChar hwide
        rcases CaseTables.lowerCode_ascii hwide with h | ⟨h, -⟩ | ⟨h, -⟩
        · omega
        · exact absurd h hdotted
        · exact h
      rw [hfold, lowerChar_wide hwide, foldChar_wide hwide, hkelvin]
      decide
  · rw [foldChar_wide hstays, foldChar_wide hwide, toNat_lowerChar hwide,
      CaseTables.foldCode_lowerCode hdotted]

/-- A keyword without the letter `i` is told from the lowered text as from the text. -/
theorem equalFold_toLower {s word : String} (hi : 'i' ∉ word.toList.map foldChar)
    (hdotted : Char.ofNat 0x130 ∉ word.toList.map foldChar) :
    equalFold (toLower s) word = equalFold s word := by
  have hfold := fun c hc => foldChar_lowerChar (c := c) hc
  by_cases hs : ∀ c ∈ s.toList, c.toNat ≠ 0x130
  · have hmap : s.toList.map (foldChar ∘ lowerChar) = s.toList.map foldChar :=
      map_congr_left fun c hc => hfold c (hs c hc)
    rw [equalFold, equalFold, toLower, String.toList_ofList, map_map, hmap]
  · simp only [not_forall, not_not] at hs
    obtain ⟨c, hc, hdot⟩ := hs
    obtain rfl : c = Char.ofNat 0x130 := by rw [← hdot, Char.ofNat_toNat]
    have hleft : equalFold (toLower s) word = false := by
      refine beq_eq_false_iff_ne.mpr fun heq => hi ?_
      rw [← heq, toLower, String.toList_ofList, map_map]
      exact mem_map.mpr ⟨_, hc, by decide⟩
    have hright : equalFold s word = false := by
      refine beq_eq_false_iff_ne.mpr fun heq => hdotted ?_
      rw [← heq]
      exact mem_map.mpr ⟨_, hc, by decide⟩
    rw [hleft, hright]

def lowerToken (t : Token) : Token := ⟨toLower t.text, t.quoted⟩

def lowerMode : Mode → Mode
  | .outside => .outside
  | .word cs => .word (cs.map lowerChar)
  | .quoted cs => .quoted (cs.map lowerChar)
  | .escaped cs => .escaped (cs.map lowerChar)

theorem lowerToken_ofList (cs : List Char) (quoted : Bool) :
    lowerToken ⟨String.ofList cs, quoted⟩ = ⟨String.ofList (cs.map lowerChar), quoted⟩ := by
  rw [lowerToken, toLower, String.toList_ofList]

theorem map_push (t : Token) (r : Except String (List Token)) :
    (push t r).map (List.map lowerToken) = push (lowerToken t) (r.map (List.map lowerToken)) := by
  cases r <;> rfl

theorem keeps_delimiter {d : Char} (hd : d ∈ [' ', '\t', '(', ')', '"', '\\', '[', ']', '.', ':']) :
    Keeps lowerChar d :=
  have hall : ∀ d ∈ [' ', '\t', '(', ')', '"', '\\', '[', ']', '.', ':'],
      ¬ IsLower d ∧ d.toNat < 128 ∧ lowerChar d = d := by decide
  keeps_lowerChar (hall d hd).1 (hall d hd).2.1 (hall d hd).2.2

theorem blank_lower (c : Char) : IsBlank (lowerChar c) ↔ IsBlank c :=
  or_congr (keeps_delimiter (by decide) c) (keeps_delimiter (by decide) c)

theorem paren_lower (c : Char) : IsParen (lowerChar c) ↔ IsParen c :=
  or_congr (keeps_delimiter (by decide) c) (keeps_delimiter (by decide) c)

theorem tokenize_word_end {c : Char} (hc : IsBlank c ∨ IsParen c) (w cs : List Char) :
    tokenizeFrom (c :: cs) (.word w) =
      push ⟨String.ofList w, false⟩ (tokenizeFrom (c :: cs) .outside) := by
  have hends : Delimits (c :: cs) := delimits_cons hc
  have h := tokenize_word_from (forall_mem_nil _) hends w
  rwa [nil_append, append_nil] at h

theorem tokenize_lower (cs : List Char) (m : Mode) :
    tokenizeFrom (cs.map lowerChar) (lowerMode m) =
      (tokenizeFrom cs m).map (List.map lowerToken) := by
  induction cs generalizing m with
  | nil =>
    cases m with
    | word w => exact congrArg (fun t => Except.ok [t]) (lowerToken_ofList w false).symm
    | _ => rfl
  | cons c cs ih =>
    have hquote : lowerChar c = '"' ↔ c = '"' := keeps_delimiter (by decide) c
    have hslash : lowerChar c = '\\' ↔ c = '\\' := keeps_delimiter (by decide) c
    have houtside : tokenizeFrom (lowerChar c :: cs.map lowerChar) .outside =
        (tokenizeFrom (c :: cs) .outside).map (List.map lowerToken) := by
      by_cases hb : IsBlank c
      · rw [tokenize_blank _ ((blank_lower c).mpr hb), tokenize_blank _ hb]
        exact ih .outside
      by_cases hp : IsParen c
      · rw [tokenize_paren _ ((paren_lower c).mpr hp), tokenize_paren _ hp, map_push,
          lowerToken_ofList, ← ih .outside]
        rfl
      by_cases hq : c = '"'
      · subst hq
        rw [hquote.mpr rfl, tokenize_string, tokenize_string]
        exact ih (.quoted [])
      · rw [tokenizeFrom, if_neg (mt (blank_lower c).mp hb), if_neg (mt (paren_lower c).mp hp),
          if_neg (mt hquote.mp hq), tokenizeFrom, if_neg hb, if_neg hp, if_neg hq]
        exact ih (.word [c])
    rw [map_cons]
    cases m with
    | outside => exact houtside
    | word w =>
      by_cases hd : IsBlank c ∨ IsParen c
      · rw [lowerMode, tokenize_word_end (hd.imp (blank_lower c).mpr (paren_lower c).mpr),
          houtside, tokenize_word_end hd, map_push, lowerToken_ofList]
      · obtain ⟨hb, hp⟩ := not_or.mp hd
        rw [lowerMode, tokenizeFrom, if_neg (mt (blank_lower c).mp hb),
          if_neg (mt (paren_lower c).mp hp), tokenizeFrom, if_neg hb, if_neg hp, ← ih,
          lowerMode, map_append]
        rfl
    | quoted q =>
      by_cases hs : c = '\\'
      · subst hs
        rw [hslash.mpr rfl, lowerMode, tokenizeFrom, if_pos rfl, tokenizeFrom, if_pos rfl]
        exact ih (.escaped q)
      by_cases hq : c = '"'
      · subst hq
        rw [hquote.mpr rfl, lowerMode, tokenize_endQuote, tokenize_endQuote, map_push,
          lowerToken_ofList, ← ih .outside]
        rfl
      · rw [lowerMode, tokenize_quoted _ _ (mt hslash.mp hs) (mt hquote.mp hq),
          tokenize_quoted _ _ hs hq, ← ih, lowerMode, map_append]
        rfl
    | escaped q =>
      show tokenizeFrom (cs.map lowerChar) (.quoted (q.map lowerChar ++ [lowerChar c])) =
        (tokenizeFrom cs (.quoted (q ++ [c]))).map (List.map lowerToken)
      rw [← ih, lowerMode, map_append]
      rfl

section

variable {isFloat : String → Bool}

theorem isKeyword_lower (t : Token) {word : String} (hw : word ∈ ["not", "and", "or"]) :
    isKeyword (lowerToken t) word = isKeyword t word := by
  have hi : ∀ w ∈ ["not", "and", "or"], 'i' ∉ w.toList.map foldChar ∧
      Char.ofNat 0x130 ∉ w.toList.map foldChar := by decide
  rw [isKeyword, isKeyword, lowerToken, equalFold_toLower (hi word hw).1 (hi word hw).2]

theorem opens_lower (t : Token) : Opens (lowerToken t) ↔ Opens t :=
  and_congr_right fun _ => toLower_eq_iff
    (fun c hc => keeps_delimiter ((by decide : ∀ c ∈ "(".toList, c ∈ _) c hc))

theorem closes_lower (t : Token) : (lowerToken t).text = ")" ↔ t.text = ")" :=
  toLower_eq_iff (fun c hc => keeps_delimiter ((by decide : ∀ c ∈ ")".toList, c ∈ _) c hc))

theorem reads_lower {level : Level} {ts rest : List Token} {f : Filter}
    (h : Reads isFloat level ts f rest) :
    ∃ f', Reads isFloat level (ts.map lowerToken) f' (rest.map lowerToken) := by
  induction h with
  | @present attr op rest hnot ht hop =>
    exact ⟨_, .present (by rwa [isKeyword_lower attr (by decide)]) (mt (opens_lower attr).mp ht)
      ((toLower_toLower op.text).trans hop)⟩
  | @compare attr op val rest hnot ht hop =>
    exact ⟨_, .compare (by rwa [isKeyword_lower attr (by decide)]) (mt (opens_lower attr).mp ht)
      ((toLower_toLower op.text).symm ▸ hop)⟩
  | @not t ts rest f ht _ ih =>
    obtain ⟨f', hf'⟩ := ih
    exact ⟨_, .not (by rwa [isKeyword_lower t (by decide)]) hf'⟩
  | @group t c ts rest f ht _ hc ih =>
    obtain ⟨f', hf'⟩ := ih
    exact ⟨f', .group ((opens_lower t).mpr ht) hf' ((closes_lower c).mpr hc)⟩
  | operand _ ih =>
    obtain ⟨f', hf'⟩ := ih
    exact ⟨f', hf'.operand⟩
  | @and t ts mid rest l r _ ht _ ihl ihr =>
    obtain ⟨l', hl'⟩ := ihl
    obtain ⟨r', hr'⟩ := ihr
    exact ⟨_, hl'.and (by rwa [isKeyword_lower t (by decide)]) hr'⟩
  | conjunction _ ih =>
    obtain ⟨f', hf'⟩ := ih
    exact ⟨f', hf'.conjunction⟩
  | @or t ts mid rest l r _ ht _ ihl ihr =>
    obtain ⟨l', hl'⟩ := ihl
    obtain ⟨r', hr'⟩ := ihr
    exact ⟨_, hl'.or (by rwa [isKeyword_lower t (by decide)]) hr'⟩

theorem reads_of_lower {level : Level} {ts rest : List Token} {f : Filter}
    (h : Reads isFloat level ts f rest) :
    ∀ us, us.map lowerToken = ts →
      ∃ f' vs, vs.map lowerToken = rest ∧ Reads isFloat level us f' vs := by
  induction h with
  | @present attr op rest hnot ht hop =>
    intro us hus
    obtain ⟨a, us₁, rfl, rfl, hus₁⟩ := map_eq_cons_iff.mp hus
    obtain ⟨o, us₂, rfl, rfl, hus₂⟩ := map_eq_cons_iff.mp hus₁
    exact ⟨_, us₂, hus₂, .present (by rwa [isKeyword_lower a (by decide)] at hnot)
      (mt (opens_lower a).mpr ht) ((toLower_toLower o.text).symm.trans hop)⟩
  | @compare attr op val rest hnot ht hop =>
    intro us hus
    obtain ⟨a, us₁, rfl, rfl, hus₁⟩ := map_eq_cons_iff.mp hus
    obtain ⟨o, us₂, rfl, rfl, hus₂⟩ := map_eq_cons_iff.mp hus₁
    obtain ⟨v, us₃, rfl, rfl, hus₃⟩ := map_eq_cons_iff.mp hus₂
    have hop' : toLower (toLower o.text) ∈ comparisonOps := hop
    rw [toLower_toLower] at hop'
    exact ⟨_, us₃, hus₃, .compare (by rwa [isKeyword_lower a (by decide)] at hnot)
      (mt (opens_lower a).mpr ht) hop'⟩
  | @not t ts rest f ht _ ih =>
    intro us hus
    obtain ⟨u, us₁, rfl, rfl, hus₁⟩ := map_eq_cons_iff.mp hus
    obtain ⟨f', vs, hvs, hf'⟩ := ih us₁ hus₁
    exact ⟨_, vs, hvs, .not (by rwa [isKeyword_lower u (by decide)] at ht) hf'⟩
  | @group t c ts rest f ht _ hc ih =>
    intro us hus
    obtain ⟨u, us₁, rfl, rfl, hus₁⟩ := map_eq_cons_iff.mp hus
    obtain ⟨f', vs, hvs, hf'⟩ := ih us₁ hus₁
    obtain ⟨v, vs₁, rfl, rfl, hvs₁⟩ := map_eq_cons_iff.mp hvs
    exact ⟨f', vs₁, hvs₁, .group ((opens_lower u).mp ht) hf' ((closes_lower v).mp hc)⟩
  | operand _ ih =>
    intro us hus
    obtain ⟨f', vs, hvs, hf'⟩ := ih us hus
    exact ⟨f', vs, hvs, hf'.operand⟩
  | @and t ts mid rest l r _ ht _ ihl ihr =>
    intro us hus
    obtain ⟨l', vs, hvs, hl'⟩ := ihl us hus
    obtain ⟨v, vs₁, rfl, rfl, hvs₁⟩ := map_eq_cons_iff.mp hvs
    obtain ⟨r', ws, hws, hr'⟩ := ihr vs₁ hvs₁
    exact ⟨_, ws, hws, hl'.and (by rwa [isKeyword_lower v (by decide)] at ht) hr'⟩
  | conjunction _ ih =>
    intro us hus
    obtain ⟨f', vs, hvs, hf'⟩ := ih us hus
    exact ⟨f', vs, hvs, hf'.conjunction⟩
  | @or t ts mid rest l r _ ht _ ihl ihr =>
    intro us hus
    obtain ⟨l', vs, hvs, hl'⟩ := ihl us hus
    obtain ⟨v, vs₁, rfl, rfl, hvs₁⟩ := map_eq_cons_iff.mp hvs
    obtain ⟨r', ws, hws, hr'⟩ := ihr vs₁ hvs₁
    exact ⟨_, ws, hws, hl'.or (by rwa [isKeyword_lower v (by decide)] at ht) hr'⟩

theorem tokenizeFilter_lower (cs : List Char) :
    tokenizeFilter (cs.map lowerChar) = (tokenizeFilter cs).map (List.map lowerToken) := by
  have h := tokenize_lower cs .outside
  unfold tokenizeFilter
  rw [show tokenizeFrom (cs.map lowerChar) .outside = _ from h]
  cases tokenizeFrom cs .outside with
  | error e => rfl
  | ok ts => cases ts <;> rfl

theorem parseFilter_lower (cs : List Char) :
    (∃ f, parseFilter isFloat (cs.map lowerChar) = .ok f) ↔
      ∃ f, parseFilter isFloat cs = .ok f := by
  simp only [parseFilter_ok, tokenizeFilter_lower]
  constructor
  · rintro ⟨f, us, hus, hread⟩
    cases hts : tokenizeFilter cs with
    | error e => rw [hts] at hus; exact nomatch hus
    | ok ts =>
      rw [hts] at hus
      obtain ⟨f', vs, hvs, hread'⟩ := reads_of_lower hread ts (Except.ok.inj hus)
      obtain rfl := map_eq_nil_iff.mp hvs
      exact ⟨f', ts, rfl, hread'⟩
  · rintro ⟨f, ts, hts, hread⟩
    obtain ⟨f', hread'⟩ := reads_lower hread
    exact ⟨f', ts.map lowerToken, by rw [hts]; rfl, hread'⟩

end

end Signari.FilterCase
