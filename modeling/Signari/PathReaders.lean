import Signari.FilterCase
import Signari.ScimUserPatch

/-!
# The two readers of a SCIM path

`normalisePath` of `internal/scim/patch.go` cuts a path at its last colon wherever it stands
and lowers the rest, which the user endpoint matches and hands to the path parser;
`ParsePath` of `internal/scim/path.go` cuts a path only behind `urn:`, at the last colon
outside brackets and quotes. What a path parser reads from a text, the attribute and the
sub-attribute, depends neither on case nor on space around it, so both readers name the
same attribute whenever they cut at the same place.

Where they do not, the colon is in what one of them reads and not in what the other does.
-/
namespace Signari.PathReaders
open GoStrings IndexedChecks TextCuts ScimPath FilterSyntax FilterCase ScimUserPatch List

attribute [local instance] decidableAlong

variable {isFloat : String → Bool}

def names (r : Except String Path) : Option (String × String) :=
  r.toOption.map fun p => (p.attr, p.sub)

def accepts (isFloat : String → Bool) (inner : List Char) : Bool :=
  (parseFilter isFloat inner).toOption.isSome

/-- The sub-attribute behind a value filter. -/
def subName (rest : List Char) : Option String :=
  match trimChars rest with
  | [] => some ""
  | '.' :: sub => some (lowerTrim sub)
  | _ => none

def named (attr sub : String) : Option (String × String) :=
  if attr = "" then none else some (attr, sub)

/-- What the parser reads from a path without its schema. -/
def readNames (isFloat : String → Bool) (raw : List Char) : Option (String × String) :=
  match cutFirst raw '[' with
  | some (attr, after) =>
    match cutLast after ']' with
    | none => none
    | some (inner, rest) =>
      if accepts isFloat inner then (subName rest).bind (named (lowerTrim attr)) else none
  | none =>
    match cutFirst raw '.' with
    | some (attr, sub) => named (lowerTrim attr) (lowerTrim sub)
    | none => named (lowerTrim raw) ""

def stripped (raw : List Char) : List Char :=
  if hasPrefix (toLower (String.ofList raw)) "urn:" then
    match cutSchema raw 0 false with
    | some (_, after) => after
    | none => raw
  else raw

/-- The text that is left of a path when it is cut at its last colon. -/
def tail (p : String) : List Char :=
  match cutLast (trimChars p.toList) ':' with
  | some (_, after) => after
  | none => trimChars p.toList

theorem subName_eq (s : String) (rest : List Char) :
    (parseSub s rest).toOption = subName rest := by
  unfold parseSub subName
  generalize trimChars rest = t
  match t with
  | [] => rfl
  | c :: cs =>
    by_cases hc : c = '.'
    · subst hc
      rfl
    · have hother : ∀ cs', c :: cs = '.' :: cs' → False := fun cs' heq =>
        hc (List.cons.inj heq).1
      have hright : (match c :: cs with
          | [] => some ""
          | '.' :: sub => some (lowerTrim sub)
          | _ => none) = (none : Option String) := by
        split
        · contradiction
        · exact absurd ‹_› (hother _)
        · rfl
      refine Eq.trans ?_ hright.symm
      split
      · contradiction
      · exact absurd ‹_› (hother _)
      · rfl

theorem names_filtered (s schema : String) (attr after : List Char) :
    names (parseFiltered isFloat s schema attr after) =
      match cutLast after ']' with
      | none => none
      | some (inner, rest) =>
        if accepts isFloat inner then (subName rest).bind (named (lowerTrim attr)) else none := by
  unfold parseFiltered
  cases cutLast after ']' with
  | none => rfl
  | some r =>
    obtain ⟨inner, rest⟩ := r
    simp only [accepts, ← subName_eq s rest]
    cases parseFilter isFloat inner with
    | error e => rfl
    | ok f =>
      cases parseSub s rest with
      | error e => rfl
      | ok sub =>
        by_cases hattr : lowerTrim attr = ""
        · simp [names, named, hattr, Except.mapError, bind, Except.bind, refuseIf,
            Except.toOption]
        · simp [names, named, hattr, Except.mapError, bind, Except.bind, refuseIf,
            Except.toOption]

theorem names_plain (s schema attr sub : String) :
    names (do
      refuseIf (attr = "") ("path " ++ quote s ++ " names no attribute")
      .ok { schema, attr, sub }) = named attr sub := by
  by_cases hattr : attr = ""
  · simp [names, named, hattr, bind, Except.bind, refuseIf, Except.toOption]
  · simp [names, named, hattr, bind, Except.bind, refuseIf, Except.toOption]

theorem names_body (s schema : String) (text : List Char) :
    names (match cutFirst text '[' with
      | some (attr, after) => parseFiltered isFloat s schema attr after
      | none => do
          let (attr, sub) := match cutFirst text '.' with
            | some (attr, sub) => (lowerTrim attr, lowerTrim sub)
            | none => (lowerTrim text, "")
          refuseIf (attr = "") ("path " ++ quote s ++ " names no attribute")
          .ok { schema, attr, sub }) = readNames isFloat text := by
  unfold readNames
  cases cutFirst text '[' with
  | some r => exact names_filtered s schema r.1 r.2
  | none =>
    cases cutFirst text '.' with
    | some r => exact names_plain s schema (lowerTrim r.1) (lowerTrim r.2)
    | none => exact names_plain s schema (lowerTrim text) ""

theorem names_parsePath (s : String) :
    names (parsePath isFloat s) = readNames isFloat (stripped (trimChars s.toList)) := by
  unfold parsePath
  generalize trimChars s.toList = raw
  by_cases hempty : raw = []
  · subst hempty
    rfl
  · have hgo : refuseIf (raw = []) "empty path" = .ok () := if_neg hempty
    unfold stripped
    simp only [hgo]
    cases hasPrefix (toLower (String.ofList raw)) "urn:" with
    | false => exact names_body s "" raw
    | true =>
      cases cutSchema raw 0 false with
      | some r => exact names_body s (String.ofList r.1) r.2
      | none => exact names_body s "" raw

theorem lowerTrim_lower (cs : List Char) : lowerTrim (cs.map lowerChar) = lowerTrim cs := by
  rw [lowerTrim, lowerTrim, trimChars_map isSpace_lowerChar]
  have htwice := toLower_toLower (String.ofList (trimChars cs))
  simpa [toLower] using htwice

theorem subName_lower (rest : List Char) : subName (rest.map lowerChar) = subName rest := by
  unfold subName
  rw [trimChars_map isSpace_lowerChar]
  cases trimChars rest with
  | nil => rfl
  | cons c cs =>
    have hdot : lowerChar c = '.' ↔ c = '.' := keeps_delimiter (by decide) c
    by_cases hc : c = '.'
    · subst hc
      exact congrArg some (lowerTrim_lower cs)
    · rw [map_cons]
      split <;> simp_all

theorem accepts_lower (inner : List Char) :
    accepts isFloat (inner.map lowerChar) = accepts isFloat inner := by
  have hiff := @parseFilter_lower isFloat inner
  unfold accepts
  cases hlow : parseFilter isFloat (inner.map lowerChar) with
  | ok f =>
    obtain ⟨f', hf'⟩ := hiff.mp ⟨f, hlow⟩
    rw [hf']
    rfl
  | error e =>
    cases hraw : parseFilter isFloat inner with
    | ok f =>
      obtain ⟨f', hf'⟩ := hiff.mpr ⟨f, hraw⟩
      rw [hf'] at hlow
      cases hlow
    | error e' => rfl

theorem readNames_lower (raw : List Char) :
    readNames isFloat (raw.map lowerChar) = readNames isFloat raw := by
  unfold readNames
  rw [cutFirst_map (keeps_delimiter (by decide)), cutFirst_map (keeps_delimiter (by decide))]
  cases cutFirst raw '[' with
  | some r =>
    obtain ⟨attr, after⟩ := r
    simp only [Option.map_some]
    rw [cutLast_map (keeps_delimiter (by decide))]
    cases cutLast after ']' with
    | none => rfl
    | some r => simp only [Option.map_some, accepts_lower, subName_lower, lowerTrim_lower]
  | none =>
    cases cutFirst raw '.' with
    | some r => simp only [Option.map_none, Option.map_some, lowerTrim_lower]
    | none => simp only [Option.map_none, lowerTrim_lower]

/-- Nor is space around the path. -/
theorem readNames_trim (raw : List Char) :
    readNames isFloat (trimChars raw) = readNames isFloat raw := by
  obtain ⟨l, r, hl, hr, hraw⟩ := trimChars_split raw
  generalize trimChars raw = cs at hraw
  subst hraw
  unfold readNames
  rw [cutFirst_blank hl hr (by decide), cutFirst_blank hl hr (by decide)]
  cases cutFirst cs '[' with
  | some q =>
    obtain ⟨attr, after⟩ := q
    simp only [Option.map_some]
    rw [cutLast_blank hr (by decide)]
    cases cutLast after ']' with
    | none => rfl
    | some q =>
      simp only [Option.map_some, subName, lowerTrim, trimChars_left hl, trimChars_right hr]
  | none =>
    cases cutFirst cs '.' with
    | some q =>
      simp only [Option.map_none, Option.map_some, lowerTrim, trimChars_left hl,
        trimChars_right hr]
    | none => simp only [Option.map_none, lowerTrim, trimChars_left hl, trimChars_right hr]

/-- Bracket depth and quoting behind a character, as `lastColonOutsideBrackets` tracks them. -/
def scan (state : ℤ × Bool) (c : Char) : ℤ × Bool :=
  if c = '"' then (state.1, !state.2)
  else if state.2 then state
  else if c = '[' then (state.1 + 1, state.2)
  else if c = ']' then (state.1 - 1, state.2)
  else state

theorem cutSchema_cons (c : Char) (cs : List Char) (depth : ℤ) (inQuote : Bool) :
    cutSchema (c :: cs) depth inQuote =
      match cutSchema cs (scan (depth, inQuote) c).1 (scan (depth, inQuote) c).2 with
      | some (before, after) => some (c :: before, after)
      | none => if c = ':' ∧ (depth, inQuote) = (0, false) then some ([], cs) else none := by
  have hwhere : (c = ':' ∧ inQuote = false ∧ depth = 0) ↔
      (c = ':' ∧ (depth, inQuote) = (0, false)) := by
    rw [Prod.mk.injEq, and_comm (a := inQuote = false)]
  rw [cutSchema]
  simp only [hwhere, scan]
  split_ifs <;> rfl

theorem cutSchema_none {cs : List Char} (h : ':' ∉ cs) (depth : ℤ) (inQuote : Bool) :
    cutSchema cs depth inQuote = none := by
  induction cs generalizing depth inQuote with
  | nil => rfl
  | cons c cs ih =>
    rw [mem_cons, not_or] at h
    rw [cutSchema_cons, ih h.2]
    exact if_neg fun hc => h.1 hc.1.symm

theorem cutSchema_append (before : List Char) {after : List Char} (h : ':' ∉ after)
    (state : ℤ × Bool) :
    cutSchema (before ++ ':' :: after) state.1 state.2 =
      if before.foldl scan state = (0, false) then some (before, after)
      else (cutSchema before state.1 state.2).map fun r => (r.1, r.2 ++ ':' :: after) := by
  induction before generalizing state with
  | nil =>
    rw [nil_append, cutSchema_cons, cutSchema_none h, foldl_nil]
    by_cases hstart : state = (0, false)
    · subst hstart
      rfl
    · simp [hstart, cutSchema]
  | cons c cs ih =>
    rw [cons_append, cutSchema_cons, cutSchema_cons, foldl_cons, ih]
    by_cases hend : cs.foldl scan (scan state c) = (0, false)
    · simp only [hend, if_true]
    · simp only [hend, if_false]
      cases cutSchema cs (scan state c).1 (scan state c).2 with
      | some r => rfl
      | none =>
        by_cases hc : c = ':' ∧ state = (0, false)
        · simp only [Option.map_none, hc, and_self, if_true, Option.map_some]
        · simp only [Option.map_none, hc, if_false]

/-- The whole of a path is read, or its last colon stands outside brackets and quotes behind
`urn:`. -/
def SameCut (p : String) : Prop :=
  ∀ before after, cutLast (trimChars p.toList) ':' = some (before, after) →
    hasPrefix (toLower (trimSpace p)) "urn:" = true ∧ before.foldl scan (0, false) = (0, false)

theorem colon_notMem_tail (p : String) : ':' ∉ tail p := by
  unfold tail
  rcases cutLast_cases ':' (trimChars p.toList) with ⟨hnone, hcut⟩ | ⟨_, after, _, hafter, hcut⟩
  · rwa [hcut]
  · rwa [hcut]

theorem stripped_of_notMem {raw : List Char} (h : ':' ∉ raw) : stripped raw = raw := by
  unfold stripped
  rw [cutSchema_none h]
  exact ite_self _

theorem stripped_cut {before after : List Char} (h : ':' ∉ after)
    (hurn : hasPrefix (toLower (String.ofList (before ++ ':' :: after))) "urn:" = true)
    (hend : before.foldl scan (0, false) = (0, false)) :
    stripped (before ++ ':' :: after) = after := by
  have hcut := cutSchema_append before h (0, false)
  rw [if_pos hend] at hcut
  rw [stripped, if_pos hurn, hcut]

theorem stripped_longer {before after : List Char} (h : ':' ∉ after)
    (hother : ¬ (hasPrefix (toLower (String.ofList (before ++ ':' :: after))) "urn:" = true ∧
      before.foldl scan (0, false) = (0, false))) :
    ∃ b, stripped (before ++ ':' :: after) = b ++ ':' :: after := by
  unfold stripped
  by_cases hurn : hasPrefix (toLower (String.ofList (before ++ ':' :: after))) "urn:" = true
  · have hcut := cutSchema_append before h (0, false)
    rw [if_neg fun hend => hother ⟨hurn, hend⟩] at hcut
    rw [if_pos hurn, hcut]
    cases cutSchema before 0 false with
    | some r => exact ⟨r.2, rfl⟩
    | none => exact ⟨before, rfl⟩
  · rw [if_neg hurn]
    exact ⟨before, rfl⟩

/-- The parser reads the text behind the last colon, or a longer one that has the colon. -/
theorem stripped_cases (p : String) :
    SameCut p ∧ stripped (trimChars p.toList) = tail p ∨
      ¬ SameCut p ∧ ∃ before, stripped (trimChars p.toList) = before ++ ':' :: tail p := by
  unfold SameCut tail trimSpace
  rcases cutLast_cases ':' (trimChars p.toList) with
    ⟨hnone, hcut⟩ | ⟨before, after, hp, hafter, hcut⟩
  · rw [hcut]
    exact .inl ⟨fun before after h => (by cases h), stripped_of_notMem hnone⟩
  · rw [hcut, hp]
    by_cases hsame : hasPrefix (toLower (String.ofList (before ++ ':' :: after))) "urn:" = true ∧
        before.foldl scan (0, false) = (0, false)
    · refine .inl ⟨fun b a h => ?_, stripped_cut hafter hsame.1 hsame.2⟩
      cases h
      exact hsame
    · exact .inr ⟨fun h => hsame (h before after rfl), stripped_longer hafter hsame⟩

/-- What the parser reads of a path: a value filter between the first and the last bracket,
an attribute with a sub-attribute, or an attribute alone. -/
theorem readNames_cases {raw : List Char} {attr sub : String}
    (h : readNames isFloat raw = some (attr, sub)) :
    (∃ pre inner rest, raw = pre ++ '[' :: (inner ++ ']' :: rest) ∧ attr = lowerTrim pre ∧
        subName rest = some sub) ∨
      ('[' ∉ raw ∧ ∃ pre post, raw = pre ++ '.' :: post ∧ attr = lowerTrim pre ∧
        sub = lowerTrim post) ∨
      ('[' ∉ raw ∧ attr = lowerTrim raw ∧ sub = "") := by
  have hnamed : ∀ {a b : String}, named a b = some (attr, sub) → attr = a ∧ sub = b := by
    intro a b hab
    unfold named at hab
    split_ifs at hab
    cases hab
    exact ⟨rfl, rfl⟩
  unfold readNames at h
  rcases cutFirst_cases '[' raw with ⟨hopen, hcut⟩ | ⟨pre, after, hraw, _, hcut⟩
  · rw [hcut] at h
    rcases cutFirst_cases '.' raw with ⟨_, hdot⟩ | ⟨pre, post, hraw, _, hdot⟩
    · rw [hdot] at h
      exact .inr (.inr ⟨hopen, hnamed h⟩)
    · rw [hdot] at h
      exact .inr (.inl ⟨hopen, pre, post, hraw, hnamed h⟩)
  · rw [hcut] at h
    rcases cutLast_cases ']' after with ⟨_, hclose⟩ | ⟨inner, rest, hafter, _, hclose⟩
    · simp [hclose] at h
    · simp only [hclose] at h
      split_ifs at h
      obtain ⟨name, hname, hboth⟩ := Option.bind_eq_some_iff.mp h
      obtain ⟨hattr, rfl⟩ := hnamed hboth
      exact .inl ⟨pre, inner, rest, by rw [hraw, hafter], hattr, hname⟩

theorem delimiter_of_mem {d : Char} (hd : d ∈ [']', ':']) :
    d ∈ ['(', ')', '"', '\\', '[', ']', '.', ':'] := by
  revert d
  decide

theorem ne_dot_of_mem {d : Char} (hd : d ∈ [']', ':']) : d ≠ '.' := by
  revert d
  decide

theorem mem_lowerTrim {d : Char} (hd : d ∈ ['(', ')', '"', '\\', '[', ']', '.', ':'])
    (cs : List Char) : d ∈ (lowerTrim cs).toList ↔ d ∈ cs := by
  have hspace : isSpace d = false := by
    revert d
    decide
  have hkeeps : Keeps lowerChar d := keeps_delimiter (by
    revert d
    decide)
  rw [lowerTrim, toLower, String.toList_ofList, String.toList_ofList, hkeeps.mem]
  exact ⟨mem_of_mem_trimChars, mem_trimChars hspace⟩

theorem mem_subName {d : Char} (hd : d ∈ [']', ':']) {rest : List Char} {sub : String}
    (h : subName rest = some sub) : d ∈ sub.toList ↔ d ∈ rest := by
  have hspace : isSpace d = false := by
    revert d
    decide
  have htrim : d ∈ trimChars rest ↔ d ∈ rest := ⟨mem_of_mem_trimChars, mem_trimChars hspace⟩
  rw [← htrim]
  unfold subName at h
  split at h
  · cases h
    rename_i hnil
    simp [hnil]
  · cases h
    rename_i post hpost
    rw [hpost, mem_cons, or_iff_right (ne_dot_of_mem hd)]
    exact mem_lowerTrim (delimiter_of_mem hd) post
  · cases h

/-- A colon that the parser did not take for a schema is in the attribute, in the
sub-attribute or in the filter. -/
theorem colon_cases {raw : List Char} {attr sub : String}
    (h : readNames isFloat raw = some (attr, sub)) (hcolon : ':' ∈ raw) :
    ':' ∈ attr.toList ∨ ':' ∈ sub.toList ∨
      ∃ pre inner rest, raw = pre ++ '[' :: (inner ++ ']' :: rest) ∧ ':' ∈ inner ∧ ':' ∉ rest ∧
        attr = lowerTrim pre ∧ subName rest = some sub := by
  rcases readNames_cases h with
    ⟨pre, inner, rest, rfl, rfl, hsub⟩ | ⟨_, pre, post, rfl, rfl, rfl⟩ | ⟨_, rfl, _⟩
  · rw [mem_lowerTrim (by decide), mem_subName (by decide) hsub]
    by_cases hrest : ':' ∈ rest
    · exact .inr (.inl hrest)
    · have hmem : ':' ∈ pre ∨ ':' ∈ inner := by simpa [hrest] using hcolon
      exact hmem.imp_right fun hinner => .inr ⟨pre, inner, rest, rfl, hinner, hrest, rfl, hsub⟩
  · rw [mem_lowerTrim (by decide), mem_lowerTrim (by decide)]
    have hmem : ':' ∈ pre ∨ ':' ∈ post := by simpa using hcolon
    exact hmem.imp_right .inl
  · exact .inl ((mem_lowerTrim (by decide) _).mpr hcolon)

theorem mem_of_names {raw : List Char} {attr sub : String}
    (h : readNames isFloat raw = some (attr, sub)) {d : Char}
    (hd : d ∈ [']', ':']) :
    d ∈ attr.toList ∨ d ∈ sub.toList → d ∈ raw := by
  have hdot := delimiter_of_mem hd
  rcases readNames_cases h with
    ⟨pre, inner, rest, rfl, rfl, hsub⟩ | ⟨_, pre, post, rfl, rfl, rfl⟩ | ⟨_, rfl, rfl⟩
  · rw [mem_lowerTrim hdot, mem_subName hd hsub]
    simp only [mem_append, mem_cons]
    grind
  · rw [mem_lowerTrim hdot, mem_lowerTrim hdot]
    simp only [mem_append, mem_cons]
    grind
  · rw [mem_lowerTrim hdot]
    simp

theorem names_of_mem {raw : List Char} {attr sub : String}
    (h : readNames isFloat raw = some (attr, sub)) (hopen : '[' ∉ raw) {d : Char}
    (hd : d ∈ [']', ':']) (hmem : d ∈ raw) :
    d ∈ attr.toList ∨ d ∈ sub.toList := by
  have hdot := delimiter_of_mem hd
  have hne := ne_dot_of_mem hd
  rcases readNames_cases h with
    ⟨pre, inner, rest, rfl, _⟩ | ⟨_, pre, post, rfl, rfl, rfl⟩ | ⟨_, rfl, _⟩
  · exact absurd hopen (by simp)
  · rw [mem_lowerTrim hdot, mem_lowerTrim hdot]
    simpa [hne] using hmem
  · exact .inl ((mem_lowerTrim hdot _).mpr hmem)

/-- An attribute path with at most one value filter. -/
def OneFilter (p : String) : Prop := p.toList.count '[' ≤ 1 ∧ p.toList.count ']' ≤ 1

theorem names_differ {before k : List Char} (hk : ':' ∉ k)
    (hopens : (before ++ ':' :: k).count '[' ≤ 1) (hcloses : (before ++ ':' :: k).count ']' ≤ 1)
    {attr sub : String} (hraw : readNames isFloat (before ++ ':' :: k) = some (attr, sub)) :
    readNames isFloat k ≠ some (attr, sub) := by
  intro htail
  have hnone : ¬ (':' ∈ attr.toList ∨ ':' ∈ sub.toList) :=
    fun h => hk (mem_of_names htail (by decide) h)
  rcases colon_cases hraw (by simp) with
    h | h | ⟨pre, inner, rest, heq, hinner, hrest, rfl, hsub⟩
  · exact hnone (.inl h)
  · exact hnone (.inr h)
  · rcases cutLast_cases ':' inner with ⟨h, _⟩ | ⟨i₁, i₂, rfl, hi₂, _⟩
    · exact h hinner
    · have hcut : some (before, k) = some (pre ++ '[' :: i₁, i₂ ++ ']' :: rest) := by
        rw [← cutLast_append hk before, heq]
        have hafter : ':' ∉ i₂ ++ ']' :: rest := by simp [hi₂, hrest]
        have hshape : pre ++ '[' :: (i₁ ++ ':' :: i₂ ++ ']' :: rest) =
            (pre ++ '[' :: i₁) ++ ':' :: (i₂ ++ ']' :: rest) := by simp
        rw [hshape, cutLast_append hafter]
      cases hcut
      simp only [count_append, count_cons] at hopens hcloses
      have hopen : '[' ∉ i₂ ++ ']' :: rest := by
        rw [← count_eq_zero]
        simp at hopens ⊢
        omega
      have hclose : ']' ∉ pre ∧ ']' ∉ rest := by
        rw [← count_eq_zero, ← count_eq_zero]
        simp at hcloses
        omega
      rcases names_of_mem htail hopen (d := ']') (by decide) (by simp) with h | h
      · exact hclose.1 ((mem_lowerTrim (by decide) _).mp h)
      · exact hclose.2 ((mem_subName (by decide) hsub).mp h)

theorem cutSchema_sublist {cs before after : List Char} {depth : ℤ} {inQuote : Bool}
    (h : cutSchema cs depth inQuote = some (before, after)) : after.Sublist cs := by
  induction cs generalizing depth inQuote before with
  | nil => cases h
  | cons c cs ih =>
    rw [cutSchema_cons] at h
    split at h
    · rename_i hlater
      cases h
      exact (ih hlater).cons c
    · split_ifs at h
      cases h
      exact sublist_cons_self c _

theorem stripped_sublist (raw : List Char) : (stripped raw).Sublist raw := by
  unfold stripped
  split_ifs
  · split
    · rename_i hcut
      exact cutSchema_sublist hcut
    · exact Sublist.refl raw
  · exact Sublist.refl raw

theorem OneFilter.counts {p : String} (h : OneFilter p) :
    (stripped (trimChars p.toList)).count '[' ≤ 1 ∧
      (stripped (trimChars p.toList)).count ']' ≤ 1 := by
  have hsub := (stripped_sublist _).trans (trimChars_sublist p.toList)
  exact ⟨(hsub.count_le '[').trans h.1, (hsub.count_le ']').trans h.2⟩

/-- The names that are read behind `normalisePath`, and from the path itself. -/
def Agrees (isFloat : String → Bool) (p : String) : Prop :=
  names (parsePath isFloat (normalisePath p)) = names (parsePath isFloat p)

/-- Lowering and trimming are lost on the parser, so the text behind the last colon counts. -/
theorem names_normalised (p : String) :
    names (parsePath isFloat (normalisePath p)) = readNames isFloat (tail p) := by
  have hlow : normalisePath p = toLower (String.ofList (tail p)) := rfl
  have hnormal : (normalisePath p).toList = (tail p).map lowerChar := by
    rw [hlow, toLower, String.toList_ofList, String.toList_ofList]
  have hcolon : ':' ∉ (trimChars (tail p)).map lowerChar := by
    rw [(keeps_delimiter (d := ':') (by decide)).mem]
    exact fun h => colon_notMem_tail p (mem_of_mem_trimChars h)
  rw [names_parsePath, hnormal, trimChars_map isSpace_lowerChar, stripped_of_notMem hcolon,
    readNames_lower, readNames_trim]

theorem agrees_of_sameCut {p : String} (h : SameCut p) : Agrees isFloat p := by
  rcases stripped_cases p with ⟨_, hcut⟩ | ⟨hnot, _⟩
  · rw [Agrees, names_normalised, names_parsePath, hcut]
  · exact absurd h hnot

theorem sameCut_of_agrees {p : String} (hone : OneFilter p) {path : Path}
    (hok : parsePath isFloat p = .ok path) (h : Agrees isFloat p) : SameCut p := by
  rcases stripped_cases p with ⟨hsame, _⟩ | ⟨_, before, hraw⟩
  · exact hsame
  · have hread : readNames isFloat (before ++ ':' :: tail p) = some (path.attr, path.sub) := by
      rw [← hraw, ← names_parsePath, hok]
      rfl
    have hcount := hone.counts
    rw [hraw] at hcount
    rw [Agrees, names_normalised, names_parsePath, hraw, hread] at h
    exact absurd h (names_differ (colon_notMem_tail p) hcount.1 hcount.2 hread)

/-- Paths on which both readers cut at the same place name the same attribute, and of the
paths with one value filter that the parser accepts, no others do. -/
theorem path_readers_agree (isFloat : String → Bool) (p : String) :
    (SameCut p → Agrees isFloat p) ∧
      (OneFilter p → ∀ path, parsePath isFloat p = .ok path →
        (Agrees isFloat p ↔ SameCut p)) :=
  ⟨agrees_of_sameCut, fun hone _ hok => ⟨sameCut_of_agrees hone hok, agrees_of_sameCut⟩⟩

theorem path_readers_agree_core (isFloat : String → Bool) :
    Agrees isFloat "urn:scim:User:Active" ∧ ¬ Agrees isFloat "foo:active" := by
  constructor
  · refine (path_readers_agree isFloat _).1 fun before after h => ?_
    have hcut : cutLast (trimChars "urn:scim:User:Active".toList) ':' =
        some ("urn:scim:User".toList, "Active".toList) := by decide
    have hbefore : before = "urn:scim:User".toList :=
      (congrArg Prod.fst (Option.some.inj (hcut.symm.trans h))).symm
    rw [hbefore]
    decide
  · rw [(path_readers_agree isFloat "foo:active").2 (by unfold OneFilter; decide) _ rfl]
    exact fun h => absurd (h "foo".toList "active".toList (by decide)).1 (by decide)

/-- A colon in a quoted filter value is taken for the end of a schema. -/
theorem quoted_colon_cut : ¬ Agrees (fun _ => false) "emails[value eq \"urn:x\"]" := by
  intro hagrees
  have hinner : parseFilter (fun _ => false) "value eq \"urn:x\"".toList =
      .ok (.compare "eq" "value" (.text "urn:x")) :=
    parseFilter_ok.2 ⟨[⟨"value", false⟩, ⟨"eq", false⟩, ⟨"urn:x", true⟩], rfl,
      .conjunction (.operand (.compare (by decide) (by decide) (by decide)))⟩
  have hread : readNames (fun _ => false) "emails[value eq \"urn:x\"]".toList =
      some ("emails", "") := by
    have hopen : cutFirst "emails[value eq \"urn:x\"]".toList '[' =
        some ("emails".toList, "value eq \"urn:x\"]".toList) := by decide
    have hclose : cutLast "value eq \"urn:x\"]".toList ']' =
        some ("value eq \"urn:x\"".toList, []) := by decide
    simp only [readNames, hopen, hclose, accepts, hinner]
    decide
  have hcut : stripped (trimChars "emails[value eq \"urn:x\"]".toList) =
      "emails[value eq \"urn:x\"]".toList := by decide
  have htail : tail "emails[value eq \"urn:x\"]" = "x\"]".toList := by decide
  rw [Agrees, names_normalised, names_parsePath, hcut, htail, hread] at hagrees
  revert hagrees
  decide

end Signari.PathReaders
