import Signari.JsonValues

/-!
# How far an encoded value reaches

Values are compared by their encodings, so equal encodings have to mean equal values. For arrays
that takes an argument: the elements stand one after the other, and it has to be clear where each of
them ends. `extent` reads up to a comma or a closing bracket that belongs to no bracket or string
opened on the way, and what it reads off an encoded value followed by such a character is that
value's encoding (`extent_marshal`).
-/
namespace Signari.JsonExtents
open GoStrings JsonValues List

inductive Mode where
  | outside | inString | escaped
  deriving DecidableEq

def opens (c : Char) : Bool := c == '[' || c == '\x7b'

def closes (c : Char) : Bool := c == ']' || c == '\x7d'

def depthAfter (depth : ℕ) (c : Char) : ℕ :=
  if opens c then depth + 1 else if closes c then depth - 1 else depth

def modeAfter (mode : Mode) (c : Char) : Mode := match mode with
  | .outside => if c = '"' then .inString else .outside
  | .inString => if c = '"' then .outside else if c = '\\' then .escaped else .inString
  | .escaped => .inString

/-- Where the innermost value ends: at a comma or a closing bracket of its surroundings. -/
def ends (mode : Mode) (depth : ℕ) (c : Char) : Bool :=
  mode == .outside && depth == 0 && (c == ',' || closes c)

/-- Splits a text at the first place where the value it starts with has ended. -/
def extent : Mode → ℕ → List Char → List Char × List Char
  | _, _, [] => ([], [])
  | mode, depth, c :: cs =>
    if ends mode depth c then ([], c :: cs)
    else
      let rest := extent (modeAfter mode c)
        (if mode = .outside then depthAfter depth c else depth) cs
      (c :: rest.1, rest.2)

/-- A text that is read over at each depth from `low` on, back to where it started. -/
def Passes (low : ℕ) (w : List Char) : Prop :=
  ∀ depth, low ≤ depth → ∀ r, extent .outside depth (w ++ r) =
    (w ++ (extent .outside depth r).1, (extent .outside depth r).2)

section
variable {low : ℕ} {u w : List Char}

theorem passes_nil : Passes low [] := fun _ _ _ => rfl

theorem Passes.append (hu : Passes low u) (hw : Passes low w) : Passes low (u ++ w) := by
  intro depth hlow r
  rw [List.append_assoc, hu depth hlow, hw depth hlow, List.append_assoc]

theorem Passes.mono {high : ℕ} (h : Passes low w) (hle : low ≤ high) : Passes high w :=
  fun depth hlow r => h depth (hle.trans hlow) r

theorem extent_cons {depth : ℕ} {c : Char} (hends : ends .outside depth c = false)
    (r : List Char) : extent .outside depth (c :: r) =
      (c :: (extent (modeAfter .outside c) (depthAfter depth c) r).1,
        (extent (modeAfter .outside c) (depthAfter depth c) r).2) := by
  rw [extent, hends]
  rfl

theorem extent_inString (depth : ℕ) (c : Char) (r : List Char) :
    extent .inString depth (c :: r) =
      (c :: (extent (modeAfter .inString c) depth r).1,
        (extent (modeAfter .inString c) depth r).2) := rfl

theorem extent_escaped (depth : ℕ) (c : Char) (r : List Char) :
    extent .escaped depth (c :: r) =
      (c :: (extent .inString depth r).1, (extent .inString depth r).2) := rfl

theorem passes_char {c : Char} (hquote : c ≠ '"') (hopen : opens c = false)
    (hclose : closes c = false) (hcomma : c ≠ ',' ∨ 0 < low) : Passes low [c] := by
  intro depth hlow r
  have hends : ends .outside depth c = false := by
    simp only [ends, hclose, Bool.or_false]
    obtain hc | hl := hcomma
    · simp [hc]
    · have : depth ≠ 0 := by omega
      simp [this]
  have hmode : modeAfter .outside c = .outside := if_neg hquote
  have hdepth : depthAfter depth c = depth := by simp [depthAfter, hopen, hclose]
  rw [singleton_append, extent_cons hends, hmode, hdepth]
  rfl

theorem passes_plain (h : ∀ c ∈ w, c ≠ '"' ∧ opens c = false ∧ closes c = false ∧ c ≠ ',') :
    Passes low w := by
  induction w with
  | nil => exact passes_nil
  | cons c w ih =>
    obtain ⟨hquote, hopen, hclose, hcomma⟩ := h c (by simp)
    exact (passes_char hquote hopen hclose (.inl hcomma)).append (ih fun d hd => h d (by simp [hd]))

theorem Passes.enclosed {o c : Char} (hopen : opens o = true) (hclose : closes c = true)
    (h : Passes 1 w) : Passes 0 (o :: w ++ [c]) := by
  have ho : o = '[' ∨ o = '\x7b' := by simpa [opens] using hopen
  have hc : c = ']' ∨ c = '\x7d' := by simpa [closes] using hclose
  intro depth _ r
  have hdown : extent .outside depth (o :: (w ++ (c :: r))) =
      (o :: (extent .outside (depth + 1) (w ++ (c :: r))).1,
        (extent .outside (depth + 1) (w ++ (c :: r))).2) := by
    obtain rfl | rfl := ho
    · exact extent_cons (by simp [ends, closes]) _
    · exact extent_cons (by simp [ends, closes]) _
  have hup : extent .outside (depth + 1) (c :: r) =
      (c :: (extent .outside depth r).1, (extent .outside depth r).2) := by
    obtain rfl | rfl := hc
    · exact extent_cons (by simp [ends]) _
    · exact extent_cons (by simp [ends]) _
  have happ : o :: w ++ [c] ++ r = o :: (w ++ (c :: r)) := by simp
  rw [happ, hdown, h (depth + 1) (by omega), hup]
  simp

/-- A text that is read over inside a string. -/
def PassesInside (w : List Char) : Prop :=
  ∀ depth r, extent .inString depth (w ++ r) =
    (w ++ (extent .inString depth r).1, (extent .inString depth r).2)

theorem passesInside_nil : PassesInside [] := fun _ _ => rfl

theorem PassesInside.append (hu : PassesInside u) (hw : PassesInside w) :
    PassesInside (u ++ w) := by
  intro depth r
  rw [List.append_assoc, hu depth, hw depth, List.append_assoc]

theorem passesInside_plain (h : ∀ c ∈ w, c ≠ '"' ∧ c ≠ '\\') : PassesInside w := by
  induction w with
  | nil => exact passesInside_nil
  | cons c w ih =>
    obtain ⟨hquote, hescape⟩ := h c (by simp)
    have hmode : modeAfter .inString c = .inString := by simp [modeAfter, hquote, hescape]
    intro depth r
    rw [cons_append, extent_inString, hmode, ih (fun d hd => h d (by simp [hd])) depth r]
    rfl

theorem passesInside_escape (c : Char) : PassesInside ['\\', c] := by
  intro depth r
  have hmode : modeAfter .inString '\\' = .escaped := rfl
  rw [cons_append, extent_inString, hmode, cons_append, extent_escaped]
  rfl

theorem passesInside_ite {p : Prop} [Decidable p] (hu : PassesInside u)
    (hw : ¬p → PassesInside w) : PassesInside (if p then u else w) := by
  by_cases hp : p
  · rw [if_pos hp]
    exact hu
  · rw [if_neg hp]
    exact hw hp

theorem hexDigit_plain (n : ℕ) : hexDigit n ≠ '"' ∧ hexDigit n ≠ '\\' := by
  by_cases hn : n < 16
  · have hall : ∀ m < 16, hexDigit m ≠ '"' ∧ hexDigit m ≠ '\\' := by decide
    exact hall n hn
  · have hout : hexDigit n = '0' := by
      have hlen : "0123456789abcdef".toList.length ≤ n := not_lt.mp hn
      rw [hexDigit, getD_eq_getElem?_getD, getElem?_eq_none hlen]
      rfl
    rw [hout]
    decide

theorem passesInside_encodeChar (c : Char) : PassesInside (encodeChar c) := by
  have hhex : ∀ m n, PassesInside ['\\', 'u', '0', '0', hexDigit m, hexDigit n] := by
    intro m n
    apply (passesInside_escape 'u').append (w := ['0', '0', hexDigit m, hexDigit n])
    apply passesInside_plain
    simp [hexDigit_plain]
  unfold encodeChar
  refine passesInside_ite (passesInside_escape _) fun hquote => ?_
  refine passesInside_ite (passesInside_escape _) fun hescape => ?_
  iterate 5 refine passesInside_ite (passesInside_escape _) fun _ => ?_
  refine passesInside_ite (hhex _ _) fun _ => ?_
  refine passesInside_ite ?_ fun _ => passesInside_ite ?_ fun _ => ?_
  · exact (passesInside_escape 'u').append (w := ['2', '0', '2', '8'])
      (passesInside_plain (by simp))
  · exact (passesInside_escape 'u').append (w := ['2', '0', '2', '9'])
      (passesInside_plain (by simp))
  · exact passesInside_plain (by simp [hquote, hescape])

theorem passesInside_flatMap (cs : List Char) : PassesInside (cs.flatMap encodeChar) := by
  induction cs with
  | nil => exact passesInside_nil
  | cons c cs ih =>
    rw [flatMap_cons]
    exact (passesInside_encodeChar c).append ih

theorem passes_encodeString (s : String) : Passes 0 (encodeString s).toList := by
  intro depth _ r
  have hopen : extent .outside depth ('"' :: (s.toList.flatMap encodeChar ++ ('"' :: r))) =
      ('"' :: (extent .inString depth (s.toList.flatMap encodeChar ++ ('"' :: r))).1,
        (extent .inString depth (s.toList.flatMap encodeChar ++ ('"' :: r))).2) := by
    exact extent_cons (by simp [ends, closes]) _
  have hclose : extent .inString depth ('"' :: r) =
      ('"' :: (extent .outside depth r).1, (extent .outside depth r).2) :=
    extent_inString depth '"' r
  have happ : (encodeString s).toList ++ r =
      '"' :: (s.toList.flatMap encodeChar ++ ('"' :: r)) := by
    simp [encodeString]
  rw [happ, hopen, passesInside_flatMap, hclose]
  simp [encodeString]

end

theorem passes_join {parts : List String} (h : ∀ t ∈ parts, Passes 0 t.toList) :
    Passes 1 (join parts ",").toList := by
  induction parts with
  | nil => exact passes_nil
  | cons t ts ih =>
    have ht : Passes 1 t.toList := (h t (by simp)).mono (by omega)
    have hts := ih fun t' ht' => h t' (by simp [ht'])
    cases ts with
    | nil => exact ht
    | cons t' ts =>
      have hcomma : Passes 1 [','] := passes_char (by decide) rfl rfl (.inr one_pos)
      have happ : (join (t :: t' :: ts) ",").toList =
          t.toList ++ [','] ++ (join (t' :: ts) ",").toList := by
        simp [join]
      rw [happ]
      exact (ht.append hcomma).append hts

theorem numeral_plain {c : Char}
    (h : (c.isDigit || c == '-' || c == '+' || c == '.' || c == 'e') = true) :
    c ≠ '"' ∧ opens c = false ∧ closes c = false ∧ c ≠ ',' := by
  have hout : ∀ d : Char, (d.isDigit || d == '-' || d == '+' || d == '.' || d == 'e') = false →
      c ≠ d := by
    rintro d hd rfl
    simp [h] at hd
  refine ⟨hout _ (by decide), ?_, ?_, hout _ (by decide)⟩
  · simp [opens, hout '[' (by decide), hout '\x7b' (by decide)]
  · simp [closes, hout ']' (by decide), hout '\x7d' (by decide)]

mutual

theorem passes_marshal : ∀ j : Json, Passes 0 (marshal j).toList
  | .null => passes_plain (by simp [marshal, opens, closes])
  | .bool true => passes_plain (by simp [marshal, opens, closes])
  | .bool false => passes_plain (by simp [marshal, opens, closes])
  | .num n => by
      apply passes_plain
      intro c hc
      exact numeral_plain (all_eq_true.mp n.plain c hc)
  | .str s => passes_encodeString s
  | .arr items => by
      have happ : (marshal (.arr items)).toList =
          '[' :: (join (marshalItems items) ",").toList ++ [']'] := by
        simp [marshal]
      rw [happ]
      exact (passes_join (passes_marshalItems items)).enclosed rfl rfl
  | .obj members => by
      have happ : (marshal (.obj members)).toList = '\x7b' ::
          (join ((sortMembers (marshalMembers members)).map fun m =>
            encodeString m.1 ++ ":" ++ m.2) ",").toList ++ ['\x7d'] := by
        simp [marshal]
      rw [happ]
      refine (passes_join ?_).enclosed rfl rfl
      intro t ht
      obtain ⟨m, hm, rfl⟩ := mem_map.mp ht
      have hcolon : Passes 0 [':'] := passes_char (by decide) rfl rfl (.inl (by decide))
      have hvalue := passes_marshalMembers members m ((mem_insertionSort _).mp hm)
      simpa using ((passes_encodeString m.1).append hcolon).append hvalue

theorem passes_marshalItems : ∀ items : List Json, ∀ t ∈ marshalItems items, Passes 0 t.toList
  | [] => by simp [marshalItems]
  | j :: js => by
      simp only [marshalItems, forall_mem_cons]
      exact ⟨passes_marshal j, passes_marshalItems js⟩

theorem passes_marshalMembers : ∀ members : List (String × Json),
    ∀ m ∈ marshalMembers members, Passes 0 m.2.toList
  | [] => by simp [marshalMembers]
  | (k, j) :: ms => by
      simp only [marshalMembers, forall_mem_cons]
      exact ⟨passes_marshal j, passes_marshalMembers ms⟩

end

/-- What follows the first part of a list in brackets. -/
def afterPart : List String → List Char
  | [] => [']']
  | t :: ts => ',' :: ((join (t :: ts) ",").toList ++ [']'])

theorem join_cons_toList (t : String) (ts : List String) :
    (join (t :: ts) ",").toList ++ [']'] = t.toList ++ afterPart ts := by
  cases ts with
  | nil => simp [join, afterPart]
  | cons t' ts => simp [join, afterPart]

theorem Passes.extent_eq {w : List Char} (h : Passes 0 w) (ts : List String) :
    extent .outside 0 (w ++ afterPart ts) = (w, afterPart ts) := by
  have hstop : extent .outside 0 (afterPart ts) = ([], afterPart ts) := by
    cases ts <;> simp [afterPart, extent, ends, closes]
  rw [h 0 le_rfl, hstop, append_nil]

theorem Passes.ne_close {w r r' : List Char} (h : Passes 0 w) (hne : w ≠ []) :
    w ++ r ≠ ']' :: r' := by
  intro heq
  have hstop : extent .outside 0 (w ++ r) = ([], ']' :: r') := by
    rw [heq]
    simp [extent, ends, closes]
  rw [h 0 le_rfl, Prod.mk.injEq, append_eq_nil_iff] at hstop
  exact hne hstop.1.1

theorem join_injective {ts us : List String} (hts : ∀ t ∈ ts, Passes 0 t.toList ∧ t.toList ≠ [])
    (hus : ∀ t ∈ us, Passes 0 t.toList ∧ t.toList ≠ [])
    (h : (join ts ",").toList ++ [']'] = (join us ",").toList ++ [']']) : ts = us := by
  induction ts generalizing us with
  | nil =>
    cases us with
    | nil => rfl
    | cons u us =>
      obtain ⟨hu, hne⟩ := hus u (by simp)
      rw [join_cons_toList] at h
      exact absurd h.symm (hu.ne_close hne)
  | cons t ts ih =>
    obtain ⟨ht, hne⟩ := hts t (by simp)
    cases us with
    | nil =>
      rw [join_cons_toList] at h
      exact absurd h (ht.ne_close hne)
    | cons u us =>
      rw [join_cons_toList, join_cons_toList] at h
      have hsplit := congrArg (extent .outside 0) h
      rw [ht.extent_eq, (hus u (by simp)).1.extent_eq, Prod.mk.injEq] at hsplit
      obtain ⟨htu, hrest⟩ := hsplit
      have htail : ts = us := by
        cases ts with
        | nil =>
          cases us with
          | nil => rfl
          | cons u' us => simp [afterPart] at hrest
        | cons t' ts =>
          cases us with
          | nil => simp [afterPart] at hrest
          | cons u' us =>
            apply ih (fun s hs => hts s (by simp [hs])) fun s hs => hus s (by simp [hs])
            simpa [afterPart] using hrest
      rw [String.toList_inj.mp htu, htail]

theorem marshal_ne_nil (j : Json) : (marshal j).toList ≠ [] := by
  cases j with
  | null => decide
  | bool b => cases b <;> decide
  | num n =>
    intro h
    have hn := n.numeral
    rw [marshal] at h
    simp [h] at hn
  | str s => simp [marshal, encodeString]
  | arr items => simp [marshal]
  | obj members => simp [marshal]

theorem marshalItems_eq_map (items : List Json) : marshalItems items = items.map marshal := by
  induction items with
  | nil => rfl
  | cons j js ih => rw [marshalItems, ih, map_cons]

theorem marshal_arr {xs : List Json} {j : Json} (h : marshal j = marshal (.arr xs)) :
    ∃ ys, j = .arr ys ∧ ys.map marshal = xs.map marshal := by
  have hl := congrArg String.toList h
  cases j with
  | null => simp [marshal] at hl
  | bool b => cases b <;> simp [marshal] at hl
  | num n =>
    have hn := n.numeral
    simp only [marshal] at hl
    rw [hl] at hn
    simp at hn
  | str s => simp [marshal, encodeString] at hl
  | obj members => simp [marshal] at hl
  | arr ys =>
    refine ⟨ys, rfl, ?_⟩
    have hpass : ∀ zs : List Json, ∀ t ∈ marshalItems zs, Passes 0 t.toList ∧ t.toList ≠ [] := by
      intro zs t ht
      refine ⟨passes_marshalItems zs t ht, ?_⟩
      rw [marshalItems_eq_map] at ht
      obtain ⟨z, -, rfl⟩ := mem_map.mp ht
      exact marshal_ne_nil z
    have hitems := join_injective (hpass ys) (hpass xs) (by simpa [marshal] using hl)
    rwa [marshalItems_eq_map, marshalItems_eq_map] at hitems

/-! ## Strings -/

/-- The value of a hexadecimal digit. -/
def hexValue (c : Char) : ℕ := "0123456789abcdef".toList.idxOf c

theorem hexValue_hexDigit {n : ℕ} (h : n < 16) : hexValue (hexDigit n) = n := by
  have hall : ∀ m < 16, hexValue (hexDigit m) = m := by decide
  exact hall n h

/-- What a letter stands for behind a backslash. -/
def unescape (c : Char) : Char := if c = 'b' then Char.ofNat 8
  else if c = 't' then Char.ofNat 9
  else if c = 'n' then Char.ofNat 10
  else if c = 'f' then Char.ofNat 12
  else if c = 'r' then Char.ofNat 13
  else c

/-- Four hexadecimal digits. -/
def decodeHex : List Char → Option (Char × List Char)
  | a :: b :: c :: d :: r =>
    some (Char.ofNat (((hexValue a * 16 + hexValue b) * 16 + hexValue c) * 16 + hexValue d), r)
  | _ => none

/-- The first rune of an encoded string, and what follows its encoding. -/
def decodeFirst : List Char → Option (Char × List Char)
  | [] => none
  | [c] => some (c, [])
  | c :: d :: r =>
    if c ≠ '\\' then some (c, d :: r)
    else if d = 'u' then decodeHex r
    else some (unescape d, r)

theorem decodeFirst_plain {c : Char} (h : c ≠ '\\') (r : List Char) :
    decodeFirst (c :: r) = some (c, r) := by
  cases r with
  | nil => rfl
  | cons d r => rw [decodeFirst, if_pos h]

/-- The forms an encoded rune has. -/
inductive Encodes (c : Char) : List Char → Prop
  | short (d : Char) (hd : d ≠ 'u') (h : unescape d = c) : Encodes c ['\\', d]
  | long (a b x y : Char) (h : ∀ r, decodeHex (a :: b :: x :: y :: r) = some (c, r)) :
      Encodes c ['\\', 'u', a, b, x, y]
  | plain (hquote : c ≠ '"') (hescape : c ≠ '\\') : Encodes c [c]

theorem encodes_ite {c : Char} {p : Prop} [Decidable p] {u w : List Char}
    (hu : p → Encodes c u) (hw : ¬p → Encodes c w) : Encodes c (if p then u else w) := by
  by_cases hp : p
  · rw [if_pos hp]
    exact hu hp
  · rw [if_neg hp]
    exact hw hp

theorem decodeHex_low {c : Char} (h : c.toNat < 64) (r : List Char) :
    decodeHex ('0' :: '0' :: hexDigit (c.toNat / 16) :: hexDigit (c.toNat % 16) :: r) =
      some (c, r) := by
  have hzero : hexValue '0' = 0 := by decide
  have hn : ((0 * 16 + 0) * 16 + c.toNat / 16) * 16 + c.toNat % 16 = c.toNat := by omega
  rw [decodeHex, hzero, hexValue_hexDigit (by omega), hexValue_hexDigit (by omega), hn,
    Char.ofNat_toNat]

theorem encodeChar_encodes (c : Char) : Encodes c (encodeChar c) := by
  have hcode : ∀ {n : ℕ}, c.toNat = n → Char.ofNat n = c := fun h => h ▸ Char.ofNat_toNat c
  unfold encodeChar
  refine encodes_ite (fun h => .short '"' (by decide) h.symm) fun hquote => ?_
  refine encodes_ite (fun h => .short '\\' (by decide) h.symm) fun hescape => ?_
  refine encodes_ite (fun h => .short 'b' (by decide) (hcode h)) fun _ => ?_
  refine encodes_ite (fun h => .short 't' (by decide) (hcode h)) fun _ => ?_
  refine encodes_ite (fun h => .short 'n' (by decide) (hcode h)) fun _ => ?_
  refine encodes_ite (fun h => .short 'f' (by decide) (hcode h)) fun _ => ?_
  refine encodes_ite (fun h => .short 'r' (by decide) (hcode h)) fun _ => ?_
  refine encodes_ite (fun h => .long _ _ _ _ (decodeHex_low ?_)) fun _ => ?_
  · rcases h with h | rfl | rfl | rfl
    · omega
    · decide
    · decide
    · decide
  refine encodes_ite (fun h => .long '2' '0' '2' '8' fun r => ?_) fun _ => ?_
  · rw [← hcode h]
    rfl
  refine encodes_ite (fun h => .long '2' '0' '2' '9' fun r => ?_) fun _ => .plain hquote hescape
  rw [← hcode h]
  rfl

theorem decodeFirst_encodeChar (c : Char) (r : List Char) :
    decodeFirst (encodeChar c ++ r) = some (c, r) := by
  have hform := encodeChar_encodes c
  generalize encodeChar c = e at hform
  cases hform with
  | short d hd h => simp [decodeFirst, hd, h]
  | long a b x y h => simp [decodeFirst, h]
  | plain _ hescape => exact decodeFirst_plain hescape r

theorem encodeChar_ne_quote (c : Char) (r : List Char) : (encodeChar c ++ r).head? ≠ some '"' := by
  have hform := encodeChar_encodes c
  generalize encodeChar c = e at hform
  cases hform with
  | short d => simp
  | long a b x y => simp
  | plain hquote => simpa using hquote

theorem encodeString_injective {s t : String} (h : encodeString s = encodeString t) : s = t := by
  have hall : ∀ cs ds : List Char,
      cs.flatMap encodeChar ++ ['"'] = ds.flatMap encodeChar ++ ['"'] → cs = ds := by
    intro cs
    induction cs with
    | nil =>
      intro ds h
      cases ds with
      | nil => rfl
      | cons d ds =>
        have hne := encodeChar_ne_quote d (ds.flatMap encodeChar ++ ['"'])
        rw [← List.append_assoc, ← flatMap_cons, ← h] at hne
        exact absurd rfl hne
    | cons c cs ih =>
      intro ds h
      cases ds with
      | nil =>
        have hne := encodeChar_ne_quote c (cs.flatMap encodeChar ++ ['"'])
        rw [← List.append_assoc, ← flatMap_cons, h] at hne
        exact absurd rfl hne
      | cons d ds =>
        have hfirst := congrArg decodeFirst h
        rw [flatMap_cons, flatMap_cons, List.append_assoc, List.append_assoc,
          decodeFirst_encodeChar, decodeFirst_encodeChar, Option.some.injEq,
          Prod.mk.injEq] at hfirst
        rw [hfirst.1, ih ds hfirst.2]
  have hlist := congrArg String.toList h
  simp only [encodeString, String.toList_ofList, cons_append, List.cons.injEq, true_and] at hlist
  exact String.toList_inj.mp (hall _ _ hlist)

theorem marshal_str {s : String} {j : Json} (h : marshal j = marshal (.str s)) : j = .str s := by
  have hl := congrArg String.toList h
  cases j with
  | null => simp [marshal, encodeString] at hl
  | bool b => cases b <;> simp [marshal, encodeString] at hl
  | num n =>
    have hn := n.numeral
    simp only [marshal] at hl
    rw [hl] at hn
    simp [encodeString] at hn
  | str t =>
    rw [marshal, marshal] at h
    rw [encodeString_injective h]
  | arr items => simp [marshal, encodeString] at hl
  | obj members => simp [marshal, encodeString] at hl

end Signari.JsonExtents
