import Signari.GoUrls

/-!
# Letter case in byte strings

`strings.EqualFold` compares two strings rune by rune under simple case folding. The table of
the folding is a parameter; what is used of it is that it agrees with ASCII on ASCII, and that
beside K and S no ASCII letter has a partner outside ASCII.

`CaseEq` is what it means for two strings to be the same except for letter case: the same bytes, but
for encoded letters in the place of encoded letters. Such strings are equal under folding
(`CaseEq.equalFold`) and stay so when they are percent-decoded (`CaseEq.unescapes`).
-/
namespace Signari.LetterCase
open ByteCodecs GoStrings GoUrls List

/-- Simple case folding, as a representative of each orbit. -/
structure Folding where
  fold : Char → Char
  ascii : ∀ c : Char, c.toNat < 128 → fold c = lowerChar c
  outside : ∀ c : Char, (fold c).toNat < 128 → 128 ≤ c.toNat → fold c = 'k' ∨ fold c = 's'

def simpleFolding : Folding where
  fold := foldChar
  ascii _ hc := if_pos hc
  outside c hc hwide := by
    have hfold : (foldChar c).toNat = CaseTables.foldCode c.toNat := by
      rw [foldChar, if_neg (not_lt.mpr hwide)]
      exact CaseTables.toNat_ofNat (CaseTables.foldCode_valid c.valid)
    rcases CaseTables.foldCode_ascii hwide with h | h | h
    · omega
    · exact .inl (Char.toNat_inj.mp (by rw [hfold, h]; rfl))
    · exact .inr (Char.toNat_inj.mp (by rw [hfold, h]; rfl))

variable (F : Folding)

/-- `strings.EqualFold`. -/
def equalFoldBytes (s t : Bytes) : Bool :=
  (runes s).map (fun r => F.fold r.1) == (runes t).map fun r => F.fold r.1

/-- The same except for letter case. -/
inductive CaseEq : Bytes → Bytes → Prop
  | nil : CaseEq [] []
  | byte (b : UInt8) {s t : Bytes} : CaseEq s t → CaseEq (b :: s) (b :: t)
  | letter {c d : Char} {s t : Bytes} : F.fold c = F.fold d → CaseEq s t →
      CaseEq (String.utf8EncodeChar c ++ s) (String.utf8EncodeChar d ++ t)

variable {F} {s t : Bytes}

theorem CaseEq.refl (s : Bytes) : CaseEq F s s := by
  induction s with
  | nil => exact .nil
  | cons b s ih => exact .byte b ih

theorem CaseEq.symm (h : CaseEq F s t) : CaseEq F t s := by
  induction h with
  | nil => exact .nil
  | byte b _ ih => exact .byte b ih
  | letter hcd _ ih => exact .letter hcd.symm ih

theorem encode_cons (c : Char) : ∃ b tail, String.utf8EncodeChar c = b :: tail ∧
    b.IsUTF8FirstByte ∧ ∀ x ∈ tail, ¬x.IsUTF8FirstByte := by
  cases henc : String.utf8EncodeChar c with
  | nil =>
    have hlength := String.length_utf8EncodeChar c
    have hpos := c.utf8Size_pos
    simp only [henc, length_nil] at hlength
    omega
  | cons b tail =>
    have hbyte {i : ℕ} (hi : i < (b :: tail).length) : (b :: tail)[i].IsUTF8FirstByte ↔ i = 0 := by
      have hi' : i < (String.utf8EncodeChar c).length := henc ▸ hi
      have hcore := @UInt8.isUTF8FirstByte_getElem_utf8EncodeChar c i hi'
      simpa only [henc] using hcore
    refine ⟨b, tail, rfl, (hbyte (i := 0) (by simp)).mpr rfl, ?_⟩
    intro x hx
    obtain ⟨i, hi, rfl⟩ := getElem_of_mem hx
    exact fun hfirst => absurd ((hbyte (i := i + 1) (by simpa using hi)).mp hfirst) (by simp)

theorem CaseEq.tail {tail : Bytes} (h : CaseEq F (tail ++ s) t)
    (htail : ∀ x ∈ tail, ¬x.IsUTF8FirstByte) : ∃ t', t = tail ++ t' ∧ CaseEq F s t' := by
  induction tail generalizing t with
  | nil => exact ⟨t, rfl, h⟩
  | cons x xs ih =>
    have hx := htail x mem_cons_self
    have hxs : ∀ y ∈ xs, ¬y.IsUTF8FirstByte := fun y hy => htail y (mem_cons_of_mem _ hy)
    generalize hwhole : x :: xs ++ s = whole at h
    cases h with
    | nil => cases hwhole
    | byte b hrest =>
      obtain ⟨rfl, rfl⟩ := List.cons.inj hwhole
      obtain ⟨t', rfl, ht'⟩ := ih hrest hxs
      exact ⟨t', rfl, ht'⟩
    | letter hcd hrest =>
      rename_i c d s' t'
      obtain ⟨b, more, henc, hfirst, -⟩ := encode_cons c
      rw [henc] at hwhole
      obtain ⟨rfl, -⟩ := List.cons.inj hwhole
      exact absurd hfirst hx

theorem runesFrom_eq {fuel : ℕ} {bs : Bytes} (h : bs.length ≤ fuel) :
    runesFrom fuel bs = runes bs := by
  suffices hall : ∀ n m, bs.length ≤ n → bs.length ≤ m → runesFrom n bs = runesFrom m bs from
    hall fuel bs.length h le_rfl
  clear h
  intro n
  induction n generalizing bs with
  | zero =>
    intro m hn _
    obtain rfl := length_eq_zero_iff.mp (Nat.le_zero.mp hn)
    cases m <;> simp [runesFrom]
  | succ n ih =>
    intro m hn hm
    by_cases hnil : bs = []
    · subst hnil
      cases m <;> simp [runesFrom]
    · obtain ⟨m, rfl⟩ : ∃ k, m = k + 1 := ⟨m - 1, by have := length_pos_of_ne_nil hnil; omega⟩
      have hpos := decodeRune_pos bs
      have hdrop : (bs.drop (decodeRune bs).2).length = bs.length - (decodeRune bs).2 := length_drop
      rw [runesFrom, runesFrom, if_neg hnil, if_neg hnil, ih m (by omega) (by omega)]

theorem runes_encode (c : Char) (s : Bytes) :
    runes (String.utf8EncodeChar c ++ s) = (c, String.utf8EncodeChar c) :: runes s := by
  have hsize := String.length_utf8EncodeChar c
  obtain ⟨n, hn⟩ : ∃ n, (String.utf8EncodeChar c ++ s).length = n + 1 :=
    ⟨c.utf8Size - 1 + s.length, by
      have := c.utf8Size_pos
      rw [length_append]
      omega⟩
  have hne : String.utf8EncodeChar c ++ s ≠ [] := ne_nil_of_length_eq_add_one hn
  have hrest : s.length ≤ n := by
    have := c.utf8Size_pos
    rw [length_append] at hn
    omega
  rw [runes, hn, runesFrom, if_neg hne, decodeRune_encode, ← hsize, take_left,
    drop_left, runesFrom_eq hrest]

theorem runes_broken {b : UInt8} (h : ∀ c more, b :: s ≠ String.utf8EncodeChar c ++ more) :
    runes (b :: s) = (Char.ofNat 0xFFFD, [b]) :: runes s := by
  have hdecode : decodeRune (b :: s) = (Char.ofNat 0xFFFD, 1) := by
    rw [decodeRune]
    cases hd : (b :: s).toByteArray.utf8DecodeChar? 0 with
    | none => rfl
    | some d =>
      obtain ⟨rest, hrest⟩ := ByteArray.exists_of_utf8DecodeChar?_eq_some hd
      have hlist := congrArg (fun bytes : ByteArray => bytes.data.toList) hrest
      exact absurd (by simpa using hlist) (h d rest.data.toList)
  rw [runes, length_cons, runesFrom, if_neg (cons_ne_nil b s), hdecode]
  rfl

theorem CaseEq.letters (h : CaseEq F s t) :
    (runes s).map (fun r => F.fold r.1) = (runes t).map fun r => F.fold r.1 := by
  induction hn : s.length using Nat.strong_induction_on generalizing s t with
  | h n ih =>
    subst hn
    cases h with
    | nil => rfl
    | letter hcd hrest =>
      rename_i c d s t
      have hshort : s.length < (String.utf8EncodeChar c ++ s).length := by
        have := c.utf8Size_pos
        rw [length_append, String.length_utf8EncodeChar]
        omega
      rw [runes_encode, runes_encode, map_cons, map_cons, hcd, ih _ hshort hrest rfl]
    | byte b hrest =>
      rename_i s t
      by_cases hs : ∃ c more, b :: s = String.utf8EncodeChar c ++ more
      · obtain ⟨c, more, hs⟩ := hs
        obtain ⟨b', tail, henc, -, htail⟩ := encode_cons c
        rw [henc] at hs
        obtain ⟨rfl, rfl⟩ := List.cons.inj hs
        obtain ⟨t', rfl, ht'⟩ := hrest.tail htail
        have hshort : more.length < (b :: (tail ++ more)).length := by
          simp only [length_cons, length_append]
          omega
        have hsplit (rest : Bytes) : b :: (tail ++ rest) = String.utf8EncodeChar c ++ rest := by
          rw [henc, cons_append]
        change List.map _ (runes (b :: (tail ++ more))) = List.map _ (runes (b :: (tail ++ t')))
        rw [hsplit, hsplit, runes_encode, runes_encode, map_cons, map_cons, ih _ hshort ht' rfl]
      · have ht : ¬∃ c more, b :: t = String.utf8EncodeChar c ++ more := by
          rintro ⟨c, more, ht⟩
          obtain ⟨b', tail, henc, -, htail⟩ := encode_cons c
          rw [henc] at ht
          obtain ⟨rfl, rfl⟩ := List.cons.inj ht
          obtain ⟨s', rfl, -⟩ := hrest.symm.tail htail
          exact hs ⟨c, s', by rw [henc]; rfl⟩
        rw [runes_broken fun c more he => hs ⟨c, more, he⟩,
          runes_broken fun c more he => ht ⟨c, more, he⟩, map_cons, map_cons,
          ih _ (by simp) hrest rfl]

theorem CaseEq.equalFold (h : CaseEq F s t) : equalFoldBytes F s t = true := by
  rw [equalFoldBytes, beq_iff_eq]
  exact h.letters

theorem encode_of_ascii {c : Char} (h : c.toNat < 128) :
    String.utf8EncodeChar c = [c.toNat.toUInt8] := by
  have hc : c.val.toNat ≤ 0x7f := Nat.le_of_lt_succ h
  rw [String.utf8EncodeChar, if_pos hc]
  rfl

theorem ascii_of_encode {c : Char} {b : UInt8} (h : String.utf8EncodeChar c = [b]) :
    c.toNat < 128 ∧ b = c.toNat.toUInt8 := by
  have hlength : c.utf8Size = 1 := by rw [← String.length_utf8EncodeChar, h]; rfl
  have hval : c.val ≤ 127 := Char.utf8Size_eq_one_iff.mp hlength
  have hc : c.toNat < 128 := Nat.lt_succ_of_le hval
  exact ⟨hc, by simpa [encode_of_ascii hc] using h.symm⟩

theorem unhex_lowerChar : ∀ n < 128, unhex (lowerChar (Char.ofNat n)).toNat.toUInt8 =
    unhex n.toUInt8 ∧ ((lowerChar (Char.ofNat n)).toNat = 37 ↔ n = 37) := by
  decide

theorem lowerChar_unhex {n m : ℕ} (hn : n < 128) (hm : m < 128)
    (h : lowerChar (Char.ofNat n) = lowerChar (Char.ofNat m)) :
    unhex n.toUInt8 = unhex m.toUInt8 ∧ (n = 37 ↔ m = 37) := by
  obtain ⟨hunhex, hpercent⟩ := unhex_lowerChar n hn
  obtain ⟨hunhex', hpercent'⟩ := unhex_lowerChar m hm
  rw [h] at hunhex hpercent
  exact ⟨hunhex.symm.trans hunhex', hpercent.symm.trans hpercent'⟩

theorem lowerChar_outside : ∀ n < 128,
    (lowerChar (Char.ofNat n) = 'k' ∨ lowerChar (Char.ofNat n) = 's') →
      unhex n.toUInt8 = none ∧ n ≠ 37 := by
  decide

/-- A letter in the place of a hexadecimal digit or a percent sign is one in ASCII. -/
theorem fold_ascii {c d : Char} (hcd : F.fold c = F.fold d) (hc : c.toNat < 128)
    (hkind : (unhex c.toNat.toUInt8).isSome ∨ c.toNat = 37) :
    d.toNat < 128 ∧ unhex c.toNat.toUInt8 = unhex d.toNat.toUInt8 ∧
      (c.toNat = 37 ↔ d.toNat = 37) := by
  have hfold := F.ascii c hc
  have hlow : (lowerChar c).toNat < 128 := by
    have hall : ∀ n < 128, (lowerChar (Char.ofNat n)).toNat < 128 := by decide
    simpa using hall c.toNat hc
  have hd : d.toNat < 128 := by
    by_contra hout
    have hks := F.outside d (by rw [← hcd, hfold]; exact hlow) (not_lt.mp hout)
    rw [← hcd, hfold] at hks
    obtain ⟨hhex, hpercent⟩ := lowerChar_outside c.toNat hc (by simpa using hks)
    rw [hhex] at hkind
    exact hkind.elim nofun hpercent
  refine ⟨hd, lowerChar_unhex hc hd ?_⟩
  rw [Char.ofNat_toNat, Char.ofNat_toNat, ← hfold, hcd, F.ascii d hd]

theorem CaseEq.head {b : UInt8} (h : CaseEq F (b :: s) t)
    (hkind : (unhex b).isSome ∨ b = ch '%') : ∃ b' t', t = b' :: t' ∧ unhex b = unhex b' ∧
      (b = ch '%' ↔ b' = ch '%') ∧ CaseEq F s t' := by
  have hb : b < 128 := by
    have hall : ∀ n < 256, (unhex n.toUInt8).isSome ∨ n.toUInt8 = ch '%' → n < 128 := by
      decide +kernel
    have hb' := hall b.toNat b.toNat_lt (by simpa using hkind)
    exact UInt8.lt_iff_toNat_lt.mpr hb'
  generalize hwhole : b :: s = whole at h
  cases h with
  | nil => cases hwhole
  | byte b' hrest =>
    obtain ⟨rfl, rfl⟩ := List.cons.inj hwhole
    exact ⟨b, _, rfl, rfl, Iff.rfl, hrest⟩
  | letter hcd hrest =>
    rename_i c d s' t'
    have hmem : b ∈ String.utf8EncodeChar c := by
      obtain ⟨b', tail, henc, -⟩ := encode_cons c
      rw [henc] at hwhole ⊢
      rw [(List.cons.inj hwhole).1]
      exact mem_cons_self
    have henc := encode_ascii hmem hb
    rw [henc] at hwhole
    obtain ⟨-, rfl⟩ := List.cons.inj hwhole
    obtain ⟨hc, rfl⟩ := ascii_of_encode henc
    have hpercent {n : ℕ} (hn : n < 128) : n.toUInt8 = ch '%' ↔ n = 37 := by
      have hall : ∀ n < 128, n.toUInt8 = ch '%' ↔ n = 37 := by decide
      exact hall n hn
    rw [hpercent hc] at hkind
    obtain ⟨hd, hhex, hsign⟩ := fold_ascii hcd hc hkind
    exact ⟨d.toNat.toUInt8, t', by rw [encode_of_ascii hd]; rfl, hhex,
      by rw [hpercent hc, hpercent hd, hsign], hrest⟩

theorem unescapes_percent {x : Bytes} (h : Unescapes .path (ch '%' :: s) x) :
    ∃ p q hi lo rest x', s = p :: q :: rest ∧ unhex p = some hi ∧ unhex q = some lo ∧
      x = (16 * hi + lo).toUInt8 :: x' ∧ Unescapes .path rest x' := by
  cases h with
  | escape hhi hlo _ hrest => exact ⟨_, _, _, _, _, _, rfl, hhi, hlo, rfl, hrest⟩
  | plain hc => exact absurd rfl hc

theorem unescapes_plain {u x : Bytes} (hu : ch '%' ∉ u) (h : Unescapes .path (u ++ s) x) :
    ∃ x', x = u ++ x' ∧ Unescapes .path s x' := by
  induction u generalizing x with
  | nil => exact ⟨x, rfl, h⟩
  | cons b u ih =>
    obtain ⟨hb, hu⟩ := not_or.mp (mem_cons.not.mp hu)
    generalize hwhole : b :: u ++ s = whole at h
    cases h with
    | nil => cases hwhole
    | escape => exact absurd (List.cons.inj hwhole).1.symm hb
    | plain hc _ hrest =>
      obtain ⟨rfl, rfl⟩ := List.cons.inj hwhole
      obtain ⟨x', rfl, hx'⟩ := ih hu hrest
      exact ⟨x', by simp [plainByte], hx'⟩

theorem percent_encode {c d : Char} (hcd : F.fold c = F.fold d)
    (h : ch '%' ∈ String.utf8EncodeChar c) : String.utf8EncodeChar d = [ch '%'] := by
  obtain ⟨hc, hsign⟩ := ascii_of_encode (encode_ascii h (by decide))
  have hall : ∀ n < 128, ch '%' = n.toUInt8 → n = 37 := by decide
  have hc37 := hall c.toNat hc hsign
  obtain ⟨hd, -, hiff⟩ := fold_ascii hcd hc (.inr hc37)
  rw [encode_of_ascii hd, hiff.mp hc37]
  rfl

/-- Where no escape begins, the strings go on with one byte or one letter, in plain on both
sides. -/
theorem CaseEq.plain {b : UInt8} (h : CaseEq F (b :: s) t) (hb : b ≠ ch '%') :
    ∃ u v s' t', b :: s = u ++ s' ∧ t = v ++ t' ∧ CaseEq F s' t' ∧ ch '%' ∉ u ∧ ch '%' ∉ v ∧
      u ≠ [] ∧ ∀ {x y : Bytes}, CaseEq F x y → CaseEq F (u ++ x) (v ++ y) := by
  generalize hwhole : b :: s = whole at h
  cases h with
  | nil => cases hwhole
  | byte b' hrest =>
    obtain ⟨rfl, rfl⟩ := List.cons.inj hwhole
    have hplain : ch '%' ∉ [b] := fun hmem => hb (mem_singleton.mp hmem).symm
    exact ⟨[b], [b], s, _, rfl, rfl, hrest, hplain, hplain, cons_ne_nil b [], .byte b⟩
  | letter hcd hrest =>
    rename_i c d s' t'
    obtain ⟨b', tail, henc, -⟩ := encode_cons c
    have hhead : b' = b := by
      rw [henc] at hwhole
      exact (List.cons.inj hwhole).1.symm
    have hc : String.utf8EncodeChar c ≠ [ch '%'] := by
      intro hsign
      rw [henc] at hsign
      exact hb (hhead ▸ (List.cons.inj hsign).1)
    refine ⟨_, _, s', t', rfl, rfl, hrest, ?_, ?_, ?_, .letter hcd⟩
    · exact fun hmem => hc (encode_ascii hmem (by decide))
    · exact fun hmem => hc (percent_encode hcd.symm hmem)
    · rw [henc]
      exact cons_ne_nil b' tail

theorem CaseEq.unescapes {x y : Bytes} (h : CaseEq F s t) (hx : Unescapes .path s x)
    (hy : Unescapes .path t y) : CaseEq F x y := by
  induction hn : s.length using Nat.strong_induction_on generalizing s t x y with
  | h n ih =>
    subst hn
    cases s with
    | nil =>
      generalize hwhole : ([] : Bytes) = whole at h
      cases h with
      | nil =>
        cases hx
        cases hy
        exact .nil
      | byte => cases hwhole
      | letter =>
        rename_i c _ _ _ _ _
        obtain ⟨b, tail, henc, -⟩ := encode_cons c
        rw [henc] at hwhole
        cases hwhole
    | cons b s =>
      by_cases hb : b = ch '%'
      · subst hb
        obtain ⟨p, q, hi, lo, rest, x', rfl, hhi, hlo, rfl, hx'⟩ := unescapes_percent hx
        obtain ⟨b', t₁, rfl, -, hsign, h₁⟩ := h.head (.inr rfl)
        obtain rfl := hsign.mp rfl
        obtain ⟨p', t₂, rfl, hp, -, h₂⟩ := h₁.head (.inl (by rw [hhi]; rfl))
        obtain ⟨q', t₃, rfl, hq, -, h₃⟩ := h₂.head (.inl (by rw [hlo]; rfl))
        obtain ⟨_, _, hi', lo', rest', y', hsplit, hhi', hlo', rfl, hy'⟩ := unescapes_percent hy
        cases hsplit
        obtain rfl : hi = hi' := Option.some.inj (hhi.symm.trans (hp.trans hhi'))
        obtain rfl : lo = lo' := Option.some.inj (hlo.symm.trans (hq.trans hlo'))
        exact .byte _ (ih _ (by simp only [length_cons]; omega) h₃ hx' hy' rfl)
      · obtain ⟨u, v, s', t', hs, rfl, hrest, hu, hv, hne, hback⟩ := h.plain hb
        rw [hs] at hx
        obtain ⟨x', rfl, hx'⟩ := unescapes_plain hu hx
        obtain ⟨y', rfl, hy'⟩ := unescapes_plain hv hy
        refine hback (ih _ ?_ hrest hx' hy' rfl)
        rw [hs, length_append]
        exact Nat.lt_add_of_pos_left (length_pos_of_ne_nil hne)

theorem encode_ofNat {b : UInt8} (h : b < 128) :
    String.utf8EncodeChar (Char.ofNat b.toNat) = [b] := by
  have hb : b.toNat < 128 := UInt8.lt_iff_toNat_lt.mp h
  have hall : ∀ n < 128, (Char.ofNat n).toNat = n := by decide
  have hc : (Char.ofNat b.toNat).toNat = b.toNat := hall b.toNat hb
  rw [encode_of_ascii (by rw [hc]; exact hb), hc]
  simp

theorem runes_ascii (h : ∀ b ∈ s, b < 128) :
    (runes s).map Prod.fst = s.map fun b => Char.ofNat b.toNat := by
  induction s with
  | nil => rfl
  | cons b s ih =>
    have hb := h b mem_cons_self
    have hrunes := runes_encode (Char.ofNat b.toNat) s
    rw [encode_ofNat hb] at hrunes
    rw [show b :: s = [b] ++ s from rfl, hrunes, map_cons, map_append,
      ih fun b' hb' => h b' (mem_cons_of_mem b hb')]
    rfl

theorem fold_lowerAscii {b : UInt8} (h : b < 128) :
    lowerAscii b < 128 ∧
      F.fold (Char.ofNat (lowerAscii b).toNat) = F.fold (Char.ofNat b.toNat) := by
  have hall : ∀ n < 128, lowerAscii n.toUInt8 < 128 ∧
      (Char.ofNat (lowerAscii n.toUInt8).toNat).toNat < 128 ∧ (Char.ofNat n).toNat < 128 ∧
      lowerChar (Char.ofNat (lowerAscii n.toUInt8).toNat) = lowerChar (Char.ofNat n) := by
    decide
  have hb := hall b.toNat (UInt8.lt_iff_toNat_lt.mp h)
  rw [show b.toNat.toUInt8 = b from UInt8.ofNat_toNat] at hb
  obtain ⟨hlow, h₁, h₂, hsame⟩ := hb
  exact ⟨hlow, by rw [F.ascii _ h₁, F.ascii _ h₂, hsame]⟩

theorem letters_lowerAscii (h : ∀ b ∈ s, b < 128) :
    (runes (s.map lowerAscii)).map (fun r => F.fold r.1) =
      s.map fun b => F.fold (Char.ofNat b.toNat) := by
  have hlow : ∀ b ∈ s.map lowerAscii, b < 128 := by
    intro b hb
    obtain ⟨b', hb', rfl⟩ := mem_map.mp hb
    exact (fold_lowerAscii (F := F) (h b' hb')).1
  have hrunes := congrArg (List.map F.fold) (runes_ascii hlow)
  simp only [map_map, Function.comp_def] at hrunes
  rw [hrunes]
  exact map_congr_left fun b hb => (fold_lowerAscii (h b hb)).2

theorem equalFold_lowerAscii_iff (hs : ∀ b ∈ s, b < 128) (ht : ∀ b ∈ t, b < 128) :
    equalFoldBytes F (s.map lowerAscii) (t.map lowerAscii) = true ↔ CaseEq F s t := by
  rw [equalFoldBytes, beq_iff_eq, letters_lowerAscii hs, letters_lowerAscii ht]
  constructor
  · intro h
    induction s generalizing t with
    | nil =>
      obtain rfl := map_eq_nil_iff.mp h.symm
      exact .nil
    | cons b s ih =>
      cases t with
      | nil => cases h
      | cons b' t =>
        obtain ⟨hfold, hrest⟩ := List.cons.inj h
        have hletter := CaseEq.letter hfold (ih (fun x hx => hs x (mem_cons_of_mem b hx))
          (fun x hx => ht x (mem_cons_of_mem b' hx)) hrest)
        rwa [encode_ofNat (hs b mem_cons_self), encode_ofNat (ht b' mem_cons_self)] at hletter
  · intro h
    have hletters := h.letters
    have hrunes := congrArg (List.map F.fold) (runes_ascii hs)
    have hrunes' := congrArg (List.map F.fold) (runes_ascii ht)
    simp only [map_map, Function.comp_def] at hrunes hrunes'
    rwa [hrunes, hrunes'] at hletters

end Signari.LetterCase
