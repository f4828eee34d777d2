import Signari.GoStrings

/-!
# Cutting and trimming texts

What `strings.Index`, `strings.LastIndex` and `strings.TrimSpace` make of a text that is
put together from parts: a cut finds its character where no other stands before or after
it, space around a text changes neither, and both go along with a mapping of the
characters that keeps the ones they look for.
-/
namespace Signari.TextCuts
open GoStrings List

theorem cutFirst_append {c : Char} {xs : List Char} (h : c ∉ xs) (ys : List Char) :
    cutFirst (xs ++ c :: ys) c = some (xs, ys) := by
  induction xs with
  | nil => simp [cutFirst]
  | cons x xs ih =>
    rw [mem_cons, not_or] at h
    simp [cutFirst, ih h.2, Ne.symm h.1]

theorem cutFirst_none {c : Char} {xs : List Char} (h : c ∉ xs) : cutFirst xs c = none := by
  induction xs with
  | nil => rfl
  | cons x xs ih =>
    rw [mem_cons, not_or] at h
    simp [cutFirst, ih h.2, Ne.symm h.1]

theorem mem_of_cutFirst {c : Char} {xs before after : List Char}
    (h : cutFirst xs c = some (before, after)) : c ∉ before ∧ xs = before ++ c :: after := by
  induction xs generalizing before with
  | nil => cases h
  | cons x xs ih =>
    simp only [cutFirst] at h
    split_ifs at h with hx
    · cases h
      simp [hx]
    · obtain ⟨r, hr, hcut⟩ := Option.map_eq_some_iff.mp h
      cases hcut
      obtain ⟨hmem, hxs⟩ := ih hr
      refine ⟨?_, by rw [hxs]; rfl⟩
      rw [mem_cons, not_or]
      exact ⟨fun hc => hx hc.symm, hmem⟩

theorem cutLast_none {c : Char} {xs : List Char} (h : c ∉ xs) : cutLast xs c = none := by
  induction xs with
  | nil => rfl
  | cons x xs ih =>
    rw [mem_cons, not_or] at h
    simp [cutLast, ih h.2, Ne.symm h.1]

theorem cutLast_append {c : Char} {ys : List Char} (h : c ∉ ys) (xs : List Char) :
    cutLast (xs ++ c :: ys) c = some (xs, ys) := by
  induction xs with
  | nil => simp [cutLast, cutLast_none h]
  | cons x xs ih => simp [cutLast, ih]

theorem cutLast_cases (c : Char) (xs : List Char) :
    c ∉ xs ∧ cutLast xs c = none ∨
      ∃ before after, xs = before ++ c :: after ∧ c ∉ after ∧
        cutLast xs c = some (before, after) := by
  by_cases h : c ∈ xs
  · obtain ⟨after, before, heq, hafter⟩ := eq_append_cons_of_mem (mem_reverse.mpr h)
    have hxs : xs = before.reverse ++ c :: after.reverse := by
      rw [← reverse_reverse xs, heq]
      simp
    have hnot : c ∉ after.reverse := fun hmem => hafter (mem_reverse.mp hmem)
    exact .inr ⟨before.reverse, after.reverse, hxs, hnot, hxs ▸ cutLast_append hnot _⟩
  · exact .inl ⟨h, cutLast_none h⟩

theorem cutFirst_cases (c : Char) (xs : List Char) :
    c ∉ xs ∧ cutFirst xs c = none ∨
      ∃ before after, xs = before ++ c :: after ∧ c ∉ before ∧
        cutFirst xs c = some (before, after) := by
  by_cases h : c ∈ xs
  · obtain ⟨before, after, heq, hbefore⟩ := eq_append_cons_of_mem h
    exact .inr ⟨before, after, heq, hbefore, heq ▸ cutFirst_append hbefore _⟩
  · exact .inl ⟨h, cutFirst_none h⟩

/-- A mapping of characters that neither makes nor loses the character. -/
def Keeps (g : Char → Char) (d : Char) : Prop := ∀ c, g c = d ↔ c = d

theorem Keeps.mem {g : Char → Char} {d : Char} (h : Keeps g d) {cs : List Char} :
    d ∈ cs.map g ↔ d ∈ cs := by
  rw [mem_map]
  exact ⟨fun ⟨c, hc, heq⟩ => (h c).mp heq ▸ hc, fun hd => ⟨d, hd, (h d).mpr rfl⟩⟩

theorem cutFirst_map {g : Char → Char} {d : Char} (h : Keeps g d) (cs : List Char) :
    cutFirst (cs.map g) d = (cutFirst cs d).map fun r => (r.1.map g, r.2.map g) := by
  rcases cutFirst_cases d cs with ⟨hd, hcut⟩ | ⟨before, after, rfl, hbefore, hcut⟩
  · rw [hcut, cutFirst_none fun hmem => hd (h.mem.mp hmem)]
    rfl
  · rw [hcut, map_append, map_cons, (h d).mpr rfl,
      cutFirst_append fun hmem => hbefore (h.mem.mp hmem)]
    rfl

theorem cutLast_map {g : Char → Char} {d : Char} (h : Keeps g d) (cs : List Char) :
    cutLast (cs.map g) d = (cutLast cs d).map fun r => (r.1.map g, r.2.map g) := by
  rcases cutLast_cases d cs with ⟨hd, hcut⟩ | ⟨before, after, rfl, hafter, hcut⟩
  · rw [hcut, cutLast_none fun hmem => hd (h.mem.mp hmem)]
    rfl
  · rw [hcut, map_append, map_cons, (h d).mpr rfl,
      cutLast_append fun hmem => hafter (h.mem.mp hmem)]
    rfl

/-- Nothing but white space. -/
def Blank (cs : List Char) : Prop := ∀ c ∈ cs, isSpace c = true

theorem trimLeft_blank {l : List Char} (h : Blank l) (cs : List Char) :
    trimLeft (l ++ cs) = trimLeft cs := dropWhile_append_of_pos h

theorem trimLeft_of_blank {l : List Char} (h : Blank l) : trimLeft l = [] := by
  have hnil := trimLeft_blank h []
  rwa [append_nil] at hnil

/-- Space around a text is trimmed away. -/
theorem trimChars_blank {l r : List Char} (hl : Blank l) (hr : Blank r) (cs : List Char) :
    trimChars (l ++ (cs ++ r)) = trimChars cs := by
  have hright : trimLeft (trimLeft (cs ++ r)).reverse = trimLeft (trimLeft cs).reverse := by
    have happend : trimLeft (cs ++ r) =
        if (trimLeft cs).isEmpty then trimLeft r else trimLeft cs ++ r := dropWhile_append
    rw [happend]
    split_ifs with hempty
    · rw [List.isEmpty_iff.mp hempty, trimLeft_of_blank hr]
    · have hrev : Blank r.reverse := fun c hc => hr c (mem_reverse.mp hc)
      rw [reverse_append, trimLeft_blank hrev]
  rw [trimChars, trimLeft_blank hl, hright]
  rfl

theorem trimChars_left {l : List Char} (h : Blank l) (cs : List Char) :
    trimChars (l ++ cs) = trimChars cs := by
  have hboth := trimChars_blank h (r := []) (by simp [Blank]) cs
  rwa [append_nil] at hboth

theorem trimChars_right {r : List Char} (h : Blank r) (cs : List Char) :
    trimChars (cs ++ r) = trimChars cs := trimChars_blank (l := []) (by simp [Blank]) h cs

theorem Blank.not_mem {cs : List Char} (h : Blank cs) {d : Char} (hd : isSpace d = false) :
    d ∉ cs := fun hmem => by simp [h d hmem] at hd

/-- Trimming removes nothing from a text that has no white space at either end, and only the
space before what stands in front of it. -/
theorem trimChars_append {s : List Char} (hne : s ≠ []) (hhead : ∀ c ∈ s.head?, isSpace c = false)
    (hlast : ∀ c ∈ s.getLast?, isSpace c = false) (xs : List Char) :
    trimChars (xs ++ s) = trimLeft xs ++ s := by
  have hleft : trimLeft (xs ++ s) = trimLeft xs ++ s := by
    induction xs with
    | nil =>
      cases s with
      | nil => rfl
      | cons c cs =>
        have hc := hhead c rfl
        simp [trimLeft, hc]
    | cons x xs ih =>
      unfold trimLeft at ih ⊢
      cases hx : isSpace x with
      | false => simp [hx]
      | true => simp [hx, ih]
  have hright : trimLeft (trimLeft xs ++ s).reverse = (trimLeft xs ++ s).reverse := by
    obtain ⟨init, c, rfl⟩ : ∃ init c, s = init ++ [c] := by
      cases s using List.reverseRecOn with
      | nil => exact absurd rfl hne
      | append_singleton init c => exact ⟨init, c, rfl⟩
    have hc := hlast c (by simp)
    simp [trimLeft, hc]
  rw [trimChars, hleft, hright, reverse_reverse]

/-- A text is its trimmed middle with space around it. -/
theorem trimChars_split (cs : List Char) :
    ∃ l r, Blank l ∧ Blank r ∧ cs = l ++ (trimChars cs ++ r) := by
  refine ⟨cs.takeWhile isSpace, ((trimLeft cs).reverse.takeWhile isSpace).reverse,
    fun c hc => mem_takeWhile_imp hc,
    fun c hc => mem_takeWhile_imp (mem_reverse.mp hc), ?_⟩
  rw [trimChars, ← reverse_append]
  unfold trimLeft
  rw [takeWhile_append_dropWhile, reverse_reverse, takeWhile_append_dropWhile]

theorem trimChars_map {g : Char → Char} (h : ∀ c, isSpace (g c) = isSpace c) (cs : List Char) :
    trimChars (cs.map g) = (trimChars cs).map g := by
  have hleft : ∀ cs : List Char, trimLeft (cs.map g) = (trimLeft cs).map g := by
    intro cs
    rw [trimLeft, dropWhile_map]
    congr 2
    exact funext h
  rw [trimChars, trimChars, hleft, ← map_reverse, hleft, ← map_reverse]

theorem trimChars_sublist (cs : List Char) : (trimChars cs).Sublist cs := by
  have hleft : ∀ cs : List Char, (trimLeft cs).Sublist cs := fun cs => dropWhile_sublist isSpace
  have hright := (hleft (trimLeft cs).reverse).reverse
  rw [reverse_reverse] at hright
  exact hright.trans (hleft cs)

theorem mem_of_mem_trimChars {c : Char} {cs : List Char} (h : c ∈ trimChars cs) : c ∈ cs :=
  (trimChars_sublist cs).subset h

theorem mem_trimChars {c : Char} (hc : isSpace c = false) {cs : List Char} (h : c ∈ cs) :
    c ∈ trimChars cs := by
  obtain ⟨l, r, hl, hr, heq⟩ := trimChars_split cs
  rw [heq, mem_append, mem_append] at h
  rcases h with h | h | h
  · exact absurd (hl c h) (by simp [hc])
  · exact h
  · exact absurd (hr c h) (by simp [hc])

theorem cutFirst_blank {l r : List Char} (hl : Blank l) (hr : Blank r) {d : Char}
    (hd : isSpace d = false) (cs : List Char) :
    cutFirst (l ++ (cs ++ r)) d = (cutFirst cs d).map fun q => (l ++ q.1, q.2 ++ r) := by
  rcases cutFirst_cases d cs with ⟨hnone, hcut⟩ | ⟨before, after, rfl, hbefore, hcut⟩
  · have hmem : d ∉ l ++ (cs ++ r) := by simp [hl.not_mem hd, hr.not_mem hd, hnone]
    rw [hcut, cutFirst_none hmem]
    rfl
  · have hmem : d ∉ l ++ before := by simp [hl.not_mem hd, hbefore]
    have hshape : l ++ (before ++ d :: after ++ r) = (l ++ before) ++ d :: (after ++ r) := by
      simp
    rw [hcut, hshape, cutFirst_append hmem]
    rfl

theorem cutLast_blank {r : List Char} (hr : Blank r) {d : Char} (hd : isSpace d = false)
    (cs : List Char) : cutLast (cs ++ r) d = (cutLast cs d).map fun q => (q.1, q.2 ++ r) := by
  rcases cutLast_cases d cs with ⟨hnone, hcut⟩ | ⟨before, after, rfl, hafter, hcut⟩
  · have hmem : d ∉ cs ++ r := by simp [hr.not_mem hd, hnone]
    rw [hcut, cutLast_none hmem]
    rfl
  · have hmem : d ∉ after ++ r := by simp [hr.not_mem hd, hafter]
    have hshape : before ++ d :: after ++ r = before ++ d :: (after ++ r) := by simp
    rw [hcut, hshape, cutLast_append hmem]
    rfl

end Signari.TextCuts
