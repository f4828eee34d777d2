import Signari.JsonExtents

/-!
# Texts that are cut short

A whole JSON value closes, outside its strings, every bracket that it opens. `Closed` says so,
by reading the text with the state of `JsonExtents`. `Stays` is about a text inside brackets:
reading it, at whatever depth, never goes below that depth and ends where it began.
-/
namespace Signari.JsonBrackets
open GoStrings JsonExtents List

def scanStep (s : Mode × ℕ) (c : Char) : Mode × ℕ :=
  (modeAfter s.1 c, if s.1 = .outside then depthAfter s.2 c else s.2)

def scan (s : Mode × ℕ) (w : List Char) : Mode × ℕ := w.foldl scanStep s

/-- Every bracket and every string of the text is closed. -/
def Closed (w : List Char) : Prop := scan (.outside, 0) w = (.outside, 0)

/-- Read at any depth, the text comes back to it and is never below. -/
structure Stays (w : List Char) : Prop where
  back : ∀ d, scan (.outside, d) w = (.outside, d)
  above : ∀ d k, d ≤ (scan (.outside, d) (w.take k)).2

variable {u w : List Char} {c : Char}

theorem scan_append (s : Mode × ℕ) (u w : List Char) :
    scan s (u ++ w) = scan (scan s u) w := foldl_append

@[simp] theorem scan_nil (s : Mode × ℕ) : scan s [] = s := rfl

@[simp] theorem scan_cons (s : Mode × ℕ) (c : Char) (w : List Char) :
    scan s (c :: w) = scan (scanStep s c) w := rfl

theorem stays_nil : Stays [] := ⟨fun _ => rfl, fun d k => by rw [take_nil]; exact le_rfl⟩

theorem Stays.append (hu : Stays u) (hw : Stays w) : Stays (u ++ w) where
  back d := by rw [scan_append, hu.back, hw.back]
  above d k := by
    rw [take_append, scan_append]
    by_cases hk : k ≤ u.length
    · rw [Nat.sub_eq_zero_of_le hk, take_zero]
      exact hu.above d k
    · rw [take_of_length_le (not_le.mp hk).le, hu.back]
      exact hw.above d _

theorem stays_char (hquote : c ≠ '"') (hopen : opens c = false) (hclose : closes c = false) :
    Stays [c] where
  back d := by simp [scanStep, modeAfter, depthAfter, hquote, hopen, hclose]
  above d k := by
    cases k with
    | zero => exact le_rfl
    | succ k => simp [scanStep, depthAfter, hopen, hclose]

theorem stays_plain (h : ∀ c ∈ w, c ≠ '"' ∧ opens c = false ∧ closes c = false) : Stays w := by
  induction w with
  | nil => exact stays_nil
  | cons c w ih =>
    obtain ⟨hquote, hopen, hclose⟩ := h c mem_cons_self
    exact (stays_char hquote hopen hclose).append (ih fun c' hc' => h c' (mem_cons_of_mem c hc'))

/-- A character that neither ends a string nor escapes in it. -/
def Plain (c : Char) : Prop := c ≠ '"' ∧ c ≠ '\\'

theorem scan_inString {d : ℕ} (h : ∀ c ∈ w, Plain c) : scan (.inString, d) w = (.inString, d) := by
  induction w with
  | nil => rfl
  | cons c w ih =>
    obtain ⟨hquote, hescape⟩ := h c mem_cons_self
    have hstep : scanStep (.inString, d) c = (.inString, d) := by
      simp [scanStep, modeAfter, hquote, hescape]
    rw [scan_cons, hstep]
    exact ih fun c' hc' => h c' (mem_cons_of_mem c hc')

theorem stays_string (h : ∀ c ∈ w, Plain c) : Stays ('"' :: w ++ ['"']) where
  back d := by
    have hopen : scanStep (.outside, d) '"' = (.inString, d) := rfl
    rw [cons_append, scan_cons, hopen, scan_append, scan_inString h]
    rfl
  above d k := by
    cases k with
    | zero => exact le_rfl
    | succ k =>
      have hopen : scanStep (.outside, d) '"' = (.inString, d) := rfl
      rw [cons_append, take_succ_cons, scan_cons, hopen, take_append, scan_append,
        scan_inString fun c hc => h c (mem_of_mem_take hc)]
      cases hj : k - w.length with
      | zero => exact Nat.le_refl d
      | succ j =>
        rw [take_succ_cons, take_nil]
        exact Nat.le_refl d

theorem scanStep_opens {d : ℕ} (hopen : opens c = true) :
    scanStep (.outside, d) c = (.outside, d + 1) := by
  have hquote : c ≠ '"' := by
    rintro rfl
    simp [opens] at hopen
  simp [scanStep, modeAfter, depthAfter, hquote, hopen]

theorem scanStep_closes {d : ℕ} (hclose : closes c = true) :
    scanStep (.outside, d + 1) c = (.outside, d) := by
  have hquote : c ≠ '"' := by
    rintro rfl
    simp [closes] at hclose
  have hopen : opens c = false := by
    have hc : c = ']' ∨ c = '\x7d' := by simpa [closes] using hclose
    obtain rfl | rfl := hc <;> rfl
  simp [scanStep, modeAfter, depthAfter, hquote, hopen, hclose]

theorem Stays.enclosed {o e : Char} (h : Stays w) (hopen : opens o = true)
    (hclose : closes e = true) : Stays (o :: w ++ [e]) where
  back d := by
    rw [cons_append, scan_cons, scanStep_opens hopen, scan_append, h.back, scan_cons,
      scanStep_closes hclose, scan_nil]
  above d k := by
    cases k with
    | zero => exact le_rfl
    | succ k =>
      rw [cons_append, take_succ_cons, scan_cons, scanStep_opens hopen, take_append, scan_append]
      by_cases hk : k ≤ w.length
      · rw [Nat.sub_eq_zero_of_le hk, take_zero, scan_nil]
        exact (Nat.le_succ d).trans (h.above (d + 1) k)
      · rw [take_of_length_le (not_le.mp hk).le, h.back]
        obtain ⟨j, hj⟩ : ∃ j, k - w.length = j + 1 := ⟨k - w.length - 1, by omega⟩
        rw [hj, take_succ_cons, take_nil, scan_cons, scanStep_closes hclose, scan_nil]

theorem join_cons_cons (t t' : String) (ts : List String) (sep : String) :
    (join (t :: t' :: ts) sep).toList = t.toList ++ sep.toList ++ (join (t' :: ts) sep).toList := by
  have hjoin : join (t :: t' :: ts) sep = t ++ sep ++ join (t' :: ts) sep := rfl
  rw [hjoin, String.toList_append, String.toList_append]

theorem stays_join {parts : List String} (h : ∀ t ∈ parts, Stays t.toList) :
    Stays (join parts ",").toList := by
  induction parts with
  | nil => exact stays_nil
  | cons t ts ih =>
    have ht := h t mem_cons_self
    cases ts with
    | nil => exact ht
    | cons t' ts =>
      have hcomma : Stays [','] := stays_char (by decide) (by decide) (by decide)
      have hrest := ih fun s hs => h s (mem_cons_of_mem t hs)
      rw [join_cons_cons]
      exact (ht.append hcomma).append hrest

theorem not_closed_take {o e : Char} {k : ℕ} (h : Stays w) (hopen : opens o = true)
    (hpos : 0 < k) (hk : k < (o :: w ++ [e]).length) :
    ¬Closed ((o :: w ++ [e]).take k) := by
  obtain ⟨j, rfl⟩ : ∃ j, k = j + 1 := ⟨k - 1, by omega⟩
  have hj : j ≤ w.length := by
    simp only [cons_append, length_cons, length_append, length_nil] at hk
    omega
  rw [Closed, cons_append, take_succ_cons, scan_cons, scanStep_opens hopen,
    take_append, Nat.sub_eq_zero_of_le hj, take_zero, append_nil]
  intro hclosed
  have habove := h.above (0 + 1) j
  rw [hclosed] at habove
  simp at habove

end Signari.JsonBrackets
