import Mathlib.Data.List.Sort
import Mathlib.Data.List.Dedup

/-!
# Keyset pages

A query that selects distinct keys in order, from after a cursor, and asks for one row more than a
page holds so as to know whether another page follows.

`page_after` says what a page is in terms of the whole result: the cursor being the last key
already handed out, a page is a prefix of what has not been handed out.
-/
namespace Signari.KeysetPages
open List
variable {α : Type}

structure TotalOrder (α : Type) where
  le : α → α → Bool
  trans : ∀ {a b c}, le a b = true → le b c = true → le a c = true
  total : ∀ a b, le a b = true ∨ le b a = true
  antisymm : ∀ {a b}, le a b = true → le b a = true → a = b

def TotalOrder.lt (o : TotalOrder α) (a b : α) : Bool := !o.le b a

variable {o : TotalOrder α}

theorem TotalOrder.lt_iff {a b : α} : o.lt a b = true ↔ o.le a b = true ∧ a ≠ b := by
  rw [TotalOrder.lt, Bool.not_eq_true']
  constructor
  · intro h
    have hab : o.le a b = true := (o.total a b).resolve_right (by simp [h])
    refine ⟨hab, ?_⟩
    rintro rfl
    rw [hab] at h
    exact absurd h (by decide)
  · rintro ⟨hab, hne⟩
    rw [← Bool.not_eq_true]
    intro hba
    exact hne (o.antisymm hab hba)

theorem TotalOrder.lt_irrefl (a : α) : o.lt a a = false := by
  rw [← Bool.not_eq_true, TotalOrder.lt_iff]
  exact fun h => h.2 rfl

theorem TotalOrder.lt_asymm {a b : α} (h : o.lt a b = true) : o.lt b a = false := by
  rw [TotalOrder.lt_iff] at h
  simp [TotalOrder.lt, h.1]

theorem filter_after_last {handed rest : List α} {c : α}
    (h : (handed ++ rest).Pairwise fun a b => o.lt a b = true) (hc : handed.getLast? = some c) :
    (handed ++ rest).filter (fun x => o.lt c x) = rest := by
  obtain ⟨front, rfl⟩ := getLast?_eq_some_iff.mp hc
  rw [pairwise_append] at h
  rw [filter_append]
  have hfront : (front ++ [c]).filter (fun x => o.lt c x) = [] := by
    apply filter_eq_nil_iff.mpr
    intro x hx
    rcases mem_append.mp hx with hx | hx
    · rw [TotalOrder.lt_asymm ((pairwise_append.mp h.1).2.2 x hx c (by simp))]
      decide
    · rw [mem_singleton.mp hx, TotalOrder.lt_irrefl]
      decide
  have hrest : rest.filter (fun x => o.lt c x) = rest := by
    apply filter_eq_self.mpr
    intro x hx
    exact h.2.2 c (by simp) x hx
  rw [hfront, hrest, nil_append]

theorem take_succ_page {rest : List α} {limit : ℕ} :
    (if limit < (rest.take (limit + 1)).length then
      ((rest.take (limit + 1)).take limit, true) else (rest.take (limit + 1), false)) =
      (rest.take limit, decide (limit < rest.length)) := by
  by_cases h : limit < rest.length
  · have hmore : limit < (rest.take (limit + 1)).length := by
      rw [length_take]
      omega
    rw [if_pos hmore, take_take, Nat.min_eq_left (Nat.le_succ limit), decide_eq_true h]
  · have hall : ¬limit < (rest.take (limit + 1)).length := by
      rw [length_take]
      omega
    rw [if_neg hall, decide_eq_false h, take_of_length_le (by omega), take_of_length_le (by omega)]

variable [DecidableEq α] (o : TotalOrder α)

/-- `SELECT DISTINCT … ORDER BY`. -/
def distinctSorted (rows : List α) : List α := rows.dedup.insertionSort fun a b => o.le a b = true

/-- One page and whether more follow: the keys after the cursor, one more than asked for. -/
def page (rows : List α) (after : Option α) (limit : ℕ) : List α × Bool :=
  let out := (distinctSorted o (rows.filter fun x => after.all fun c => o.lt c x)).take (limit + 1)
  if limit < out.length then (out.take limit, true) else (out, false)

variable {o}

theorem mem_distinctSorted {rows : List α} {a : α} : a ∈ distinctSorted o rows ↔ a ∈ rows := by
  rw [distinctSorted, mem_insertionSort, mem_dedup]

theorem nodup_distinctSorted (rows : List α) : (distinctSorted o rows).Nodup :=
  (perm_insertionSort _ _).nodup_iff.mpr (nodup_dedup rows)

theorem pairwise_distinctSorted (rows : List α) :
    (distinctSorted o rows).Pairwise fun a b => o.lt a b = true := by
  have : Std.Total fun a b => o.le a b = true := ⟨o.total⟩
  have : IsTrans α fun a b => o.le a b = true := ⟨fun _ _ _ => o.trans⟩
  have hle : (distinctSorted o rows).Pairwise fun a b => o.le a b = true :=
    pairwise_insertionSort _ _
  apply (hle.and (nodup_distinctSorted rows)).imp
  intro a b h
  exact TotalOrder.lt_iff.mpr h

theorem distinctSorted_filter (rows : List α) (p : α → Bool) :
    distinctSorted o (rows.filter p) = (distinctSorted o rows).filter p := by
  have : Std.Irrefl fun a b => o.lt a b = true :=
    ⟨fun a h => by rw [TotalOrder.lt_irrefl] at h; exact absurd h (by decide)⟩
  have : Std.Antisymm fun a b => o.lt a b = true :=
    ⟨fun a b h h' => by rw [TotalOrder.lt_asymm h] at h'; exact absurd h' (by decide)⟩
  apply Pairwise.eq_of_mem_iff (pairwise_distinctSorted _) ((pairwise_distinctSorted rows).filter p)
  intro a
  rw [mem_distinctSorted, mem_filter, mem_filter, mem_distinctSorted]

/-- With the last key handed out as the cursor, a page is a prefix of what remains, and more
is reported exactly when something is left over. -/
theorem page_after {rows handed rest : List α} (h : distinctSorted o rows = handed ++ rest)
    (limit : ℕ) :
    page o rows handed.getLast? limit = (rest.take limit, decide (limit < rest.length)) := by
  have hselect : distinctSorted o (rows.filter fun x => handed.getLast?.all fun c => o.lt c x) =
      rest := by
    cases hc : handed.getLast? with
    | none =>
      rw [getLast?_eq_none_iff.mp hc, nil_append] at h
      simpa using h
    | some c =>
      have hs := pairwise_distinctSorted (o := o) rows
      rw [h] at hs
      rw [distinctSorted_filter, h]
      exact filter_after_last hs hc
  simp only [page, hselect]
  exact take_succ_page

end Signari.KeysetPages
