import Mathlib

/-!
# Interleaved blocks

Blocks of unequal lengths are written one element from each in turn, and a block that has ended is
passed over. The place of an element in the stream is then the number of elements in the rounds
before its own and, within its round, of the blocks before it that still take part.
-/
namespace Signari.InterleavedBlocks
open List

variable {α : Type*}

def round (blocks : List (List α)) (i : ℕ) : List α := blocks.filterMap fun block => block[i]?

def interleave (rounds : ℕ) (blocks : List (List α)) : List α :=
  (List.range rounds).flatMap (round blocks)

/-- Where the element `i` of block `b` stands. -/
def place (lengths : List ℕ) (b i : ℕ) : ℕ :=
  ((List.range i).map fun j => lengths.countP fun n => j < n).sum +
    (lengths.take b).countP fun n => i < n

def deinterleave (lengths : List ℕ) (stream : List α) : List (List α) :=
  (List.range lengths.length).map fun b =>
    (List.range (lengths.getD b 0)).filterMap fun i => stream[place lengths b i]?

theorem round_cons_lt {block : List α} {i : ℕ} (hi : i < block.length) (rest : List (List α)) :
    round (block :: rest) i = block[i] :: round rest i := by
  simp [round, hi]

theorem round_cons_ge {block : List α} {i : ℕ} (hi : block.length ≤ i) (rest : List (List α)) :
    round (block :: rest) i = round rest i := by
  simp [round, hi]

theorem round_length (blocks : List (List α)) (i : ℕ) :
    (round blocks i).length = (blocks.map List.length).countP fun n => i < n := by
  induction blocks with
  | nil => rfl
  | cons block rest ih =>
    rw [map_cons]
    rcases Nat.lt_or_ge i block.length with hi | hi
    · rw [round_cons_lt hi, length_cons, ih, countP_cons_of_pos (by simpa using hi)]
    · rw [round_cons_ge hi, ih, countP_cons_of_neg (by simpa using hi)]

theorem rounds_length (blocks : List (List α)) (i : ℕ) :
    ((List.range i).flatMap (round blocks)).length =
      ((List.range i).map fun j => (blocks.map List.length).countP fun n => j < n).sum := by
  rw [length_flatMap]
  simp only [round_length]

theorem getElem?_after {xs ys : List α} {x : α} {n : ℕ} (h : xs.length = n) :
    (xs ++ x :: ys)[n]? = some x := by
  subst h
  simp

theorem interleave_place {rounds : ℕ} {blocks : List (List α)} {b i : ℕ} (hb : b < blocks.length)
    (hi : i < blocks[b].length) (hrounds : i < rounds) (rest : List α) :
    (interleave rounds blocks ++ rest)[place (blocks.map List.length) b i]? =
      some blocks[b][i] := by
  have hrange : List.range rounds = List.range i ++ i :: (List.range rounds).drop (i + 1) := by
    conv_lhs => rw [← take_append_drop i (List.range rounds)]
    rw [take_range, Nat.min_eq_left (Nat.le_of_lt hrounds), drop_eq_getElem_cons (by simpa),
      getElem_range]
  have hround : round blocks i = round (blocks.take b) i ++
      blocks[b][i] :: round (blocks.drop (b + 1)) i := by
    conv_lhs => rw [← take_append_drop b blocks]
    rw [drop_eq_getElem_cons hb, ← round_cons_lt hi]
    exact filterMap_append
  rw [interleave, hrange, flatMap_append, flatMap_cons, hround]
  simp only [List.append_assoc, cons_append]
  rw [← List.append_assoc]
  refine getElem?_after ?_
  rw [length_append, rounds_length, round_length, place, map_take]

theorem filterMap_some_range (block : List α) :
    ((List.range block.length).filterMap fun i => block[i]?) = block := by
  induction block using List.reverseRecOn with
  | nil => rfl
  | append_singleton block x ih =>
    rw [length_append, length_singleton, range_succ, filterMap_append]
    congr 1
    · refine (filterMap_congr ?_).trans ih
      intro i hi
      rw [getElem?_append_left (mem_range.mp hi)]
    · simp

theorem deinterleave_interleave {rounds : ℕ} {blocks : List (List α)}
    (hrounds : ∀ block ∈ blocks, block.length ≤ rounds) (rest : List α) :
    deinterleave (blocks.map List.length) (interleave rounds blocks ++ rest) = blocks := by
  refine ext_getElem ?_ ?_
  · rw [deinterleave, length_map, length_range, length_map]
  · intro b _ hb
    have hlen : (blocks.map List.length).getD b 0 = blocks[b].length := by
      rw [getD_eq_getElem _ _ (by simpa using hb), getElem_map]
    have hfits := hrounds blocks[b] (getElem_mem hb)
    simp only [deinterleave, getElem_map, getElem_range, hlen]
    refine (filterMap_congr ?_).trans (filterMap_some_range blocks[b])
    intro i hi
    have hi := mem_range.mp hi
    rw [interleave_place hb hi (by omega), getElem?_eq_getElem hi]

theorem sum_range_lt (rounds n : ℕ) :
    ((List.range rounds).map fun j => if j < n then 1 else 0).sum = min rounds n := by
  induction rounds with
  | zero => simp
  | succ rounds ih =>
    rw [range_succ, map_append, sum_append, ih, map_singleton, sum_singleton]
    split <;> omega

theorem sum_countP_range {lengths : List ℕ} {rounds : ℕ} (h : ∀ n ∈ lengths, n ≤ rounds) :
    ((List.range rounds).map fun j => lengths.countP fun n => j < n).sum = lengths.sum := by
  induction lengths with
  | nil => simp
  | cons n rest ih =>
    rw [forall_mem_cons] at h
    simp only [countP_cons, decide_eq_true_eq]
    rw [sum_map_add, ih h.2, sum_range_lt, Nat.min_eq_right h.1, sum_cons, Nat.add_comm]

theorem interleave_length {rounds : ℕ} {blocks : List (List α)}
    (hrounds : ∀ block ∈ blocks, block.length ≤ rounds) :
    (interleave rounds blocks).length = (blocks.map List.length).sum := by
  rw [interleave, rounds_length, sum_countP_range]
  intro n hn
  obtain ⟨block, hblock, rfl⟩ := mem_map.mp hn
  exact hrounds block hblock

end Signari.InterleavedBlocks
