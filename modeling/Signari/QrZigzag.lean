import Signari.QrDrawing

/-!
# The zigzag of a QR symbol

The walk of the data visits no module twice and stays inside of the symbol. Placing the codewords
therefore writes each module at most once, and touches no reserved module: `placed_reserved` says
that these keep what the strokes have left, and `placed_free` that the free modules, in the order
of the walk and with the mask undone, carry the bits of the codewords one after the other.
-/
namespace Signari.QrZigzag
open BitStreams QrCodewords QrModules QrDrawing List

section

variable {n right : ℕ} {upward : Bool} {p : ℕ × ℕ}

theorem columns_spec (fuel right : ℕ) :
    (columns fuel right).Pairwise (fun a b => b + 2 ≤ a) ∧
      ∀ a ∈ columns fuel right, 0 < a ∧ a ≤ right := by
  induction fuel generalizing right with
  | zero => exact ⟨.nil, fun a ha => absurd ha not_mem_nil⟩
  | succ fuel ih =>
    rw [columns]
    split_ifs with hzero hsix
    · exact ⟨.nil, fun a ha => absurd ha not_mem_nil⟩
    · obtain ⟨hpairwise, hbounds⟩ := ih (5 - 2)
      refine ⟨pairwise_cons.mpr ⟨fun a ha => ?_, hpairwise⟩, fun a ha => ?_⟩
      · have hbound := hbounds a ha
        omega
      · rcases mem_cons.mp ha with rfl | ha
        · omega
        · have hbound := hbounds a ha
          omega
    · obtain ⟨hpairwise, hbounds⟩ := ih (right - 2)
      refine ⟨pairwise_cons.mpr ⟨fun a ha => ?_, hpairwise⟩, fun a ha => ?_⟩
      · have hbound := hbounds a ha
        omega
      · rcases mem_cons.mp ha with rfl | ha
        · omega
        · have hbound := hbounds a ha
          omega

theorem mem_columnPair (h : p ∈ columnPair n right upward) :
    (p.1 = right ∨ p.1 = right - 1) ∧ p.2 < n := by
  obtain ⟨i, hi, hp⟩ := mem_flatMap.mp h
  rw [mem_range] at hi
  have hrow : (if upward = true then n - 1 - i else i) < n := by
    split <;> omega
  rcases mem_pair.mp hp with rfl | rfl
  · exact ⟨.inl rfl, hrow⟩
  · exact ⟨.inr rfl, hrow⟩

theorem columnPair_nodup (hright : 0 < right) : (columnPair n right upward).Nodup := by
  refine nodup_flatMap.mpr ⟨fun i _ => ?_, ?_⟩
  · refine nodup_cons.mpr ⟨fun hmem => ?_, nodup_singleton _⟩
    have hcolumn := congrArg Prod.fst (mem_singleton.mp hmem)
    dsimp only at hcolumn
    omega
  · refine Pairwise.imp_of_mem ?_ pairwise_lt_range
    intro i j hi hj hlt p hpi hpj
    rw [mem_range] at hi hj
    have hrow : ∀ {k : ℕ}, p ∈ [(right, if upward = true then n - 1 - k else k),
        (right - 1, if upward = true then n - 1 - k else k)] →
          p.2 = if upward = true then n - 1 - k else k := by
      intro k hk
      rcases mem_pair.mp hk with rfl | rfl <;> rfl
    have hsame := (hrow hpi).symm.trans (hrow hpj)
    split at hsame <;> omega

theorem walk_nodup (n : ℕ) : (walk n).Nodup := by
  obtain ⟨hpairwise, hbounds⟩ := columns_spec n (n - 1)
  have hmem : ∀ a ∈ (columns n (n - 1)).zipIdx, 0 < a.1 := by
    intro a ha
    exact (hbounds a.1 (fst_mem_of_mem_zipIdx ha)).1
  refine nodup_flatMap.mpr ⟨fun a ha => columnPair_nodup (hmem a ha), ?_⟩
  rw [← zipIdx_map_fst 0 (columns n (n - 1)), pairwise_map] at hpairwise
  refine Pairwise.imp_of_mem ?_ hpairwise
  intro a b ha hb hcolumns p hpa hpb
  have hleft := (mem_columnPair hpa).1
  have hright := (mem_columnPair hpb).1
  have hpos := hmem b hb
  omega

theorem mem_walk (h : p ∈ walk n) : p.1 < n ∧ p.2 < n := by
  obtain ⟨a, ha, hp⟩ := mem_flatMap.mp h
  have hbound := (columns_spec n (n - 1)).2 a.1 (fst_mem_of_mem_zipIdx ha)
  obtain ⟨hcolumn, hrow⟩ := mem_columnPair hp
  exact ⟨by omega, hrow⟩

end

section

/-- The index of a module of the walk. -/
def index (n : ℕ) (p : ℕ × ℕ) : ℕ := p.2 * n + p.1

def isFree (c : Canvas) (p : ℕ × ℕ) : Bool := !c.reserved.getD (index c.size p) false

theorem codewordBit_after {codewords : List UInt8} {bit : ℕ} (h : codewords.length * 8 ≤ bit) :
    codewordBit codewords bit = false := by
  rw [codewordBit, getD_eq_default _ _ (by omega)]
  exact Nat.zero_testBit _

theorem codewordBit_cons (b : UInt8) (codewords : List UInt8) (i : ℕ) :
    codewordBit (b :: codewords) (8 + i) = codewordBit codewords i := by
  rw [codewordBit, Nat.add_div_left i (by decide), Nat.add_mod_left, getD_cons_succ]
  rfl

theorem codewordBits (codewords : List UInt8) :
    (List.range (8 * codewords.length)).map (codewordBit codewords) =
      codewords.flatMap byteBits := by
  induction codewords with
  | nil => rfl
  | cons b codewords ih =>
    have hsplit : 8 * (b :: codewords).length = 8 + 8 * codewords.length := by
      rw [length_cons]
      ring
    rw [hsplit, range_add, map_append, map_map, flatMap_cons, ← ih]
    congr 1
    exact map_congr_left fun i _ => codewordBit_cons b codewords i

variable {c : Canvas} {codewords : List UInt8} {mask : ℕ}

theorem codewordBit_next (bit i : ℕ) :
    codewordBit codewords ((if bit < codewords.length * 8 then bit + 1 else bit) + i) =
      codewordBit codewords (bit + (i + 1)) := by
  split_ifs with h
  · rw [Nat.add_assoc, Nat.add_comm 1 i]
  · rw [codewordBit_after (by omega), codewordBit_after (by omega)]

theorem placeModule_reserved {st : ℕ × List Bool} {p : ℕ × ℕ} (h : isFree c p = false) :
    placeModule c codewords mask st p = st := by
  rw [isFree, Bool.not_eq_false'] at h
  exact if_pos h

theorem placeModule_free {st : ℕ × List Bool} {p : ℕ × ℕ} (h : isFree c p = true) :
    placeModule c codewords mask st p =
      (if st.1 < codewords.length * 8 then st.1 + 1 else st.1,
        st.2.set (index c.size p) (codewordBit codewords st.1 != maskAt mask p.1 p.2)) := by
  rw [isFree, Bool.not_eq_true'] at h
  have hdark : (if st.1 < codewords.length * 8 then codewordBit codewords st.1 else false) =
      codewordBit codewords st.1 := by
    split_ifs with hbit
    · rfl
    · exact (codewordBit_after (by omega)).symm
  have hfree : ¬c.reserved.getD (p.2 * c.size + p.1) false = true := by
    rw [index] at h
    rw [h]
    decide
  unfold placeModule
  rw [if_neg hfree]
  dsimp only
  rw [hdark]
  rfl

theorem place_spec (c : Canvas) (codewords : List UInt8) (mask : ℕ) {cells : List (ℕ × ℕ)}
    (bit : ℕ) (modules : List Bool)
    (hnodup : (cells.map (index c.size)).Nodup)
    (hlt : ∀ p ∈ cells, index c.size p < modules.length) :
    (∀ k, (∀ p ∈ cells, isFree c p = true → index c.size p ≠ k) →
      (cells.foldl (placeModule c codewords mask) (bit, modules)).2.getD k false =
        modules.getD k false) ∧
    (cells.filter (isFree c)).map (fun p =>
      (cells.foldl (placeModule c codewords mask) (bit, modules)).2.getD (index c.size p) false !=
        maskAt mask p.1 p.2) =
      (List.range (cells.filter (isFree c)).length).map fun i =>
        codewordBit codewords (bit + i) := by
  induction cells generalizing bit modules with
  | nil => exact ⟨fun _ _ => rfl, rfl⟩
  | cons p cells ih =>
    rw [map_cons, nodup_cons] at hnodup
    rw [forall_mem_cons] at hlt
    cases hp : isFree c p with
    | false =>
      obtain ⟨hframe, hread⟩ := ih bit modules hnodup.2 hlt.2
      rw [filter_cons_of_neg (by rw [hp]; decide), foldl_cons, placeModule_reserved hp]
      exact ⟨fun k hk => hframe k fun q hq => hk q (mem_cons_of_mem p hq), hread⟩
    | true =>
      obtain ⟨hframe, hread⟩ := ih (if bit < codewords.length * 8 then bit + 1 else bit)
        (modules.set (index c.size p) (codewordBit codewords bit != maskAt mask p.1 p.2))
        hnodup.2 (by rw [length_set]; exact hlt.2)
      rw [filter_cons_of_pos hp, foldl_cons, placeModule_free hp]
      refine ⟨fun k hk => ?_, ?_⟩
      · have hne : index c.size p ≠ k := hk p mem_cons_self hp
        rw [hframe k fun q hq => hk q (mem_cons_of_mem p hq)]
        rw [getD_eq_getElem?_getD, getElem?_set_ne hne, ← getD_eq_getElem?_getD]
      · have hself := hframe (index c.size p) fun q hq _ heq =>
          hnodup.1 (heq ▸ mem_map_of_mem hq)
        have hwritten : ∀ d, (modules.set (index c.size p) d).getD (index c.size p) false = d :=
          fun d => by simp [getD_eq_getElem?_getD, hlt.1]
        rw [hwritten] at hself
        rw [map_cons, hread, hself, length_cons, range_succ_eq_map, map_cons, map_map]
        congr 1
        · rw [Bool.bne_self_right, Nat.add_zero]
        · exact map_congr_left fun i _ => codewordBit_next bit i

end

section

def dataModules (version : ℕ) : List (ℕ × ℕ) :=
  (walk (17 + 4 * version)).filter fun p => !isFunction version p.1 p.2

variable {codewords : List UInt8} {v mask : ℕ}

theorem walk_indices (n : ℕ) : ((walk n).map (index n)).Nodup := by
  refine Nodup.map_on (fun p hp q hq heq => ?_) (walk_nodup n)
  obtain ⟨hx, hy⟩ := index_injective (mem_walk hp).1 (mem_walk hq).1 heq
  exact Prod.ext hx hy

theorem canvas_size (v mask : ℕ) :
    ((blank (17 + 4 * v)).draw (patterns v mask)).size = 17 + 4 * v := draw_size _ _

theorem isFree_eq {p : ℕ × ℕ} (hv : 1 ≤ v ∧ v ≤ 12) (hp : p ∈ walk (17 + 4 * v)) :
    isFree ((blank (17 + 4 * v)).draw (patterns v mask)) p = !isFunction v p.1 p.2 := by
  rw [isFree, index, canvas_size, reserved_eq_isFunction mask hv (mem_walk hp).1 (mem_walk hp).2]

theorem walk_free (hv : 1 ≤ v ∧ v ≤ 12) :
    (walk (17 + 4 * v)).filter (isFree ((blank (17 + 4 * v)).draw (patterns v mask))) =
      dataModules v :=
  filter_congr fun _ hp => isFree_eq hv hp

theorem walk_inside (v mask : ℕ) : ∀ p ∈ walk (17 + 4 * v), index (17 + 4 * v) p <
    ((blank (17 + 4 * v)).draw (patterns v mask)).modules.length := by
  intro p hp
  rw [(draw_lengths _ _).1, blank, length_replicate]
  exact index_lt (mem_walk hp).1 (mem_walk hp).2

theorem placed_reserved {x y : ℕ} (hv : 1 ≤ v ∧ v ≤ 12) (hx : x < 17 + 4 * v)
    (h : isFunction v x y = true) :
    (symbol codewords v mask).modules.getD (y * (17 + 4 * v) + x) false =
      ((blank (17 + 4 * v)).draw (patterns v mask)).modules.getD (y * (17 + 4 * v) + x) false := by
  have hsize := canvas_size v mask
  have hspec := place_spec ((blank (17 + 4 * v)).draw (patterns v mask)) codewords mask 0 _
    (by rw [hsize]; exact walk_indices _) (by rw [hsize]; exact walk_inside v mask)
  rw [symbol, placeData]
  dsimp only
  rw [hsize]
  refine hspec.1 _ fun p hp hfree heq => ?_
  rw [hsize] at heq
  obtain ⟨hpx, hpy⟩ := index_injective (mem_walk hp).1 hx heq
  rw [isFree_eq hv hp, hpx, hpy, h] at hfree
  cases hfree

theorem placed_free (hv : 1 ≤ v ∧ v ≤ 12) :
    (dataModules v).map (fun p => (symbol codewords v mask).modules.getD
      (index (17 + 4 * v) p) false != maskAt mask p.1 p.2) =
        (List.range (dataModules v).length).map (codewordBit codewords) := by
  have hsize := canvas_size v mask
  have hspec := place_spec ((blank (17 + 4 * v)).draw (patterns v mask)) codewords mask 0 _
    (by rw [hsize]; exact walk_indices _) (by rw [hsize]; exact walk_inside v mask)
  have hread := hspec.2
  rw [hsize, walk_free hv] at hread
  simp only [Nat.zero_add] at hread
  rw [symbol, placeData]
  dsimp only
  rw [hsize]
  exact hread

end

section

def rectangle (x y width height : ℕ) : List (ℕ × ℕ) := List.range' x width ×ˢ List.range' y height

/-- An alignment pattern without the modules on the timing lines. -/
def alignmentCells (cx cy : ℕ) : List (ℕ × ℕ) :=
  if cx = 6 then rectangle 4 (cy - 2) 2 5 ++ rectangle 7 (cy - 2) 2 5
  else if cy = 6 then rectangle (cx - 2) 4 5 2 ++ rectangle (cx - 2) 7 5 2
  else rectangle (cx - 2) (cy - 2) 5 5

def alignmentCover (version : ℕ) : List (ℕ × ℕ) :=
  (centres version).flatMap fun cx => (centres version).flatMap fun cy =>
    if cx = 6 ∧ cy = 6 ∨ cx = 6 ∧ cy = 10 + 4 * version ∨ cx = 10 + 4 * version ∧ cy = 6 then []
    else alignmentCells cx cy

/-- The corners and the timing row, without the timing column. -/
def cornerCover (version : ℕ) : List (ℕ × ℕ) :=
  (rectangle 0 0 6 9 ++ rectangle 7 0 2 9) ++
    (rectangle 0 (9 + 4 * version) 6 8 ++ rectangle 7 (9 + 4 * version) 2 8) ++
    rectangle (9 + 4 * version) 0 8 9 ++ rectangle 9 6 (4 * version) 1

def versionCover (version : ℕ) : List (ℕ × ℕ) :=
  if 7 ≤ version then rectangle 0 (6 + 4 * version) 6 3 ++ rectangle (6 + 4 * version) 0 3 6 else []

/-- The function modules outside of the timing column. -/
def cover (version : ℕ) : List (ℕ × ℕ) :=
  cornerCover version ++ alignmentCover version ++ versionCover version

variable {v x y : ℕ}

theorem mem_rectangle {a b width height : ℕ} :
    (x, y) ∈ rectangle a b width height ↔ a ≤ x ∧ x < a + width ∧ b ≤ y ∧ y < b + height := by
  rw [rectangle, mem_product, mem_range'_1, mem_range'_1, and_assoc]

theorem mem_alignmentCells {cx cy : ℕ} (hx : cx ≤ x + 2 ∧ x ≤ cx + 2) (hy : cy ≤ y + 2 ∧ y ≤ cy + 2)
    (hcolumn : x ≠ 6) (hrow : y ≠ 6) : (x, y) ∈ alignmentCells cx cy := by
  unfold alignmentCells
  split_ifs with hcx hcy
  · simp only [mem_append, mem_rectangle]
    omega
  · simp only [mem_append, mem_rectangle]
    omega
  · rw [mem_rectangle]
    omega

theorem mem_alignmentCover (h : inAlignment v x y) (hcolumn : x ≠ 6) (hrow : y ≠ 6) :
    (x, y) ∈ alignmentCover v := by
  obtain ⟨cx, hcx, cy, hcy, hcorner, hx, hx', hy, hy'⟩ := h
  refine mem_flatMap.mpr ⟨cx, hcx, mem_flatMap.mpr ⟨cy, hcy, ?_⟩⟩
  rw [if_neg hcorner]
  exact mem_alignmentCells ⟨hx, hx'⟩ ⟨hy, hy'⟩ hcolumn hrow

theorem mem_cornerCover (hx : x < 17 + 4 * v) (hy : y < 17 + 4 * v) (hcolumn : x ≠ 6)
    (h : x ≤ 8 ∧ y ≤ 8 ∨ 9 + 4 * v ≤ x ∧ y ≤ 8 ∨ x ≤ 8 ∧ 9 + 4 * v ≤ y ∨ y = 6) :
    (x, y) ∈ cornerCover v := by
  have htop : x ≤ 8 → y ≤ 8 → (x, y) ∈ rectangle 0 0 6 9 ++ rectangle 7 0 2 9 := by
    simp only [mem_append, mem_rectangle]
    omega
  have hbottom : x ≤ 8 → 9 + 4 * v ≤ y →
      (x, y) ∈ rectangle 0 (9 + 4 * v) 6 8 ++ rectangle 7 (9 + 4 * v) 2 8 := by
    simp only [mem_append, mem_rectangle]
    omega
  have hright : 9 + 4 * v ≤ x → y ≤ 8 → (x, y) ∈ rectangle (9 + 4 * v) 0 8 9 := by
    rw [mem_rectangle]
    omega
  have hrow : 9 ≤ x → x < 9 + 4 * v → y = 6 → (x, y) ∈ rectangle 9 6 (4 * v) 1 := by
    rw [mem_rectangle]
    omega
  simp only [cornerCover, mem_append (s := _ ++ _)]
  rcases h with ⟨hl, ht⟩ | ⟨hr, ht⟩ | ⟨hl, hb⟩ | hy
  · exact .inl (.inl (.inl (htop hl ht)))
  · exact .inl (.inr (hright hr ht))
  · exact .inl (.inl (.inr (hbottom hl hb)))
  · rcases Nat.lt_or_ge x 9 with hl | hl
    · exact .inl (.inl (.inl (htop (by omega) (by omega))))
    · rcases Nat.lt_or_ge x (9 + 4 * v) with hr | hr
      · exact .inr (hrow hl hr hy)
      · exact .inl (.inr (hright hr (by omega)))

theorem mem_versionCover (hv : 7 ≤ v)
    (h : x ≤ 5 ∧ 6 + 4 * v ≤ y ∧ y ≤ 8 + 4 * v ∨ y ≤ 5 ∧ 6 + 4 * v ≤ x ∧ x ≤ 8 + 4 * v) :
    (x, y) ∈ versionCover v := by
  rw [versionCover, if_pos hv, mem_append, mem_rectangle, mem_rectangle]
  omega

theorem mem_cover (hx : x < 17 + 4 * v) (hy : y < 17 + 4 * v) (hcolumn : x ≠ 6)
    (h : isFunction v x y = true) : (x, y) ∈ cover v := by
  rw [isFunction, decide_eq_true_eq] at h
  rw [cover, mem_append, mem_append]
  by_cases hrow : y = 6
  · exact .inl (.inl (mem_cornerCover hx hy hcolumn (.inr (.inr (.inr hrow)))))
  · rcases h with h | h | h | h | h | h | ⟨hv, h⟩
    · exact .inl (.inl (mem_cornerCover hx hy hcolumn (.inl h)))
    · exact .inl (.inl (mem_cornerCover hx hy hcolumn (.inr (.inl h))))
    · exact .inl (.inl (mem_cornerCover hx hy hcolumn (.inr (.inr (.inl h)))))
    · exact absurd h hcolumn
    · exact absurd h hrow
    · exact .inl (.inr (mem_alignmentCover h hcolumn hrow))
    · exact .inr (mem_versionCover hv h)

theorem columnPair_length (n right : ℕ) (upward : Bool) :
    (columnPair n right upward).length = n * 2 := by
  rw [columnPair, length_flatMap]
  simp only [length_cons, length_nil, map_const', sum_replicate, length_range, smul_eq_mul]

theorem walk_length (n : ℕ) : (walk n).length = (columns n (n - 1)).length * (n * 2) := by
  rw [walk, length_flatMap]
  simp only [columnPair_length, map_const', sum_replicate, length_zipIdx, smul_eq_mul]

theorem columns_skip (fuel : ℕ) {right : ℕ} (h : right % 2 = 0 ∨ right ≤ 5) :
    ∀ a ∈ columns fuel right, a ≠ 6 ∧ a ≠ 7 := by
  induction fuel generalizing right with
  | zero => exact fun a ha => absurd ha not_mem_nil
  | succ fuel ih =>
    rw [columns]
    split_ifs with hzero hsix
    · exact fun a ha => absurd ha not_mem_nil
    · exact forall_mem_cons.mpr ⟨by decide, ih (.inr (by decide))⟩
    · exact forall_mem_cons.mpr ⟨by omega, ih (by omega)⟩

theorem walk_skips {p : ℕ × ℕ} (h : p ∈ walk (17 + 4 * v)) : p.1 ≠ 6 := by
  obtain ⟨a, ha, hp⟩ := mem_flatMap.mp h
  have hskip := columns_skip _ (.inl (by omega)) a.1 (fst_mem_of_mem_zipIdx ha)
  have hcolumn := (mem_columnPair hp).1
  omega

theorem data_capacity (hv : 1 ≤ v ∧ v ≤ 12) :
    8 * ((specsM v).dataCodewords + (specsM v).sizes.length * (specsM v).ecPerBlock) ≤
      (dataModules v).length := by
  have hsubset : (walk (17 + 4 * v)).filter (fun p => isFunction v p.1 p.2) ⊆ cover v := by
    intro p hp
    obtain ⟨hwalk, hfunction⟩ := mem_filter.mp hp
    exact mem_cover (mem_walk hwalk).1 (mem_walk hwalk).2 (walk_skips hwalk) hfunction
  have hcover := ((walk_nodup (17 + 4 * v)).filter _).length_le_of_subset hsubset
  have hsplit := length_eq_length_filter_add (l := walk (17 + 4 * v))
    (fun p => isFunction v p.1 p.2)
  have hcount : ∀ v ∈ List.range' 1 12,
      8 * ((specsM v).dataCodewords + (specsM v).sizes.length * (specsM v).ecPerBlock) +
        (cover v).length ≤ (columns (17 + 4 * v) (16 + 4 * v)).length * ((17 + 4 * v) * 2) := by
    decide +kernel
  have hbound := hcount v (mem_range'_1.mpr (by omega))
  rw [walk_length] at hsplit
  have hwidth : 17 + 4 * v - 1 = 16 + 4 * v := by omega
  rw [hwidth] at hsplit
  unfold dataModules
  omega

end

end Signari.QrZigzag
