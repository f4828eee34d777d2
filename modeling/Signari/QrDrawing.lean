import Signari.QrModules

/-!
# What the strokes of a QR symbol leave

A stroke writes one module and reserves it. `isFunction` says which modules of a version the
standard gives a function: the finders with their surroundings, the timing lines, the alignment
patterns and the version information.
-/
namespace Signari.QrDrawing
open QrModules List

/-- Where alignment patterns are centred: near both ends, and half-way from version 7 on. -/
def centres (version : ℕ) : List ℕ := if version = 1 then []
  else if version < 7 then [6, 10 + 4 * version]
  else [6, 8 + 2 * version, 10 + 4 * version]

/-- The module is in an alignment pattern; at three corners there is none. -/
def inAlignment (version x y : ℕ) : Prop :=
  ∃ cx ∈ centres version, ∃ cy ∈ centres version,
    ¬(cx = 6 ∧ cy = 6 ∨ cx = 6 ∧ cy = 10 + 4 * version ∨ cx = 10 + 4 * version ∧ cy = 6) ∧
      cx ≤ x + 2 ∧ x ≤ cx + 2 ∧ cy ≤ y + 2 ∧ y ≤ cy + 2

instance (version x y : ℕ) : Decidable (inAlignment version x y) :=
  inferInstanceAs (Decidable (∃ cx ∈ centres version, ∃ cy ∈ centres version, _))

/-- The modules of a version that carry no data. -/
def isFunction (version x y : ℕ) : Bool :=
  decide (x ≤ 8 ∧ y ≤ 8 ∨ 9 + 4 * version ≤ x ∧ y ≤ 8 ∨ x ≤ 8 ∧ 9 + 4 * version ≤ y ∨ x = 6 ∨ y = 6 ∨
    inAlignment version x y ∨
    7 ≤ version ∧ (x ≤ 5 ∧ 6 + 4 * version ≤ y ∧ y ≤ 8 + 4 * version ∨
      y ≤ 5 ∧ 6 + 4 * version ≤ x ∧ x ≤ 8 + 4 * version))

def Meets (strokes : List Stroke) (x y : ℤ) : Prop := ∃ s ∈ strokes, s.x = x ∧ s.y = y

theorem slot_cast {n x y : ℕ} (hx : x < n) (hy : y < n) : slot n x y = some (y * n + x) := by
  rw [slot, if_neg (by omega), Int.toNat_natCast, Int.toNat_natCast]

theorem slot_eq_some {n k : ℕ} {x y : ℤ} (h : slot n x y = some k) :
    ∃ a b : ℕ, x = a ∧ y = b ∧ a < n ∧ b < n ∧ k = b * n + a := by
  unfold slot at h
  split_ifs at h with hout
  refine ⟨x.toNat, y.toNat, ?_, ?_, ?_, ?_, (Option.some.inj h).symm⟩ <;> omega

theorem index_injective {n x y x' y' : ℕ} (hx : x < n) (hx' : x' < n)
    (h : y * n + x = y' * n + x') : x = x' ∧ y = y' := by
  have hmod := congrArg (· % n) h
  have hdiv := congrArg (· / n) h
  simp only [Nat.mul_add_mod_of_lt hx, Nat.mul_add_mod_of_lt hx'] at hmod
  have hpos : 0 < n := Nat.zero_lt_of_lt hx
  simp only [Nat.mul_comm _ n, Nat.mul_add_div hpos, Nat.div_eq_of_lt hx, Nat.div_eq_of_lt hx',
    Nat.add_zero] at hdiv
  exact ⟨hmod, hdiv⟩

theorem index_lt {n x y : ℕ} (hx : x < n) (hy : y < n) : y * n + x < n * n := by
  have hrow : (y + 1) * n ≤ n * n := Nat.mul_le_mul_right n hy
  rw [Nat.succ_mul] at hrow
  omega

theorem slot_eq_index {n x y : ℕ} {sx sy : ℤ} (hx : x < n) (hy : y < n) :
    slot n sx sy = some (y * n + x) ↔ sx = x ∧ sy = y := by
  constructor
  · intro h
    obtain ⟨a, b, rfl, rfl, ha, _, heq⟩ := slot_eq_some h
    obtain ⟨rfl, rfl⟩ := index_injective hx ha heq
    exact ⟨rfl, rfl⟩
  · rintro ⟨rfl, rfl⟩
    exact slot_cast hx hy

section

variable {c : Canvas} {strokes : List Stroke} {k : ℕ}

theorem stroke_size (c : Canvas) (s : Stroke) : (c.stroke s).size = c.size := by
  unfold Canvas.stroke
  split <;> rfl

theorem stroke_lengths (c : Canvas) (s : Stroke) :
    (c.stroke s).modules.length = c.modules.length ∧
      (c.stroke s).reserved.length = c.reserved.length := by
  unfold Canvas.stroke
  split
  · exact ⟨rfl, rfl⟩
  · exact ⟨length_set .., length_set ..⟩

theorem stroke_other {s : Stroke} (h : slot c.size s.x s.y ≠ some k) :
    (c.stroke s).modules.getD k false = c.modules.getD k false ∧
      (c.stroke s).reserved.getD k false = c.reserved.getD k false := by
  unfold Canvas.stroke
  cases hs : slot c.size s.x s.y with
  | none => exact ⟨rfl, rfl⟩
  | some j =>
    have hne : j ≠ k := fun heq => h (by rw [hs, heq])
    simp [getD_eq_getElem?_getD, getElem?_set_ne hne]

theorem stroke_self {s : Stroke} (h : slot c.size s.x s.y = some k) (hm : k < c.modules.length)
    (hr : k < c.reserved.length) :
    (c.stroke s).modules.getD k false = s.dark ∧ (c.stroke s).reserved.getD k false = true := by
  unfold Canvas.stroke
  rw [h]
  simp [getD_eq_getElem?_getD, hm, hr]

theorem draw_size (c : Canvas) (strokes : List Stroke) : (c.draw strokes).size = c.size := by
  induction strokes generalizing c with
  | nil => rfl
  | cons s rest ih => exact (ih (c.stroke s)).trans (stroke_size c s)

theorem draw_lengths (c : Canvas) (strokes : List Stroke) :
    (c.draw strokes).modules.length = c.modules.length ∧
      (c.draw strokes).reserved.length = c.reserved.length := by
  induction strokes generalizing c with
  | nil => exact ⟨rfl, rfl⟩
  | cons s rest ih =>
    obtain ⟨hm, hr⟩ := ih (c.stroke s)
    exact ⟨hm.trans (stroke_lengths c s).1, hr.trans (stroke_lengths c s).2⟩

theorem draw_append (c : Canvas) (first second : List Stroke) :
    c.draw (first ++ second) = (c.draw first).draw second := foldl_append

theorem draw_other (h : ∀ s ∈ strokes, slot c.size s.x s.y ≠ some k) :
    (c.draw strokes).modules.getD k false = c.modules.getD k false ∧
      (c.draw strokes).reserved.getD k false = c.reserved.getD k false := by
  induction strokes generalizing c with
  | nil => exact ⟨rfl, rfl⟩
  | cons s rest ih =>
    rw [forall_mem_cons] at h
    have hrest := ih (c := c.stroke s) (by rw [stroke_size]; exact h.2)
    exact ⟨hrest.1.trans (stroke_other h.1).1, hrest.2.trans (stroke_other h.1).2⟩

theorem draw_reserved (h : c.reserved.getD k false = true) :
    (c.draw strokes).reserved.getD k false = true := by
  induction strokes generalizing c with
  | nil => exact h
  | cons s rest ih =>
    refine ih (c := c.stroke s) ?_
    by_cases hs : slot c.size s.x s.y = some k
    · have hlt : k < c.reserved.length := by
        by_contra hge
        rw [getD_eq_default _ _ (by omega)] at h
        cases h
      unfold Canvas.stroke
      rw [hs]
      simp [getD_eq_getElem?_getD, hlt]
    · rw [(stroke_other hs).2, h]

theorem draw_agree {d : Bool} (hm : k < c.modules.length) (hr : k < c.reserved.length)
    (hmeets : ∃ s ∈ strokes, slot c.size s.x s.y = some k)
    (hagree : ∀ s ∈ strokes, slot c.size s.x s.y = some k → s.dark = d) :
    (c.draw strokes).modules.getD k false = d := by
  induction strokes generalizing c with
  | nil =>
    obtain ⟨s, hs, _⟩ := hmeets
    cases hs
  | cons s rest ih =>
    rw [forall_mem_cons] at hagree
    obtain ⟨hm', hr'⟩ := stroke_lengths c s
    by_cases hrest : ∃ t ∈ rest, slot c.size t.x t.y = some k
    · refine ih (c := c.stroke s) (by rw [hm']; exact hm) (by rw [hr']; exact hr) ?_ ?_
      · rw [stroke_size]
        exact hrest
      · rw [stroke_size]
        exact hagree.2
    · push Not at hrest
      have hs : slot c.size s.x s.y = some k := by
        obtain ⟨t, ht, hslot⟩ := hmeets
        rcases mem_cons.mp ht with rfl | ht
        · exact hslot
        · exact absurd hslot (hrest t ht)
      have hlast := draw_other (c := c.stroke s) (k := k)
        (fun t ht => (stroke_size c s).symm ▸ hrest t ht)
      exact hlast.1.trans ((stroke_self hs hm hr).1.trans (hagree.1 hs))

theorem draw_reserved_iff (hk : k < c.reserved.length) (hfree : c.reserved.getD k false = false) :
    (c.draw strokes).reserved.getD k false = true ↔
      ∃ s ∈ strokes, slot c.size s.x s.y = some k := by
  constructor
  · intro h
    by_contra hnone
    push Not at hnone
    rw [(draw_other hnone).2, hfree] at h
    cases h
  · rintro ⟨s, hs, hslot⟩
    obtain ⟨first, later, rfl⟩ := append_of_mem hs
    rw [draw_append]
    refine draw_reserved (c := (c.draw first).stroke s) ?_
    have hlt : k < (c.draw first).reserved.length := by
      rw [(draw_lengths c first).2]
      exact hk
    have hslot' : slot (c.draw first).size s.x s.y = some k := by rw [draw_size, hslot]
    unfold Canvas.stroke
    rw [hslot']
    simp [getD_eq_getElem?_getD, hlt]

end

section

variable {x y : ℤ}

theorem meets_append {first second : List Stroke} :
    Meets (first ++ second) x y ↔ Meets first x y ∨ Meets second x y := by
  simp only [Meets, mem_append, or_and_right, exists_or]

theorem meets_flatMap {α : Type*} {l : List α} {f : α → List Stroke} :
    Meets (l.flatMap f) x y ↔ ∃ a ∈ l, Meets (f a) x y := by
  constructor
  · rintro ⟨s, hs, hat⟩
    obtain ⟨a, ha, hs⟩ := mem_flatMap.mp hs
    exact ⟨a, ha, s, hs, hat⟩
  · rintro ⟨a, ha, s, hs, hat⟩
    exact ⟨s, mem_flatMap.mpr ⟨a, ha, hs⟩, hat⟩

theorem meets_square (side : ℕ) (ox oy d : ℤ) (dark : ℤ → ℤ → Bool) :
    Meets ((List.range side).flatMap fun (j : ℕ) => (List.range side).map fun (i : ℕ) =>
      ⟨ox + (i - d), oy + (j - d), dark (i - d) (j - d)⟩) x y ↔
        ox - d ≤ x ∧ x < ox - d + side ∧ oy - d ≤ y ∧ y < oy - d + side := by
  constructor
  · rintro ⟨s, hs, rfl, rfl⟩
    obtain ⟨j, hj, hs⟩ := mem_flatMap.mp hs
    obtain ⟨i, hi, rfl⟩ := mem_map.mp hs
    rw [mem_range] at hi hj
    refine ⟨?_, ?_, ?_, ?_⟩ <;> dsimp only <;> omega
  · rintro ⟨hx, hx', hy, hy'⟩
    have hi : (x - (ox - d)).toNat ∈ List.range side := mem_range.mpr (by omega)
    have hj : (y - (oy - d)).toNat ∈ List.range side := mem_range.mpr (by omega)
    refine ⟨_, mem_flatMap.mpr ⟨_, hj, mem_map_of_mem hi⟩, ?_, ?_⟩ <;> dsimp only <;> omega

theorem meets_finder {ox oy : ℤ} :
    Meets (finder ox oy) x y ↔ ox - 1 ≤ x ∧ x < ox + 8 ∧ oy - 1 ≤ y ∧ y < oy + 8 := by
  refine (meets_square 9 ox oy 1 fun dx dy => decide (0 ≤ dx ∧ dx ≤ 6 ∧ 0 ≤ dy ∧ dy ≤ 6 ∧
    (dx = 0 ∨ dx = 6 ∨ dy = 0 ∨ dy = 6)) || decide (2 ≤ dx ∧ dx ≤ 4 ∧ 2 ≤ dy ∧ dy ≤ 4)).trans ?_
  omega

theorem meets_alignment {cx cy : ℤ} :
    Meets (alignment cx cy) x y ↔ cx - 2 ≤ x ∧ x < cx + 3 ∧ cy - 2 ≤ y ∧ y < cy + 3 := by
  refine (meets_square 5 cx cy 2 fun dx dy =>
    decide (dx = -2 ∨ dx = 2 ∨ dy = -2 ∨ dy = 2 ∨ (dx = 0 ∧ dy = 0))).trans ?_
  omega

theorem meets_timing {n : ℕ} (hn : 16 ≤ n) :
    Meets (timing n) x y ↔ 8 ≤ x ∧ x < n - 8 ∧ y = 6 ∨ x = 6 ∧ 8 ≤ y ∧ y < n - 8 := by
  rw [timing, meets_flatMap]
  constructor
  · rintro ⟨i, hi, s, hs, rfl, rfl⟩
    rw [mem_range'_1] at hi
    rcases mem_pair.mp hs with rfl | rfl
    · exact .inl ⟨by dsimp only; omega, by dsimp only; omega, rfl⟩
    · exact .inr ⟨rfl, by dsimp only; omega, by dsimp only; omega⟩
  · rintro (⟨hx, hx', rfl⟩ | ⟨rfl, hy, hy'⟩)
    · exact ⟨x.toNat, mem_range'_1.mpr (by omega), _, mem_cons_self,
        Int.toNat_of_nonneg (by omega), rfl⟩
    · exact ⟨y.toNat, mem_range'_1.mpr (by omega), _, mem_cons_of_mem _ mem_cons_self,
        rfl, Int.toNat_of_nonneg (by omega)⟩

theorem meets_format {n mask i : ℕ} (hi : i < 15)
    (hat : formatFirst i = (x, y) ∨ formatSecond n i = (x, y)) :
    Meets (formatInfo n mask) x y := by
  refine meets_flatMap.mpr ⟨i, mem_range.mpr hi, ?_⟩
  rcases hat with hat | hat
  · exact ⟨_, mem_cons_self, congrArg Prod.fst hat, congrArg Prod.snd hat⟩
  · exact ⟨_, mem_cons_of_mem _ mem_cons_self, congrArg Prod.fst hat, congrArg Prod.snd hat⟩

theorem meets_formatInfo {n mask : ℕ} :
    Meets (formatInfo n mask) x y ↔
      x = 8 ∧ (0 ≤ y ∧ y ≤ 8 ∧ y ≠ 6 ∨ n - 7 ≤ y ∧ y < n) ∨
        y = 8 ∧ (0 ≤ x ∧ x ≤ 7 ∧ x ≠ 6 ∨ n - 8 ≤ x ∧ x < n) := by
  constructor
  · intro hmeets
    obtain ⟨i, hi, s, hs, rfl, rfl⟩ := meets_flatMap.mp hmeets
    rw [mem_range] at hi
    rcases mem_pair.mp hs with rfl | rfl
    · simp only [formatFirst]
      split_ifs <;> dsimp only <;> omega
    · simp only [formatSecond]
      split_ifs <;> dsimp only <;> omega
  · rintro (⟨rfl, hy | hy⟩ | ⟨rfl, hx | hx⟩)
    · have hrows : y ≤ 5 ∨ y = 7 ∨ y = 8 := by omega
      rcases hrows with hrow | rfl | rfl
      · refine meets_format (i := y.toNat) (by omega) (.inl ?_)
        rw [formatFirst, if_pos (by omega), Int.toNat_of_nonneg hy.1]
      · exact meets_format (i := 6) (by decide) (.inl rfl)
      · exact meets_format (i := 7) (by decide) (.inl rfl)
    · refine meets_format (i := (y - n + 15).toNat) (by omega) (.inr ?_)
      rw [formatSecond, if_neg (by omega), Prod.mk.injEq]
      omega
    · have hcolumns : x ≤ 5 ∨ x = 7 := by omega
      rcases hcolumns with hcolumn | rfl
      · refine meets_format (i := (14 - x).toNat) (by omega) (.inl ?_)
        rw [formatFirst, if_neg (by omega), if_neg (by omega), if_neg (by omega), if_neg (by omega),
          Prod.mk.injEq]
        omega
      · exact meets_format (i := 8) (by decide) (.inl rfl)
    · refine meets_format (i := (n - 1 - x).toNat) (by omega) (.inr ?_)
      rw [formatSecond, if_pos (by omega), Prod.mk.injEq]
      omega

theorem meets_versionInfo {n version : ℕ} :
    Meets (versionInfo n version) x y ↔
      0 ≤ x ∧ x ≤ 5 ∧ n - 11 ≤ y ∧ y < n - 8 ∨ 0 ≤ y ∧ y ≤ 5 ∧ n - 11 ≤ x ∧ x < n - 8 := by
  rw [versionInfo, meets_flatMap]
  constructor
  · rintro ⟨i, hi, s, hs, rfl, rfl⟩
    rw [mem_range] at hi
    rcases mem_pair.mp hs with rfl | rfl
    · left
      dsimp only
      omega
    · right
      dsimp only
      omega
  · rintro (⟨hx, hx', hy, hy'⟩ | ⟨hy, hy', hx, hx'⟩)
    · refine ⟨3 * x.toNat + (y - (n - 11)).toNat, mem_range.mpr (by omega), _,
        mem_cons_self, ?_, ?_⟩ <;> dsimp only <;> omega
    · refine ⟨3 * y.toNat + (x - (n - 11)).toNat, mem_range.mpr (by omega), _,
        mem_cons_of_mem _ mem_cons_self, ?_, ?_⟩ <;> dsimp only <;> omega

end

section

variable {v x y : ℕ}

theorem centers_centres (hv : 1 ≤ v ∧ v ≤ 12) : alignmentCenters v = centres v := by
  obtain ⟨h₁, h₁₂⟩ := hv
  interval_cases v <;> rfl

theorem meets_alignments (hv : 1 ≤ v ∧ v ≤ 12) :
    Meets (alignments (17 + 4 * v)) x y ↔ inAlignment v x y := by
  have hindex : (17 + 4 * v - 17) / 4 = v := by omega
  have hcollides : ∀ cx cy, collides (17 + 4 * v) cx cy = true ↔
      (cx = 6 ∧ cy = 6 ∨ cx = 6 ∧ cy = 10 + 4 * v ∨ cx = 10 + 4 * v ∧ cy = 6) := by
    intro cx cy
    simp only [collides, Bool.or_eq_true, Bool.and_eq_true, beq_iff_eq]
    omega
  simp only [alignments, hindex, centers_centres hv, meets_flatMap, inAlignment]
  constructor
  · rintro ⟨cy, hcy, cx, hcx, hmeets⟩
    by_cases hcorner : collides (17 + 4 * v) cx cy = true
    · rw [if_pos hcorner] at hmeets
      obtain ⟨s, hs, _⟩ := hmeets
      cases hs
    · rw [if_neg hcorner, meets_alignment] at hmeets
      exact ⟨cx, hcx, cy, hcy, fun h => hcorner ((hcollides cx cy).mpr h), by omega⟩
  · rintro ⟨cx, hcx, cy, hcy, hcorner, hbox⟩
    refine ⟨cy, hcy, cx, hcx, ?_⟩
    rw [if_neg fun h => hcorner ((hcollides cx cy).mp h), meets_alignment]
    omega

theorem meets_patterns (mask : ℕ) (hv : 1 ≤ v ∧ v ≤ 12) (hx : x < 17 + 4 * v)
    (hy : y < 17 + 4 * v) : Meets (patterns v mask) x y ↔ isFunction v x y = true := by
  have hversion : Meets (if v ≥ 7 then versionInfo (17 + 4 * v) v else []) x y ↔
      7 ≤ v ∧ (x ≤ 5 ∧ 6 + 4 * v ≤ y ∧ y ≤ 8 + 4 * v ∨ y ≤ 5 ∧ 6 + 4 * v ≤ x ∧ x ≤ 8 + 4 * v) := by
    split_ifs with h
    · rw [meets_versionInfo]
      omega
    · simp [Meets, h]
  have hdark : Meets [⟨8, (17 + 4 * v : ℕ) - 8, true⟩] x y ↔ x = 8 ∧ y = 9 + 4 * v := by
    simp only [Meets, mem_singleton, exists_eq_left]
    omega
  have hfinders : Meets (finder 0 0) x y ∨ Meets (finder ((17 + 4 * v : ℕ) - 7) 0) x y ∨
      Meets (finder 0 ((17 + 4 * v : ℕ) - 7)) x y ↔
        x ≤ 7 ∧ y ≤ 7 ∨ 9 + 4 * v ≤ x ∧ y ≤ 7 ∨ x ≤ 7 ∧ 9 + 4 * v ≤ y := by
    simp only [meets_finder]
    omega
  have htiming : Meets (timing (17 + 4 * v)) x y ↔
      8 ≤ x ∧ x ≤ 8 + 4 * v ∧ y = 6 ∨ x = 6 ∧ 8 ≤ y ∧ y ≤ 8 + 4 * v := by
    rw [meets_timing (by omega)]
    omega
  have hformat : Meets (formatInfo (17 + 4 * v) mask) x y ↔
      x = 8 ∧ (y ≤ 8 ∧ y ≠ 6 ∨ 10 + 4 * v ≤ y) ∨ y = 8 ∧ (x ≤ 7 ∧ x ≠ 6 ∨ 9 + 4 * v ≤ x) := by
    rw [meets_formatInfo]
    omega
  have hcorners : (x ≤ 7 ∧ y ≤ 7 ∨ 9 + 4 * v ≤ x ∧ y ≤ 7 ∨ x ≤ 7 ∧ 9 + 4 * v ≤ y) ∨
      (8 ≤ x ∧ x ≤ 8 + 4 * v ∧ y = 6 ∨ x = 6 ∧ 8 ≤ y ∧ y ≤ 8 + 4 * v) ∨
      (x = 8 ∧ y = 9 + 4 * v) ∨
      (x = 8 ∧ (y ≤ 8 ∧ y ≠ 6 ∨ 10 + 4 * v ≤ y) ∨ y = 8 ∧ (x ≤ 7 ∧ x ≠ 6 ∨ 9 + 4 * v ≤ x)) ↔
      (x ≤ 8 ∧ y ≤ 8 ∨ 9 + 4 * v ≤ x ∧ y ≤ 8 ∨ x ≤ 8 ∧ 9 + 4 * v ≤ y ∨ x = 6 ∨ y = 6) := by
    constructor
    · rintro ((h | h | h) | (h | h) | h | h | h) <;> omega
    · rintro (h | h | h | h | h) <;> omega
  have hfunction : isFunction v x y = true ↔ Meets (patterns v mask) x y := by
    rw [← hfinders, ← htiming, ← hdark, ← hformat] at hcorners
    rw [patterns, functionPatterns, isFunction, decide_eq_true_eq, ← hversion,
      ← meets_alignments hv]
    simp only [meets_append, ← or_assoc] at hcorners ⊢
    rw [← hcorners]
    exact Iff.of_eq (by ac_rfl)
  exact hfunction.symm

theorem reserved_eq_isFunction (mask : ℕ) (hv : 1 ≤ v ∧ v ≤ 12) (hx : x < 17 + 4 * v)
    (hy : y < 17 + 4 * v) :
    ((blank (17 + 4 * v)).draw (patterns v mask)).reserved.getD (y * (17 + 4 * v) + x) false =
      isFunction v x y := by
  have hk := index_lt hx hy
  have hfree : (blank (17 + 4 * v)).reserved.getD (y * (17 + 4 * v) + x) false = false :=
    getD_replicate _ hk
  have hlength : y * (17 + 4 * v) + x < (blank (17 + 4 * v)).reserved.length := by
    rw [blank, length_replicate]
    exact hk
  rw [Bool.eq_iff_iff, draw_reserved_iff hlength hfree, ← meets_patterns mask hv hx hy]
  exact exists_congr fun s => and_congr_right fun _ => slot_eq_index hx hy

theorem format_agree {n mask i : ℕ} {later : List Stroke} {s : Stroke} (hn : 21 ≤ n) (hi : i < 15)
    (hs : s ∈ formatInfo n mask ++ later) (hat : formatFirst i = (s.x, s.y))
    (hlater : ∀ t ∈ later, 9 ≤ t.x ∨ 9 ≤ t.y) :
    s.dark = (formatBits ecLevelM mask).testBit i := by
  have hnear : s.x ≤ 8 ∧ s.y ≤ 8 := by
    have hx := congrArg Prod.fst hat
    have hy := congrArg Prod.snd hat
    simp only [formatFirst] at hx hy
    constructor
    · split_ifs at hx <;> dsimp only at hx <;> omega
    · split_ifs at hy <;> dsimp only at hy <;> omega
  rcases mem_append.mp hs with hs | hs
  · obtain ⟨j, hj, hs⟩ := mem_flatMap.mp hs
    rw [mem_range] at hj
    rcases mem_pair.mp hs with rfl | rfl
    · have hbits : ∀ i < 15, ∀ j < 15, formatFirst i = formatFirst j → i = j := by decide
      rw [hbits i hi j hj hat]
    · dsimp only at hnear
      simp only [formatSecond] at hnear
      split_ifs at hnear <;> dsimp only at hnear <;> omega
  · have hfar := hlater s hs
    omega

theorem formatFirst_drawn {mask i : ℕ} (hi : i < 15) (hx : x < 17 + 4 * v)
    (hy : y < 17 + 4 * v) (hv : 1 ≤ v) (hat : formatFirst i = ((x : ℤ), (y : ℤ))) :
    ((blank (17 + 4 * v)).draw (patterns v mask)).modules.getD (y * (17 + 4 * v) + x) false =
      (formatBits ecLevelM mask).testBit i := by
  have hk := index_lt hx hy
  have hsize := draw_size (blank (17 + 4 * v)) (functionPatterns (17 + 4 * v))
  obtain ⟨hm, hr⟩ := draw_lengths (blank (17 + 4 * v)) (functionPatterns (17 + 4 * v))
  have hblank : (blank (17 + 4 * v)).modules.length = (17 + 4 * v) * (17 + 4 * v) :=
    length_replicate
  have hlater : ∀ t ∈ (if v ≥ 7 then versionInfo (17 + 4 * v) v else []), 9 ≤ t.x ∨ 9 ≤ t.y := by
    intro t ht
    split_ifs at ht with h
    · have hmeets : Meets (versionInfo (17 + 4 * v) v) t.x t.y := ⟨t, ht, rfl, rfl⟩
      rw [meets_versionInfo] at hmeets
      omega
    · cases ht
  rw [patterns, List.append_assoc, draw_append]
  refine draw_agree (by rw [hm, hblank]; exact hk) (by rw [hr]; exact hblank ▸ hk) ?_ ?_
  · obtain ⟨s, hs, hsx, hsy⟩ : Meets (formatInfo (17 + 4 * v) mask) x y := meets_format hi (.inl hat)
    refine ⟨s, mem_append_left _ hs, ?_⟩
    rw [hsize]
    exact (slot_eq_index hx hy).mpr ⟨hsx, hsy⟩
  · intro s hs hslot
    rw [hsize] at hslot
    obtain ⟨hsx, hsy⟩ := (slot_eq_index hx hy).mp hslot
    exact format_agree (by omega) hi hs (by rw [hat, hsx, hsy]) hlater

end

end Signari.QrDrawing
