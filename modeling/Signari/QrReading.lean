import Signari.QrZigzag

/-!
# Reading a QR symbol

The reading procedure of the standard, for byte mode at level M: the version from the size, the
mask from the format information, the modules without a function in the zigzag with the mask
undone, the blocks of the version, and from their data the mode, the count and the payload. It is
written without the drawing of the encoder, and it does not correct errors.

`reads_back` says that what `encode` has drawn is read as the bytes that it was given, and that
every block is a codeword.
-/
namespace Signari.QrReading
open BitStreams CodePolynomials QrReedSolomon QrCodewords QrModules QrDrawing QrZigzag List

def readVersion (c : Code) : Option ℕ := (List.range' 1 12).find? fun v => c.size == 17 + 4 * v

/-- The format information around the top-left finder, most significant bit first. -/
def formatPlaces : List (ℕ × ℕ) :=
  [(0, 8), (1, 8), (2, 8), (3, 8), (4, 8), (5, 8), (7, 8), (8, 8), (8, 7), (8, 5), (8, 4), (8, 3),
    (8, 2), (8, 1), (8, 0)]

/-- The level and the mask. -/
def readFormat (c : Code) : ℕ × ℕ :=
  let word := numberOf (formatPlaces.map fun p => c.dark p.1 p.2) ^^^ 0x5412
  (word >>> 13, (word >>> 10) % 8)

/-- Pairs of columns from the right, upward and downward by turns, past the timing column. -/
def zigzag (n : ℕ) : List (ℕ × ℕ) :=
  (List.range ((n - 1) / 2)).flatMap fun k =>
    let right := if n - 1 - 2 * k ≤ 6 then n - 2 - 2 * k else n - 1 - 2 * k
    (List.range n).flatMap fun i =>
      let y := if k % 2 = 0 then n - 1 - i else i
      [(right, y), (right - 1, y)]

def readBits (c : Code) (version mask : ℕ) : List Bool :=
  ((zigzag (17 + 4 * version)).filter fun p => !isFunction version p.1 p.2).map fun p =>
    c.dark p.1 p.2 != maskAt mask p.1 p.2

def BlockSpec.codewords (b : BlockSpec) : ℕ := b.dataCodewords + b.sizes.length * b.ecPerBlock

/-- The codewords of a symbol; the modules after them are not looked at. -/
def readCodewords (c : Code) (version mask : ℕ) : List UInt8 :=
  pack ((readBits c version mask).take (8 * BlockSpec.codewords (specsM version)))

/-- The version with the blocks of data and of error correction. -/
def readSymbol (c : Code) : Option (ℕ × List (List UInt8) × List (List UInt8)) :=
  match readVersion c with
  | none => none
  | some version =>
    let format := readFormat c
    if format.1 = ecLevelM then
      some (version, readBlocks (specsM version) (readCodewords c version format.2))
    else none

def read (c : Code) : Option (List UInt8) := match readSymbol c with
  | none => none
  | some (version, blocks, _) => readPayload version blocks.flatten

/-- The data of a block followed by its error correction vanishes at the first powers. -/
def IsCodeword (n : ℕ) (data ec : List UInt8) : Prop :=
  ec.length = n ∧ ∀ i < n, value (alpha ^ i) ((data ++ ec).map element) = 0

section

variable {codewords : List UInt8} {v mask : ℕ}

theorem zigzag_eq_walk (hv : 1 ≤ v ∧ v ≤ 12) : zigzag (17 + 4 * v) = walk (17 + 4 * v) := by
  have hcolumns : ∀ v ∈ List.range' 1 12, (columns (17 + 4 * v) (17 + 4 * v - 1)).zipIdx =
      (List.range ((17 + 4 * v - 1) / 2)).map fun k =>
        (if 17 + 4 * v - 1 - 2 * k ≤ 6 then 17 + 4 * v - 2 - 2 * k
          else 17 + 4 * v - 1 - 2 * k, k) := by
    decide
  rw [walk, hcolumns v (mem_range'_1.mpr (by omega)), flatMap_map, zigzag]
  simp only [columnPair, beq_iff_eq]

theorem symbol_size : (symbol codewords v mask).size = 17 + 4 * v := by
  unfold symbol placeData
  exact canvas_size v mask

theorem dark_eq {x y : ℕ} (hx : x < 17 + 4 * v) (hy : y < 17 + 4 * v) :
    (symbol codewords v mask).dark x y =
      (symbol codewords v mask).modules.getD (y * (17 + 4 * v) + x) false := by
  rw [Code.dark, symbol_size, slot_cast hx hy]

theorem readVersion_symbol (hv : 1 ≤ v ∧ v ≤ 12) :
    readVersion (symbol codewords v mask) = some v := by
  obtain ⟨h₁, h₁₂⟩ := hv
  rw [readVersion, symbol_size]
  interval_cases v <;> rfl

theorem formatPlaces_eq : formatPlaces = (List.range 15).reverse.map fun i =>
    ((formatFirst i).1.toNat, (formatFirst i).2.toNat) := by decide

theorem formatPlace_near : ∀ i < 15, (formatFirst i).1.toNat ≤ 8 ∧ (formatFirst i).2.toNat ≤ 8 ∧
    formatFirst i = (((formatFirst i).1.toNat : ℤ), ((formatFirst i).2.toNat : ℤ)) := by decide

theorem formatWord_symbol (hv : 1 ≤ v ∧ v ≤ 12) :
    formatPlaces.map (fun p => (symbol codewords v mask).dark p.1 p.2) =
      bitsOf (formatBits ecLevelM mask) 15 := by
  rw [formatPlaces_eq, map_map, bitsOf]
  refine map_congr_left fun i hi => ?_
  rw [mem_reverse, mem_range] at hi
  obtain ⟨hx, hy, hat⟩ := formatPlace_near i hi
  have hfunction : isFunction v (formatFirst i).1.toNat (formatFirst i).2.toNat = true :=
    decide_eq_true (.inl ⟨hx, hy⟩)
  rw [Function.comp_apply, dark_eq (by omega) (by omega), placed_reserved hv (by omega) hfunction,
    formatFirst_drawn hi (by omega) (by omega) hv.1 hat]

theorem readFormat_symbol (hv : 1 ≤ v ∧ v ≤ 12) (hmask : mask < 8) :
    readFormat (symbol codewords v mask) = (ecLevelM, mask) := by
  have hbits : ∀ mask < 8, ((formatBits ecLevelM mask % 2 ^ 15 ^^^ 0x5412) >>> 13,
      (formatBits ecLevelM mask % 2 ^ 15 ^^^ 0x5412) >>> 10 % 8) = (ecLevelM, mask) := by decide
  rw [readFormat, formatWord_symbol hv, numberOf_bitsOf]
  exact hbits mask hmask

theorem readBits_symbol (hv : 1 ≤ v ∧ v ≤ 12) :
    readBits (symbol codewords v mask) v mask =
      (List.range (dataModules v).length).map (codewordBit codewords) := by
  rw [readBits, zigzag_eq_walk hv, ← placed_free hv]
  refine map_congr_left fun p hp => ?_
  have hwalk := mem_walk (mem_filter.mp hp).1
  rw [dark_eq hwalk.1 hwalk.2]
  rfl

end

section

variable {data : List UInt8} {v mask : ℕ}

theorem readCodewords_symbol {codewords : List UInt8} (hv : 1 ≤ v ∧ v ≤ 12)
    (hlength : codewords.length = BlockSpec.codewords (specsM v)) :
    readCodewords (symbol codewords v mask) v mask = codewords := by
  have hcapacity : 8 * codewords.length ≤ (dataModules v).length := by
    rw [hlength]
    exact data_capacity hv
  rw [readCodewords, readBits_symbol hv, ← hlength, ← map_take, take_range,
    Nat.min_eq_left hcapacity, codewordBits, pack_bits]

theorem readSymbol_symbol (hv : 1 ≤ v ∧ v ≤ 12) (hmask : mask < 8)
    (h : 4 + countBits v + 8 * data.length ≤ (specsM v).dataCodewords * 8) :
    readSymbol (symbol (buildCodewords data v (specsM v)) v mask) =
      some (v, dataBlocks data v (specsM v),
        (dataBlocks data v (specsM v)).map fun blk => reedSolomon blk (specsM v).ecPerBlock) := by
  rw [readSymbol, readVersion_symbol hv]
  dsimp only
  rw [readFormat_symbol hv hmask, if_pos rfl,
    readCodewords_symbol hv (buildCodewords_length h), readBlocks_buildCodewords h]

/-- The loop over the masks ends with the symbol of one of them. -/
theorem foldl_least {α : Type} (cost : α → ℕ) (f : ℕ → α) (n : ℕ) :
    ∃ m ≤ n, (range' 1 n).foldl (fun best k => if cost (f k) < cost best then f k else best)
        (f 0) = f m := by
  induction n with
  | zero => exact ⟨0, le_rfl, rfl⟩
  | succ n ih =>
    obtain ⟨m, hm, hfold⟩ := ih
    rw [range'_1_concat, foldl_append, hfold, foldl_cons, foldl_nil, Nat.add_comm 1 n]
    by_cases hless : cost (f (n + 1)) < cost (f m)
    · exact ⟨n + 1, le_rfl, if_pos hless⟩
    · exact ⟨m, hm.trans n.le_succ, if_neg hless⟩

theorem encode_eq_symbol {c : Code} (h : encode data = .ok c) :
    ∃ v mask, (1 ≤ v ∧ v ≤ 12) ∧ mask < 8 ∧
      4 + countBits v + 8 * data.length ≤ (specsM v).dataCodewords * 8 ∧
        c = symbol (buildCodewords data v (specsM v)) v mask := by
  unfold encode at h
  cases hpick : pickVersion data.length with
  | error e => simp [hpick] at h
  | ok found =>
    obtain ⟨v, spec⟩ := found
    obtain ⟨h₁, h₁₂, rfl, hfits⟩ := pickVersion_ok hpick
    rw [hpick] at h
    obtain ⟨mask, hmask, hfold⟩ :=
      foldl_least Code.penalty (symbol (buildCodewords data v (specsM v)) v) 7
    exact ⟨v, mask, ⟨h₁, h₁₂⟩, Nat.lt_succ_iff.mpr hmask, hfits,
      (Except.ok.inj h).symm.trans hfold⟩

theorem blocks_codewords {n : ℕ} (hn : n ≤ 512) (blocks : List (List UInt8)) :
    ∀ b ∈ blocks.zip (blocks.map fun blk => reedSolomon blk n), IsCodeword n b.1 b.2 := by
  intro b hb
  rw [← map_prod_left_eq_zip, mem_map] at hb
  obtain ⟨blk, _, rfl⟩ := hb
  exact ⟨reedSolomon_length blk n, fun i hi => reedSolomon_codeword blk hn hi⟩

/-- A symbol reads back: the bytes are recovered, and every block is a Reed-Solomon codeword. -/
theorem reads_back {c : Code} (h : encode data = .ok c) :
    read c = some data ∧ ∃ v blocks ecs, readSymbol c = some (v, blocks, ecs) ∧
      blocks.length = (specsM v).sizes.length ∧ ecs.length = (specsM v).sizes.length ∧
        ∀ b ∈ blocks.zip ecs, IsCodeword (specsM v).ecPerBlock b.1 b.2 := by
  obtain ⟨v, mask, hv, hmask, hfits, rfl⟩ := encode_eq_symbol h
  have hread := readSymbol_symbol hv hmask hfits
  have hcount : (dataBlocks data v (specsM v)).length = (specsM v).sizes.length := by
    rw [← dataBlocks_lengths hfits, length_map]
  have hec : ∀ v ≤ 12, (specsM v).ecPerBlock ≤ 512 := by decide
  constructor
  · rw [read, hread]
    dsimp only
    rw [dataBlocks_flatten hfits, readPayload_dataBytes hv.2 hfits]
  · exact ⟨v, _, _, hread, hcount, by rw [length_map, hcount], blocks_codewords (hec v hv.2) _⟩

/-- The bytes of `hi`. -/
theorem reads_back_hi : ∃ c, encode [0x68, 0x69] = .ok c ∧ read c = some [0x68, 0x69] :=
  ⟨_, rfl, (reads_back rfl).1⟩

end

end Signari.QrReading
