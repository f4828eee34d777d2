import Signari.BitStreams
import Signari.InterleavedBlocks
import Signari.QrReedSolomon

/-!
# The codewords of a QR symbol

`qr.go` up to the codeword stream: the version that is picked, the bits of the payload with
their padding, the blocks with their error correction, and the interleaving. Byte mode and
level M only, for versions 1 to 12.

`readBlocks` and `readPayload` are how the standard reads the stream: the blocks of the version
are taken apart, and the data bytes start with the mode and the count. Padding after the
payload is not looked at.
-/
namespace Signari.QrCodewords
open BitStreams InterleavedBlocks QrReedSolomon List

structure BlockSpec where
  ecPerBlock : ℕ
  g1Blocks : ℕ
  g1Data : ℕ
  g2Blocks : ℕ
  g2Data : ℕ

/-- The block layout of each version. -/
def specsM : ℕ → BlockSpec
  | 1 => ⟨10, 1, 16, 0, 0⟩
  | 2 => ⟨16, 1, 28, 0, 0⟩
  | 3 => ⟨26, 1, 44, 0, 0⟩
  | 4 => ⟨18, 2, 32, 0, 0⟩
  | 5 => ⟨24, 2, 43, 0, 0⟩
  | 6 => ⟨16, 4, 27, 0, 0⟩
  | 7 => ⟨18, 4, 31, 0, 0⟩
  | 8 => ⟨22, 2, 38, 2, 39⟩
  | 9 => ⟨22, 3, 36, 2, 37⟩
  | 10 => ⟨26, 4, 43, 1, 44⟩
  | 11 => ⟨30, 1, 50, 4, 51⟩
  | 12 => ⟨22, 6, 36, 2, 37⟩
  | _ => ⟨0, 0, 0, 0, 0⟩

def BlockSpec.dataCodewords (b : BlockSpec) : ℕ := b.g1Blocks * b.g1Data + b.g2Blocks * b.g2Data

def countBits (version : ℕ) : ℕ := if version ≥ 10 then 16 else 8

def fits (n version : ℕ) : Bool :=
  decide (4 + countBits version + 8 * n ≤ (specsM version).dataCodewords * 8)

/-- The first version that holds `n` bytes. -/
def pickVersion (n : ℕ) : Except String (ℕ × BlockSpec) :=
  match (List.range' 1 12).find? (fits n) with
  | some v => .ok (v, specsM v)
  | none => .error ("qr: " ++ toString n ++ " bytes does not fit in version 12 at level M " ++
      "(288 codewords); this encoder is deliberately limited to what otpauth URIs need")

def payloadBits (data : List UInt8) (version : ℕ) : List Bool :=
  bitsOf 4 4 ++ bitsOf data.length (countBits version) ++ data.flatMap byteBits

/-- Up to four zero bits, fewer if the symbol is nearly full. -/
def terminate (capacity : ℕ) (bs : List Bool) : List Bool :=
  bs ++ List.replicate (min 4 (capacity - bs.length)) false

def align (bs : List Bool) : List Bool := bs ++ List.replicate ((8 - bs.length % 8) % 8) false

/-- The loop that pads: one turn for each byte that is missing. -/
def padOut (capacity : ℕ) (bs : List Bool) : List Bool :=
  bs ++ (List.range ((capacity - bs.length + 7) / 8)).flatMap fun pad =>
    bitsOf (if pad % 2 = 0 then 0xEC else 0x11) 8

def dataBytes (data : List UInt8) (version : ℕ) (spec : BlockSpec) : List UInt8 :=
  let capacity := spec.dataCodewords * 8
  pack (padOut capacity (align (terminate capacity (payloadBits data version))))

/-- How many data codewords each block has. -/
def BlockSpec.sizes (b : BlockSpec) : List ℕ :=
  List.replicate b.g1Blocks b.g1Data ++ List.replicate b.g2Blocks b.g2Data

def splitBlocks : List ℕ → List UInt8 → List (List UInt8)
  | [], _ => []
  | n :: ns, bytes => bytes.take n :: splitBlocks ns (bytes.drop n)

def dataBlocks (data : List UInt8) (version : ℕ) (spec : BlockSpec) : List (List UInt8) :=
  splitBlocks spec.sizes (dataBytes data version spec)

def buildCodewords (data : List UInt8) (version : ℕ) (spec : BlockSpec) : List UInt8 :=
  let blocks := dataBlocks data version spec
  interleave (max spec.g1Data spec.g2Data) blocks ++
    interleave spec.ecPerBlock (blocks.map fun blk => reedSolomon blk spec.ecPerBlock)

def readBlocks (spec : BlockSpec) (codewords : List UInt8) :
    List (List UInt8) × List (List UInt8) :=
  (deinterleave spec.sizes codewords,
    deinterleave (List.replicate spec.sizes.length spec.ecPerBlock)
      (codewords.drop spec.dataCodewords))

def readPayload (version : ℕ) (bytes : List UInt8) : Option (List UInt8) :=
  let bits := bytes.flatMap byteBits
  let count := numberOf ((bits.drop 4).take (countBits version))
  let payload := bits.drop (4 + countBits version)
  if numberOf (bits.take 4) = 4 ∧ 8 * count ≤ payload.length then
    some (pack (payload.take (8 * count)))
  else none

theorem pickVersion_ok {n v : ℕ} {spec : BlockSpec} (h : pickVersion n = .ok (v, spec)) :
    1 ≤ v ∧ v ≤ 12 ∧ spec = specsM v ∧ 4 + countBits v + 8 * n ≤ spec.dataCodewords * 8 := by
  unfold pickVersion at h
  cases hfind : (List.range' 1 12).find? (fits n) with
  | none => simp [hfind] at h
  | some w =>
    rw [hfind] at h
    obtain ⟨rfl, rfl⟩ := Prod.mk.inj (Except.ok.inj h)
    have hmem := mem_of_find?_eq_some hfind
    have hfits := find?_some hfind
    rw [mem_range'_1] at hmem
    exact ⟨hmem.1, by omega, rfl, of_decide_eq_true hfits⟩

theorem payloadBits_length (data : List UInt8) (v : ℕ) :
    (payloadBits data v).length = 4 + countBits v + 8 * data.length := by
  rw [payloadBits, length_append, length_append, bitsOf_length, bitsOf_length, bits_length]

theorem padOut_length {n : ℕ} {bs : List Bool} (h : bs.length ≤ n * 8) (hbytes : bs.length % 8 = 0) :
    (padOut (n * 8) bs).length = n * 8 := by
  rw [padOut, length_append, length_flatMap]
  simp only [bitsOf_length, map_const', sum_replicate, length_range, smul_eq_mul]
  omega

/-- The padded stream begins with the payload and fills the data codewords. -/
theorem padded_spec {n : ℕ} {bs : List Bool} (h : bs.length ≤ n * 8) :
    bs <+: padOut (n * 8) (align (terminate (n * 8) bs)) ∧
      (padOut (n * 8) (align (terminate (n * 8) bs))).length = n * 8 := by
  have hterminate : (terminate (n * 8) bs).length ≤ n * 8 := by
    rw [terminate, length_append, length_replicate]
    omega
  have halign : (align (terminate (n * 8) bs)).length ≤ n * 8 ∧
      (align (terminate (n * 8) bs)).length % 8 = 0 := by
    rw [align, length_append, length_replicate]
    omega
  refine ⟨?_, padOut_length halign.1 halign.2⟩
  exact ((prefix_append _ _).trans (prefix_append _ _)).trans (prefix_append _ _)

variable {data : List UInt8} {v : ℕ} {spec : BlockSpec}

theorem dataBytes_length (h : 4 + countBits v + 8 * data.length ≤ spec.dataCodewords * 8) :
    (dataBytes data v spec).length = spec.dataCodewords := by
  have hpadded := (padded_spec (payloadBits_length data v ▸ h)).2
  exact pack_length (hpadded.trans (Nat.mul_comm ..))

theorem dataBytes_bits (h : 4 + countBits v + 8 * data.length ≤ spec.dataCodewords * 8) :
    payloadBits data v <+: (dataBytes data v spec).flatMap byteBits := by
  obtain ⟨hpre, hlength⟩ := padded_spec (payloadBits_length data v ▸ h)
  rw [dataBytes, bits_pack (hlength.trans (Nat.mul_comm ..))]
  exact hpre

theorem count_lt (hv : v ≤ 12)
    (h : 4 + countBits v + 8 * data.length ≤ (specsM v).dataCodewords * 8) :
    data.length < 2 ^ countBits v := by
  have hsmall : ∀ v ≤ 12, (specsM v).dataCodewords < 2 ^ countBits v := by decide
  have hbound := hsmall v hv
  omega

theorem readPayload_dataBytes (hv : v ≤ 12)
    (h : 4 + countBits v + 8 * data.length ≤ (specsM v).dataCodewords * 8) :
    readPayload v (dataBytes data v (specsM v)) = some data := by
  obtain ⟨rest, hbits⟩ := dataBytes_bits h
  have hmode : numberOf (bitsOf 4 4) = 4 := numberOf_bitsOf 4 4
  have hcount : numberOf (bitsOf data.length (countBits v)) = data.length := by
    rw [numberOf_bitsOf, Nat.mod_eq_of_lt (count_lt hv h)]
  have hlen := bits_length data
  rw [payloadBits, List.append_assoc, List.append_assoc] at hbits
  have htake : ((dataBytes data v (specsM v)).flatMap byteBits).take 4 = bitsOf 4 4 := by
    rw [← hbits, take_left' (bitsOf_length 4 4)]
  have hdrop : ((dataBytes data v (specsM v)).flatMap byteBits).drop 4 =
      bitsOf data.length (countBits v) ++ (data.flatMap byteBits ++ rest) := by
    rw [← hbits, drop_left' (bitsOf_length 4 4)]
  have hpayload : ((dataBytes data v (specsM v)).flatMap byteBits).drop (4 + countBits v) =
      data.flatMap byteBits ++ rest := by
    rw [← drop_drop, hdrop, drop_left' (bitsOf_length _ _)]
  simp only [readPayload, htake, hdrop, hpayload, hmode, take_left' (bitsOf_length _ _),
    hcount, length_append, hlen, Nat.le_add_right, and_self, if_true,
    take_left' hlen, pack_bits]

theorem splitBlocks_lengths {sizes : List ℕ} {bytes : List UInt8} (h : bytes.length = sizes.sum) :
    (splitBlocks sizes bytes).map List.length = sizes := by
  induction sizes generalizing bytes with
  | nil => rfl
  | cons n ns ih =>
    rw [sum_cons] at h
    rw [splitBlocks, map_cons, ih (by rw [length_drop]; omega), length_take_of_le (by omega)]

theorem splitBlocks_flatten {sizes : List ℕ} {bytes : List UInt8} (h : bytes.length = sizes.sum) :
    (splitBlocks sizes bytes).flatten = bytes := by
  induction sizes generalizing bytes with
  | nil => exact (length_eq_zero_iff.mp h).symm
  | cons n ns ih =>
    rw [sum_cons] at h
    rw [splitBlocks, flatten_cons, ih (by rw [length_drop]; omega), take_append_drop]

theorem sizes_sum (spec : BlockSpec) : spec.sizes.sum = spec.dataCodewords := by
  rw [BlockSpec.sizes, sum_append, sum_replicate, sum_replicate, smul_eq_mul, smul_eq_mul]
  rfl

theorem sizes_le {n : ℕ} (hn : n ∈ spec.sizes) : n ≤ max spec.g1Data spec.g2Data := by
  rw [BlockSpec.sizes, mem_append] at hn
  rcases hn with hn | hn
  · rw [(mem_replicate.mp hn).2]
    exact le_max_left _ _
  · rw [(mem_replicate.mp hn).2]
    exact le_max_right _ _

theorem ec_lengths (blocks : List (List UInt8)) (n : ℕ) :
    (blocks.map fun blk => reedSolomon blk n).map List.length = List.replicate blocks.length n := by
  rw [map_map, eq_replicate_iff]
  refine ⟨length_map _, fun k hk => ?_⟩
  obtain ⟨blk, _, rfl⟩ := mem_map.mp hk
  exact reedSolomon_length blk n

theorem dataBlocks_lengths (h : 4 + countBits v + 8 * data.length ≤ spec.dataCodewords * 8) :
    (dataBlocks data v spec).map List.length = spec.sizes :=
  splitBlocks_lengths ((dataBytes_length h).trans (sizes_sum spec).symm)

theorem dataBlocks_flatten (h : 4 + countBits v + 8 * data.length ≤ spec.dataCodewords * 8) :
    (dataBlocks data v spec).flatten = dataBytes data v spec :=
  splitBlocks_flatten ((dataBytes_length h).trans (sizes_sum spec).symm)

/-- The part of the stream before the error correction. -/
theorem data_length (h : 4 + countBits v + 8 * data.length ≤ spec.dataCodewords * 8) :
    (interleave (max spec.g1Data spec.g2Data) (dataBlocks data v spec)).length =
      spec.dataCodewords := by
  have hlengths := dataBlocks_lengths h
  rw [interleave_length fun blk hblk => sizes_le (hlengths ▸ mem_map_of_mem hblk), hlengths,
    sizes_sum]

theorem buildCodewords_length (h : 4 + countBits v + 8 * data.length ≤ spec.dataCodewords * 8) :
    (buildCodewords data v spec).length =
      spec.dataCodewords + spec.sizes.length * spec.ecPerBlock := by
  have hcount : (dataBlocks data v spec).length = spec.sizes.length := by
    rw [← dataBlocks_lengths h, length_map]
  have hec : ∀ blk ∈ (dataBlocks data v spec).map fun blk => reedSolomon blk spec.ecPerBlock,
      blk.length ≤ spec.ecPerBlock := by
    intro blk hblk
    obtain ⟨b, _, rfl⟩ := mem_map.mp hblk
    exact (reedSolomon_length b _).le
  rw [buildCodewords, length_append, data_length h, interleave_length hec, ec_lengths,
    sum_replicate, hcount, smul_eq_mul]

theorem readBlocks_buildCodewords (h : 4 + countBits v + 8 * data.length ≤ spec.dataCodewords * 8) :
    readBlocks spec (buildCodewords data v spec) =
      (dataBlocks data v spec,
        (dataBlocks data v spec).map fun blk => reedSolomon blk spec.ecPerBlock) := by
  have hlengths := dataBlocks_lengths h
  have hdata : deinterleave spec.sizes (buildCodewords data v spec) = dataBlocks data v spec := by
    rw [← hlengths]
    exact deinterleave_interleave (fun blk hblk => sizes_le (hlengths ▸ mem_map_of_mem hblk)) _
  have hec : deinterleave (List.replicate spec.sizes.length spec.ecPerBlock)
      ((buildCodewords data v spec).drop spec.dataCodewords) =
        (dataBlocks data v spec).map fun blk => reedSolomon blk spec.ecPerBlock := by
    have hcount : (dataBlocks data v spec).length = spec.sizes.length := by
      rw [← hlengths, length_map]
    rw [buildCodewords, drop_left' (data_length h), ← hcount, ← ec_lengths]
    have hshort : ∀ blk ∈ (dataBlocks data v spec).map fun blk => reedSolomon blk spec.ecPerBlock,
        blk.length ≤ spec.ecPerBlock := by
      intro blk hblk
      obtain ⟨b, _, rfl⟩ := mem_map.mp hblk
      exact (reedSolomon_length b _).le
    have hread := deinterleave_interleave hshort []
    rwa [append_nil] at hread
  rw [readBlocks, hdata, hec]

end Signari.QrCodewords
