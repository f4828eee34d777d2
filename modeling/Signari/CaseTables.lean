import Mathlib.Algebra.Group.Nat.Defs
import Mathlib.Data.List.Basic

/-!
# Simple case mapping

The lower case of code points outside ASCII, as the Unicode character database of the Go
library (version 15) has it, and the members of case-folding orbits that the lower case does
not lead to their orbit's representative. A row of the table is a run of capital letters:
every one, or every second one, of an interval of code points.
-/
namespace Signari.CaseTables
open List

structure Row where
  first : ℕ
  last : ℕ
  step : ℕ
  /-- The lower case of `first`. -/
  lower : ℕ

def Row.covers (r : Row) (n : ℕ) : Bool :=
  decide (r.first ≤ n) && decide (n ≤ r.last) && (n - r.first) % r.step == 0

def Row.image (r : Row) (n : ℕ) : ℕ := r.lower + (n - r.first)

def Row.lastImage (r : Row) : ℕ := r.image r.last

def runs : List Row := [
  ⟨192, 214, 1, 224⟩, ⟨216, 222, 1, 248⟩, ⟨256, 302, 2, 257⟩, ⟨306, 310, 2, 307⟩,
  ⟨313, 327, 2, 314⟩, ⟨330, 374, 2, 331⟩, ⟨377, 381, 2, 378⟩, ⟨386, 388, 2, 387⟩,
  ⟨393, 394, 1, 598⟩, ⟨416, 420, 2, 417⟩, ⟨433, 434, 1, 650⟩, ⟨435, 437, 2, 436⟩,
  ⟨459, 475, 2, 460⟩, ⟨478, 494, 2, 479⟩, ⟨498, 500, 2, 499⟩, ⟨504, 542, 2, 505⟩,
  ⟨546, 562, 2, 547⟩, ⟨582, 590, 2, 583⟩, ⟨880, 882, 2, 881⟩, ⟨904, 906, 1, 941⟩,
  ⟨910, 911, 1, 973⟩, ⟨913, 929, 1, 945⟩, ⟨931, 939, 1, 963⟩, ⟨984, 1006, 2, 985⟩,
  ⟨1021, 1023, 1, 891⟩, ⟨1024, 1039, 1, 1104⟩, ⟨1040, 1071, 1, 1072⟩, ⟨1120, 1152, 2, 1121⟩,
  ⟨1162, 1214, 2, 1163⟩, ⟨1217, 1229, 2, 1218⟩, ⟨1232, 1326, 2, 1233⟩, ⟨1329, 1366, 1, 1377⟩,
  ⟨4256, 4293, 1, 11520⟩, ⟨5024, 5103, 1, 43888⟩, ⟨5104, 5109, 1, 5112⟩, ⟨7312, 7354, 1, 4304⟩,
  ⟨7357, 7359, 1, 4349⟩, ⟨7680, 7828, 2, 7681⟩, ⟨7840, 7934, 2, 7841⟩, ⟨7944, 7951, 1, 7936⟩,
  ⟨7960, 7965, 1, 7952⟩, ⟨7976, 7983, 1, 7968⟩, ⟨7992, 7999, 1, 7984⟩, ⟨8008, 8013, 1, 8000⟩,
  ⟨8025, 8031, 2, 8017⟩, ⟨8040, 8047, 1, 8032⟩, ⟨8072, 8079, 1, 8064⟩, ⟨8088, 8095, 1, 8080⟩,
  ⟨8104, 8111, 1, 8096⟩, ⟨8120, 8121, 1, 8112⟩, ⟨8122, 8123, 1, 8048⟩, ⟨8136, 8139, 1, 8050⟩,
  ⟨8152, 8153, 1, 8144⟩, ⟨8154, 8155, 1, 8054⟩, ⟨8168, 8169, 1, 8160⟩, ⟨8170, 8171, 1, 8058⟩,
  ⟨8184, 8185, 1, 8056⟩, ⟨8186, 8187, 1, 8060⟩, ⟨8544, 8559, 1, 8560⟩, ⟨9398, 9423, 1, 9424⟩,
  ⟨11264, 11311, 1, 11312⟩, ⟨11367, 11371, 2, 11368⟩, ⟨11390, 11391, 1, 575⟩,
  ⟨11392, 11490, 2, 11393⟩, ⟨11499, 11501, 2, 11500⟩, ⟨42560, 42604, 2, 42561⟩,
  ⟨42624, 42650, 2, 42625⟩, ⟨42786, 42798, 2, 42787⟩, ⟨42802, 42862, 2, 42803⟩,
  ⟨42873, 42875, 2, 42874⟩, ⟨42878, 42886, 2, 42879⟩, ⟨42896, 42898, 2, 42897⟩,
  ⟨42902, 42920, 2, 42903⟩, ⟨42932, 42946, 2, 42933⟩, ⟨42951, 42953, 2, 42952⟩,
  ⟨42966, 42968, 2, 42967⟩, ⟨65313, 65338, 1, 65345⟩, ⟨66560, 66599, 1, 66600⟩,
  ⟨66736, 66771, 1, 66776⟩, ⟨66928, 66964, 2, 66967⟩, ⟨66929, 66937, 2, 66968⟩,
  ⟨66941, 66953, 2, 66980⟩, ⟨66957, 66961, 2, 66996⟩, ⟨68736, 68786, 1, 68800⟩,
  ⟨71840, 71871, 1, 71872⟩, ⟨93760, 93791, 1, 93792⟩, ⟨125184, 125217, 1, 125218⟩]

/-- Capital letters that stand alone, each with its lower case. -/
def singles : List (ℕ × ℕ) := [
  (304, 105), (376, 255), (385, 595), (390, 596), (391, 392), (395, 396), (398, 477), (399, 601),
  (400, 603), (401, 402), (403, 608), (404, 611), (406, 617), (407, 616), (408, 409), (412, 623),
  (413, 626), (415, 629), (422, 640), (423, 424), (425, 643), (428, 429), (430, 648), (431, 432),
  (439, 658), (440, 441), (444, 445), (452, 454), (453, 454), (455, 457), (456, 457), (458, 460),
  (497, 499), (502, 405), (503, 447), (544, 414), (570, 11365), (571, 572), (573, 410),
  (574, 11366), (577, 578), (579, 384), (580, 649), (581, 652), (886, 887), (895, 1011),
  (902, 940), (908, 972), (975, 983), (1012, 952), (1015, 1016), (1017, 1010), (1018, 1019),
  (1216, 1231), (4295, 11559), (4301, 11565), (7838, 223), (8124, 8115), (8140, 8131),
  (8172, 8165), (8188, 8179), (8486, 969), (8490, 107), (8491, 229), (8498, 8526), (8579, 8580),
  (11360, 11361), (11362, 619), (11363, 7549), (11364, 637), (11373, 593), (11374, 625),
  (11375, 592), (11376, 594), (11378, 11379), (11381, 11382), (11506, 11507), (42877, 7545),
  (42891, 42892), (42893, 613), (42922, 614), (42923, 604), (42924, 609), (42925, 620),
  (42926, 618), (42928, 670), (42929, 647), (42930, 669), (42931, 43859), (42948, 42900),
  (42949, 642), (42950, 7566), (42960, 42961), (42997, 42998), (66965, 67004)]

def rows : List Row := runs ++ singles.map fun c => ⟨c.1, c.1, 1, c.2⟩

/-- Members of folding orbits, each with the representative; the dotted capital I is alone in its
orbit. -/
def orbits : List (ℕ × ℕ) := [(0xB5, 0x3BC), (0x130, 0x130), (0x17F, 0x73), (0x345, 0x3B9),
  (0x3C2, 0x3C3), (0x3D0, 0x3B2), (0x3D1, 0x3B8), (0x3D5, 0x3C6), (0x3D6, 0x3C0),
  (0x3F0, 0x3BA), (0x3F1, 0x3C1), (0x3F5, 0x3B5), (0x1C80, 0x432), (0x1C81, 0x434),
  (0x1C82, 0x43E), (0x1C83, 0x441), (0x1C84, 0x442), (0x1C85, 0x442), (0x1C86, 0x44A),
  (0x1C87, 0x463), (0x1C88, 0xA64B), (0x1E9B, 0x1E61), (0x1FBE, 0x3B9)]

def lowerCode (n : ℕ) : ℕ :=
  match rows.find? fun r => r.covers n with
  | some r => r.image n
  | none => n

def foldCode (n : ℕ) : ℕ := (orbits.lookup n).getD (lowerCode n)

/-- A code point has no lower case of its own, or a row gives it. -/
theorem lowerCode_cases (n : ℕ) :
    lowerCode n = n ∨ ∃ r ∈ rows, r.covers n = true ∧ lowerCode n = r.image n := by
  unfold lowerCode
  cases hfind : rows.find? fun r => r.covers n with
  | none => exact .inl rfl
  | some r =>
    have hcovers := find?_some hfind
    exact .inr ⟨r, mem_of_find?_eq_some hfind, hcovers, rfl⟩

theorem lowerCode_of_uncovered {n : ℕ} (h : ∀ r ∈ rows, r.covers n = false) :
    lowerCode n = n := by
  rcases lowerCode_cases n with hn | ⟨r, hr, hcovers, -⟩
  · exact hn
  · exact absurd ((h r hr).symm.trans hcovers) (by decide)

theorem Row.covers_iff {r : Row} {n : ℕ} :
    r.covers n = true ↔ (r.first ≤ n ∧ n ≤ r.last) ∧ (n - r.first) % r.step = 0 := by
  simp [Row.covers]

/-- The code points a row is about, and their lower cases. -/
def Row.codes (r : Row) : List ℕ := range' r.first ((r.last - r.first) / r.step + 1) r.step

def Row.images (r : Row) : List ℕ := r.codes.map r.image

theorem Row.mem_codes {r : Row} {n : ℕ} (h : r.covers n = true) : n ∈ r.codes := by
  obtain ⟨⟨hfirst, hlast⟩, hstep⟩ := Row.covers_iff.mp h
  have hdvd := Nat.mul_div_cancel' (Nat.dvd_of_mod_eq_zero hstep)
  refine mem_range'.mpr ⟨(n - r.first) / r.step, Nat.lt_succ_of_le ?_, by omega⟩
  exact Nat.div_le_div_right (Nat.sub_le_sub_right hlast _)

/-- A set of numbers as the bits of one, so that two sets are compared at a stroke. -/
def mask (ns : List ℕ) : ℕ := ns.foldr (fun n m => 2 ^ n ||| m) 0

theorem testBit_mask {ns : List ℕ} {n : ℕ} : (mask ns).testBit n = true ↔ n ∈ ns := by
  induction ns with
  | nil => simp [mask]
  | cons k ns ih =>
    rw [mask, foldr_cons, Nat.testBit_or, Bool.or_eq_true, ← mask, ih, Nat.testBit_two_pow,
      decide_eq_true_eq, mem_cons, eq_comm]

def rowsMask (part : Row → List ℕ) : ℕ := rows.foldr (fun r m => mask (part r) ||| m) 0

theorem testBit_rowsMask {part : Row → List ℕ} {r : Row} (hr : r ∈ rows) {n : ℕ}
    (hn : n ∈ part r) : (rowsMask part).testBit n = true := by
  have hall (rs : List Row) : r ∈ rs →
      (rs.foldr (fun r m => mask (part r) ||| m) 0).testBit n = true := by
    induction rs with
    | nil => simp
    | cons q qs ih =>
      intro hmem
      rw [foldr_cons, Nat.testBit_or, Bool.or_eq_true]
      rcases mem_cons.mp hmem with rfl | hmem
      · exact .inl (testBit_mask.mpr hn)
      · exact .inr (ih hmem)
  exact hall rows hr

/-- What has a lower case is no lower case itself. The members of `orbits` are none either, and of
them only the dotted capital I has one. -/
theorem masks_apart : rowsMask Row.codes &&& rowsMask Row.images = 0 ∧
    mask (orbits.map Prod.fst) &&& rowsMask Row.images = 0 ∧
    mask (orbits.map Prod.fst) &&& rowsMask Row.codes = 2 ^ 0x130 := by
  decide +kernel

/-- A lower case is its own lower case. -/
theorem lowerCode_image {r : Row} (hr : r ∈ rows) {n : ℕ} (hn : r.covers n = true) :
    lowerCode (r.image n) = r.image n := by
  refine lowerCode_of_uncovered fun q hq => Bool.eq_false_iff.mpr fun hcovers => ?_
  have hsmall : (rowsMask Row.images).testBit (r.image n) = true :=
    testBit_rowsMask hr (mem_map_of_mem (Row.mem_codes hn))
  have hcapital := testBit_rowsMask hq (Row.mem_codes hcovers)
  have hboth := congrArg (Nat.testBit · (r.image n)) masks_apart.1
  simp only [Nat.testBit_and, hcapital, hsmall, Nat.zero_testBit] at hboth
  cases hboth

theorem lowerCode_lowerCode (n : ℕ) : lowerCode (lowerCode n) = lowerCode n := by
  rcases lowerCode_cases n with heq | ⟨r, hr, hn, heq⟩
  · rw [heq, heq]
  · rw [heq, lowerCode_image hr hn]

/-- Intervals that hold all white space. -/
def blanks : List (ℕ × ℕ) :=
  [(9, 32), (0x85, 0xA0), (0x1680, 0x1680), (0x2000, 0x205F), (0x3000, 0x3000)]

theorem rows_bounds : ∀ r ∈ rows, 128 ≤ r.first ∧ r.lastImage < 0x110000 ∧
    (r.lastImage < 0xD800 ∨ 0xDFFF < r.lower) ∧ (128 ≤ r.lower ∨
      r.first = 0x130 ∧ r.last = 0x130 ∧ r.lower = 105 ∨
      r.first = 0x212A ∧ r.last = 0x212A ∧ r.lower = 107) ∧
    ∀ b ∈ blanks, (r.last < b.1 ∨ b.2 < r.first) ∧ (r.lastImage < b.1 ∨ b.2 < r.lower) := by
  decide +kernel

theorem lowerCode_valid {n : ℕ} (h : n.isValidChar) : (lowerCode n).isValidChar := by
  rcases lowerCode_cases n with heq | ⟨r, hr, hn, heq⟩
  · rwa [heq]
  · rw [Row.covers_iff] at hn
    obtain ⟨-, hmax, hgap, -⟩ := rows_bounds r hr
    rw [heq, Nat.isValidChar]
    simp only [Row.lastImage, Row.image] at hmax hgap ⊢
    omega

theorem toNat_ofNat {n : ℕ} (h : n.isValidChar) : (Char.ofNat n).toNat = n := by
  rw [Char.ofNat, dif_pos h]
  rfl

theorem lowerCode_ascii {n : ℕ} (h : 128 ≤ n) :
    128 ≤ lowerCode n ∨ n = 0x130 ∧ lowerCode n = 105 ∨ n = 0x212A ∧ lowerCode n = 107 := by
  rcases lowerCode_cases n with heq | ⟨r, hr, hn, heq⟩
  · exact .inl (heq.symm ▸ h)
  · rw [Row.covers_iff] at hn
    obtain ⟨-, -, -, hlow, -⟩ := rows_bounds r hr
    rw [heq, Row.image]
    omega

/-- What has a lower case of its own is no white space, and neither is the lower case. -/
theorem lowerCode_solid {n : ℕ} (h : lowerCode n ≠ n) {b : ℕ × ℕ} (hb : b ∈ blanks) :
    ¬(b.1 ≤ n ∧ n ≤ b.2) ∧ ¬(b.1 ≤ lowerCode n ∧ lowerCode n ≤ b.2) := by
  obtain ⟨r, hr, hn, heq⟩ := (lowerCode_cases n).resolve_left h
  rw [Row.covers_iff] at hn
  obtain ⟨-, -, -, -, hsolid⟩ := rows_bounds r hr
  obtain ⟨hfrom, hto⟩ := hsolid b hb
  simp only [heq, Row.lastImage, Row.image] at hto ⊢
  omega

theorem orbits_bounds : ∀ p ∈ orbits, 128 ≤ p.1 ∧ p.2.isValidChar ∧ (128 ≤ p.2 ∨ p.2 = 115) := by
  decide

theorem lookup_cases (n : ℕ) :
    orbits.lookup n = none ∨ ∃ p ∈ orbits, p.1 = n ∧ orbits.lookup n = some p.2 := by
  cases hlook : orbits.lookup n with
  | none => exact .inl rfl
  | some m =>
    obtain ⟨before, after, heq, -⟩ := lookup_eq_some_iff.mp hlook
    exact .inr ⟨(n, m), by rw [heq]; simp, rfl, rfl⟩

theorem foldCode_valid {n : ℕ} (h : n.isValidChar) : (foldCode n).isValidChar := by
  rcases lookup_cases n with hnone | ⟨p, hp, -, hsome⟩
  · rw [foldCode, hnone]
    exact lowerCode_valid h
  · rw [foldCode, hsome]
    exact (orbits_bounds p hp).2.1

/-- Of the letters outside ASCII, only the Kelvin sign and the long s fold to a letter of ASCII. -/
theorem foldCode_ascii {n : ℕ} (h : 128 ≤ n) :
    128 ≤ foldCode n ∨ foldCode n = 107 ∨ foldCode n = 115 := by
  rcases lookup_cases n with hnone | ⟨p, hp, -, hsome⟩
  · rw [foldCode, hnone, Option.getD_none]
    rcases lowerCode_ascii h with hlow | ⟨rfl, -⟩ | ⟨-, hk⟩
    · exact .inl hlow
    · exact absurd hnone (by decide)
    · exact .inr (.inl hk)
  · rw [foldCode, hsome, Option.getD_some]
    exact (orbits_bounds p hp).2.2.imp id .inr

/-- But for the dotted I, a letter outside ASCII folds as its lower case does. -/
theorem foldCode_lowerCode {n : ℕ} (h : n ≠ 0x130) : foldCode (lowerCode n) = foldCode n := by
  rcases lowerCode_cases n with heq | ⟨r, hr, hn, heq⟩
  · rw [heq]
  · have hcode := Row.mem_codes hn
    have hfrom : orbits.lookup n = none := by
      refine (lookup_cases n).resolve_right ?_
      rintro ⟨p, hp, rfl, -⟩
      have hboth := congrArg (Nat.testBit · p.1) masks_apart.2.2
      simp only [Nat.testBit_and, testBit_mask.mpr (mem_map_of_mem hp),
        testBit_rowsMask hr hcode, Nat.testBit_two_pow] at hboth
      exact h (of_decide_eq_true hboth.symm).symm
    have hto : orbits.lookup (r.image n) = none := by
      refine (lookup_cases _).resolve_right ?_
      rintro ⟨p, hp, himage, -⟩
      have hsmall : (rowsMask Row.images).testBit p.1 = true :=
        testBit_rowsMask hr (himage.symm ▸ mem_map_of_mem hcode)
      have hboth := congrArg (Nat.testBit · p.1) masks_apart.2.1
      simp only [Nat.testBit_and, testBit_mask.mpr (mem_map_of_mem hp), hsmall,
        Nat.zero_testBit] at hboth
      cases hboth
    rw [foldCode, foldCode, heq, hto, hfrom, Option.getD_none, Option.getD_none,
      lowerCode_image hr hn]

end Signari.CaseTables
