import Signari.QrCodewords

/-!
# The modules of a QR symbol

`matrix.go`, with `Encode` of `qr.go`: the function patterns, the format and version information,
the zigzag that carries the codewords, the masks and the penalty by which one of them is chosen.

Every module that is drawn with a fixed meaning is also reserved, so the patterns are lists of
strokes, in the order in which they are drawn, and a stroke does both.
-/
namespace Signari.QrModules
open QrCodewords

structure Code where
  size : ℕ
  modules : List Bool

/-- A symbol under construction, with the modules that data must not touch. -/
structure Canvas extends Code where
  reserved : List Bool

structure Stroke where
  x : ℤ
  y : ℤ
  dark : Bool

/-- The index of a module, row by row; there is none outside. -/
def slot (n : ℕ) (x y : ℤ) : Option ℕ :=
  if x < 0 ∨ y < 0 ∨ (n : ℤ) ≤ x ∨ (n : ℤ) ≤ y then none else some (y.toNat * n + x.toNat)

def Code.dark (c : Code) (x y : ℤ) : Bool :=
  match slot c.size x y with
  | none => false
  | some k => c.modules.getD k false

/-- `set` and `reserve` at one place. -/
def Canvas.stroke (c : Canvas) (s : Stroke) : Canvas :=
  match slot c.size s.x s.y with
  | none => c
  | some k => { c with modules := c.modules.set k s.dark, reserved := c.reserved.set k true }

def Canvas.draw (c : Canvas) (strokes : List Stroke) : Canvas := strokes.foldl Canvas.stroke c

/-- The 7x7 pattern with a separator all round. -/
def finder (ox oy : ℤ) : List Stroke :=
  (List.range 9).flatMap fun j => (List.range 9).map fun i =>
    let dx : ℤ := i - 1
    let dy : ℤ := j - 1
    let inRing := decide (0 ≤ dx ∧ dx ≤ 6 ∧ 0 ≤ dy ∧ dy ≤ 6 ∧
      (dx = 0 ∨ dx = 6 ∨ dy = 0 ∨ dy = 6))
    let inCore := decide (2 ≤ dx ∧ dx ≤ 4 ∧ 2 ≤ dy ∧ dy ≤ 4)
    ⟨ox + dx, oy + dy, inRing || inCore⟩

def alignment (cx cy : ℤ) : List Stroke :=
  (List.range 5).flatMap fun j => (List.range 5).map fun i =>
    let dx : ℤ := i - 2
    let dy : ℤ := j - 2
    ⟨cx + dx, cy + dy, decide (dx = -2 ∨ dx = 2 ∨ dy = -2 ∨ dy = 2 ∨ (dx = 0 ∧ dy = 0))⟩

def timing (n : ℕ) : List Stroke :=
  (List.range' 8 (n - 16)).flatMap fun (i : ℕ) => [⟨i, 6, i % 2 == 0⟩, ⟨6, i, i % 2 == 0⟩]

/-- The centres of the alignment patterns, in rows and in columns. -/
def alignmentCenters : ℕ → List ℕ
  | 2 => [6, 18]
  | 3 => [6, 22]
  | 4 => [6, 26]
  | 5 => [6, 30]
  | 6 => [6, 34]
  | 7 => [6, 22, 38]
  | 8 => [6, 24, 42]
  | 9 => [6, 26, 46]
  | 10 => [6, 28, 50]
  | 11 => [6, 30, 54]
  | 12 => [6, 32, 58]
  | _ => []

/-- The three corners that the finders have taken. -/
def collides (n cx cy : ℕ) : Bool :=
  (cx == 6 && cy == 6) || (cx == 6 && cy == n - 7) || (cx == n - 7 && cy == 6)

def alignments (n : ℕ) : List Stroke :=
  let centers := alignmentCenters ((n - 17) / 4)
  centers.flatMap fun cy => centers.flatMap fun cx =>
    if collides n cx cy then [] else alignment cx cy

def functionPatterns (n : ℕ) : List Stroke :=
  finder 0 0 ++ finder (n - 7) 0 ++ finder 0 (n - 7) ++ timing n ++ alignments n ++ [⟨8, n - 8, true⟩]

/-- One step of a BCH remainder with `width` bits. -/
def bchStep (generator width rem : ℕ) : ℕ :=
  if (rem <<< 1) &&& (1 <<< width) ≠ 0 then (rem <<< 1) ^^^ generator else rem <<< 1

def ecLevelM : ℕ := 0

def formatBits (ecLevel mask : ℕ) : ℕ :=
  let data := (ecLevel <<< 3) ||| mask
  ((data <<< 10) ||| ((bchStep 0x537 10)^[10] data)) ^^^ 0x5412

def versionBits (version : ℕ) : ℕ :=
  (version <<< 12) ||| ((bchStep 0x1F25 12)^[12] version)

/-- The bits around the top-left finder. -/
def formatFirst (i : ℕ) : ℤ × ℤ :=
  if i < 6 then (8, i)
  else if i = 6 then (8, 7)
  else if i = 7 then (8, 8)
  else if i = 8 then (7, 8)
  else (14 - i, 8)

/-- The bits at the other two finders. -/
def formatSecond (n i : ℕ) : ℤ × ℤ :=
  if i < 8 then (n - 1 - i, 8) else (8, n - 15 + i)

def formatInfo (n mask : ℕ) : List Stroke :=
  (List.range 15).flatMap fun i =>
    let dark := (formatBits ecLevelM mask).testBit i
    [⟨(formatFirst i).1, (formatFirst i).2, dark⟩, ⟨(formatSecond n i).1, (formatSecond n i).2, dark⟩]

def versionInfo (n version : ℕ) : List Stroke :=
  (List.range 18).flatMap fun i =>
    let dark := (versionBits version).testBit i
    let x : ℤ := (i / 3 : ℕ)
    let y : ℤ := n - 11 + (i % 3 : ℕ)
    [⟨x, y, dark⟩, ⟨y, x, dark⟩]

/-- Whether the mask inverts the module. -/
def maskAt (mask x y : ℕ) : Bool :=
  match mask with
  | 0 => (y + x) % 2 == 0
  | 1 => y % 2 == 0
  | 2 => x % 3 == 0
  | 3 => (y + x) % 3 == 0
  | 4 => (y / 2 + x / 3) % 2 == 0
  | 5 => (y * x) % 2 + (y * x) % 3 == 0
  | 6 => ((y * x) % 2 + (y * x) % 3) % 2 == 0
  | _ => ((y + x) % 2 + (y * x) % 3) % 2 == 0

def columns : ℕ → ℕ → List ℕ
  | 0, _ => []
  | fuel + 1, right =>
    if right = 0 then []
    else
      let right := if right = 6 then 5 else right
      right :: columns fuel (right - 2)

def columnPair (n right : ℕ) (upward : Bool) : List (ℕ × ℕ) :=
  (List.range n).flatMap fun i =>
    let y := if upward then n - 1 - i else i
    [(right, y), (right - 1, y)]

/-- The zigzag: upward first, and then by turns. -/
def walk (n : ℕ) : List (ℕ × ℕ) :=
  ((columns n (n - 1)).zipIdx).flatMap fun (right, k) => columnPair n right (k % 2 == 0)

def codewordBit (codewords : List UInt8) (bit : ℕ) : Bool :=
  (codewords.getD (bit / 8) 0).toNat.testBit (7 - bit % 8)

def placeModule (c : Canvas) (codewords : List UInt8) (mask : ℕ) (st : ℕ × List Bool)
    (p : ℕ × ℕ) : ℕ × List Bool :=
  if c.reserved.getD (p.2 * c.size + p.1) false then st
  else
    let total := codewords.length * 8
    let dark := if st.1 < total then codewordBit codewords st.1 else false
    (if st.1 < total then st.1 + 1 else st.1,
      st.2.set (p.2 * c.size + p.1) (dark != maskAt mask p.1 p.2))

def placeData (c : Canvas) (codewords : List UInt8) (mask : ℕ) : Code where
  size := c.size
  modules := ((walk c.size).foldl (placeModule c codewords mask) (0, c.modules)).2

structure RunState where
  run : ℕ := 0
  prev : Bool := false
  score : ℕ := 0

def closeRun (st : RunState) : ℕ := if st.run ≥ 5 then st.score + (st.run - 2) else st.score

/-- Runs of five or more along one line. -/
def lineScore (n : ℕ) (get : ℕ → Bool) : ℕ :=
  closeRun ((List.range n).foldl (fun st b =>
    if b > 0 ∧ get b = st.prev then { st with run := st.run + 1, prev := get b }
    else ⟨1, get b, closeRun st⟩) {})

def blockScore (c : Code) : ℕ :=
  ((List.range (c.size - 1)).map fun (y : ℕ) => ((List.range (c.size - 1)).map fun (x : ℕ) =>
    let v := c.dark x y
    if v = c.dark (x + 1) y ∧ v = c.dark x (y + 1) ∧ v = c.dark (x + 1) (y + 1) then 3 else 0).sum).sum

def finderLike : List (List Bool) :=
  [[true, false, true, true, true, false, true, false, false, false, false],
    [false, false, false, false, true, false, true, true, true, false, true]]

def windowScore (n : ℕ) (get : ℕ → Bool) : ℕ :=
  ((List.range (n - 10)).map fun start =>
    if (List.range 11).map (fun i => get (start + i)) ∈ finderLike then 40 else 0).sum

/-- Deviation from an even balance. -/
def balanceScore (c : Code) : ℕ :=
  let percent : ℤ := (c.modules.count true * 100 / (c.size * c.size) : ℕ)
  (percent - 50).natAbs / 5 * 10

def Code.penalty (c : Code) : ℕ :=
  let row (a b : ℕ) : Bool := c.dark b a
  let col (a b : ℕ) : Bool := c.dark a b
  ((List.range c.size).map fun a => lineScore c.size (row a)).sum +
    ((List.range c.size).map fun a => lineScore c.size (col a)).sum + blockScore c +
    ((List.range c.size).map fun a => windowScore c.size (row a) + windowScore c.size (col a)).sum +
    balanceScore c

/-- Everything that is drawn before the data. -/
def patterns (version mask : ℕ) : List Stroke :=
  functionPatterns (17 + 4 * version) ++ formatInfo (17 + 4 * version) mask ++
    if version ≥ 7 then versionInfo (17 + 4 * version) version else []

def blank (n : ℕ) : Canvas where
  size := n
  modules := List.replicate (n * n) false
  reserved := List.replicate (n * n) false

def symbol (codewords : List UInt8) (version mask : ℕ) : Code :=
  placeData ((blank (17 + 4 * version)).draw (patterns version mask)) codewords mask

/-- Every mask is scored, and the first with the lowest penalty wins. -/
def encode (data : List UInt8) : Except String Code :=
  match pickVersion data.length with
  | .error e => .error e
  | .ok (version, spec) =>
    let codewords := buildCodewords data version spec
    .ok ((List.range' 1 7).foldl (fun best mask =>
      let c := symbol codewords version mask
      if c.penalty < best.penalty then c else best) (symbol codewords version 0))

end Signari.QrModules
