import Mathlib
import MoonlightWeb.Lib.Painting

/-! # BGRA to planar 4:2:0

A picture of four-byte pixels is brought to luma and chroma planes, of its own size or
scaled in 16.16 fixed point, in bands of rows. Reads outside the picture fail here. The
samples are compared with the picture sampled at coordinates clamped to its edges.
-/

namespace MoonlightWeb.NativeHost.BgraToI420

open Lib.Painting

/-- `BgraToI420Params` without the memory: the source's rows do not overlap, nor do the
destination's, whose size is even. -/
structure Params where
  srcPitch : Nat
  srcWidth : Nat
  srcHeight : Nat
  rgbOrder : Bool
  dstWidth : Nat
  dstHeight : Nat
  strideY : Nat
  strideUV : Nat
  srcWidth_pos : 0 < srcWidth
  srcHeight_pos : 0 < srcHeight
  srcPitch_ge : 4 * srcWidth ≤ srcPitch
  dstWidth_pos : 0 < dstWidth
  dstHeight_pos : 0 < dstHeight
  dstWidth_even : dstWidth % 2 = 0
  dstHeight_even : dstHeight % 2 = 0
  strideY_ge : dstWidth ≤ strideY
  strideUV_ge : dstWidth / 2 ≤ strideUV

variable (p : Params)

/-- A byte of the source, none outside the picture's pixels. -/
def load (src : Nat → UInt8) (a : Nat) : Option UInt8 :=
  if a / p.srcPitch < p.srcHeight ∧ a % p.srcPitch < 4 * p.srcWidth then some (src a) else none

inductive Plane
  | y
  | u
  | v
deriving DecidableEq, Repr

abbrev Planes := Plane × Nat → UInt8

structure Rgb where
  r : Nat
  g : Nat
  b : Nat
deriving DecidableEq, Repr

def clampByte (v : Int) : UInt8 :=
  UInt8.ofNat (if v < 0 then 0 else if v > 255 then 255 else v).toNat

def lumaOf (c : Rgb) : UInt8 :=
  clampByte ((47 * (c.r : Int) + 157 * c.g + 16 * c.b + 128) / 256 + 16)

/-- `chromaOf` of the summed channels, Cb. -/
def chromaCb (sum : Rgb) : UInt8 :=
  let r : Int := (sum.r / 4 : Nat)
  let g : Int := (sum.g / 4 : Nat)
  let b : Int := (sum.b / 4 : Nat)
  clampByte ((-26 * r - 87 * g + 113 * b + 128) / 256 + 128)

/-- `chromaOf` of the summed channels, Cr. -/
def chromaCr (sum : Rgb) : UInt8 :=
  let r : Int := (sum.r / 4 : Nat)
  let g : Int := (sum.g / 4 : Nat)
  let b : Int := (sum.b / 4 : Nat)
  clampByte ((112 * r - 102 * g - 10 * b + 128) / 256 + 128)

def sum4 (a b c d : Rgb) : Rgb :=
  ⟨a.r + b.r + c.r + d.r, a.g + b.g + c.g + d.g, a.b + b.b + c.b + d.b⟩

def redAt : Nat :=
  if p.rgbOrder then 0 else 2

/-- The pixel at `x` of a row. -/
def loadPixel (src : Nat → UInt8) (row x : Nat) : Option Rgb := do
  let r ← load p src (row * p.srcPitch + x * 4 + redAt p)
  let g ← load p src (row * p.srcPitch + x * 4 + 1)
  let b ← load p src (row * p.srcPitch + x * 4 + (2 - redAt p))
  return ⟨r.toNat, g.toNat, b.toNat⟩

/-- What `sampleBilinear` reads along one axis of `size` pixels: two pixels, and how far
towards the second, in 256ths. -/
structure Taps where
  first : Nat
  second : Nat
  a : Nat
deriving DecidableEq, Repr

def taps (size : Nat) (f : Int) : Taps :=
  let x0 := f / 65536
  let a := (f % 65536 / 256).toNat
  let x0 := if x0 < 0 then 0 else x0.toNat
  let x1 := if x0 + 1 < size then x0 + 1 else x0
  let x0 := if size ≤ x0 then size - 1 else x0
  ⟨x0, x1, a⟩

/-- The weighted mean of four bytes. -/
def mix (tx ty : Taps) (p00 p10 p01 p11 : Nat) : Nat :=
  let w00 := (256 - tx.a) * (256 - ty.a)
  let w10 := tx.a * (256 - ty.a)
  let w01 := (256 - tx.a) * ty.a
  let w11 := tx.a * ty.a
  (p00 * w00 + p10 * w10 + p01 * w01 + p11 * w11 + 32768) / 65536

def sampleBilinear (src : Nat → UInt8) (fx fy : Int) : Option Rgb := do
  let tx := taps p.srcWidth fx
  let ty := taps p.srcHeight fy
  let p00 ← loadPixel p src ty.first tx.first
  let p10 ← loadPixel p src ty.first tx.second
  let p01 ← loadPixel p src ty.second tx.first
  let p11 ← loadPixel p src ty.second tx.second
  return ⟨mix tx ty p00.r p10.r p01.r p11.r, mix tx ty p00.g p10.g p01.g p11.g,
    mix tx ty p00.b p10.b p01.b p11.b⟩

/-- The two luma rows and the chroma row of a block of two rows and two columns. -/
def emit (row x : Nat) (a b c d : Rgb) (planes : Planes) : Planes :=
  let planes := Function.update planes (.y, row * p.strideY + x) (lumaOf a)
  let planes := Function.update planes (.y, row * p.strideY + (x + 1)) (lumaOf b)
  let planes := Function.update planes (.y, (row + 1) * p.strideY + x) (lumaOf c)
  let planes := Function.update planes (.y, (row + 1) * p.strideY + (x + 1)) (lumaOf d)
  let planes := Function.update planes (.u, row / 2 * p.strideUV + x / 2) (chromaCb (sum4 a b c d))
  Function.update planes (.v, row / 2 * p.strideUV + x / 2) (chromaCr (sum4 a b c d))

/-- `for (i = begin; i < end; i += 2)` -/
def byTwo (first last : Nat) : List Nat :=
  (List.range ((last + 1 - first) / 2)).map fun i => first + 2 * i

def oneToOneRows (src : Nat → UInt8) (rowBegin rowEnd : Nat) (planes : Planes) :
    Option Planes :=
  (byTwo rowBegin rowEnd).foldlM (fun planes row =>
    (byTwo 0 p.dstWidth).foldlM (fun planes x => do
      let a ← loadPixel p src row x
      let b ← loadPixel p src row (x + 1)
      let c ← loadPixel p src (row + 1) x
      let d ← loadPixel p src (row + 1) (x + 1)
      return emit p row x a b c d planes) planes) planes

def stepX : Nat :=
  p.srcWidth * 65536 / p.dstWidth

def stepY : Nat :=
  p.srcHeight * 65536 / p.dstHeight

/-- The coordinate of the centre of pixel `k`. -/
def centre (step k : Nat) : Int :=
  (k * step + step / 2 : Nat) - 32768

def scaledRows (src : Nat → UInt8) (rowBegin rowEnd : Nat) (planes : Planes) :
    Option Planes :=
  (byTwo rowBegin rowEnd).foldlM (fun planes row =>
    let fy0 := centre (stepY p) row
    let fy1 := fy0 + stepY p
    (byTwo 0 p.dstWidth).foldlM (fun planes x => do
      let fx0 := centre (stepX p) x
      let fx1 := fx0 + stepX p
      let a ← sampleBilinear p src (if fx0 < 0 then 0 else fx0) (if fy0 < 0 then 0 else fy0)
      let b ← sampleBilinear p src fx1 (if fy0 < 0 then 0 else fy0)
      let c ← sampleBilinear p src (if fx0 < 0 then 0 else fx0) fy1
      let d ← sampleBilinear p src fx1 fy1
      return emit p row x a b c d planes) planes) planes

def bgraToI420Rows (src : Nat → UInt8) (rowBegin rowEnd : Nat) (planes : Planes) :
    Option Planes :=
  let rowBegin := rowBegin / 2 * 2
  let rowEnd := rowEnd / 2 * 2
  let rowEnd := if rowEnd > p.dstHeight then p.dstHeight else rowEnd
  if p.srcWidth = p.dstWidth ∧ p.srcHeight = p.dstHeight then
    oneToOneRows p src rowBegin rowEnd planes
  else
    scaledRows p src rowBegin rowEnd planes

def clampedTaps (size : Nat) (f : Int) : Taps :=
  let f := max 0 (min f ((size - 1 : Nat) * 65536))
  let first := (f / 65536).toNat
  ⟨first, min (first + 1) (size - 1), (f % 65536 / 256).toNat⟩

def byteAt (src : Nat → UInt8) (offset row x : Nat) : Nat :=
  (src (row * p.srcPitch + x * 4 + offset)).toNat

def pixelAt (src : Nat → UInt8) (row x : Nat) : Rgb :=
  ⟨byteAt p src (redAt p) row x, byteAt p src 1 row x, byteAt p src (2 - redAt p) row x⟩

def sampleWith (src : Nat → UInt8) (tx ty : Taps) : Rgb :=
  let p00 := pixelAt p src ty.first tx.first
  let p10 := pixelAt p src ty.first tx.second
  let p01 := pixelAt p src ty.second tx.first
  let p11 := pixelAt p src ty.second tx.second
  ⟨mix tx ty p00.r p10.r p01.r p11.r, mix tx ty p00.g p10.g p01.g p11.g,
    mix tx ty p00.b p10.b p01.b p11.b⟩

/-- The reference for destination pixel `(row, col)`. -/
def reference (src : Nat → UInt8) (row col : Nat) : Rgb :=
  sampleWith p src (clampedTaps p.srcWidth (centre (stepX p) col))
    (clampedTaps p.srcHeight (centre (stepY p) row))

theorem redAt_le : redAt p ≤ 2 := by
  unfold redAt
  split <;> omega

theorem load_pixel (src : Nat → UInt8) {row x offset : Nat}
    (hrow : row < p.srcHeight) (hx : x < p.srcWidth) (hoffset : offset ≤ 3) :
    load p src (row * p.srcPitch + x * 4 + offset) =
      some (src (row * p.srcPitch + x * 4 + offset)) := by
  have hpitch := p.srcPitch_ge
  have hpos := p.srcWidth_pos
  have hin : x * 4 + offset < p.srcPitch := by omega
  have hdiv : (row * p.srcPitch + x * 4 + offset) / p.srcPitch = row := by
    rw [Nat.add_assoc, Nat.mul_comm, Nat.mul_add_div (by omega), Nat.div_eq_of_lt hin,
      Nat.add_zero]
  have hmod : (row * p.srcPitch + x * 4 + offset) % p.srcPitch = x * 4 + offset := by
    rw [Nat.add_assoc, Nat.mul_comm, Nat.mul_add_mod, Nat.mod_eq_of_lt hin]
  unfold load
  rw [if_pos (by rw [hdiv, hmod]; omega)]

theorem loadPixel_eq (src : Nat → UInt8) {row x : Nat} (hrow : row < p.srcHeight)
    (hx : x < p.srcWidth) : loadPixel p src row x = some (pixelAt p src row x) := by
  have hred := redAt_le p
  unfold loadPixel
  rw [load_pixel p src hrow hx (by omega), load_pixel p src hrow hx (by omega),
    load_pixel p src hrow hx (by omega)]
  rfl

def Taps.Inside (t : Taps) (size : Nat) : Prop :=
  t.first < size ∧ t.second < size ∧ t.a < 256

variable {size : Nat}

theorem taps_inside (hsize : 0 < size) {f : Int} (hf : f < size * 65536) :
    (taps size f).Inside size := by
  have hmod := Int.emod_lt_of_pos f (show (0 : Int) < 65536 by decide)
  have hmod' := Int.emod_nonneg f (show (65536 : Int) ≠ 0 by decide)
  unfold taps Taps.Inside
  dsimp only
  refine ⟨?_, ?_, ?_⟩
  · split_ifs <;> omega
  · split_ifs <;> omega
  · omega

theorem sampleBilinear_eq (src : Nat → UInt8) {fx fy : Int}
    (hx : fx < p.srcWidth * 65536) (hy : fy < p.srcHeight * 65536) :
    sampleBilinear p src fx fy =
      some (sampleWith p src (taps p.srcWidth fx) (taps p.srcHeight fy)) := by
  obtain ⟨hx0, hx1, -⟩ := taps_inside p.srcWidth_pos hx
  obtain ⟨hy0, hy1, -⟩ := taps_inside p.srcHeight_pos hy
  unfold sampleBilinear
  dsimp only
  rw [loadPixel_eq p src hy0 hx0, loadPixel_eq p src hy0 hx1, loadPixel_eq p src hy1 hx0,
    loadPixel_eq p src hy1 hx1]
  rfl

theorem mem_byTwo {first last k : Nat} :
    k ∈ byTwo first last ↔ ∃ i, 2 * i + 1 < last + 1 - first ∧ first + 2 * i = k := by
  unfold byTwo
  simp only [List.mem_map, List.mem_range]
  constructor
  · rintro ⟨i, hi, hk⟩
    exact ⟨i, by omega, hk⟩
  · rintro ⟨i, hi, hk⟩
    exact ⟨i, by omega, hk⟩

/-- A block's two rows and two columns, written as a picture has them. -/
def emitBlock (pix : Nat → Nat → Rgb) (row x : Nat) (planes : Planes) : Planes :=
  emit p row x (pix row x) (pix row (x + 1)) (pix (row + 1) x) (pix (row + 1) (x + 1)) planes

def paintRows (pix : Nat → Nat → Rgb) (rowBegin rowEnd : Nat) (planes : Planes) :
    Planes :=
  (byTwo rowBegin rowEnd).foldl (fun planes row =>
    (byTwo 0 p.dstWidth).foldl (fun planes x => emitBlock p pix row x planes) planes) planes

def blockSum (pix : Nat → Nat → Rgb) (i j : Nat) : Rgb :=
  sum4 (pix (2 * i) (2 * j)) (pix (2 * i) (2 * j + 1)) (pix (2 * i + 1) (2 * j))
    (pix (2 * i + 1) (2 * j + 1))

def pictureOf (pix : Nat → Nat → Rgb) : Plane × Nat → UInt8
  | (.y, a) => lumaOf (pix (a / p.strideY) (a % p.strideY))
  | (.u, a) => chromaCb (blockSum pix (a / p.strideUV) (a % p.strideUV))
  | (.v, a) => chromaCr (blockSum pix (a / p.strideUV) (a % p.strideUV))

/-- The block a place of a plane belongs to: its row of blocks and its column. -/
def blockOf : Plane × Nat → Nat × Nat
  | (.y, a) => (a / p.strideY / 2, a % p.strideY / 2)
  | (.u, a) => (a / p.strideUV, a % p.strideUV)
  | (.v, a) => (a / p.strideUV, a % p.strideUV)

variable {stride x : Nat}

theorem place_div (row : Nat) (hx : x < stride) :
    (row * stride + x) / stride = row := by
  rw [Nat.mul_comm, Nat.mul_add_div (by omega), Nat.div_eq_of_lt hx, Nat.add_zero]

theorem place_mod (row : Nat) (hx : x < stride) :
    (row * stride + x) % stride = x := by
  rw [Nat.mul_comm, Nat.mul_add_mod, Nat.mod_eq_of_lt hx]

theorem place_iff (row a : Nat) (hx : x < stride) :
    a = row * stride + x ↔ a / stride = row ∧ a % stride = x := by
  constructor
  · rintro rfl
    exact ⟨place_div row hx, place_mod row hx⟩
  · rintro ⟨rfl, rfl⟩
    rw [Nat.mul_comm]
    exact (Nat.div_add_mod a stride).symm

/-- A block is painted whole: four places of luma and one of each chroma. -/
theorem emitBlock_paints (pix : Nat → Nat → Rgb) (i : Nat) {j : Nat}
    (hj : j < p.dstWidth / 2) :
    Paints (pictureOf p pix) (fun place => blockOf p place = (i, j))
      (emitBlock p pix (2 * i) (2 * j)) := by
  have hy := p.strideY_ge
  have huv := p.strideUV_ge
  have heven : 2 * j + 1 < p.strideY := by omega
  have hleft : 2 * j < p.strideY := by omega
  have hchroma : j < p.strideUV := by omega
  have hrow : 2 * i / 2 = i := by omega
  have hcol : 2 * j / 2 = j := by omega
  have luma : ∀ (row : Nat) {x : Nat}, x < p.strideY →
      Paints (pictureOf p pix) (fun place => place = (.y, row * p.strideY + x)) fun planes =>
        Function.update planes (.y, row * p.strideY + x) (lumaOf (pix row x)) := by
    intro row x hx
    refine Paints.cell ?_
    show lumaOf (pix row x) = lumaOf (pix ((row * p.strideY + x) / p.strideY)
      ((row * p.strideY + x) % p.strideY))
    rw [place_div row hx, place_mod row hx]
  have cb : Paints (pictureOf p pix) (fun place => place = (.u, i * p.strideUV + j)) fun planes =>
      Function.update planes (.u, i * p.strideUV + j) (chromaCb (blockSum pix i j)) := by
    refine Paints.cell ?_
    show chromaCb (blockSum pix i j) = chromaCb (blockSum pix
      ((i * p.strideUV + j) / p.strideUV) ((i * p.strideUV + j) % p.strideUV))
    rw [place_div i hchroma, place_mod i hchroma]
  have cr : Paints (pictureOf p pix) (fun place => place = (.v, i * p.strideUV + j)) fun planes =>
      Function.update planes (.v, i * p.strideUV + j) (chromaCr (blockSum pix i j)) := by
    refine Paints.cell ?_
    show chromaCr (blockSum pix i j) = chromaCr (blockSum pix
      ((i * p.strideUV + j) / p.strideUV) ((i * p.strideUV + j) % p.strideUV))
    rw [place_div i hchroma, place_mod i hchroma]
  have hall := (((((luma (2 * i) hleft).comp (luma (2 * i) heven)).comp
    (luma (2 * i + 1) hleft)).comp (luma (2 * i + 1) heven)).comp cb).comp cr
  unfold emitBlock emit
  rw [hrow, hcol]
  refine hall.congr fun place => ?_
  rcases place with ⟨plane, a⟩
  cases plane with
  | y =>
    simp only [Prod.mk.injEq, true_and, reduceCtorEq, false_and, or_false, blockOf]
    rw [place_iff _ a hleft, place_iff _ a heven, place_iff _ a hleft, place_iff _ a heven]
    omega
  | u =>
    simp only [Prod.mk.injEq, true_and, reduceCtorEq, false_and, or_false, false_or, blockOf]
    exact place_iff i a hchroma
  | v =>
    simp only [Prod.mk.injEq, true_and, reduceCtorEq, false_and, false_or, blockOf]
    exact place_iff i a hchroma

variable {rowBegin rowEnd : Nat}

/-- Rows are painted whole, each block once. -/
theorem paintRows_paints (pix : Nat → Nat → Rgb)
    (hbegin : rowBegin % 2 = 0) (hend : rowEnd % 2 = 0) :
    Paints (pictureOf p pix)
      (fun place => rowBegin ≤ 2 * (blockOf p place).1 ∧ 2 * (blockOf p place).1 < rowEnd ∧
        (blockOf p place).2 < p.dstWidth / 2)
      (paintRows p pix rowBegin rowEnd) := by
  have heven := p.dstWidth_even
  have hrow : ∀ row ∈ byTwo rowBegin rowEnd, Paints (pictureOf p pix)
      (fun place => ∃ x ∈ byTwo 0 p.dstWidth, blockOf p place = (row / 2, x / 2)) fun planes =>
        (byTwo 0 p.dstWidth).foldl (fun planes x => emitBlock p pix row x planes) planes := by
    intro row hrow
    obtain ⟨i, -, rfl⟩ := mem_byTwo.1 hrow
    refine Paints.foldl fun x hx => ?_
    obtain ⟨j, hj, rfl⟩ := mem_byTwo.1 hx
    have hcell := emitBlock_paints p pix ((rowBegin + 2 * i) / 2) (j := j) (by omega)
    rw [show 2 * ((rowBegin + 2 * i) / 2) = rowBegin + 2 * i by omega,
      show 2 * j = 0 + 2 * j by omega] at hcell
    rwa [show (0 + 2 * j) / 2 = j by omega]
  refine (Paints.foldl hrow).congr fun place => ?_
  constructor
  · rintro ⟨row, hmem, x, hx, hblock⟩
    obtain ⟨i, hi, rfl⟩ := mem_byTwo.1 hmem
    obtain ⟨j, hj, rfl⟩ := mem_byTwo.1 hx
    rw [hblock]
    dsimp only
    omega
  · rintro ⟨hfirst, hlast, hcol⟩
    refine ⟨2 * (blockOf p place).1, mem_byTwo.2
      ⟨(blockOf p place).1 - rowBegin / 2, by omega, by omega⟩, 2 * (blockOf p place).2,
      mem_byTwo.2 ⟨(blockOf p place).2, by omega, by omega⟩, ?_⟩
    rw [show 2 * (blockOf p place).1 / 2 = (blockOf p place).1 by omega,
      show 2 * (blockOf p place).2 / 2 = (blockOf p place).2 by omega]

/-- The coordinate a row or column is sampled at: the first of a pair is kept from going
below nothing. -/
def coordOf (step k : Nat) : Int :=
  if k % 2 = 0 then (if centre step k < 0 then 0 else centre step k) else centre step k

def sampled (src : Nat → UInt8) (row col : Nat) : Rgb :=
  sampleWith p src (taps p.srcWidth (coordOf (stepX p) col))
    (taps p.srcHeight (coordOf (stepY p) row))

def converted (src : Nat → UInt8) : Nat → Nat → Rgb :=
  if p.srcWidth = p.dstWidth ∧ p.srcHeight = p.dstHeight then pixelAt p src else sampled p src

theorem centre_succ (step k : Nat) : centre step k + step = centre step (k + 1) := by
  unfold centre
  rw [Nat.succ_mul]
  omega

theorem centre_lt {size dst k : Nat} (hk : k < dst) :
    centre (size * 65536 / dst) k < size * 65536 := by
  have hstep : dst * (size * 65536 / dst) ≤ size * 65536 := Nat.mul_div_le _ _
  have hlast : (k + 1) * (size * 65536 / dst) ≤ dst * (size * 65536 / dst) :=
    Nat.mul_le_mul_right _ hk
  unfold centre
  generalize size * 65536 / dst = step at *
  rw [Nat.succ_mul] at hlast
  omega

theorem coordOf_lt {size dst k : Nat} (hsize : 0 < size) (hk : k < dst) :
    coordOf (size * 65536 / dst) k < size * 65536 := by
  have hlt : centre (size * 65536 / dst) k < size * 65536 := centre_lt hk
  unfold coordOf
  split_ifs <;> omega

theorem coordOf_even {step k : Nat} (hk : k % 2 = 0) :
    (if centre step k < 0 then 0 else centre step k) = coordOf step k := by
  unfold coordOf
  rw [if_pos hk]

theorem coordOf_odd {step k : Nat} (hk : k % 2 = 0) :
    centre step k + step = coordOf step (k + 1) := by
  unfold coordOf
  rw [if_neg (by omega), centre_succ]

variable {row col : Nat}

theorem sampleBilinear_coordOf (src : Nat → UInt8)
    (hrow : row < p.dstHeight) (hcol : col < p.dstWidth) :
    sampleBilinear p src (coordOf (stepX p) col) (coordOf (stepY p) row) =
      some (sampled p src row col) :=
  sampleBilinear_eq p src (coordOf_lt p.srcWidth_pos hcol) (coordOf_lt p.srcHeight_pos hrow)

theorem scaledRows_eq (src : Nat → UInt8)
    (hbegin : rowBegin % 2 = 0) (hend : rowEnd % 2 = 0) (hle : rowEnd ≤ p.dstHeight)
    (planes : Planes) :
    scaledRows p src rowBegin rowEnd planes =
      some (paintRows p (sampled p src) rowBegin rowEnd planes) := by
  have heven := p.dstWidth_even
  refine foldlM_eq_some (fun row hrow planes => ?_) planes
  obtain ⟨i, hi, rfl⟩ := mem_byTwo.1 hrow
  have hpair : (rowBegin + 2 * i) % 2 = 0 := by omega
  refine foldlM_eq_some (fun x hx planes => ?_) planes
  obtain ⟨j, hj, rfl⟩ := mem_byTwo.1 hx
  have hcols : (0 + 2 * j) % 2 = 0 := by omega
  dsimp only
  rw [coordOf_even hpair, coordOf_odd hpair, coordOf_even hcols, coordOf_odd hcols,
    sampleBilinear_coordOf p src (by omega) (by omega),
    sampleBilinear_coordOf p src (by omega) (by omega),
    sampleBilinear_coordOf p src (by omega) (by omega),
    sampleBilinear_coordOf p src (by omega) (by omega)]
  rfl

theorem oneToOneRows_eq (src : Nat → UInt8) (hwidth : p.srcWidth = p.dstWidth)
    (hheight : p.srcHeight = p.dstHeight) (hbegin : rowBegin % 2 = 0)
    (hend : rowEnd % 2 = 0) (hle : rowEnd ≤ p.dstHeight) (planes : Planes) :
    oneToOneRows p src rowBegin rowEnd planes =
      some (paintRows p (pixelAt p src) rowBegin rowEnd planes) := by
  have heven := p.dstWidth_even
  refine foldlM_eq_some (fun row hrow planes => ?_) planes
  obtain ⟨i, hi, rfl⟩ := mem_byTwo.1 hrow
  refine foldlM_eq_some (fun x hx planes => ?_) planes
  obtain ⟨j, hj, rfl⟩ := mem_byTwo.1 hx
  rw [loadPixel_eq p src (by omega) (by omega), loadPixel_eq p src (by omega) (by omega),
    loadPixel_eq p src (by omega) (by omega), loadPixel_eq p src (by omega) (by omega)]
  rfl

def lastRow (rowEnd : Nat) : Nat :=
  if rowEnd / 2 * 2 > p.dstHeight then p.dstHeight else rowEnd / 2 * 2

theorem lastRow_even (rowEnd : Nat) : lastRow p rowEnd % 2 = 0 := by
  have heven := p.dstHeight_even
  unfold lastRow
  split <;> omega

theorem lastRow_le (rowEnd : Nat) : lastRow p rowEnd ≤ p.dstHeight := by
  unfold lastRow
  split <;> omega

theorem bgraToI420Rows_eq (src : Nat → UInt8) (rowBegin rowEnd : Nat)
    (planes : Planes) :
    bgraToI420Rows p src rowBegin rowEnd planes =
      some (paintRows p (converted p src) (rowBegin / 2 * 2) (lastRow p rowEnd) planes) := by
  have hbegin : rowBegin / 2 * 2 % 2 = 0 := by omega
  have hend := lastRow_even p rowEnd
  have hle := lastRow_le p rowEnd
  unfold bgraToI420Rows converted
  by_cases hsame : p.srcWidth = p.dstWidth ∧ p.srcHeight = p.dstHeight
  · rw [if_pos hsame, if_pos hsame]
    exact oneToOneRows_eq p src hsame.1 hsame.2 hbegin hend hle planes
  · rw [if_neg hsame, if_neg hsame]
    exact scaledRows_eq p src hbegin hend hle planes

theorem centre_whole (k : Nat) : centre 65536 k = k * 65536 := by
  unfold centre
  omega

theorem coordOf_whole (k : Nat) : coordOf 65536 k = k * 65536 := by
  have hwhole := centre_whole k
  unfold coordOf
  split_ifs <;> omega

theorem taps_whole {size k : Nat} (hk : k < size) :
    (taps size (k * 65536)).first = k ∧ (taps size (k * 65536)).a = 0 := by
  have hdiv : (k * 65536 : Int) / 65536 = k := by omega
  have hmod : (k * 65536 : Int) % 65536 = 0 := by omega
  unfold taps
  rw [hdiv, hmod]
  refine ⟨?_, rfl⟩
  dsimp only
  split_ifs <;> omega

variable {tx ty : Taps}

theorem mix_first (hx : tx.a = 0) (hy : ty.a = 0) (p00 p10 p01 p11 : Nat) :
    mix tx ty p00 p10 p01 p11 = p00 := by
  unfold mix
  rw [hx, hy]
  dsimp only
  omega

theorem sampled_whole (src : Nat → UInt8) (hx : stepX p = 65536)
    (hy : stepY p = 65536) (hrow : row < p.srcHeight) (hcol : col < p.srcWidth) :
    sampled p src row col = pixelAt p src row col := by
  obtain ⟨hcol', ha⟩ := taps_whole hcol
  obtain ⟨hrow', hb⟩ := taps_whole hrow
  unfold sampled sampleWith
  rw [hx, hy, coordOf_whole, coordOf_whole]
  dsimp only
  rw [mix_first ha hb, mix_first ha hb, mix_first ha hb, hcol', hrow']

theorem step_whole {size dst : Nat} (hsame : size = dst) (hpos : 0 < dst) :
    size * 65536 / dst = 65536 := by
  rw [hsame, Nat.mul_div_cancel_left _ hpos]

/-- Two pictures that agree on the destination are painted alike. -/
theorem paintRows_congr {pix pix' : Nat → Nat → Rgb}
    (h : ∀ row < p.dstHeight, ∀ col < p.dstWidth, pix row col = pix' row col)
    (hbegin : rowBegin % 2 = 0) (hend : rowEnd % 2 = 0)
    (hle : rowEnd ≤ p.dstHeight) (planes : Planes) :
    paintRows p pix rowBegin rowEnd planes = paintRows p pix' rowBegin rowEnd planes := by
  have heven := p.dstWidth_even
  refine List.foldl_ext _ _ _ fun planes row hrow => ?_
  obtain ⟨i, hi, rfl⟩ := mem_byTwo.1 hrow
  refine List.foldl_ext _ _ _ fun planes x hx => ?_
  obtain ⟨j, hj, rfl⟩ := mem_byTwo.1 hx
  unfold emitBlock
  rw [h _ (by omega) _ (by omega), h _ (by omega) _ (by omega), h _ (by omega) _ (by omega),
    h _ (by omega) _ (by omega)]

theorem fast_path (src : Nat → UInt8) (hwidth : p.srcWidth = p.dstWidth)
    (hheight : p.srcHeight = p.dstHeight) (hbegin : rowBegin % 2 = 0)
    (hend : rowEnd % 2 = 0) (hle : rowEnd ≤ p.dstHeight) (planes : Planes) :
    oneToOneRows p src rowBegin rowEnd planes = scaledRows p src rowBegin rowEnd planes := by
  rw [oneToOneRows_eq p src hwidth hheight hbegin hend hle,
    scaledRows_eq p src hbegin hend hle]
  refine congrArg some (paintRows_congr p (fun row hrow col hcol => ?_) hbegin hend hle planes)
  exact (sampled_whole p src (step_whole hwidth p.dstWidth_pos)
    (step_whole hheight p.dstHeight_pos) (by omega) (by omega)).symm

/-- Even ranges of rows that together are the destination's. -/
structure Cut (p : Params) (ranges : List (Nat × Nat)) : Prop where
  even : ∀ range ∈ ranges, range.1 % 2 = 0 ∧ range.2 % 2 = 0
  covers : ∀ row < p.dstHeight, ∃ range ∈ ranges, range.1 ≤ row ∧ row < range.2

def convertRanges (src : Nat → UInt8) (ranges : List (Nat × Nat))
    (planes : Planes) : Option Planes :=
  ranges.foldlM (fun planes range => bgraToI420Rows p src range.1 range.2 planes) planes

/-- The rows of a cut, in whatever order, are the whole picture's. -/
theorem cuts_agree (src : Nat → UInt8) {ranges : List (Nat × Nat)}
    (hcut : Cut p ranges) (planes : Planes) :
    convertRanges p src ranges planes = bgraToI420Rows p src 0 p.dstHeight planes := by
  have hheight := p.dstHeight_even
  have hone : ∀ (first last : Nat), first % 2 = 0 → Paints (pictureOf p (converted p src))
      (fun place => first ≤ 2 * (blockOf p place).1 ∧ 2 * (blockOf p place).1 < lastRow p last ∧
        (blockOf p place).2 < p.dstWidth / 2)
      (paintRows p (converted p src) (first / 2 * 2) (lastRow p last)) := by
    intro first last heven
    rw [show first / 2 * 2 = first by omega]
    exact paintRows_paints p _ heven (lastRow_even p last)
  have hranges : Paints (pictureOf p (converted p src))
      (fun place => ∃ range ∈ ranges, range.1 ≤ 2 * (blockOf p place).1 ∧
        2 * (blockOf p place).1 < lastRow p range.2 ∧ (blockOf p place).2 < p.dstWidth / 2)
      (fun planes => ranges.foldl (fun planes range =>
        paintRows p (converted p src) (range.1 / 2 * 2) (lastRow p range.2) planes) planes) :=
    Paints.foldl fun range hrange => hone range.1 range.2 (hcut.even range hrange).1
  have hwhole := hone 0 p.dstHeight rfl
  unfold convertRanges
  rw [foldlM_eq_some (fun range _ planes => bgraToI420Rows_eq p src range.1 range.2 planes) planes,
    bgraToI420Rows_eq]
  refine congrArg some (congrFun (Paints.eq hranges (hwhole.congr fun place => ?_)) planes)
  have hlast : lastRow p p.dstHeight = p.dstHeight := by
    unfold lastRow
    split <;> omega
  rw [hlast]
  constructor
  · rintro ⟨-, hrow, hcol⟩
    obtain ⟨range, hrange, hfirst, hbefore⟩ := hcut.covers _ hrow
    have heven := hcut.even range hrange
    refine ⟨range, hrange, hfirst, ?_, hcol⟩
    unfold lastRow
    split <;> omega
  · rintro ⟨range, -, -, hrow, hcol⟩
    have hle := lastRow_le p range.2
    exact ⟨Nat.zero_le _, by omega, hcol⟩

variable {p : Params} {src : Nat → UInt8} {planes out : Planes}

/-- What the conversion leaves at each place of the picture. -/
theorem converted_at
    (h : bgraToI420Rows p src 0 p.dstHeight planes = some out) (place : Plane × Nat)
    (hrow : 2 * (blockOf p place).1 < p.dstHeight) (hcol : (blockOf p place).2 < p.dstWidth / 2) :
    out place = pictureOf p (converted p src) place := by
  have hheight := p.dstHeight_even
  have hlast : lastRow p p.dstHeight = p.dstHeight := by
    unfold lastRow
    split <;> omega
  rw [bgraToI420Rows_eq, hlast] at h
  obtain rfl := Option.some.inj h
  exact (paintRows_paints p _ rfl hheight planes place).1 ⟨Nat.zero_le _, hrow, hcol⟩

def SamplesReference (p : Params) : Prop :=
  ∀ src planes out, bgraToI420Rows p src 0 p.dstHeight planes = some out →
    (∀ row < p.dstHeight, ∀ col < p.dstWidth,
      out (.y, row * p.strideY + col) = lumaOf (reference p src row col)) ∧
    (∀ i < p.dstHeight / 2, ∀ j < p.dstWidth / 2,
      out (.u, i * p.strideUV + j) = chromaCb (blockSum (reference p src) i j) ∧
      out (.v, i * p.strideUV + j) = chromaCr (blockSum (reference p src) i j))

theorem luma_at (h : bgraToI420Rows p src 0 p.dstHeight planes = some out)
    (hrow : row < p.dstHeight) (hcol : col < p.dstWidth) :
    out (.y, row * p.strideY + col) = lumaOf (converted p src row col) := by
  have hwidth := p.dstWidth_even
  have hin : col < p.strideY := Nat.lt_of_lt_of_le hcol p.strideY_ge
  have hdiv : (row * p.strideY + col) / p.strideY = row := place_div row hin
  have hmod : (row * p.strideY + col) % p.strideY = col := place_mod row hin
  rw [converted_at h]
  · show lumaOf (converted p src _ _) = _
    rw [hdiv, hmod]
  · show 2 * ((row * p.strideY + col) / p.strideY / 2) < p.dstHeight
    rw [hdiv]
    omega
  · show (row * p.strideY + col) % p.strideY / 2 < p.dstWidth / 2
    rw [hmod]
    omega

theorem chroma_at (h : bgraToI420Rows p src 0 p.dstHeight planes = some out) {i j : Nat}
    (hi : i < p.dstHeight / 2) (hj : j < p.dstWidth / 2) :
    out (.u, i * p.strideUV + j) = chromaCb (blockSum (converted p src) i j) ∧
      out (.v, i * p.strideUV + j) = chromaCr (blockSum (converted p src) i j) := by
  have hin : j < p.strideUV := Nat.lt_of_lt_of_le hj p.strideUV_ge
  have hdiv : (i * p.strideUV + j) / p.strideUV = i := place_div i hin
  have hmod : (i * p.strideUV + j) % p.strideUV = j := place_mod i hin
  have hrow : 2 * ((i * p.strideUV + j) / p.strideUV) < p.dstHeight := by
    rw [hdiv]
    omega
  have hcol : (i * p.strideUV + j) % p.strideUV < p.dstWidth / 2 := by rwa [hmod]
  constructor
  · rw [converted_at h (.u, i * p.strideUV + j) hrow hcol]
    show chromaCb (blockSum (converted p src) _ _) = _
    rw [hdiv, hmod]
  · rw [converted_at h (.v, i * p.strideUV + j) hrow hcol]
    show chromaCr (blockSum (converted p src) _ _) = _
    rw [hdiv, hmod]

/-- Taps that weigh the same pixels the same: alike, or on one pixel twice. -/
def Taps.Same (t t' : Taps) : Prop :=
  t = t' ∨ (t.first = t'.first ∧ t.second = t.first ∧ t'.second = t'.first ∧ t.a < 256 ∧
    t'.a < 256)

/-- One pixel twice along a row: the way towards the second is of no weight. -/
theorem mix_across {tx : Taps} (h : tx.a < 256) (ty : Taps) (p0 p1 : Nat) :
    mix tx ty p0 p0 p1 p1 = (p0 * (256 * (256 - ty.a)) + p1 * (256 * ty.a) + 32768) / 65536 := by
  have hweight : 256 - tx.a + tx.a = 256 := by omega
  have hfirst : p0 * ((256 - tx.a) * (256 - ty.a)) + p0 * (tx.a * (256 - ty.a)) =
      p0 * (256 * (256 - ty.a)) := by
    rw [← Nat.mul_add, ← Nat.add_mul, hweight]
  have hsecond : p1 * ((256 - tx.a) * ty.a) + p1 * (tx.a * ty.a) = p1 * (256 * ty.a) := by
    rw [← Nat.mul_add, ← Nat.add_mul, hweight]
  unfold mix
  dsimp only
  rw [hfirst, Nat.add_assoc (p0 * _), hsecond]

/-- One pixel twice along a column. -/
theorem mix_down {ty : Taps} (h : ty.a < 256) (tx : Taps) (p0 p1 : Nat) :
    mix tx ty p0 p1 p0 p1 = (p0 * (256 * (256 - tx.a)) + p1 * (256 * tx.a) + 32768) / 65536 := by
  have hswap : mix tx ty p0 p1 p0 p1 = mix ty tx p0 p0 p1 p1 := by
    unfold mix
    dsimp only
    congr 2
    ring
  rw [hswap, mix_across h]

theorem sampleWith_same {tx tx' ty ty' : Taps}
    (hx : tx.Same tx') (hy : ty.Same ty') : sampleWith p src tx ty = sampleWith p src tx' ty' := by
  have across : sampleWith p src tx ty = sampleWith p src tx' ty := by
    rcases hx with rfl | ⟨hfirst, hsecond, hsecond', ha, ha'⟩
    · rfl
    · unfold sampleWith
      dsimp only
      rw [hsecond, hsecond', mix_across ha, mix_across ha, mix_across ha, mix_across ha',
        mix_across ha', mix_across ha', hfirst]
  have down : sampleWith p src tx' ty = sampleWith p src tx' ty' := by
    rcases hy with rfl | ⟨hfirst, hsecond, hsecond', ha, ha'⟩
    · rfl
    · unfold sampleWith
      dsimp only
      rw [hsecond, hsecond', mix_down ha, mix_down ha, mix_down ha, mix_down ha', mix_down ha',
        mix_down ha', hfirst]
  rw [across, down]

/-- A coordinate that is not negative is read as if clamped, and so is any in a picture of
one pixel. -/
theorem taps_same (hsize : 0 < size) {f : Int} (hf : f < size * 65536)
    (h : size = 1 ∨ 0 ≤ f) : (taps size f).Same (clampedTaps size f) := by
  have hmod := Int.emod_lt_of_pos f (show (0 : Int) < 65536 by decide)
  have hmod' := Int.emod_nonneg f (show (65536 : Int) ≠ 0 by decide)
  by_cases hinside : 0 ≤ f ∧ f ≤ (size - 1 : Nat) * 65536
  · have hclamp : max 0 (min f ((size - 1 : Nat) * 65536)) = f := by
      rw [min_eq_left hinside.2, max_eq_right hinside.1]
    refine Or.inl ?_
    unfold taps clampedTaps
    rw [hclamp]
    simp only [Taps.mk.injEq, and_true]
    constructor
    · split_ifs <;> omega
    · split_ifs <;> omega
  · -- Below, or past the last pixel's coordinate: both taps are the edge's pixel.
    refine Or.inr ?_
    unfold taps clampedTaps
    dsimp only
    refine ⟨?_, ?_, ?_, ?_, ?_⟩
    · split_ifs <;> omega
    · split_ifs <;> omega
    · omega
    · omega
    · omega

theorem clampedTaps_neg {f : Int} (hf : f < 0) :
    clampedTaps size f = clampedTaps size 0 := by
  have hclamp : max 0 (min f ((size - 1 : Nat) * 65536)) =
      max 0 (min (0 : Int) ((size - 1 : Nat) * 65536)) := by omega
  unfold clampedTaps
  rw [hclamp]

/-- The second of the first pair is sampled inside, or every pixel is the edge's. -/
def AxisSpread (size step : Nat) : Prop :=
  size = 1 ∨ 32768 ≤ step + step / 2

theorem coordOf_same {size dst k : Nat} (hsize : 0 < size) (hk : k < dst)
    (hspread : AxisSpread size (size * 65536 / dst)) :
    (taps size (coordOf (size * 65536 / dst) k)).Same
      (clampedTaps size (centre (size * 65536 / dst) k)) := by
  have hlt : centre (size * 65536 / dst) k < size * 65536 := centre_lt hk
  generalize size * 65536 / dst = step at *
  unfold coordOf
  split_ifs with heven hneg
  · rw [clampedTaps_neg hneg]
    exact taps_same hsize (by omega) (Or.inr (Int.le_refl 0))
  · exact taps_same hsize hlt (Or.inr (by omega))
  · refine taps_same hsize hlt (hspread.imp id fun hstep => ?_)
    have hmul : step ≤ k * step := Nat.le_mul_of_pos_left step (by omega)
    unfold centre
    omega

/-- Neither axis of more than one pixel is spread so far that the second sample of the first
pair falls before it. -/
def Spread (p : Params) : Prop :=
  AxisSpread p.srcWidth (stepX p) ∧ AxisSpread p.srcHeight (stepY p)

theorem converted_eq_sampled (p : Params) (src : Nat → UInt8)
    (hrow : row < p.dstHeight) (hcol : col < p.dstWidth) :
    converted p src row col = sampled p src row col := by
  unfold converted
  split_ifs with hsame
  · exact (sampled_whole p src (step_whole hsame.1 p.dstWidth_pos)
      (step_whole hsame.2 p.dstHeight_pos) (by omega) (by omega)).symm
  · rfl

theorem converted_eq_reference (hspread : Spread p) (src : Nat → UInt8)
    (hrow : row < p.dstHeight) (hcol : col < p.dstWidth) :
    converted p src row col = reference p src row col := by
  rw [converted_eq_sampled p src hrow hcol]
  exact sampleWith_same (coordOf_same p.srcWidth_pos hcol hspread.1)
    (coordOf_same p.srcHeight_pos hrow hspread.2)

theorem samples_of_spread (hspread : Spread p) : SamplesReference p := by
  intro src planes out hout
  constructor
  · intro row hrow col hcol
    rw [luma_at hout hrow hcol, converted_eq_reference hspread src hrow hcol]
  · intro i hi j hj
    have hblock : blockSum (converted p src) i j = blockSum (reference p src) i j := by
      unfold blockSum
      rw [converted_eq_reference hspread src (by omega) (by omega),
        converted_eq_reference hspread src (by omega) (by omega),
        converted_eq_reference hspread src (by omega) (by omega),
        converted_eq_reference hspread src (by omega) (by omega)]
    rw [← hblock]
    exact chroma_at hout hi hj

def painted (p : Params) (grey : Nat → Nat → UInt8) (a : Nat) : UInt8 :=
  grey (a / p.srcPitch) (a % p.srcPitch / 4)

def greyOf (v : Nat) : Rgb :=
  ⟨v, v, v⟩

theorem pixelAt_painted (p : Params) (grey : Nat → Nat → UInt8) (row : Nat) {x : Nat}
    (hx : x < p.srcWidth) : pixelAt p (painted p grey) row x = greyOf (grey row x).toNat := by
  have hpitch := p.srcPitch_ge
  have hred := redAt_le p
  have hbyte : ∀ {offset : Nat}, offset ≤ 3 →
      byteAt p (painted p grey) offset row x = (grey row x).toNat := by
    intro offset hoffset
    have hin : x * 4 + offset < p.srcPitch := by omega
    unfold byteAt painted
    rw [Nat.add_assoc, place_div row hin, place_mod row hin,
      show (x * 4 + offset) / 4 = x by omega]
  unfold pixelAt greyOf
  rw [hbyte (by omega), hbyte (by omega), hbyte (by omega)]

/-- Between two greys, `a` 256ths of the way. -/
def between (u v : UInt8) (a : Nat) : Nat :=
  (u.toNat * (256 * (256 - a)) + v.toNat * (256 * a) + 32768) / 65536

theorem sampleWith_columns (p : Params) (grey : Nat → UInt8)
    (hfirst : tx.first < p.srcWidth) (hsecond : tx.second < p.srcWidth) (hy : ty.a < 256) :
    sampleWith p (painted p fun _ x => grey x) tx ty =
      greyOf (between (grey tx.first) (grey tx.second) tx.a) := by
  unfold sampleWith
  dsimp only
  rw [pixelAt_painted p _ _ hfirst, pixelAt_painted p _ _ hfirst, pixelAt_painted p _ _ hsecond,
    pixelAt_painted p _ _ hsecond]
  unfold greyOf
  dsimp only
  rw [mix_down hy]
  rfl

theorem sampleWith_rows (p : Params) (grey : Nat → UInt8)
    (hfirst : tx.first < p.srcWidth) (hsecond : tx.second < p.srcWidth) (hx : tx.a < 256) :
    sampleWith p (painted p fun row _ => grey row) tx ty =
      greyOf (between (grey ty.first) (grey ty.second) ty.a) := by
  unfold sampleWith
  dsimp only
  rw [pixelAt_painted p _ _ hfirst, pixelAt_painted p _ _ hfirst, pixelAt_painted p _ _ hsecond,
    pixelAt_painted p _ _ hsecond]
  unfold greyOf
  dsimp only
  rw [mix_across hx]
  rfl

def edge (k : Nat) : UInt8 :=
  if k = 0 then 0 else 255

/-- On a spread axis the second sample of the first pair leans on the second pixel, where
the reference has the first alone. -/
theorem between_spread {size dst : Nat} (hwide : 1 < size)
    (hstep : size * 65536 / dst + size * 65536 / dst / 2 < 32768) :
    let t := taps size (coordOf (size * 65536 / dst) 1)
    let t' := clampedTaps size (centre (size * 65536 / dst) 1)
    lumaOf (greyOf (between (edge t.first) (edge t.second) t.a)) ≠
      lumaOf (greyOf (between (edge t'.first) (edge t'.second) t'.a)) := by
  generalize size * 65536 / dst = step at *
  have hodd : coordOf step 1 = centre step 1 := if_neg (by decide)
  have hneg : centre step 1 < 0 := by
    unfold centre
    omega
  have hclose : -32768 ≤ centre step 1 := by
    unfold centre
    omega
  have hfirst : (taps size (centre step 1)).first = 0 := by
    unfold taps
    dsimp only
    split_ifs <;> omega
  have hsecond : (taps size (centre step 1)).second = 1 := by
    unfold taps
    dsimp only
    split_ifs <;> omega
  have hlow : 128 ≤ (taps size (centre step 1)).a := by
    unfold taps
    dsimp only
    omega
  have hhigh : (taps size (centre step 1)).a < 256 := by
    unfold taps
    dsimp only
    omega
  have hclamped : clampedTaps size (centre step 1) = ⟨0, 1, 0⟩ := by
    have hzero : max 0 (min (0 : Int) ((size - 1 : Nat) * 65536)) = 0 := by omega
    rw [clampedTaps_neg hneg]
    unfold clampedTaps
    rw [hzero]
    simp only [Taps.mk.injEq]
    omega
  have hwhite : ∀ a : Fin 256, 128 ≤ a.val →
      lumaOf (greyOf (between (edge 0) (edge 1) a.val)) ≠
        lumaOf (greyOf (between (edge 0) (edge 1) 0)) := by
    decide +kernel
  dsimp only
  rw [hodd, hfirst, hsecond, hclamped]
  exact hwhite ⟨_, hhigh⟩ hlow

theorem clampedTaps_inside (hsize : 0 < size) (f : Int) :
    (clampedTaps size f).Inside size := by
  unfold clampedTaps Taps.Inside
  dsimp only
  omega

theorem luma_of_samples (h : SamplesReference p) (src : Nat → UInt8)
    (hrow : row < p.dstHeight) (hcol : col < p.dstWidth) :
    lumaOf (sampled p src row col) = lumaOf (reference p src row col) := by
  have hout := bgraToI420Rows_eq p src 0 p.dstHeight fun _ => 0
  rw [← (h src _ _ hout).1 row hrow col hcol, luma_at hout hrow hcol,
    converted_eq_sampled p src hrow hcol]

theorem spread_of_samples (h : SamplesReference p) : Spread p := by
  have hwidth := p.dstWidth_pos
  have hwidth' := p.dstWidth_even
  have hheight := p.dstHeight_pos
  have hheight' := p.dstHeight_even
  have hcol : ∀ col < p.dstWidth,
      (taps p.srcWidth (coordOf (stepX p) col)).Inside p.srcWidth :=
    fun col hcol => taps_inside p.srcWidth_pos (coordOf_lt p.srcWidth_pos hcol)
  have hrow : ∀ row < p.dstHeight,
      (taps p.srcHeight (coordOf (stepY p) row)).Inside p.srcHeight :=
    fun row hrow => taps_inside p.srcHeight_pos (coordOf_lt p.srcHeight_pos hrow)
  have hcol' := fun f => clampedTaps_inside p.srcWidth_pos f
  have hrow' := fun f => clampedTaps_inside p.srcHeight_pos f
  constructor
  · by_contra hnone
    unfold AxisSpread at hnone
    have hpos := p.srcWidth_pos
    have heq := luma_of_samples h (painted p fun _ x => edge x) hheight
      (show 1 < p.dstWidth by omega)
    unfold sampled reference at heq
    rw [sampleWith_columns p edge (hcol 1 (by omega)).1 (hcol 1 (by omega)).2.1
      (hrow 0 hheight).2.2, sampleWith_columns p edge (hcol' _).1 (hcol' _).2.1 (hrow' _).2.2]
      at heq
    exact between_spread (by omega) (by unfold stepX at hnone; omega) heq
  · by_contra hnone
    unfold AxisSpread at hnone
    have hpos := p.srcHeight_pos
    have heq := luma_of_samples h (painted p fun row _ => edge row)
      (show 1 < p.dstHeight by omega) hwidth
    unfold sampled reference at heq
    rw [sampleWith_rows p edge (hcol 0 hwidth).1 (hcol 0 hwidth).2.1 (hcol 0 hwidth).2.2,
      sampleWith_rows p edge (hcol' _).1 (hcol' _).2.1 (hcol' _).2.2] at heq
    exact between_spread (by omega) (by unfold stepY at hnone; omega) heq

/-- What the conversion is for: no read outside the picture, the same bytes however the rows
are cut, the fast path the scaled path at ratio one, and every sample the reference's. -/
structure Converts (p : Params) : Prop where
  inside : ∀ src rowBegin rowEnd planes,
    (bgraToI420Rows p src rowBegin rowEnd planes).isSome
  cuts : ∀ src ranges planes, Cut p ranges →
    convertRanges p src ranges planes = bgraToI420Rows p src 0 p.dstHeight planes
  fast : p.srcWidth = p.dstWidth → p.srcHeight = p.dstHeight →
    ∀ src rowBegin rowEnd planes, rowBegin % 2 = 0 → rowEnd % 2 = 0 → rowEnd ≤ p.dstHeight →
      oneToOneRows p src rowBegin rowEnd planes = scaledRows p src rowBegin rowEnd planes
  samples : SamplesReference p

def twoOverSix : Params where
  srcPitch := 8
  srcWidth := 2
  srcHeight := 2
  rgbOrder := false
  dstWidth := 6
  dstHeight := 2
  strideY := 6
  strideUV := 3
  srcWidth_pos := by decide
  srcHeight_pos := by decide
  srcPitch_ge := by decide
  dstWidth_pos := by decide
  dstHeight_pos := by decide
  dstWidth_even := by decide
  dstHeight_even := by decide
  strideY_ge := by decide
  strideUV_ge := by decide

end MoonlightWeb.NativeHost.BgraToI420
