import MoonlightWeb.Lib.Patches

/-! # A pointer blended into a picture

The pointer's footprint is saved from every plane of a 4:2:0 picture, the pointer is drawn,
and the footprint is put back. Luma is addressed by pixels and chroma by pairs of them, one
sample of each or one interleaved pair, of one byte or of two.
-/

namespace MoonlightWeb.NativeHost.CursorBlend

open Lib.Patches

universe u

/-- The arithmetic of `float`. -/
structure Floats (F : Type u) where
  ofInt : Int → F
  half : F
  quarter : F
  add : F → F → F
  sub : F → F → F
  mul : F → F → F
  div : F → F → F
  floor : F → Int
  ceil : F → Int
  /-- `static_cast<int>` -/
  trunc : F → Int
  /-- `x <= 0.0f` -/
  nonpos : F → Bool
  /-- `x > 0.0f` -/
  pos : F → Bool

structure PreparedCursor (F : Type u) where
  width : Int
  height : Int
  inkWidth : Int
  inkHeight : Int
  luma : List F
  cb : List F
  cr : List F
  alpha : List F

variable {F : Type u}

def PreparedCursor.empty (cursor : PreparedCursor F) : Bool :=
  cursor.width ≤ 0 || cursor.height ≤ 0 || cursor.inkWidth ≤ 0

/-- A picture in memory: NV12 or, of two bytes, P010 without `v`, I420 with it. -/
structure PlaneViews where
  y : Nat
  yStride : Nat
  uv : Nat
  uvStride : Nat
  v : Option Nat
  vStride : Nat
  width : Nat
  height : Nat
  tenBit : Bool
  evenWidth : width % 2 = 0
  evenHeight : height % 2 = 0

variable (planes : PlaneViews)

def PlaneViews.planarChroma : Bool :=
  planes.v.isSome

/-- Bytes of a code. -/
def PlaneViews.bpp : Nat :=
  if planes.tenBit then 2 else 1

structure CursorPlacement (F : Type u) where
  x : F
  y : F
  scale : F

structure BlendRect where
  x : Nat := 0
  y : Nat := 0
  width : Nat := 0
  height : Nat := 0
deriving DecidableEq, Repr

def BlendRect.empty (rect : BlendRect) : Bool :=
  rect.width = 0 || rect.height = 0

structure PlanePatch where
  rect : BlendRect
  y : List UInt8
  uv : List UInt8
  v : List UInt8

variable (fl : Floats F)

def sampleBilinear (plane : List F) (width height : Int) (sx sy : F) : F :=
  let sx := fl.sub sx fl.half
  let sy := fl.sub sy fl.half
  let x0 := fl.floor sx
  let y0 := fl.floor sy
  let fx := fl.sub sx (fl.ofInt x0)
  let fy := fl.sub sy (fl.ofInt y0)
  let sampleAt := fun x y : Int =>
    if x < 0 ∨ y < 0 ∨ x ≥ width ∨ y ≥ height then fl.ofInt 0
    else plane.getD (y * width + x).toNat (fl.ofInt 0)
  let one := fl.ofInt 1
  let top := fl.add (fl.mul (sampleAt x0 y0) (fl.sub one fx)) (fl.mul (sampleAt (x0 + 1) y0) fx)
  let bottom := fl.add (fl.mul (sampleAt x0 (y0 + 1)) (fl.sub one fx))
    (fl.mul (sampleAt (x0 + 1) (y0 + 1)) fx)
  fl.add (fl.mul top (fl.sub one fy)) (fl.mul bottom fy)

/-- The coverage and the contributions at a pixel of the footprint. -/
structure Sampled (F : Type u) where
  a : F
  yl : F
  cb : F
  cr : F

def sampled (cursor : PreparedCursor F) (placement : CursorPlacement F)
    (rect : BlendRect) (row col : Nat) : Sampled F :=
  let inv := fl.div (fl.ofInt 1) placement.scale
  let px := fl.add (fl.ofInt (rect.x + col : Nat)) fl.half
  let py := fl.add (fl.ofInt (rect.y + row : Nat)) fl.half
  let sx := fl.mul (fl.sub px placement.x) inv
  let sy := fl.mul (fl.sub py placement.y) inv
  let a := sampleBilinear fl cursor.alpha cursor.width cursor.height sx sy
  if fl.nonpos a then
    ⟨fl.ofInt 0, fl.ofInt 0, fl.ofInt 0, fl.ofInt 0⟩
  else
    ⟨a, sampleBilinear fl cursor.luma cursor.width cursor.height sx sy,
      sampleBilinear fl cursor.cb cursor.width cursor.height sx sy,
      sampleBilinear fl cursor.cr cursor.width cursor.height sx sy⟩

/-- The code of sample `x` of a row. -/
def readCode (m : Memory UInt8) (row x : Nat) : Nat :=
  if planes.tenBit then
    ((m (row + x * 2)).toNat + 256 * (m (row + x * 2 + 1)).toNat) / 64
  else
    (m (row + x)).toNat

def writeCode (planes : PlaneViews) (m : Memory UInt8) (row x : Nat) (value : F)
    (lo hi : Int) : Memory UInt8 :=
  let code := fl.trunc (fl.add value fl.half)
  let code := if code < lo then lo else code
  let code := if code > hi then hi else code
  if planes.tenBit then
    let w := code.toNat * 64
    memcpy m (row + x * 2) [UInt8.ofNat w, UInt8.ofNat (w / 256)]
  else
    memcpy m (row + x) [UInt8.ofNat code.toNat]

/-- `x & ~1` -/
def evenDown (x : Int) : Int :=
  x / 2 * 2

def blendFootprint (cursor : PreparedCursor F) (placement : CursorPlacement F)
    (planes : PlaneViews) : BlendRect :=
  if cursor.empty || !fl.pos placement.scale then
    {}
  else
    let x0 := evenDown (fl.floor placement.x)
    let y0 := evenDown (fl.floor placement.y)
    let x1 := evenDown
      (fl.ceil (fl.add placement.x (fl.mul (fl.ofInt cursor.inkWidth) placement.scale)) + 1)
    let y1 := evenDown
      (fl.ceil (fl.add placement.y (fl.mul (fl.ofInt cursor.inkHeight) placement.scale)) + 1)
    let x0 := if x0 < 0 then 0 else x0
    let y0 := if y0 < 0 then 0 else y0
    let x1 := if x1 > planes.width then (planes.width : Int) else x1
    let y1 := if y1 > planes.height then (planes.height : Int) else y1
    if x1 ≤ x0 ∨ y1 ≤ y0 then {}
    else ⟨x0.toNat, y0.toNat, (x1 - x0).toNat, (y1 - y0).toNat⟩

/-- The luma of a rectangle: `yStride` bytes from row to row, from `rect.x * bpp` on. -/
def lumaBlock (rect : BlendRect) : Block where
  base := planes.y + rect.y * planes.yStride + rect.x * planes.bpp
  stride := planes.yStride
  cells := rect.width * planes.bpp
  rows := rect.height

/-- The chroma of a rectangle in the plane at `plane`: as wide as the luma when interleaved,
half that when planar. -/
def chromaBlock (rect : BlendRect) (plane stride : Nat) : Block where
  base := plane + rect.y / 2 * stride +
    (if planes.planarChroma then rect.x / 2 else rect.x) * planes.bpp
  stride := stride
  cells := (if planes.planarChroma then rect.width / 2 else rect.width) * planes.bpp
  rows := rect.height / 2

def savePatch (rect : BlendRect) (m : Memory UInt8) : PlanePatch :=
  if rect.empty then
    ⟨rect, [], [], []⟩
  else
    { rect := rect
      y := save m (lumaBlock planes rect)
      uv := save m (chromaBlock planes rect planes.uv planes.uvStride)
      v := match planes.v with
        | none => []
        | some v => save m (chromaBlock planes rect v planes.vStride) }

def restorePatch (patch : PlanePatch) (m : Memory UInt8) : Memory UInt8 :=
  let rect := patch.rect
  if rect.empty ∨ rect.x + rect.width > planes.width ∨ rect.y + rect.height > planes.height then
    m
  else
    let m := restore m (lumaBlock planes rect) patch.y
    let m := restore m (chromaBlock planes rect planes.uv planes.uvStride) patch.uv
    match planes.v with
    | none => m
    | some v =>
        let block := chromaBlock planes rect v planes.vStride
        if patch.v.length ≠ block.cells * block.rows then m else restore m block patch.v

/-- A code of the picture under a coverage. -/
def blended (dst : Nat) (a contribution : F) : F :=
  fl.add (fl.mul (fl.ofInt dst) (fl.sub (fl.ofInt 1) a)) contribution

def blendLuma (planes : PlaneViews) (rect : BlendRect)
    (cover : Nat → Nat → Sampled F) (row : Nat) (m : Memory UInt8) (col : Nat) : Memory UInt8 :=
  let line := planes.y + (rect.y + row) * planes.yStride
  let s := cover row col
  if fl.nonpos s.a then
    m
  else
    let dst := readCode planes m line (rect.x + col)
    writeCode fl planes m line (rect.x + col) (blended fl dst s.a s.yl)
      (if planes.tenBit then 64 else 16) (if planes.tenBit then 940 else 235)

def mean (value : Nat → Nat → F) (row col : Nat) : F :=
  let sum := fl.add (fl.add (fl.add (fl.add (fl.ofInt 0) (value row col)) (value row (col + 1)))
    (value (row + 1) col)) (value (row + 1) (col + 1))
  fl.mul sum fl.quarter

def blendChroma (planes : PlaneViews) (rect : BlendRect)
    (cover : Nat → Nat → Sampled F) (row : Nat) (m : Memory UInt8) (col : Nat) : Memory UInt8 :=
  let chromaRow := (rect.y + row) / 2
  let cbLine := planes.uv + chromaRow * planes.uvStride
  let crLine := match planes.v with
    | some v => v + chromaRow * planes.vStride
    | none => cbLine
  let ma := mean fl (fun r c => (cover r c).a) row col
  if fl.nonpos ma then
    m
  else
    let mcb := mean fl (fun r c => (cover r c).cb) row col
    let mcr := mean fl (fun r c => (cover r c).cr) row col
    let cbIndex := if planes.planarChroma then (rect.x + col) / 2 else rect.x + col
    let crIndex := if planes.planarChroma then cbIndex else cbIndex + 1
    let dcb := readCode planes m cbLine cbIndex
    let dcr := readCode planes m crLine crIndex
    let lo := if planes.tenBit then 64 else 16
    let hi := if planes.tenBit then 960 else 240
    let m := writeCode fl planes m cbLine cbIndex (blended fl dcb ma mcb) lo hi
    writeCode fl planes m crLine crIndex (blended fl dcr ma mcr) lo hi

def evens (n : Nat) : List Nat :=
  (List.range ((n + 1) / 2)).map (2 * ·)

def blendCursor (cursor : PreparedCursor F) (placement : CursorPlacement F)
    (planes : PlaneViews) (m : Memory UInt8) : BlendRect × Memory UInt8 :=
  let rect := blendFootprint fl cursor placement planes
  if rect.empty then
    (rect, m)
  else
    let cover := sampled fl cursor placement rect
    let m := (List.range rect.height).foldl
      (fun m row => (List.range rect.width).foldl (blendLuma fl planes rect cover row) m) m
    let m := (evens rect.height).foldl
      (fun m row => (evens rect.width).foldl (blendChroma fl planes rect cover row) m) m
    (rect, m)

def Saved (rect : BlendRect) (a : Nat) : Prop :=
  (lumaBlock planes rect).Has a ∨ (chromaBlock planes rect planes.uv planes.uvStride).Has a ∨
    ∃ v, planes.v = some v ∧ (chromaBlock planes rect v planes.vStride).Has a

/-- A rectangle of whole chroma samples inside the picture. -/
structure Aligned (planes : PlaneViews) (rect : BlendRect) : Prop where
  x : rect.x % 2 = 0
  y : rect.y % 2 = 0
  width : rect.width % 2 = 0
  height : rect.height % 2 = 0
  right : rect.x + rect.width ≤ planes.width
  bottom : rect.y + rect.height ≤ planes.height

theorem blendFootprint_aligned (cursor : PreparedCursor F)
    (placement : CursorPlacement F) (planes : PlaneViews) :
    Aligned planes (blendFootprint fl cursor placement planes) := by
  have hwidth := planes.evenWidth
  have hheight := planes.evenHeight
  unfold blendFootprint
  split
  case isTrue => exact ⟨rfl, rfl, rfl, rfl, Nat.zero_le _, Nat.zero_le _⟩
  case isFalse =>
      dsimp only
      unfold evenDown
      generalize fl.floor placement.x = x0
      generalize fl.floor placement.y = y0
      generalize fl.ceil (fl.add placement.x (fl.mul (fl.ofInt cursor.inkWidth)
        placement.scale)) = x1
      generalize fl.ceil (fl.add placement.y (fl.mul (fl.ofInt cursor.inkHeight)
        placement.scale)) = y1
      have hleft : ∀ x : Int, ∃ n : Nat, (if x / 2 * 2 < 0 then 0 else x / 2 * 2) = 2 * (n : Int) := by
        intro x
        split
        · exact ⟨0, rfl⟩
        · exact ⟨(x / 2).toNat, by omega⟩
      have hright : ∀ (x : Int) (w : Nat), w % 2 = 0 →
          ∃ k : Int, (if x / 2 * 2 > (w : Int) then (w : Int) else x / 2 * 2) = 2 * k ∧
            2 * k ≤ w := by
        intro x w hw
        split
        · exact ⟨(w / 2 : Nat), by omega, by omega⟩
        · exact ⟨x / 2, by omega, by omega⟩
      obtain ⟨l, hl⟩ := hleft x0
      obtain ⟨t, ht⟩ := hleft y0
      obtain ⟨r, hr, hr'⟩ := hright (x1 + 1) planes.width hwidth
      obtain ⟨b, hb, hb'⟩ := hright (y1 + 1) planes.height hheight
      rw [hl, ht, hr, hb]
      split
      case isTrue => exact ⟨rfl, rfl, rfl, rfl, Nat.zero_le _, Nat.zero_le _⟩
      case isFalse hsome => constructor <;> dsimp only <;> omega

theorem writeCode_within (planes : PlaneViews) {cells : Nat → Prop}
    (m : Memory UInt8) {row x : Nat} (value : F) (lo hi : Int)
    (h : ∀ i < planes.bpp, cells (row + x * planes.bpp + i)) :
    Within cells m (writeCode fl planes m row x value lo hi) := by
  unfold PlaneViews.bpp at h
  unfold writeCode
  dsimp only
  split
  case isTrue hten =>
      rw [if_pos hten] at h
      exact Within.memcpy m h
  case isFalse hten =>
      rw [if_neg hten, Nat.mul_one] at h
      exact Within.memcpy m h

theorem code_lt {n width bpp i : Nat} (hn : n < width) (hi : i < bpp) :
    n * bpp + i < width * bpp := by
  calc n * bpp + i < n * bpp + bpp := by omega
    _ = (n + 1) * bpp := by ring
    _ ≤ width * bpp := Nat.mul_le_mul_right bpp hn

/-- A pixel of the footprint is saved. -/
theorem lumaBlock_has (rect : BlendRect) {row col i : Nat}
    (hrow : row < rect.height) (hcol : col < rect.width) (hi : i < planes.bpp) :
    (lumaBlock planes rect).Has
      (planes.y + (rect.y + row) * planes.yStride + (rect.x + col) * planes.bpp + i) := by
  refine ⟨row, hrow, col * planes.bpp + i, code_lt hcol hi, ?_⟩
  unfold Block.cell lumaBlock
  ring

theorem blendLuma_within (planes : PlaneViews) (rect : BlendRect)
    (cover : Nat → Nat → Sampled F) {row col : Nat} (hrow : row < rect.height)
    (hcol : col < rect.width) (m : Memory UInt8) :
    Within (Saved planes rect) m (blendLuma fl planes rect cover row m col) := by
  unfold blendLuma
  dsimp only
  split
  case isTrue => exact Within.refl _ m
  case isFalse =>
      exact writeCode_within fl planes m _ _ _ fun i hi =>
        Or.inl (lumaBlock_has planes rect hrow hcol hi)

variable {planes : PlaneViews} {rect : BlendRect}

/-- A code of the footprint's chroma is saved: of an interleaved pair, or of a plane. -/
theorem chromaBlock_has (hr : Aligned planes rect)
    (plane stride : Nat) {row n i : Nat} (hrow : row < rect.height) (heven : row % 2 = 0)
    (hn : n < if planes.planarChroma then rect.width / 2 else rect.width) (hi : i < planes.bpp) :
    (chromaBlock planes rect plane stride).Has (plane + (rect.y + row) / 2 * stride +
        ((if planes.planarChroma then rect.x / 2 else rect.x) + n) * planes.bpp + i) := by
  have hy := hr.y
  have hheight := hr.height
  have hhalf : (rect.y + row) / 2 = rect.y / 2 + row / 2 := by omega
  refine ⟨row / 2, ?_, n * planes.bpp + i, code_lt hn hi, ?_⟩
  · show row / 2 < rect.height / 2
    omega
  · unfold Block.cell chromaBlock
    rw [hhalf]
    ring

theorem blendChroma_within
    (hr : Aligned planes rect) (cover : Nat → Nat → Sampled F) {row col : Nat}
    (hrow : row < rect.height) (hrow' : row % 2 = 0) (hcol : col < rect.width)
    (hcol' : col % 2 = 0) (m : Memory UInt8) :
    Within (Saved planes rect) m (blendChroma fl planes rect cover row m col) := by
  have hx := hr.x
  have hwidth := hr.width
  unfold blendChroma
  dsimp only
  split
  case isTrue => exact Within.refl _ m
  case isFalse =>
      cases hv : planes.v with
      | none =>
        have hplanar : planes.planarChroma = false := by simp [PlaneViews.planarChroma, hv]
        have hsaved : ∀ n < rect.width, ∀ i < planes.bpp, Saved planes rect
            (planes.uv + (rect.y + row) / 2 * planes.uvStride + (rect.x + n) * planes.bpp + i) := by
          intro n hn i hi
          have hhas := chromaBlock_has hr planes.uv planes.uvStride (n := n) hrow hrow'
            (by simpa [hplanar] using hn) hi
          simp only [hplanar, Bool.false_eq_true, if_false] at hhas
          exact Or.inr (Or.inl hhas)
        simp only [hplanar, Bool.false_eq_true, if_false]
        refine (writeCode_within fl planes m _ _ _ fun i hi => hsaved col hcol i hi).trans
          (writeCode_within fl planes _ _ _ _ fun i hi => ?_)
        rw [Nat.add_assoc rect.x]
        exact hsaved (col + 1) (by omega) i hi
      | some v =>
        have hplanar : planes.planarChroma = true := by simp [PlaneViews.planarChroma, hv]
        have hindex : (rect.x + col) / 2 = rect.x / 2 + col / 2 := by omega
        have hhas : ∀ plane stride, ∀ i < planes.bpp,
            (chromaBlock planes rect plane stride).Has
              (plane + (rect.y + row) / 2 * stride +
                (rect.x / 2 + col / 2) * planes.bpp + i) := by
          intro plane stride i hi
          have hhas := chromaBlock_has hr plane stride (n := col / 2) hrow hrow'
            (by simp only [hplanar, if_true]; omega) hi
          simpa only [hplanar, if_true] using hhas
        simp only [hplanar, if_true, hindex]
        exact (writeCode_within fl planes m _ _ _ fun i hi =>
            Or.inr (Or.inl (hhas _ _ i hi))).trans
          (writeCode_within fl planes _ _ _ _ fun i hi =>
            Or.inr (Or.inr ⟨v, hv, hhas _ _ i hi⟩))

theorem mem_evens {n k : Nat} (h : k ∈ evens n) (heven : n % 2 = 0) : k < n ∧ k % 2 = 0 := by
  obtain ⟨j, hj, rfl⟩ := List.mem_map.mp h
  have := List.mem_range.mp hj
  omega

theorem blendCursor_within (cursor : PreparedCursor F)
    (placement : CursorPlacement F) (planes : PlaneViews) (m : Memory UInt8) :
    Within (Saved planes (blendFootprint fl cursor placement planes)) m
      (blendCursor fl cursor placement planes m).2 := by
  have hr := blendFootprint_aligned fl cursor placement planes
  unfold blendCursor
  dsimp only
  generalize blendFootprint fl cursor placement planes = rect at hr ⊢
  split
  case isTrue => exact Within.refl _ m
  case isFalse =>
      dsimp only
      refine (Within.foldl (fun row hrow m => ?_) m).trans (Within.foldl (fun row hrow m => ?_) _)
      · refine Within.foldl (fun col hcol m => ?_) m
        exact blendLuma_within fl planes rect _ (List.mem_range.mp hrow)
          (List.mem_range.mp hcol) m
      · refine Within.foldl (fun col hcol m => ?_) m
        obtain ⟨hrow', heven⟩ := mem_evens hrow hr.height
        obtain ⟨hcol', heven'⟩ := mem_evens hcol hr.width
        exact blendChroma_within fl hr _ hrow' heven hcol' heven' m

theorem not_saved_of_empty (h : rect.empty = true) (a : Nat) : ¬ Saved planes rect a := by
  have hempty : rect.width = 0 ∨ rect.height = 0 := by
    simpa [BlendRect.empty] using h
  have hnone : ∀ b : Block, b.cells = 0 ∨ b.rows = 0 → ¬ b.Has a := by
    rintro b hb ⟨row, hrow, i, hi, -⟩
    omega
  have hchroma : ∀ plane stride, ¬ (chromaBlock planes rect plane stride).Has a := by
    intro plane stride
    refine hnone _ ?_
    rcases hempty with hw | hh
    · left
      simp [chromaBlock, hw]
    · right
      simp [chromaBlock, hh]
  rintro (hluma | huv | ⟨v, -, hv⟩)
  · refine hnone _ ?_ hluma
    rcases hempty with hw | hh
    · left
      simp [lumaBlock, hw]
    · right
      exact hh
  · exact hchroma _ _ huv
  · exact hchroma _ _ hv

theorem restorePatch_savePatch (hr : Aligned planes rect)
    {m m' : Memory UInt8} (h : Within (Saved planes rect) m m') :
    restorePatch planes (savePatch planes rect m) m' = m := by
  unfold restorePatch savePatch
  cases hempty : rect.empty with
  | true =>
    have hsame := h.eq (not_saved_of_empty hempty)
    simpa [hempty] using hsame
  | false =>
    have hright := hr.right
    have hbottom := hr.bottom
    simp only [Bool.false_eq_true, if_false]
    rw [if_neg (by simp only [hempty, Bool.false_eq_true, false_or]; omega)]
    have hchroma := (h.restore (lumaBlock planes rect)).restore
      (chromaBlock planes rect planes.uv planes.uvStride)
    cases hv : planes.v with
    | none =>
      refine hchroma.eq fun a ha => ?_
      obtain ⟨⟨hsaved, hluma⟩, huv⟩ := ha
      rcases hsaved with hy | hu | ⟨v, hv', -⟩
      · exact hluma hy
      · exact huv hu
      · rw [hv] at hv'
        cases hv'
    | some v =>
      dsimp only
      rw [if_neg (by rw [length_save, Nat.mul_comm]; exact fun h => h rfl)]
      refine (hchroma.restore (chromaBlock planes rect v planes.vStride)).eq fun a ha => ?_
      obtain ⟨⟨⟨hsaved, hluma⟩, huv⟩, hvv⟩ := ha
      rcases hsaved with hy | hu | ⟨v', hv', hthere⟩
      · exact hluma hy
      · exact huv hu
      · obtain rfl := Option.some.inj (hv.symm.trans hv')
        exact hvv hthere

/-- For any even picture, pointer and placement, and however the planes lie in memory: the
blend writes no byte outside the rectangle it returns, which is the one saved, and saving,
blending and restoring leaves the memory as it was. -/
theorem save_blend_restore (fl : Floats F) (cursor : PreparedCursor F)
    (placement : CursorPlacement F) (planes : PlaneViews) (m : Memory UInt8) :
    let rect := blendFootprint fl cursor placement planes
    let drawn := blendCursor fl cursor placement planes m
    drawn.1 = rect ∧ (∀ a, ¬ Saved planes rect a → drawn.2 a = m a) ∧
      restorePatch planes (savePatch planes rect m) drawn.2 = m := by
  have hwithin := blendCursor_within fl cursor placement planes m
  refine ⟨?_, hwithin,
    restorePatch_savePatch (blendFootprint_aligned fl cursor placement planes) hwithin⟩
  unfold blendCursor
  dsimp only
  split <;> rfl

end MoonlightWeb.NativeHost.CursorBlend
