import MoonlightWeb.Frontend.Mp4Muxer

/-! # Holding a picture to a budget

`fitPixelBudget` brings a height down until its pixels fit at the rate asked for, and the
rate only where the height is at its floor. The width follows the height, rounded to an even
number, and the rounding may cost what the height was chosen to save.
-/

namespace MoonlightWeb.Frontend.StreamResolution

/-- A `W:H` text as it is read, a number that is none as zero. -/
structure Aspect where
  w : ℚ
  h : ℚ
deriving DecidableEq, Repr

def aspectRatio : Option Aspect → ℚ
  | none => 0
  | some a => if a.w > 0 ∧ a.h > 0 then a.w / a.h else 0

structure Size where
  height : ℚ
  aspect : Option Aspect
deriving DecidableEq, Repr

/-- The budget, what the caller knows of the screen and its rate, and the ratio of a size
that fixes none. -/
structure Context where
  budget : ℚ
  device : Option ℚ
  clientFps : ℚ
  aspect : Option Aspect
deriving DecidableEq, Repr

structure Answer where
  size : Size
  fps : ℚ
  capped : Bool
deriving DecidableEq, Repr

def PIXEL_RATE_BUDGET : ℚ := 250000000

def BUDGET_MIN_HEIGHT : ℚ := 1080

def BUDGET_MIN_FPS : ℚ := 60

def rateOf (fps : ℚ) : ℚ :=
  if fps > 0 then fps else 60

variable (c : Context)

def ratioOf (s : Size) : ℚ :=
  if aspectRatio s.aspect ≠ 0 then aspectRatio s.aspect
  else if aspectRatio c.aspect ≠ 0 then aspectRatio c.aspect
  else 16 / 9

/-- `Math.round` -/
def round (x : ℚ) : ℤ :=
  ⌊x + 1 / 2⌋

/-- `& ~1`, on the low 32 bits. -/
def clearLowBit (n : ℤ) : ℤ :=
  let int32 := Mp4Muxer.toInt32 (n % 2 ^ 32).toNat
  int32 - int32 % 2

def widthFor (ratio h : ℚ) : ℤ :=
  clearLowBit (round (h * ratio))

def pixelsAt (ratio h : ℚ) : ℚ :=
  widthFor ratio h * h

def floorHeight : ℚ :=
  min BUDGET_MIN_HEIGHT (match c.device with
    | some height => if height > 0 then height else BUDGET_MIN_HEIGHT
    | none => BUDGET_MIN_HEIGHT)

def floorFps : ℚ :=
  min BUDGET_MIN_FPS (if c.clientFps > 0 then c.clientFps else BUDGET_MIN_FPS)

/-- `Math.floor(Math.sqrt(budget / (ratio * rate)))` -/
def roomFor (ratio rate : ℚ) : ℕ :=
  Nat.sqrt ⌊c.budget / (ratio * rate)⌋₊

def reducedHeight (ratio rate height : ℚ) : ℚ :=
  let room := roomFor c ratio rate
  if height > floorHeight c then max (floorHeight c) (min height (room - room % 8 : ℕ))
  else height

/-- The rate brought down, to its floor at most, for what a height costs. -/
def reducedFps (cost rate : ℚ) : ℚ :=
  if cost * rate > c.budget ∧ rate > floorFps c then max (floorFps c) ⌊c.budget / cost⌋ else rate

def fitPixelBudget (s : Size) (fps : ℚ) : Answer :=
  let rate := rateOf fps
  let ratio := ratioOf c s
  if ¬ s.height > 0 then ⟨s, fps, false⟩
  else if pixelsAt ratio s.height * rate ≤ c.budget then ⟨s, fps, false⟩
  else
    let h := reducedHeight c ratio rate s.height
    let f := reducedFps c (pixelsAt ratio h) rate
    if h ≠ s.height ∨ f ≠ rate then
      ⟨⟨h, s.aspect.map fun _ => ⟨widthFor ratio h, h⟩⟩, f, true⟩
    else ⟨s, fps, false⟩

theorem rateOf_pos (fps : ℚ) : 0 < rateOf fps := by
  unfold rateOf
  split
  · assumption
  · norm_num

theorem rateOf_of_pos {fps : ℚ} (h : 0 < fps) : rateOf fps = fps :=
  if_pos h

theorem aspectRatio_nonneg (a : Option Aspect) : 0 ≤ aspectRatio a := by
  unfold aspectRatio
  cases a with
  | none => exact le_refl _
  | some a =>
    dsimp only
    split
    case isTrue h => exact (div_pos h.1 h.2).le
    case isFalse => exact le_refl _

theorem ratioOf_pos (s : Size) : 0 < ratioOf c s := by
  have hsize := aspectRatio_nonneg s.aspect
  have hcontext := aspectRatio_nonneg c.aspect
  unfold ratioOf
  split
  case isTrue h => exact lt_of_le_of_ne hsize (Ne.symm h)
  case isFalse =>
      split
      case isTrue h => exact lt_of_le_of_ne hcontext (Ne.symm h)
      case isFalse => norm_num

theorem ratioOf_of_ne {s : Size} (h : aspectRatio s.aspect ≠ 0) :
    ratioOf c s = aspectRatio s.aspect :=
  if_pos h

theorem ratioOf_congr {s s' : Size}
    (h : aspectRatio s.aspect = aspectRatio s'.aspect) : ratioOf c s = ratioOf c s' := by
  unfold ratioOf
  rw [h]

theorem floorHeight_pos : 0 < floorHeight c := by
  unfold floorHeight BUDGET_MIN_HEIGHT
  refine lt_min (by norm_num) ?_
  cases c.device with
  | none => norm_num
  | some height =>
    dsimp only
    split
    · assumption
    · norm_num

theorem floorFps_pos : 0 < floorFps c := by
  unfold floorFps BUDGET_MIN_FPS
  refine lt_min (by norm_num) ?_
  split
  · assumption
  · norm_num

theorem reducedHeight_le (ratio rate height : ℚ) :
    reducedHeight c ratio rate height ≤ height := by
  unfold reducedHeight
  dsimp only
  split
  case isTrue h => exact max_le h.le (min_le_left _ _)
  case isFalse => exact le_refl _

theorem reducedHeight_pos (ratio rate : ℚ) {height : ℚ} (h : 0 < height) :
    0 < reducedHeight c ratio rate height := by
  unfold reducedHeight
  dsimp only
  split
  · exact lt_of_lt_of_le (floorHeight_pos c) (le_max_left _ _)
  · exact h

theorem reducedHeight_of_le (ratio rate : ℚ) {height : ℚ}
    (h : height ≤ floorHeight c) : reducedHeight c ratio rate height = height :=
  if_neg (not_lt.mpr h)

theorem reducedFps_pos (cost : ℚ) {rate : ℚ} (h : 0 < rate) :
    0 < reducedFps c cost rate := by
  unfold reducedFps
  split
  · exact lt_of_lt_of_le (floorFps_pos c) (le_max_left _ _)
  · exact h

variable {cost rate : ℚ} {c : Context}

/-- What is brought down is brought below what was asked. -/
theorem reducedFps_lt (hcost : 0 < cost)
    (hover : c.budget < cost * rate) (habove : floorFps c < rate) :
    reducedFps c cost rate < rate := by
  have hroom : c.budget / cost < rate := by rwa [div_lt_iff₀ hcost, mul_comm]
  unfold reducedFps
  rw [if_pos ⟨hover, habove⟩]
  exact max_lt habove (lt_of_le_of_lt (Int.floor_le _) hroom)

theorem reducedFps_le (hcost : 0 ≤ cost) (hbudget : 0 < c.budget) :
    reducedFps c cost rate ≤ rate := by
  by_cases hdown : cost * rate > c.budget ∧ rate > floorFps c
  · have hpos : 0 < cost := by
      rcases hcost.eq_or_lt with hzero | hpos
      · rw [← hzero, zero_mul] at hdown
        exact absurd hdown.1 (not_lt.mpr hbudget.le)
      · exact hpos
    exact (reducedFps_lt hpos hdown.1 hdown.2).le
  · unfold reducedFps
    rw [if_neg hdown]

theorem reducedFps_fits (hcost : 0 ≤ cost) (hbudget : 0 < c.budget) :
    cost * reducedFps c cost rate ≤ c.budget ∨ reducedFps c cost rate ≤ floorFps c := by
  unfold reducedFps
  by_cases hdown : cost * rate > c.budget ∧ rate > floorFps c
  · rw [if_pos hdown]
    rcases le_total (floorFps c) ⌊c.budget / cost⌋ with hfits | hfloor
    · rw [max_eq_right hfits]
      refine Or.inl ?_
      rcases hcost.eq_or_lt with hzero | hpos
      · rw [← hzero, zero_mul]
        exact hbudget.le
      · have hfloor := Int.floor_le (c.budget / cost)
        rwa [le_div_iff₀ hpos, mul_comm] at hfloor
    · rw [max_eq_left hfloor]
      exact Or.inr (le_refl _)
  · rw [if_neg hdown]
    by_cases hover : cost * rate > c.budget
    · exact Or.inr (not_lt.mp fun habove => hdown ⟨hover, habove⟩)
    · exact Or.inl (not_lt.mp hover)

/-- A width the low 32 bits hold is only made even. -/
theorem clearLowBit_eq {n : ℤ} (h : 0 ≤ n) (hlt : n < 2 ^ 31) : clearLowBit n = n - n % 2 := by
  have hmod : (n % 2 ^ 32).toNat = n.toNat := by
    rw [Int.emod_eq_of_lt h (by omega)]
  have hint : Mp4Muxer.toInt32 (n % 2 ^ 32).toNat = n := by
    rw [hmod]
    unfold Mp4Muxer.toInt32
    rw [Nat.mod_eq_of_lt (by omega), if_pos (by omega)]
    omega
  unfold clearLowBit
  rw [hint]

theorem round_mono {x y : ℚ} (h : x ≤ y) : round x ≤ round y :=
  Int.floor_mono (by linarith)

theorem round_nonneg {x : ℚ} (h : 0 ≤ x) : 0 ≤ round x :=
  Int.floor_nonneg.mpr (by linarith)

theorem round_intCast (n : ℤ) : round n = n := by
  unfold round
  rw [Int.floor_intCast_add]
  norm_num

/-- A size whose width 32 bits hold, as the sizes of screens and settings are. -/
structure Sane (c : Context) (s : Size) : Prop where
  nonneg : 0 ≤ s.height
  small : round (s.height * ratioOf c s) < 2 ^ 31

theorem widthFor_eq {ratio h : ℚ} (hnonneg : 0 ≤ h * ratio) (hsmall : round (h * ratio) < 2 ^ 31) :
    widthFor ratio h = round (h * ratio) - round (h * ratio) % 2 :=
  clearLowBit_eq (round_nonneg hnonneg) hsmall

theorem widthFor_nonneg {ratio h : ℚ} (hnonneg : 0 ≤ h * ratio)
    (hsmall : round (h * ratio) < 2 ^ 31) : 0 ≤ widthFor ratio h := by
  have := round_nonneg hnonneg
  rw [widthFor_eq hnonneg hsmall]
  omega

theorem widthFor_mono {ratio h h' : ℚ} (hratio : 0 < ratio) (hnonneg : 0 ≤ h) (hle : h ≤ h')
    (hsmall : round (h' * ratio) < 2 ^ 31) : widthFor ratio h ≤ widthFor ratio h' := by
  have hproduct : h * ratio ≤ h' * ratio := mul_le_mul_of_nonneg_right hle hratio.le
  have hround := round_mono hproduct
  have hfirst : 0 ≤ h * ratio := mul_nonneg hnonneg hratio.le
  rw [widthFor_eq hfirst (by omega), widthFor_eq (hfirst.trans hproduct) hsmall]
  omega

theorem widthFor_fixed {w : ℤ} {h : ℚ} (hh : 0 < h) (hw : 0 ≤ w) (heven : w % 2 = 0)
    (hsmall : w < 2 ^ 31) : widthFor (w / h) h = w := by
  have hproduct : h * ((w : ℚ) / h) = w := mul_div_cancel₀ _ hh.ne'
  unfold widthFor
  rw [hproduct, round_intCast, clearLowBit_eq hw hsmall, heven, sub_zero]

def widthOf (c : Context) (s : Size) : ℤ :=
  widthFor (ratioOf c s) s.height

def pixelRate (c : Context) (s : Size) (fps : ℚ) : ℚ :=
  pixelsAt (ratioOf c s) s.height * rateOf fps

/-- The mode is within the budget, or at both floors. -/
def Within (c : Context) (s : Size) (fps : ℚ) : Prop :=
  pixelRate c s fps ≤ c.budget ∨ (s.height ≤ floorHeight c ∧ rateOf fps ≤ floorFps c)

/-- The answer keeps its promises: it is within, raises nothing, gives up rate only at the
height's floor, has a shape where one was asked for, and is its own answer. -/
structure Fitted (c : Context) (s : Size) (fps : ℚ) (out : Answer) : Prop where
  within : Within c out.size out.fps
  height_le : out.size.height ≤ s.height
  width_le : widthOf c out.size ≤ widthOf c s
  fps_le : rateOf out.fps ≤ rateOf fps
  fps_kept : rateOf out.fps < rateOf fps → out.size.height ≤ floorHeight c
  shape : aspectRatio s.aspect ≠ 0 → aspectRatio out.size.aspect ≠ 0
  again : fitPixelBudget c out.size out.fps = ⟨out.size, out.fps, false⟩

def Over (c : Context) (s : Size) (fps : ℚ) : Prop :=
  0 < s.height ∧ c.budget < pixelRate c s fps

def loweredHeight (c : Context) (s : Size) (fps : ℚ) : ℚ :=
  reducedHeight c (ratioOf c s) (rateOf fps) s.height

/-- Over the budget, the lowered height is at its floor or its pixels, the width made even,
fit at the rate asked for; and the width is not rounded to nothing. -/
def RoundsWithin (c : Context) (s : Size) (fps : ℚ) : Prop :=
  Over c s fps →
    (loweredHeight c s fps ≤ floorHeight c ∨
      pixelsAt (ratioOf c s) (loweredHeight c s fps) * rateOf fps ≤ c.budget) ∧
    (aspectRatio s.aspect ≠ 0 → 0 < widthFor (ratioOf c s) (loweredHeight c s fps))

section

variable {c : Context} {s : Size} {fps : ℚ}

theorem fit_within (h : Within c s fps) : fitPixelBudget c s fps = ⟨s, fps, false⟩ := by
  unfold fitPixelBudget
  dsimp only
  split
  · rfl
  · split
    · rfl
    · rename_i hover
      rcases h with hbudget | ⟨hheight, hrate⟩
      · exact absurd hbudget hover
      · have hsame : reducedFps c (pixelsAt (ratioOf c s) s.height) (rateOf fps) = rateOf fps :=
          if_neg fun hdown => absurd hdown.2 (not_lt.mpr hrate)
        rw [reducedHeight_of_le _ _ _ hheight, hsame]
        exact if_neg (by simp)

def lowered (c : Context) (s : Size) (fps : ℚ) : Size :=
  ⟨loweredHeight c s fps,
    s.aspect.map fun _ => ⟨widthFor (ratioOf c s) (loweredHeight c s fps),
      loweredHeight c s fps⟩⟩

def loweredFps (c : Context) (s : Size) (fps : ℚ) : ℚ :=
  reducedFps c (pixelsAt (ratioOf c s) (loweredHeight c s fps)) (rateOf fps)

theorem fit_over (h : Over c s fps) :
    fitPixelBudget c s fps =
      if loweredHeight c s fps ≠ s.height ∨ loweredFps c s fps ≠ rateOf fps then
        ⟨lowered c s fps, loweredFps c s fps, true⟩
      else ⟨s, fps, false⟩ := by
  have hover : ¬ pixelsAt (ratioOf c s) s.height * rateOf fps ≤ c.budget := not_le.mpr h.2
  unfold fitPixelBudget
  dsimp only
  rw [if_neg (not_not.mpr h.1), if_neg hover]
  rfl

theorem fit_not_over (h : ¬ Over c s fps) : fitPixelBudget c s fps = ⟨s, fps, false⟩ := by
  unfold fitPixelBudget
  dsimp only
  split
  · rfl
  · rename_i hpos
    have hwithin : pixelsAt (ratioOf c s) s.height * rateOf fps ≤ c.budget :=
      not_lt.mp fun hover => h ⟨not_not.mp hpos, hover⟩
    exact if_pos hwithin

theorem Sane.within_of_not_over (hs : Sane c s) (hbudget : 0 < c.budget) (h : ¬ Over c s fps) :
    Within c s fps := by
  rcases hs.nonneg.eq_or_lt with hzero | hpos
  · refine Or.inl ?_
    unfold pixelRate pixelsAt
    rw [← hzero, mul_zero, zero_mul]
    exact hbudget.le
  · exact Or.inl (not_lt.mp fun hover => h ⟨hpos, hover⟩)

theorem Fitted.same (h : Within c s fps) : Fitted c s fps ⟨s, fps, false⟩ where
  within := h
  height_le := le_refl _
  width_le := le_refl _
  fps_le := le_refl _
  fps_kept hless := absurd hless (lt_irrefl _)
  shape hshape := hshape
  again := fit_within h

theorem Sane.lowered_product (hs : Sane c s) (fps : ℚ) (h : 0 < s.height) :
    0 ≤ loweredHeight c s fps * ratioOf c s ∧
      round (loweredHeight c s fps * ratioOf c s) < 2 ^ 31 := by
  have hpos : 0 < loweredHeight c s fps := reducedHeight_pos c _ _ h
  have hle : loweredHeight c s fps ≤ s.height := reducedHeight_le _ _ _ _
  have hratio := ratioOf_pos c s
  have hround := round_mono (mul_le_mul_of_nonneg_right hle hratio.le)
  exact ⟨(mul_pos hpos hratio).le, by linarith [hs.small]⟩

theorem Sane.lowered_cost (hs : Sane c s) (fps : ℚ) (h : 0 < s.height) :
    0 ≤ pixelsAt (ratioOf c s) (loweredHeight c s fps) := by
  have hproduct := hs.lowered_product fps h
  have hpos : 0 < loweredHeight c s fps := reducedHeight_pos c _ _ h
  have hwidth := widthFor_nonneg hproduct.1 hproduct.2
  unfold pixelsAt
  exact mul_nonneg (Int.cast_nonneg hwidth) hpos.le

theorem aspectRatio_pair {w : ℤ} {h : ℚ} (hh : 0 < h) :
    aspectRatio (some ⟨w, h⟩) = if 0 < w then (w : ℚ) / h else 0 := by
  unfold aspectRatio
  dsimp only
  by_cases hw : 0 < w
  · have hcast : (0 : ℚ) < w := by exact_mod_cast hw
    rw [if_pos hw, if_pos ⟨hcast, hh⟩]
  · have hcast : ¬ (0 : ℚ) < w := by exact_mod_cast hw
    rw [if_neg hw, if_neg fun hboth => hcast hboth.1]

theorem Sane.widthOf_lowered (hs : Sane c s) (h : 0 < s.height)
    (hwidth : aspectRatio s.aspect ≠ 0 → 0 < widthFor (ratioOf c s) (loweredHeight c s fps)) :
    widthOf c (lowered c s fps) = widthFor (ratioOf c s) (loweredHeight c s fps) := by
  have hpos : 0 < loweredHeight c s fps := reducedHeight_pos c _ _ h
  have hproduct := hs.lowered_product fps h
  have heq := widthFor_eq hproduct.1 hproduct.2
  have hround := round_nonneg hproduct.1
  unfold widthOf
  cases haspect : s.aspect with
  | none =>
    have hread : aspectRatio (lowered c s fps).aspect = aspectRatio s.aspect := by
      unfold lowered
      rw [haspect]
      rfl
    have hratio : ratioOf c (lowered c s fps) = ratioOf c s := ratioOf_congr c hread
    rw [hratio]
    rfl
  | some a =>
    have hread : aspectRatio (lowered c s fps).aspect =
        if 0 < widthFor (ratioOf c s) (loweredHeight c s fps) then
          (widthFor (ratioOf c s) (loweredHeight c s fps) : ℚ) / loweredHeight c s fps
        else 0 := by
      unfold lowered
      rw [haspect]
      exact aspectRatio_pair hpos
    by_cases hw : 0 < widthFor (ratioOf c s) (loweredHeight c s fps)
    · have hcast : (0 : ℚ) < widthFor (ratioOf c s) (loweredHeight c s fps) := by
        exact_mod_cast hw
      rw [if_pos hw] at hread
      rw [ratioOf_of_ne c (by rw [hread]; exact (div_pos hcast hpos).ne'), hread]
      exact widthFor_fixed hpos hw.le (by omega) (by omega)
    · have hzero : aspectRatio s.aspect = 0 := by
        by_contra hne
        exact hw (hwidth hne)
      have hratio : ratioOf c (lowered c s fps) = ratioOf c s :=
        ratioOf_congr c (by rw [hread, if_neg hw, hzero])
      rw [hratio]
      rfl

theorem cost_pos {cost : ℚ} (hbudget : 0 < c.budget) (h : c.budget < cost * rateOf fps) :
    0 < cost :=
  (mul_pos_iff_of_pos_right (rateOf_pos fps)).mp (hbudget.trans h)

theorem Over.width_pos (hbudget : 0 < c.budget) (h : Over c s fps) :
    0 < widthFor (ratioOf c s) s.height := by
  have hpixels := cost_pos hbudget h.2
  exact_mod_cast (mul_pos_iff_of_pos_right h.1).mp hpixels

theorem Sane.pixelRate_lowered (hs : Sane c s) (h : 0 < s.height) (rate : ℚ)
    (hwidth : aspectRatio s.aspect ≠ 0 → 0 < widthFor (ratioOf c s) (loweredHeight c s fps)) :
    pixelRate c (lowered c s fps) rate =
      pixelsAt (ratioOf c s) (loweredHeight c s fps) * rateOf rate := by
  have hsame := hs.widthOf_lowered h hwidth
  unfold widthOf at hsame
  unfold pixelRate pixelsAt
  rw [hsame]
  rfl

/-- Where the rounding stays within, the lowered mode keeps every promise. -/
theorem Sane.fitted_lowered (hs : Sane c s) (hbudget : 0 < c.budget) (hover : Over c s fps)
    (hheight : loweredHeight c s fps ≤ floorHeight c ∨
      pixelsAt (ratioOf c s) (loweredHeight c s fps) * rateOf fps ≤ c.budget)
    (hwidth : aspectRatio s.aspect ≠ 0 → 0 < widthFor (ratioOf c s) (loweredHeight c s fps)) :
    Fitted c s fps ⟨lowered c s fps, loweredFps c s fps, true⟩ := by
  have hpos : 0 < loweredHeight c s fps := reducedHeight_pos c _ _ hover.1
  have hcost := hs.lowered_cost fps hover.1
  have hrate : 0 < loweredFps c s fps := reducedFps_pos c _ (rateOf_pos fps)
  have hkept : pixelsAt (ratioOf c s) (loweredHeight c s fps) * rateOf fps ≤ c.budget →
      loweredFps c s fps = rateOf fps :=
    fun hfits => if_neg fun hdown => absurd hdown.1 (not_lt.mpr hfits)
  have hwithin : Within c (lowered c s fps) (loweredFps c s fps) := by
    unfold Within
    rw [hs.pixelRate_lowered hover.1 _ hwidth, rateOf_of_pos hrate]
    rcases hheight with hfloor | hfits
    · exact (reducedFps_fits hcost hbudget).imp id fun hfps => ⟨hfloor, hfps⟩
    · rw [hkept hfits]
      exact Or.inl hfits
  exact {
    within := hwithin
    height_le := reducedHeight_le _ _ _ _
    width_le := by
      rw [hs.widthOf_lowered hover.1 hwidth]
      exact widthFor_mono (ratioOf_pos c s) hpos.le (reducedHeight_le _ _ _ _) hs.small
    fps_le := by
      rw [rateOf_of_pos hrate]
      exact reducedFps_le hcost hbudget
    fps_kept := by
      intro hless
      rw [rateOf_of_pos hrate] at hless
      rcases hheight with hfloor | hfits
      · exact hfloor
      · exact absurd (hkept hfits) hless.ne
    shape := by
      intro hshape
      show aspectRatio (s.aspect.map _) ≠ 0
      cases haspect : s.aspect with
      | none =>
        rw [haspect] at hshape
        exact absurd rfl hshape
      | some a =>
        have hcast : (0 : ℚ) < widthFor (ratioOf c s) (loweredHeight c s fps) := by
          exact_mod_cast hwidth hshape
        rw [Option.map_some, aspectRatio_pair hpos, if_pos (hwidth hshape)]
        exact (div_pos hcast hpos).ne'
    again := fit_within hwithin }

/-- Of a size over the budget the promises are kept only where the rounding stays within. -/
theorem Sane.within_of_fitted (hs : Sane c s) (hbudget : 0 < c.budget) (hover : Over c s fps)
    (h : Fitted c s fps ⟨lowered c s fps, loweredFps c s fps, true⟩) :
    (loweredHeight c s fps ≤ floorHeight c ∨
      pixelsAt (ratioOf c s) (loweredHeight c s fps) * rateOf fps ≤ c.budget) ∧
    (aspectRatio s.aspect ≠ 0 → 0 < widthFor (ratioOf c s) (loweredHeight c s fps)) := by
  have hpos : 0 < loweredHeight c s fps := reducedHeight_pos c _ _ hover.1
  have hrate : 0 < loweredFps c s fps := reducedFps_pos c _ (rateOf_pos fps)
  have hwidth : aspectRatio s.aspect ≠ 0 →
      0 < widthFor (ratioOf c s) (loweredHeight c s fps) := by
    intro hshape
    have hread : aspectRatio (s.aspect.map fun _ =>
        (⟨widthFor (ratioOf c s) (loweredHeight c s fps), loweredHeight c s fps⟩ : Aspect)) ≠ 0 :=
      h.shape hshape
    cases haspect : s.aspect with
    | none =>
      rw [haspect] at hshape
      exact absurd rfl hshape
    | some a =>
      rw [haspect, Option.map_some, aspectRatio_pair hpos] at hread
      by_contra hnone
      exact hread (if_neg hnone)
  refine ⟨?_, hwidth⟩
  by_contra hneither
  rw [not_or, not_le, not_le] at hneither
  obtain ⟨habove, hcost⟩ := hneither
  have hpositive := cost_pos hbudget hcost
  by_cases hfps : floorFps c < rateOf fps
  · have hless : loweredFps c s fps < rateOf fps := reducedFps_lt hpositive hcost hfps
    have hfloor := h.fps_kept (by rwa [rateOf_of_pos hrate])
    exact absurd hfloor (not_le.mpr habove)
  · have hsame : loweredFps c s fps = rateOf fps := if_neg fun hdown => hfps hdown.2
    rcases h.within with hfits | ⟨hfloor, -⟩
    · dsimp only at hfits
      rw [hs.pixelRate_lowered hover.1 _ hwidth, rateOf_of_pos hrate, hsame] at hfits
      exact absurd hfits (not_le.mpr hcost)
    · exact absurd hfloor (not_le.mpr habove)

end

/-- A viewer's screen of 1600 lines at 120 pictures a second. -/
def screen : Context :=
  ⟨PIXEL_RATE_BUDGET, some 1600, 120, none⟩

theorem sane_screen : Sane screen ⟨1600, some ⟨1936, 1600⟩⟩ where
  nonneg := by norm_num
  small := by decide +kernel

end MoonlightWeb.Frontend.StreamResolution
