import MoonlightWeb.NativeHost.Selector
import Mathlib

/-! # The frame a display is streamed at

`frameForDisplay` gives a requested size the shape of the display, makes both sides even, and
caps the frame at the display. All of it in exact arithmetic: no side may come out as zero, and
a box asked for as a box must hold the frame.
-/

namespace MoonlightWeb.NativeHost.Selector

variable (x : Int)

/-- `x & ~1` -/
def even : Int := x / 2 * 2

/-- `std::lround`, halves away from zero. -/
def lround (x : ℚ) : Int := if 0 ≤ x then ⌊x + 1 / 2⌋ else ⌈x - 1 / 2⌉

def aspect (s : FrameSize) : ℚ := (s.width : ℚ) / s.height

variable (display frame : FrameSize)

/-- The two shapes differ by more than a client's rounding explains. -/
def Reshaped : Prop :=
  |aspect frame - aspect display| / aspect display > 5 / 1000

instance (display frame : FrameSize) : Decidable (Reshaped display frame) :=
  inferInstanceAs (Decidable (_ > _))

def shaped (policy : FramePolicy) : FrameSize :=
  if Reshaped display frame then
    if policy.fitBox = false then
      { frame with width := even (lround (frame.height * aspect display)) }
    else if aspect frame > aspect display then
      { frame with width := even (lround (frame.height * aspect display)) }
    else { frame with height := even (lround (frame.width / aspect display)) }
  else frame

def frameForDisplay (policy : FramePolicy) : FrameSize :=
  if display.width ≤ 0 ∨ display.height ≤ 0 ∨ frame.width ≤ 0 ∨ frame.height ≤ 0 then frame
  else
    let out := shaped display frame policy
    if policy.allowUpscale = false ∧
        (even out.width > display.width ∨ even out.height > display.height) then
      ⟨even display.width, even display.height⟩
    else ⟨even out.width, even out.height⟩

structure Promised (display frame : FrameSize) (policy : FramePolicy) (out : FrameSize) :
    Prop where
  even_width : out.width % 2 = 0
  even_height : out.height % 2 = 0
  two_le : 2 ≤ out.width ∧ 2 ≤ out.height
  fits : policy.fitBox = true → out.width ≤ frame.width ∧ out.height ≤ frame.height
  within : policy.allowUpscale = false → out.width ≤ display.width ∧ out.height ≤ display.height

def ByHeight (policy : FramePolicy) : Prop :=
  policy.fitBox = false ∨ display.width * frame.height < frame.width * display.height

/-- One of two sizes is larger than the display along one axis, and does not hold it along the
other. -/
def Across : Prop :=
  (display.width < even frame.width ∧ frame.height < even display.height) ∨
    (display.height < even frame.height ∧ frame.width < even display.width)

structure Fitting (display frame : FrameSize) (policy : FramePolicy) : Prop where
  display_sides : policy.allowUpscale = false → 2 ≤ display.width ∧ 2 ≤ display.height
  width_left : Reshaped display frame → ByHeight display frame policy →
    3 * display.height ≤ 2 * (frame.height * display.width)
  height_left : Reshaped display frame → ¬ ByHeight display frame policy →
    3 * display.width ≤ 2 * (frame.width * display.height)
  holds_display : ¬ Reshaped display frame → policy.fitBox = true →
    policy.allowUpscale = false → ¬ Across display frame

/-- Either the display has a size and the frame fits it, or nothing is known of the display and
the request is passed on. -/
def Feasible (policy : FramePolicy) : Prop :=
  if display.width ≤ 0 ∨ display.height ≤ 0 then
    frame.width % 2 = 0 ∧ frame.height % 2 = 0 ∧ policy.allowUpscale = true
  else Fitting display frame policy

theorem even_mod : even x % 2 = 0 := by
  unfold even
  omega

theorem even_le : even x ≤ x := by
  unfold even
  omega

theorem even_even : even (even x) = even x := by
  unfold even
  omega

theorem two_le_even_iff : 2 ≤ even x ↔ 2 ≤ x := by
  unfold even
  omega

/-- A rounded quotient, told by its products. -/
theorem lround_div {a b : Int} (ha : 0 ≤ a) (hb : 0 < b) (k : Int) :
    k ≤ lround ((a : ℚ) / b) ↔ 2 * b * k ≤ 2 * a + b := by
  have hb' : (0 : ℚ) < b := by exact_mod_cast hb
  have hnonneg : (0 : ℚ) ≤ (a : ℚ) / b := div_nonneg (by exact_mod_cast ha) hb'.le
  have hsum : (a : ℚ) / b + 1 / 2 = (2 * a + b) / (2 * b) := by
    field_simp
  rw [lround, if_pos hnonneg, Int.le_floor, hsum, le_div_iff₀ (by linarith)]
  constructor
  · intro h
    have h' : ((k * (2 * b) : Int) : ℚ) ≤ ((2 * a + b : Int) : ℚ) := by
      push_cast
      exact h
    have := Int.cast_le.mp h'
    linarith
  · intro h
    have h' : ((k * (2 * b) : Int) : ℚ) ≤ ((2 * a + b : Int) : ℚ) := by
      exact_mod_cast (by linarith : k * (2 * b) ≤ 2 * a + b)
    push_cast at h'
    exact h'

section Side

variable {W H w h k : Int}

/-- The side that follows is at least two where the display is not too flat. -/
theorem two_le_side (hk : ∀ m, m ≤ k ↔ 2 * H * m ≤ 2 * (h * W) + H) :
    2 ≤ k ↔ 3 * H ≤ 2 * (h * W) := by
  rw [hk]
  constructor <;> intro hle <;> linarith

/-- Where the box is the wider one, the side that follows stays inside it, and a frame larger
than the display leaves room for the display. -/
theorem side_fits (hW : 0 < W) (hH : 0 < H) (hk : ∀ m, m ≤ k ↔ 2 * H * m ≤ 2 * (h * W) + H)
    (hwide : h * W ≤ w * H) : k ≤ w ∧ (W < k ∨ H < h → W ≤ w ∧ H ≤ h) := by
  have hspec := (hk k).mp le_rfl
  have hroom : H < h → W ≤ w ∧ H ≤ h := by
    intro hlt
    have : W * H < h * W := by nlinarith
    exact ⟨by nlinarith, hlt.le⟩
  refine ⟨?_, ?_⟩
  · by_contra hlt
    nlinarith [mul_le_mul_of_nonneg_left (Int.lt_iff_add_one_le.mp (not_le.mp hlt)) hH.le]
  · rintro (hlt | hlt)
    · refine hroom ?_
      have : W * H < h * W := by
        nlinarith [mul_le_mul_of_nonneg_left (Int.lt_iff_add_one_le.mp hlt) hH.le]
      nlinarith
    · exact hroom hlt

theorem two_le_side_of_over (hW : 2 ≤ W) (hH : 0 < H)
    (hk : ∀ m, m ≤ k ↔ 2 * H * m ≤ 2 * (h * W) + H) (hover : W < k ∨ H < h) : 2 ≤ k := by
  rcases hover with hlt | hlt
  · omega
  · rw [hk]
    nlinarith

end Side

section Frame

variable {display frame : FrameSize} {policy : FramePolicy}

theorem aspect_lt_iff (hH : 0 < display.height) (hh : 0 < frame.height) :
    aspect display < aspect frame ↔
      display.width * frame.height < frame.width * display.height := by
  have hH' : (0 : ℚ) < display.height := by exact_mod_cast hH
  have hh' : (0 : ℚ) < frame.height := by exact_mod_cast hh
  unfold aspect
  rw [div_lt_div_iff₀ hH' hh']
  exact_mod_cast Iff.rfl

/-- The request as it is, or with one side that follows from the other. -/
theorem shaped_cases (hW : 0 < display.width) (hH : 0 < display.height) (hw : 0 < frame.width)
    (hh : 0 < frame.height) :
    (¬ Reshaped display frame ∧ shaped display frame policy = frame) ∨
      (Reshaped display frame ∧ ByHeight display frame policy ∧
        ∃ k, (∀ m, m ≤ k ↔
          2 * display.height * m ≤ 2 * (frame.height * display.width) + display.height) ∧
          shaped display frame policy = { frame with width := even k }) ∨
      (Reshaped display frame ∧ ¬ ByHeight display frame policy ∧
        ∃ k, (∀ m, m ≤ k ↔
          2 * display.width * m ≤ 2 * (frame.width * display.height) + display.width) ∧
          shaped display frame policy = { frame with height := even k }) := by
  have hwidth : (frame.height : ℚ) * aspect display =
      ((frame.height * display.width : Int) : ℚ) / display.height := by
    unfold aspect
    push_cast
    ring
  have hheight : (frame.width : ℚ) / aspect display =
      ((frame.width * display.height : Int) : ℚ) / display.width := by
    unfold aspect
    push_cast
    rw [div_div_eq_mul_div]
  by_cases hshape : Reshaped display frame
  · by_cases hby : ByHeight display frame policy
    · refine Or.inr (Or.inl ⟨hshape, hby, _,
        lround_div (mul_nonneg hh.le hW.le) hH, ?_⟩)
      unfold shaped
      rw [if_pos hshape, ← hwidth]
      rcases hby with hfree | hwider
      · rw [if_pos hfree]
      · have hlt : aspect frame > aspect display := (aspect_lt_iff hH hh).mpr hwider
        rw [if_pos hlt, ite_self]
    · refine Or.inr (Or.inr ⟨hshape, hby, _,
        lround_div (mul_nonneg hw.le hH.le) hW, ?_⟩)
      have hnot := not_or.mp hby
      have hle : ¬ aspect frame > aspect display :=
        fun hlt => hnot.2 ((aspect_lt_iff hH hh).mp hlt)
      unfold shaped
      rw [if_pos hshape, ← hheight, if_neg hnot.1, if_neg hle]
  · exact Or.inl ⟨hshape, by rw [shaped, if_neg hshape]⟩

/-- The frame of a display of a known size: capped, or as it was shaped. -/
theorem frameForDisplay_eq (hW : 0 < display.width) (hH : 0 < display.height)
    (hw : 0 < frame.width) (hh : 0 < frame.height) :
    frameForDisplay display frame policy =
      if policy.allowUpscale = false ∧
          (display.width < even (shaped display frame policy).width ∨
            display.height < even (shaped display frame policy).height) then
        ⟨even display.width, even display.height⟩
      else
        ⟨even (shaped display frame policy).width, even (shaped display frame policy).height⟩ := by
  rw [frameForDisplay, if_neg (by omega)]

/-- What is promised, once it is known where the shaped frame stands. -/
theorem promised_iff (hW : 0 < display.width) (hH : 0 < display.height)
    (hw : 0 < frame.width) (hh : 0 < frame.height)
    (hfits : policy.fitBox = true → even (shaped display frame policy).width ≤ frame.width ∧
      even (shaped display frame policy).height ≤ frame.height) :
    Promised display frame policy (frameForDisplay display frame policy) ↔
      (policy.allowUpscale = false → 2 ≤ display.width ∧ 2 ≤ display.height) ∧
        (2 ≤ (shaped display frame policy).width ∧ 2 ≤ (shaped display frame policy).height ∨
          policy.allowUpscale = false ∧
            (display.width < even (shaped display frame policy).width ∨
              display.height < even (shaped display frame policy).height)) ∧
        (policy.allowUpscale = false →
          display.width < even (shaped display frame policy).width ∨
            display.height < even (shaped display frame policy).height →
          policy.fitBox = true →
            even display.width ≤ frame.width ∧ even display.height ≤ frame.height) := by
  rw [frameForDisplay_eq hW hH hw hh]
  have hdisplayWidth := even_le display.width
  have hdisplayHeight := even_le display.height
  split_ifs with hcapped
  · constructor
    · intro hp
      have htwo := hp.two_le
      rw [two_le_even_iff, two_le_even_iff] at htwo
      exact ⟨fun _ => htwo, Or.inr hcapped, fun _ _ hbox => hp.fits hbox⟩
    · rintro ⟨hsides, -, hroom⟩
      exact
        { even_width := even_mod _
          even_height := even_mod _
          two_le := by
            rw [two_le_even_iff, two_le_even_iff]
            exact hsides hcapped.1
          fits := hroom hcapped.1 hcapped.2
          within := fun _ => ⟨hdisplayWidth, hdisplayHeight⟩ }
  · constructor
    · intro hp
      have htwo := hp.two_le
      rw [two_le_even_iff, two_le_even_iff] at htwo
      refine ⟨fun hno => ?_, Or.inl htwo, fun hno hover => absurd ⟨hno, hover⟩ hcapped⟩
      have hin := hp.within hno
      have hle := hp.two_le
      exact ⟨hle.1.trans hin.1, hle.2.trans hin.2⟩
    · rintro ⟨-, htwo | hover, -⟩
      · exact
          { even_width := even_mod _
            even_height := even_mod _
            two_le := by
              rw [two_le_even_iff, two_le_even_iff]
              exact htwo
            fits := hfits
            within := by
              intro hno
              by_contra hover
              exact hcapped ⟨hno, (not_and_or.mp hover).imp not_le.mp not_le.mp⟩ }
      · exact absurd hover hcapped

/-- For a request of at least two by two, the frame is even, at least two by two, in the box and
not larger than the display exactly when the request is feasible. -/
theorem frameForDisplay_promised_iff (display frame : FrameSize) (policy : FramePolicy)
    (hw : 2 ≤ frame.width) (hh : 2 ≤ frame.height) :
    Promised display frame policy (frameForDisplay display frame policy) ↔
      Feasible display frame policy := by
  unfold Feasible
  split_ifs with hunknown
  · have hsame : frameForDisplay display frame policy = frame := by
      rw [frameForDisplay, if_pos (by omega)]
    rw [hsame]
    constructor
    · intro hp
      refine ⟨hp.even_width, hp.even_height, ?_⟩
      by_contra hno
      have := hp.within (Bool.eq_false_iff.mpr hno)
      omega
    · rintro ⟨heven, heven', hup⟩
      exact ⟨heven, heven', ⟨hw, hh⟩, fun _ => ⟨le_rfl, le_rfl⟩, fun h => by simp [hup] at h⟩
  · have hW : 0 < display.width := by omega
    have hH : 0 < display.height := by omega
    have hevenW := even_le frame.width
    have hevenH := even_le frame.height
    have hdisplayWidth := even_le display.width
    have hdisplayHeight := even_le display.height
    have hw' : 0 < frame.width := by omega
    have hh' : 0 < frame.height := by omega
    rcases @shaped_cases display frame policy hW hH hw' hh' with
      ⟨hshape, hout⟩ | ⟨hshape, hby, k, hk, hout⟩ | ⟨hshape, hby, k, hk, hout⟩
    · rw [promised_iff hW hH hw' hh' (by rw [hout]; exact fun _ => ⟨hevenW, hevenH⟩), hout]
      constructor
      · rintro ⟨hsides, -, hroom⟩
        refine ⟨hsides, fun h => absurd h hshape, fun h => absurd h hshape, ?_⟩
        rintro - hbox hno (⟨hover, hshort⟩ | ⟨hover, hshort⟩)
        · exact absurd (hroom hno (Or.inl hover) hbox).2 (by omega)
        · exact absurd (hroom hno (Or.inr hover) hbox).1 (by omega)
      · rintro ⟨hsides, -, -, hacross⟩
        refine ⟨hsides, Or.inl ⟨hw, hh⟩, fun hno hover hbox => ?_⟩
        have hnot := hacross hshape hbox hno
        unfold Across at hnot
        omega
    · have hfits : policy.fitBox = true → k ≤ frame.width ∧
          (display.width < k ∨ display.height < frame.height →
            display.width ≤ frame.width ∧ display.height ≤ frame.height) := by
        intro hbox
        rcases hby with hfree | hwider
        · simp [hfree] at hbox
        · exact side_fits hW hH hk (by linarith)
      have hevenK := even_le k
      rw [promised_iff hW hH hw' hh' (by
        rw [hout]
        exact fun hbox => ⟨((even_le _).trans hevenK).trans (hfits hbox).1, hevenH⟩), hout]
      dsimp only
      rw [even_even, two_le_even_iff]
      constructor
      · rintro ⟨hsides, hlarge, -⟩
        refine ⟨hsides, fun _ _ => (two_le_side hk).mp ?_, fun _ h => absurd hby h,
          fun h => absurd hshape h⟩
        rcases hlarge with htwo | ⟨hno, hover⟩
        · exact htwo.1
        · exact two_le_side_of_over (hsides hno).1 hH hk (by omega)
      · rintro ⟨hsides, hleft, -, -⟩
        refine ⟨hsides, Or.inl ⟨(two_le_side hk).mpr (hleft hshape hby), hh⟩, ?_⟩
        intro _ hover hbox
        have := (hfits hbox).2 (by omega)
        omega
    · have hnot := not_or.mp hby
      have hnarrow : frame.width * display.height ≤ frame.height * display.width := by
        linarith [not_lt.mp hnot.2]
      have hfits := side_fits hH hW hk hnarrow
      have hevenK := even_le k
      rw [promised_iff hW hH hw' hh' (by
        rw [hout]
        exact fun _ => ⟨hevenW, ((even_le _).trans hevenK).trans hfits.1⟩), hout]
      dsimp only
      rw [even_even, two_le_even_iff]
      constructor
      · rintro ⟨hsides, hlarge, -⟩
        refine ⟨hsides, fun _ h => absurd h hby, fun _ _ => (two_le_side hk).mp ?_,
          fun h => absurd hshape h⟩
        rcases hlarge with htwo | ⟨hno, hover⟩
        · exact htwo.2
        · exact two_le_side_of_over (hsides hno).2 hW hk (by omega)
      · rintro ⟨hsides, -, hleft, -⟩
        refine ⟨hsides, Or.inl ⟨hw, (two_le_side hk).mpr (hleft hshape hby)⟩, ?_⟩
        intro _ hover _
        have := hfits.2 (by omega)
        omega

theorem frameForDisplay_promised_hd :
    Promised ⟨1920, 1080⟩ ⟨2560, 1600⟩ ⟨true, true⟩
        (frameForDisplay ⟨1920, 1080⟩ ⟨2560, 1600⟩ ⟨true, true⟩) ↔
      Feasible ⟨1920, 1080⟩ ⟨2560, 1600⟩ ⟨true, true⟩ :=
  frameForDisplay_promised_iff _ _ _ (by decide) (by decide)

/-- A very flat display in a small box leaves no line, and a box a little wider than the display
but one line short of it is given the whole display. -/
theorem frame_without_lines :
    (frameForDisplay ⟨1000, 1⟩ ⟨100, 100⟩ ⟨true, true⟩).height = 0 ∧
      frameForDisplay ⟨1920, 1080⟩ ⟨1922, 1079⟩ ⟨true, false⟩ = ⟨1920, 1080⟩ ∧
      ¬ ∀ (display frame : FrameSize) (policy : FramePolicy), 0 < display.width →
        0 < display.height → 2 ≤ frame.width → 2 ≤ frame.height →
        Promised display frame policy (frameForDisplay display frame policy) := by
  have hflat : (frameForDisplay ⟨1000, 1⟩ ⟨100, 100⟩ ⟨true, true⟩).height = 0 := by decide +kernel
  refine ⟨hflat, by decide +kernel, fun hall => ?_⟩
  have htwo := (hall ⟨1000, 1⟩ ⟨100, 100⟩ ⟨true, true⟩ (by decide) (by decide) (by decide)
    (by decide)).two_le.2
  rw [hflat] at htwo
  exact absurd htwo (by decide)

end Frame

end MoonlightWeb.NativeHost.Selector
