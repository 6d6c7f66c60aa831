import Mathlib.Data.List.Induction
import Mathlib.Data.Int.Basic
import Mathlib.Tactic.Linarith
import Mathlib.Tactic.Common

/-! # The rate frames really come at

Frames are counted over one-second windows, and over quarter seconds for a quick look at
a rate that went up. The laws are about any run of calls: the rate stays between its
bounds, a count lowers it after two slow windows alone, and a call that reports no change
leaves the bitrate handed to the encoder as it was.
-/

namespace MoonlightWeb.NativeHost.EffectiveCadence

def kWindowUs : Int := 1000 * 1000
def kRaiseWindowUs : Int := 250 * 1000
def kMinFps : Nat := 30
def kHysteresisPercent : Nat := 15
def kLowerAfterWindows : Nat := 2

structure Cadence where
  configuredFps : Nat := 60
  encoderFps : Nat := 60
  currentFps : Nat := 60
  windowStartUs : Int := 0
  framesInWindow : Nat := 0
  raiseWindowStartUs : Int := 0
  framesInRaiseWindow : Nat := 0
  lowerStreak : Nat := 0
  changes : Nat := 0
deriving DecidableEq, Repr

variable (c : Cadence)

def start (fps nowUs : Int) : Cadence :=
  let rate := if fps > 0 then fps.toNat else 60
  { c with
    configuredFps := rate
    encoderFps := rate
    currentFps := rate
    windowStartUs := nowUs
    raiseWindowStartUs := nowUs
    framesInWindow := 0
    framesInRaiseWindow := 0
    lowerStreak := 0 }

def ratePerSecond (frames : Nat) (spanUs : Int) : Nat :=
  if spanUs ≤ 0 then 0 else ((frames * 1000000 + spanUs / 2) / spanUs).toNat

/-- `true` when the rate was raised. -/
def raiseTo (measured : Nat) : Cadence × Bool :=
  let target := if measured > c.configuredFps then c.configuredFps else measured
  if target ≤ c.currentFps + c.currentFps * kHysteresisPercent / 100 then
    (c, false)
  else
    ({ c with currentFps := target, lowerStreak := 0, changes := c.changes + 1 }, true)

/-- What a window is taken to have measured: no more than the setting, no less than 30. -/
def clamped (measured : Nat) : Nat :=
  let target := if measured > c.configuredFps then c.configuredFps else measured
  if target < kMinFps then kMinFps else target

def slow (current target : Nat) : Bool :=
  decide (target < current - current * kHysteresisPercent / 100)

def evaluate (measured : Nat) : Cadence × Bool :=
  let target := clamped c measured
  let raised := raiseTo c target
  if raised.2 then
    raised
  else if slow c.currentFps target then
    if kLowerAfterWindows ≤ c.lowerStreak + 1 then
      ({ c with currentFps := target, lowerStreak := 0, changes := c.changes + 1 }, true)
    else
      ({ c with lowerStreak := c.lowerStreak + 1 }, false)
  else
    ({ c with lowerStreak := 0 }, false)

def quickLook (nowUs : Int) : Cadence × Bool :=
  let c := { c with
    framesInWindow := c.framesInWindow + 1
    framesInRaiseWindow := c.framesInRaiseWindow + 1 }
  if kRaiseWindowUs ≤ nowUs - c.raiseWindowStartUs then
    let quick := ratePerSecond c.framesInRaiseWindow (nowUs - c.raiseWindowStartUs)
    raiseTo { c with raiseWindowStartUs := nowUs, framesInRaiseWindow := 0 } quick
  else
    (c, false)

def noteFrame (nowUs : Int) : Cadence × Bool :=
  let looked := quickLook c nowUs
  let c := looked.1
  if nowUs - c.windowStartUs < kWindowUs then
    looked
  else
    let measured := ratePerSecond c.framesInWindow (nowUs - c.windowStartUs)
    let evaluated := evaluate { c with windowStartUs := nowUs, framesInWindow := 0 } measured
    (evaluated.1, evaluated.2 || looked.2)

/-- `static_cast<int>` of a 64-bit value. -/
def toInt (x : Int) : Int :=
  Int.bmod x (2 ^ 32)

def scaledKbps (kbps : Int) : Int :=
  if c.currentFps = 0 ∨ c.currentFps = c.encoderFps then
    kbps
  else
    toInt ((kbps * c.encoderFps).tdiv c.currentFps)

/-- The gate now admits `fps` a second. -/
def moveTo (fps : Nat) : Cadence :=
  { c with configuredFps := fps, currentFps := fps, lowerStreak := 0, changes := c.changes + 1 }

def retarget (fps : Int) : Cadence × Bool :=
  if fps ≤ 0 ∨ fps = c.configuredFps then
    (c, false)
  else
    let before := scaledKbps c 1000000
    let moved := moveTo c fps.toNat
    (moved, scaledKbps moved 1000000 != before)

inductive Call
  | start (fps nowUs : Int)
  | retarget (fps : Int)
  | noteFrame (nowUs : Int)
deriving DecidableEq, Repr

def call : Call → Cadence
  | .start fps nowUs => start c fps nowUs
  | .retarget fps => (retarget c fps).1
  | .noteFrame nowUs => (noteFrame c nowUs).1

/-- A closed window: the rate it was judged against and what it measured. -/
structure Window where
  rate : Nat
  target : Nat
deriving DecidableEq, Repr

def Window.Slow (w : Window) : Prop :=
  slow w.rate w.target = true

def closes (nowUs : Int) : List Window :=
  let looked := (quickLook c nowUs).1
  if nowUs - looked.windowStartUs < kWindowUs then
    []
  else
    [⟨looked.currentFps,
      clamped looked (ratePerSecond looked.framesInWindow (nowUs - looked.windowStartUs))⟩]

/-- The estimator, and the windows closed since its rates were last set from outside. -/
def advance (s : Cadence × List Window) (a : Call) : Cadence × List Window :=
  (call s.1 a, match a with
    | .noteFrame nowUs => s.2 ++ closes s.1 nowUs
    | .retarget fps => if fps ≤ 0 ∨ fps = s.1.configuredFps then s.2 else []
    | .start _ _ => [])

variable (calls : List Call)

def run : Cadence × List Window :=
  calls.foldl advance ({}, [])

@[simp] theorem run_snoc (a : Call) :
    run (calls ++ [a]) = advance (run calls) a := by
  simp [run]

/-- The rates of an estimator. -/
structure Bounded (c : Cadence) : Prop where
  lower : min kMinFps c.configuredFps ≤ c.currentFps
  upper : c.currentFps ≤ c.configuredFps
  positive : 0 < c.configuredFps

theorem Bounded.same {c c' : Cadence} (h : Bounded c) (hcurrent : c'.currentFps = c.currentFps)
    (hconfigured : c'.configuredFps = c.configuredFps) : Bounded c' :=
  ⟨by rw [hcurrent, hconfigured]; exact h.lower, by rw [hcurrent, hconfigured]; exact h.upper,
    by rw [hconfigured]; exact h.positive⟩

/-- Raising says what it did: nothing, or more, with the streak forgotten. -/
theorem raiseTo_cases (measured : Nat) :
    raiseTo c measured = (c, false) ∨
      ∃ target, c.currentFps < target ∧ target ≤ c.configuredFps ∧
        raiseTo c measured =
          ({ c with currentFps := target, lowerStreak := 0, changes := c.changes + 1 }, true) := by
  unfold raiseTo
  dsimp only
  generalize htarget : (if measured > c.configuredFps then c.configuredFps else measured) = target
  have hle : target ≤ c.configuredFps := by
    subst htarget
    split <;> omega
  by_cases hstay : target ≤ c.currentFps + c.currentFps * kHysteresisPercent / 100
  · exact Or.inl (if_pos hstay)
  · exact Or.inr ⟨target, by omega, hle, if_neg hstay⟩

theorem evaluate_cases (measured : Nat) :
    (∃ target, c.currentFps < target ∧ target ≤ c.configuredFps ∧
        evaluate c measured =
          ({ c with currentFps := target, lowerStreak := 0, changes := c.changes + 1 }, true)) ∨
      (slow c.currentFps (clamped c measured) = true ∧ 1 ≤ c.lowerStreak ∧
        evaluate c measured = ({ c with
              currentFps := clamped c measured, lowerStreak := 0, changes := c.changes + 1 },
            true)) ∨
      (slow c.currentFps (clamped c measured) = true ∧ c.lowerStreak = 0 ∧
        evaluate c measured = ({ c with lowerStreak := 1 }, false)) ∨
      evaluate c measured = ({ c with lowerStreak := 0 }, false) := by
  unfold evaluate
  dsimp only
  rcases raiseTo_cases c (clamped c measured) with hsame | ⟨target, hmore, hle, hraised⟩
  · rw [hsame]
    simp only [Bool.false_eq_true, if_false]
    by_cases hslow : slow c.currentFps (clamped c measured) = true
    · rw [if_pos hslow]
      by_cases hstreak : kLowerAfterWindows ≤ c.lowerStreak + 1
      · rw [if_pos hstreak]
        unfold kLowerAfterWindows at hstreak
        exact Or.inr (Or.inl ⟨hslow, by omega, rfl⟩)
      · rw [if_neg hstreak]
        unfold kLowerAfterWindows at hstreak
        obtain hzero : c.lowerStreak = 0 := by omega
        exact Or.inr (Or.inr (Or.inl ⟨hslow, hzero, by rw [hzero]⟩))
    · rw [if_neg hslow]
      exact Or.inr (Or.inr (Or.inr rfl))
  · rw [hraised]
    exact Or.inl ⟨target, hmore, hle, rfl⟩

theorem kMinFps_le_clamped (measured : Nat) : kMinFps ≤ clamped c measured := by
  unfold clamped
  dsimp only
  generalize (if measured > c.configuredFps then c.configuredFps else measured) = target
  split <;> omega

theorem lt_of_slow {current target : Nat} (h : slow current target = true) : target < current := by
  have hlt := of_decide_eq_true h
  omega

theorem quickLook_cases (nowUs : Int) :
    ((quickLook c nowUs).1.configuredFps = c.configuredFps ∧
        (quickLook c nowUs).1.encoderFps = c.encoderFps) ∧
      (((quickLook c nowUs).2 = false ∧ (quickLook c nowUs).1.currentFps = c.currentFps ∧
          (quickLook c nowUs).1.lowerStreak = c.lowerStreak) ∨
        ((quickLook c nowUs).2 = true ∧ c.currentFps < (quickLook c nowUs).1.currentFps ∧
          (quickLook c nowUs).1.currentFps ≤ c.configuredFps ∧
          (quickLook c nowUs).1.lowerStreak = 0)) := by
  unfold quickLook
  dsimp only
  split
  case isFalse => exact ⟨⟨rfl, rfl⟩, Or.inl ⟨rfl, rfl, rfl⟩⟩
  case isTrue =>
      generalize hcounted : ({ c with
        framesInWindow := c.framesInWindow + 1
        raiseWindowStartUs := nowUs
        framesInRaiseWindow := 0 } : Cadence) = counted
      have hsame : counted.configuredFps = c.configuredFps ∧
          counted.encoderFps = c.encoderFps ∧ counted.currentFps = c.currentFps ∧
          counted.lowerStreak = c.lowerStreak := by
        subst hcounted
        exact ⟨rfl, rfl, rfl, rfl⟩
      obtain ⟨hconfigured, hencoder, hcurrent, hstreak⟩ := hsame
      rcases raiseTo_cases counted
          (ratePerSecond (c.framesInRaiseWindow + 1) (nowUs - c.raiseWindowStartUs))
        with hstay | ⟨target, hmore, hle, hraised⟩
      · rw [hstay]
        exact ⟨⟨hconfigured, hencoder⟩, Or.inl ⟨rfl, hcurrent, hstreak⟩⟩
      · rw [hraised]
        rw [hcurrent] at hmore
        rw [hconfigured] at hle
        exact ⟨⟨hconfigured, hencoder⟩, Or.inr ⟨rfl, hmore, hle, rfl⟩⟩

variable {c : Cadence}

theorem bounded_quickLook (h : Bounded c) (nowUs : Int) :
    Bounded (quickLook c nowUs).1 := by
  obtain ⟨⟨hconfigured, -⟩, hsame | hraised⟩ := quickLook_cases c nowUs
  · exact h.same hsame.2.1 hconfigured
  · obtain ⟨-, hmore, hle, -⟩ := hraised
    have hlower := h.lower
    exact ⟨by rw [hconfigured]; omega, by rw [hconfigured]; exact hle,
      by rw [hconfigured]; exact h.positive⟩

theorem bounded_evaluate (h : Bounded c) (measured : Nat) :
    Bounded (evaluate c measured).1 := by
  have hlower := h.lower
  have hupper := h.upper
  rcases evaluate_cases c measured with
    ⟨target, hmore, hle, heq⟩ | ⟨hslow, -, heq⟩ | ⟨-, -, heq⟩ | heq
  · rw [heq]
    exact ⟨by dsimp only; omega, hle, h.positive⟩
  · rw [heq]
    have hmin := kMinFps_le_clamped c measured
    have hlt := lt_of_slow hslow
    exact ⟨by dsimp only; omega, by dsimp only; omega, h.positive⟩
  · rw [heq]
    exact h.same rfl rfl
  · rw [heq]
    exact h.same rfl rfl

theorem bounded_noteFrame (h : Bounded c) (nowUs : Int) :
    Bounded (noteFrame c nowUs).1 := by
  have hlooked := bounded_quickLook h nowUs
  unfold noteFrame
  dsimp only
  split
  case isTrue => exact hlooked
  case isFalse =>
      refine bounded_evaluate ?_ _
      exact hlooked.same rfl rfl

theorem bounded_call (h : Bounded c) (a : Call) : Bounded (call c a) := by
  cases a with
  | start fps nowUs =>
    unfold call start
    dsimp only
    constructor
    · exact Nat.min_le_right ..
    · exact Nat.le_refl _
    · dsimp only
      split <;> omega
  | retarget fps =>
    unfold call retarget
    dsimp only
    split
    case isTrue => exact h
    case isFalse hnew =>
        have hpositive : 0 < fps.toNat := by omega
        exact ⟨Nat.min_le_right .., Nat.le_refl _, hpositive⟩
  | noteFrame nowUs => exact bounded_noteFrame h nowUs

/-- A streak of one is the last window closed, slow against the rate still held. -/
structure Streak (c : Cadence) (windows : List Window) : Prop where
  atMost : c.lowerStreak ≤ 1
  last : c.lowerStreak = 1 → ∃ earlier w, windows = earlier ++ [w] ∧ w.Slow ∧
    w.rate = c.currentFps

theorem Streak.broken (h : c.lowerStreak = 0) (windows : List Window) :
    Streak c windows :=
  ⟨by omega, fun hone => by omega⟩

/-- The last two windows closed were slow against the rate before. -/
def TwoSlow (windows : List Window) (rate : Nat) : Prop :=
  ∃ earlier first second, windows = earlier ++ [first, second] ∧ first.Slow ∧ second.Slow ∧
    first.rate = rate ∧ second.rate = rate

/-- Closing a window: the streak is kept, and the rate falls on the second slow one. -/
theorem noteFrame_streak {windows : List Window} (h : Streak c windows) (nowUs : Int) :
    Streak (noteFrame c nowUs).1 (windows ++ closes c nowUs) ∧
      ((noteFrame c nowUs).1.currentFps < c.currentFps →
        TwoSlow (windows ++ closes c nowUs) c.currentFps) := by
  obtain ⟨-, hlook⟩ := quickLook_cases c nowUs
  have hlooked : Streak (quickLook c nowUs).1 windows ∧
      c.currentFps ≤ (quickLook c nowUs).1.currentFps ∧
      (1 ≤ (quickLook c nowUs).1.lowerStreak →
        (quickLook c nowUs).1.currentFps = c.currentFps) := by
    rcases hlook with ⟨-, hcurrent, hstreak⟩ | ⟨-, hmore, -, hzero⟩
    · refine ⟨⟨hstreak ▸ h.atMost, ?_⟩, by omega, fun _ => hcurrent⟩
      intro hone
      rw [hcurrent]
      exact h.last (hstreak ▸ hone)
    · exact ⟨Streak.broken hzero windows, by omega, by omega⟩
  obtain ⟨hstreak, hle, hheld⟩ := hlooked
  unfold noteFrame closes
  dsimp only
  split
  case isTrue =>
      rw [List.append_nil]
      exact ⟨hstreak, by omega⟩
  case isFalse =>
      dsimp only
      generalize hclosing : ({ (quickLook c nowUs).1 with
        windowStartUs := nowUs, framesInWindow := 0 } : Cadence) = closing
      have hsame : closing.currentFps = (quickLook c nowUs).1.currentFps ∧
          closing.lowerStreak = (quickLook c nowUs).1.lowerStreak ∧
          ∀ m, clamped closing m = clamped (quickLook c nowUs).1 m := by
        subst hclosing
        exact ⟨rfl, rfl, fun _ => rfl⟩
      obtain ⟨hcurrent, hcount, hclamped⟩ := hsame
      generalize ratePerSecond (quickLook c nowUs).1.framesInWindow
        (nowUs - (quickLook c nowUs).1.windowStartUs) = measured
      rcases evaluate_cases closing measured with
        ⟨target, hmore, -, heq⟩ | ⟨hslow, hone, heq⟩ | ⟨hslow, hzero, heq⟩ | heq
      · rw [heq]
        exact ⟨Streak.broken rfl _, by dsimp only; omega⟩
      · rw [hclamped, hcurrent] at hslow
        rw [hcount] at hone
        have hrate := hheld hone
        have hatMost := hstreak.atMost
        obtain ⟨earlier, w, hwindows, hw, hwrate⟩ := hstreak.last (by omega)
        rw [heq]
        refine ⟨Streak.broken rfl _, fun _ => ?_⟩
        refine ⟨earlier, w, ⟨(quickLook c nowUs).1.currentFps,
          clamped (quickLook c nowUs).1 measured⟩, ?_, hw, hslow, hwrate.trans hrate, hrate⟩
        rw [hwindows, List.append_assoc]
        rfl
      · rw [hclamped, hcurrent] at hslow
        rw [heq]
        refine ⟨⟨Nat.le_refl _, fun _ => ⟨windows, _, rfl, hslow, hcurrent.symm⟩⟩, ?_⟩
        dsimp only
        omega
      · rw [heq]
        refine ⟨Streak.broken rfl _, ?_⟩
        dsimp only
        omega

theorem streak_advance {s : Cadence × List Window} (h : Streak s.1 s.2) (a : Call) :
    Streak (advance s a).1 (advance s a).2 := by
  cases a with
  | start fps nowUs => exact Streak.broken rfl _
  | retarget fps =>
    unfold advance call retarget
    dsimp only
    split
    case isTrue => exact h
    case isFalse => exact Streak.broken rfl _
  | noteFrame nowUs => exact (noteFrame_streak h nowUs).1

theorem scaledKbps_same {c c' : Cadence} (hcurrent : c'.currentFps = c.currentFps)
    (hencoder : c'.encoderFps = c.encoderFps) (kbps : Int) :
    scaledKbps c' kbps = scaledKbps c kbps := by
  unfold scaledKbps
  rw [hcurrent, hencoder]

theorem noteFrame_unchanged {nowUs : Int} (h : (noteFrame c nowUs).2 = false) :
    (noteFrame c nowUs).1.currentFps = c.currentFps ∧
      (noteFrame c nowUs).1.encoderFps = c.encoderFps := by
  obtain ⟨⟨-, hencoder⟩, hlook⟩ := quickLook_cases c nowUs
  unfold noteFrame at h ⊢
  dsimp only at h ⊢
  split at h
  case isTrue hopen =>
      rw [if_pos hopen]
      rcases hlook with ⟨-, hcurrent, -⟩ | ⟨hraised, -⟩
      · exact ⟨hcurrent, hencoder⟩
      · exact absurd (hraised.symm.trans h) (by simp)
  case isFalse hclosed =>
      rw [if_neg hclosed]
      dsimp only at h ⊢
      rw [Bool.or_eq_false_iff] at h
      rcases hlook with ⟨-, hcurrent, -⟩ | ⟨hraised, -⟩
      · generalize hclosing : ({ (quickLook c nowUs).1 with
          windowStartUs := nowUs, framesInWindow := 0 } : Cadence) = closing at h ⊢
        have hsame : closing.currentFps = c.currentFps ∧ closing.encoderFps = c.encoderFps := by
          subst hclosing
          exact ⟨hcurrent, hencoder⟩
        generalize ratePerSecond (quickLook c nowUs).1.framesInWindow
          (nowUs - (quickLook c nowUs).1.windowStartUs) = measured at h ⊢
        rcases evaluate_cases closing measured with
          ⟨target, -, -, heq⟩ | ⟨-, -, heq⟩ | ⟨-, -, heq⟩ | heq
        · exact absurd h.1 (by rw [heq]; simp)
        · exact absurd h.1 (by rw [heq]; simp)
        · rw [heq]
          exact hsame
        · rw [heq]
          exact hsame
      · exact absurd (hraised.symm.trans h.2) (by simp)

theorem retarget_unchanged {fps : Int} (h : (retarget c fps).2 = false) :
    scaledKbps (retarget c fps).1 1000000 = scaledKbps c 1000000 := by
  unfold retarget at h ⊢
  split at h
  case isTrue hsame => rw [if_pos hsame]
  case isFalse hnew =>
      rw [if_neg hnew]
      simpa using h

/-- Rates a display can have: one to a thousand frames a second. -/
def Common (rate : Nat) : Prop :=
  1 ≤ rate ∧ rate ≤ 1000

theorem scaled_lt {encoder few many : Nat} (hencoder : Common encoder) (hfew : Common few)
    (hmany : Common many) (h : few < many) :
    1000000 * encoder / many < 1000000 * encoder / few := by
  obtain ⟨he, -⟩ := hencoder
  obtain ⟨hf, -⟩ := hfew
  obtain ⟨hm, hm'⟩ := hmany
  generalize hq : 1000000 * encoder / many = q
  have hdiv : q * many ≤ 1000000 * encoder := hq ▸ Nat.div_mul_le_self ..
  have hbig : 1000 ≤ q := by
    rw [← hq, Nat.le_div_iff_mul_le (by omega)]
    nlinarith
  have hnext : (q + 1) * few ≤ 1000000 * encoder := by
    nlinarith
  exact (Nat.le_div_iff_mul_le hf).mpr hnext

theorem scaledKbps_common (hencoder : Common c.encoderFps) (hcurrent : Common c.currentFps) :
    scaledKbps c 1000000 = ((1000000 * c.encoderFps / c.currentFps : Nat) : Int) := by
  obtain ⟨he, he'⟩ := hencoder
  obtain ⟨hc, hc'⟩ := hcurrent
  unfold scaledKbps
  by_cases hsame : c.currentFps = c.encoderFps
  · rw [if_pos (Or.inr hsame), hsame, Nat.mul_div_cancel _ (by omega)]
    rfl
  · rw [if_neg (by omega)]
    have htdiv : ((1000000 : Int) * c.encoderFps).tdiv c.currentFps =
        ((1000000 * c.encoderFps / c.currentFps : Nat) : Int) := by
      exact_mod_cast Int.ofNat_tdiv (1000000 * c.encoderFps) c.currentFps
    have hsmall : 1000000 * c.encoderFps / c.currentFps ≤ 1000000000 := by
      refine (Nat.div_le_self ..).trans ?_
      omega
    rw [htdiv]
    generalize 1000000 * c.encoderFps / c.currentFps = scaled at hsmall
    rw [toInt, Int.bmod_eq_of_le]
    all_goals omega

/-- With common rates a retarget that reports no change leaves every bitrate alone. -/
theorem retarget_unchanged_common {fps : Int} (hencoder : Common c.encoderFps)
    (hcurrent : Common c.currentFps) (hfps : Common fps.toNat)
    (h : (retarget c fps).2 = false) (kbps : Int) :
    scaledKbps (retarget c fps).1 kbps = scaledKbps c kbps := by
  have hsame := retarget_unchanged h
  unfold retarget at hsame ⊢
  split at hsame
  case isTrue hstay => rw [if_pos hstay]
  case isFalse hnew =>
      rw [if_neg hnew]
      have hmoved := scaledKbps_common (c := moveTo c fps.toNat) hencoder hfps
      have hbefore := scaledKbps_common hencoder hcurrent
      have hquotients : 1000000 * c.encoderFps / fps.toNat =
          1000000 * c.encoderFps / c.currentFps := by
        exact_mod_cast hmoved.symm.trans (hsame.trans hbefore)
      have heq : (moveTo c fps.toNat).currentFps = c.currentFps := by
        rcases Nat.lt_trichotomy fps.toNat c.currentFps with hlt | heq | hlt
        · have := scaled_lt hencoder hfps hcurrent hlt
          omega
        · exact heq
        · have := scaled_lt hencoder hcurrent hfps hlt
          omega
      exact scaledKbps_same heq rfl kbps

theorem bounded_run : Bounded (run calls).1 := by
  induction calls using List.reverseRecOn with
  | nil => exact ⟨by decide, by decide, by decide⟩
  | append_singleton calls a ih =>
    rw [run_snoc]
    exact bounded_call ih a

theorem streak_run : Streak (run calls).1 (run calls).2 := by
  induction calls using List.reverseRecOn with
  | nil => exact Streak.broken rfl _
  | append_singleton calls a ih =>
    rw [run_snoc]
    exact streak_advance ih a

def LowersOnTwo : Prop :=
  ∀ nowUs, (run (calls ++ [.noteFrame nowUs])).1.currentFps < (run calls).1.currentFps →
    TwoSlow (run (calls ++ [.noteFrame nowUs])).2 (run calls).1.currentFps

/-- A frame that reports no change leaves every bitrate alone; a retarget leaves the one it
compares alone, and every one where the rates are common. -/
structure Reports (calls : List Call) : Prop where
  frame : ∀ nowUs, (noteFrame (run calls).1 nowUs).2 = false →
    ∀ kbps, scaledKbps (noteFrame (run calls).1 nowUs).1 kbps = scaledKbps (run calls).1 kbps
  compared : ∀ fps, (retarget (run calls).1 fps).2 = false →
    scaledKbps (retarget (run calls).1 fps).1 1000000 = scaledKbps (run calls).1 1000000
  common : ∀ fps, (retarget (run calls).1 fps).2 = false →
    Common (run calls).1.encoderFps → Common (run calls).1.currentFps → Common fps.toNat →
      ∀ kbps, scaledKbps (retarget (run calls).1 fps).1 kbps = scaledKbps (run calls).1 kbps

end MoonlightWeb.NativeHost.EffectiveCadence
