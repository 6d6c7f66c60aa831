import Mathlib
import MoonlightWeb.Lib.Run

/-! # `JitterController`

The target of the receiver's jitter buffer, moved once a tick by cumulative statistics, in
exact arithmetic and with the default tunables.
-/

namespace MoonlightWeb.Frontend.JitterController
open Lib

def MIN : ℚ := 0
def MAX : ℚ := 200
def JITTER_K : ℚ := 5 / 2
def RTT_K : ℚ := 3 / 2
def BUMP_FREEZE : ℚ := 50
def BUMP_LOSS : ℚ := 30
def LOSS_HI : ℚ := 2 / 100
def LOSS_LO : ℚ := 3 / 1000
def JITTER_LO : ℚ := 8
def EWMA_ALPHA : ℚ := 3 / 10
def CLEAN_HOLD : Nat := 5
def DECAY_STEP : ℚ := 10
def DEADBAND : ℚ := 15

/-- The statistics of a tick. A field that is missing reads as zero. -/
structure Raw where
  packetsLost : Option ℚ := none
  packetsReceived : Option ℚ := none
  freezeCount : Option ℚ := none
  jitterMs : Option ℚ := none
  rttMs : Option ℚ := none

structure Controller where
  targetMs : ℚ := MIN
  lastCommanded : ℚ := MIN
  jitterEwma : ℚ := 0
  cleanTicks : Nat := 0
  prevPacketsLost : ℚ := 0
  prevPacketsReceived : ℚ := 0
  prevFreezeCount : ℚ := 0
  primed : Bool := false

namespace Controller

variable (c : Controller)

def dLost (raw : Raw) : ℚ :=
  max 0 (raw.packetsLost.getD 0 - c.prevPacketsLost)

def dRecv (raw : Raw) : ℚ :=
  max 0 (raw.packetsReceived.getD 0 - c.prevPacketsReceived)

def freezes (raw : Raw) : ℚ :=
  max 0 (raw.freezeCount.getD 0 - c.prevFreezeCount)

def lossRate (raw : Raw) : ℚ :=
  if c.dLost raw + c.dRecv raw > 0 then c.dLost raw / (c.dLost raw + c.dRecv raw) else 0

def smoothed (raw : Raw) : ℚ :=
  EWMA_ALPHA * raw.jitterMs.getD 0 + (1 - EWMA_ALPHA) * c.jitterEwma

def desired (c : Controller) (raw : Raw) : ℚ :=
  let desired := JITTER_K * c.smoothed raw
  let desired :=
    if c.lossRate raw > LOSS_LO then max desired (RTT_K * raw.rttMs.getD 0) else desired
  let desired :=
    if c.freezes raw > 0 then max desired (c.targetMs + BUMP_FREEZE)
    else if c.lossRate raw > LOSS_HI then max desired (c.targetMs + BUMP_LOSS)
    else desired
  max MIN (min MAX desired)

/-- The ticks of calm, when the target does not rise. -/
def calmTicks (raw : Raw) : Nat :=
  if c.freezes raw = 0 ∧ c.lossRate raw < LOSS_LO ∧ c.smoothed raw < JITTER_LO then c.cleanTicks + 1
  else 0

/-- The target and the ticks of calm after the tick. -/
def moved (raw : Raw) : ℚ × Nat :=
  if c.desired raw > c.targetMs then (c.desired raw, 0)
  else if c.calmTicks raw ≥ CLEAN_HOLD then (max MIN (c.targetMs - DECAY_STEP), c.calmTicks raw)
  else (c.targetMs, c.calmTicks raw)

/-- The values a tick remembers whatever it commands. -/
def remember (raw : Raw) : Controller :=
  { c with
    prevPacketsLost := raw.packetsLost.getD 0
    prevPacketsReceived := raw.packetsReceived.getD 0
    prevFreezeCount := raw.freezeCount.getD 0
    primed := true }

def update (raw : Raw) : Controller × Option ℚ :=
  if c.primed = false then (c.remember raw, none)
  else
    let c' : Controller :=
      { c.remember raw with
        jitterEwma := c.smoothed raw
        targetMs := (c.moved raw).1
        cleanTicks := (c.moved raw).2 }
    let settledToMin := c'.targetMs = MIN ∧ c'.lastCommanded > MIN
    if |c'.targetMs - c'.lastCommanded| ≥ DEADBAND ∨ settledToMin then
      ({ c' with lastCommanded := c'.targetMs }, some c'.targetMs)
    else (c', none)

end Controller

/-- A controller, and the target its receiver holds: the last one it was commanded. -/
structure Link where
  controller : Controller := {}
  commanded : ℚ := MIN

def Link.tick (l : Link) (raw : Raw) : Link :=
  let (controller, command) := l.controller.update raw
  ⟨controller, command.getD l.commanded⟩

/-- What a tick past the first leaves: a target that covers the smoothed jitter as far as it
may, and a receiver that is not left behind. -/
def Covers (l : Link) (_ : Raw) (l' : Link) : Prop :=
  l.controller.primed = true →
    min MAX (JITTER_K * l'.controller.jitterEwma) ≤ l'.controller.targetMs ∧
      l'.controller.targetMs ≤ MAX ∧
      |l'.commanded - l'.controller.targetMs| < DEADBAND ∧
      (l'.controller.targetMs = MIN → l'.commanded = MIN)

/-- A tick that lowers the target leaves it no lower than the smoothed jitter asks for. -/
def DecaysAbove (l : Link) (raw : Raw) (_ : Link) : Prop :=
  l.controller.primed = true → l.controller.desired raw ≤ l.controller.targetMs →
    CLEAN_HOLD ≤ l.controller.calmTicks raw →
    JITTER_K * l.controller.smoothed raw ≤ max MIN (l.controller.targetMs - DECAY_STEP)

structure Sane (l : Link) : Prop where
  held : l.commanded = l.controller.lastCommanded
  min_le : MIN ≤ l.controller.targetMs
  le_max : l.controller.targetMs ≤ MAX
  min_le_last : MIN ≤ l.controller.lastCommanded
  close : |l.controller.targetMs - l.controller.lastCommanded| < DEADBAND
  settled : l.controller.targetMs = MIN → l.controller.lastCommanded = MIN

namespace Controller
variable (c : Controller) (raw : Raw)

theorem min_le_desired : MIN ≤ c.desired raw := le_max_left _ _

theorem desired_le_max : c.desired raw ≤ MAX :=
  max_le (by decide) (min_le_left _ _)

theorem jitter_le_desired : min MAX (JITTER_K * c.smoothed raw) ≤ c.desired raw := by
  unfold desired
  refine le_max_of_le_right (min_le_min_left MAX ?_)
  split_ifs <;> simp only [le_max_iff, le_refl, true_or]

variable {c} {raw}

theorem moved_within (hmin : MIN ≤ c.targetMs) (hmax : c.targetMs ≤ MAX) :
    MIN ≤ (c.moved raw).1 ∧ (c.moved raw).1 ≤ MAX := by
  unfold moved
  split_ifs
  · exact ⟨c.min_le_desired raw, c.desired_le_max raw⟩
  · have hstep : (0 : ℚ) ≤ DECAY_STEP := by decide
    exact ⟨le_max_left _ _, max_le (by decide) (by linarith)⟩
  · exact ⟨hmin, hmax⟩

theorem covers_iff :
    min MAX (JITTER_K * c.smoothed raw) ≤ (c.moved raw).1 ↔
      (c.desired raw ≤ c.targetMs → CLEAN_HOLD ≤ c.calmTicks raw →
        JITTER_K * c.smoothed raw ≤ max MIN (c.targetMs - DECAY_STEP)) := by
  have hdesired := c.jitter_le_desired raw
  unfold moved
  by_cases hrise : c.desired raw > c.targetMs
  · rw [if_pos hrise]
    exact ⟨fun _ hle => absurd hle (not_le.mpr hrise), fun _ => hdesired⟩
  · rw [if_neg hrise]
    have hle := not_lt.mp hrise
    by_cases hcalm : c.calmTicks raw ≥ CLEAN_HOLD
    · -- a tick that decays is calm, so the smoothed jitter asks for less than the maximum
      have hlow : JITTER_K * c.smoothed raw ≤ MAX := by
        unfold calmTicks at hcalm
        split_ifs at hcalm with hclean
        · have hjitter : c.smoothed raw < 8 := hclean.2.2
          unfold JITTER_K MAX
          linarith
        · exact absurd hcalm (by decide)
      rw [if_pos hcalm, min_eq_right hlow]
      exact ⟨fun h _ _ => h, fun h => h hle hcalm⟩
    · rw [if_neg hcalm]
      exact ⟨fun _ _ h => absurd h hcalm, fun _ => hdesired.trans hle⟩

end Controller

section
variable {l : Link} {raw : Raw}

theorem tick_unprimed (h : l.controller.primed = false) :
    l.tick raw = ⟨l.controller.remember raw, l.commanded⟩ := by
  unfold Link.tick Controller.update
  rw [if_pos h]
  rfl

/-- A tick past the first moves target and jitter, and commands the target or leaves it. -/
theorem tick_primed (h : l.controller.primed = true) :
    (l.tick raw).controller.targetMs = (l.controller.moved raw).1 ∧
      (l.tick raw).controller.jitterEwma = l.controller.smoothed raw ∧
      ((l.tick raw).controller.lastCommanded = (l.controller.moved raw).1 ∧
          (l.tick raw).commanded = (l.controller.moved raw).1 ∨
        (l.tick raw).controller.lastCommanded = l.controller.lastCommanded ∧
          (l.tick raw).commanded = l.commanded ∧
          |(l.controller.moved raw).1 - l.controller.lastCommanded| < DEADBAND ∧
          ((l.controller.moved raw).1 = MIN → l.controller.lastCommanded ≤ MIN)) := by
  unfold Link.tick Controller.update
  rw [if_neg (by rw [h]; exact Bool.noConfusion)]
  dsimp only [Controller.remember]
  by_cases hpush : |(l.controller.moved raw).1 - l.controller.lastCommanded| ≥ DEADBAND ∨
      (l.controller.moved raw).1 = MIN ∧ l.controller.lastCommanded > MIN
  · rw [if_pos hpush]
    exact ⟨rfl, rfl, Or.inl ⟨rfl, rfl⟩⟩
  · rw [if_neg hpush]
    rw [not_or, not_le, not_and, not_lt] at hpush
    exact ⟨rfl, rfl, Or.inr ⟨rfl, rfl, hpush.1, hpush.2⟩⟩

theorem Sane.tick (h : Sane l) : Sane (l.tick raw) := by
  cases hprimed : l.controller.primed with
  | false =>
    rw [tick_unprimed hprimed]
    exact ⟨h.held, h.min_le, h.le_max, h.min_le_last, h.close, h.settled⟩
  | true =>
    obtain ⟨htarget, -, hcommand⟩ := @tick_primed l raw hprimed
    have hwithin := @Controller.moved_within l.controller raw h.min_le h.le_max
    rw [← htarget] at hwithin hcommand
    rcases hcommand with ⟨hlast, hheld⟩ | ⟨hlast, hheld, hclose, hsettled⟩
    · refine ⟨hheld.trans hlast.symm, hwithin.1, hwithin.2, ?_, ?_, fun hmin => hlast.trans hmin⟩
      · rw [hlast]
        exact hwithin.1
      · rw [hlast, sub_self, abs_zero]
        decide
    · refine ⟨?_, hwithin.1, hwithin.2, ?_, ?_, ?_⟩
      · rw [hheld, hlast, h.held]
      · rw [hlast]
        exact h.min_le_last
      · rw [hlast]
        exact hclose
      · intro hmin
        rw [hlast]
        exact le_antisymm (hsettled hmin) h.min_le_last

theorem tick_covers_iff (h : Sane l) :
    Covers l raw (l.tick raw) ↔ DecaysAbove l raw (l.tick raw) := by
  refine forall_congr' (fun hprimed => ?_)
  obtain ⟨htarget, hjitter, -⟩ := @tick_primed l raw hprimed
  rw [← Controller.covers_iff, hjitter, ← htarget]
  have hsane : Sane (l.tick raw) := h.tick
  constructor
  · exact fun hcovers => hcovers.1
  · refine fun hcovers => ⟨hcovers, hsane.le_max, ?_, ?_⟩
    · rw [hsane.held, abs_sub_comm]
      exact hsane.close
    · rw [hsane.held]
      exact hsane.settled

end

/-- From the start, every tick past the first covers the jitter exactly when no tick decays
below it. -/
theorem covers_run_iff (ticks : List Raw) :
    EachStep (handles Link.tick) Covers {} ticks ↔
      EachStep (handles Link.tick) DecaysAbove {} ticks := by
  have hclose : |MIN - MIN| < DEADBAND := by
    rw [sub_self, abs_zero]
    decide
  have hstart : Sane {} := ⟨rfl, le_rfl, by decide, le_rfl, hclose, fun _ => rfl⟩
  refine @eachStep_iff _ _ (handles Link.tick) _ Sane (fun _ => True) Covers DecaysAbove ?_ ?_ ?_
    hstart trivial ticks
  · rintro l raw l' h rfl
    exact h.tick
  · exact fun _ _ _ _ _ => trivial
  · rintro l raw l' h - rfl
    exact tick_covers_iff h

/-- Jitter of 20 ms once and of 6 ms from then on: the fifth calm tick decays the target
under what the smoothed jitter of 6 ms asks for. -/
theorem decays_below_jitter :
    ¬ ∀ ticks, EachStep (handles Link.tick) Covers {} ticks := by
  intro hall
  let jitter : ℚ → Raw := fun ms => { jitterMs := some ms }
  have hlast := hall ([jitter 0, jitter 20, jitter 6, jitter 6, jitter 6, jitter 6] ++ [jitter 6])
    [jitter 0, jitter 20, jitter 6, jitter 6, jitter 6, jitter 6] (jitter 6) [] _ _ rfl
    ((run_handles_iff Link.tick {} _ _).mpr rfl) rfl
  have hprimed : (([jitter 0, jitter 20, jitter 6, jitter 6, jitter 6, jitter 6].foldl Link.tick
      {}).controller.primed) = true := by decide +kernel
  exact absurd (hlast hprimed).1 (by decide +kernel)

end MoonlightWeb.Frontend.JitterController
