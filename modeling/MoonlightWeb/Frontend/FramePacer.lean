import MoonlightWeb.Lib.Throttle

/-! # `FramePacer`

The presentation reserve, moved by the late tail of the frames' transit delays, in exact
arithmetic and with the default tunables.
-/

namespace MoonlightWeb.Frontend.FramePacer

open List
open Lib

def MIN : ℚ := 0
def MAX : ℚ := 25
def QUANTILE : ℚ := 95 / 100
def SAFETY : ℚ := 115 / 100
def WINDOW_MS : ℚ := 2000
def MAX_SAMPLES : Nat := 256
def CONTROL_INTERVAL_MS : ℚ := 100
def DECAY_INTERVAL_MS : ℚ := 250
def DECAY_STEP : ℚ := 2
def BUMP_UNDERRUN : ℚ := 8
def DEADBAND : ℚ := 3
def DRIFT_PER_FRAME : ℚ := 5 / 100
def RESYNC_MS : ℚ := 500
def SLACK_MS : ℚ := 2

structure Sample where
  t : ℚ
  excess : ℚ

structure Pacer where
  primed : Bool := false
  baseline : ℚ := 0
  targetMs : ℚ := MIN
  samples : List Sample := []
  lastControl : ℚ := 0
  lastDecay : ℚ := 0
  lateTail : ℚ := 0
  lastExcess : ℚ := 0
  underruns : Nat := 0
  held : Nat := 0

open Pacer

/-- A call of `schedule`. A stamp that is no number is a missing one. -/
structure Call where
  backendTs : Option ℚ
  now : ℚ

/-- The capture stamp the pacer goes by. -/
def Call.stamp (call : Call) : Option ℚ :=
  call.backendTs.filter (0 < ·)

namespace Pacer

variable (p : Pacer)

/-- The quantile of the excesses in the window. -/
def tail : ℚ :=
  let n := p.samples.length
  let v := (p.samples.map (·.excess)).insertionSort (· ≤ ·)
  v[min (n - 1) ⌊(n : ℚ) * QUANTILE⌋₊]?.getD 0

/-- Steps the reserve up after a frame that was later than all of it. -/
def noteUnderrun : Pacer :=
  let justified := p.tail * SAFETY
  let desired := min MAX (min (p.targetMs + BUMP_UNDERRUN) justified)
  { p with
    underruns := p.underruns + 1
    targetMs := if desired > p.targetMs then desired else p.targetMs }

/-- The reserve and the time of the last decay step, as a control tick moves them. -/
def moved (now desired : ℚ) : ℚ × ℚ :=
  if desired > p.targetMs then (desired, now)
  else if now - p.lastDecay ≥ DECAY_INTERVAL_MS then
    (max MIN (max desired (p.targetMs - DECAY_STEP)), now)
  else (p.targetMs, p.lastDecay)

def control (now : ℚ) : Pacer :=
  if now - p.lastControl < CONTROL_INTERVAL_MS then p
  else
    let desired := min MAX (p.tail * SAFETY)
    let target := (p.moved now desired).1
    { p with
      lastControl := now
      lateTail := p.tail
      lastDecay := (p.moved now desired).2
      targetMs := if target < DEADBAND then MIN else target }

/-- The first frame, or one whose delay is far from the baseline. -/
def Discontinuous (delay : ℚ) : Prop :=
  p.primed = false ∨ |delay - p.baseline| > RESYNC_MS

instance (p : Pacer) (delay : ℚ) : Decidable (p.Discontinuous delay) :=
  inferInstanceAs (Decidable (_ ∨ _))

def rebase (delay now : ℚ) : Pacer :=
  { p with
    primed := true
    baseline := delay
    samples := []
    lastControl := now
    lastDecay := now
    lateTail := 0
    lastExcess := 0 }

/-- The samples of the window that ends now, the newest `MAX_SAMPLES` of them. -/
def inWindow (now : ℚ) (samples : List Sample) : List Sample :=
  let recent := samples.dropWhile fun s => s.t < now - WINDOW_MS
  recent.drop (recent.length - MAX_SAMPLES)

def drifted (delay : ℚ) : ℚ :=
  min delay (p.baseline + DRIFT_PER_FRAME)

def excess (delay : ℚ) : ℚ :=
  delay - p.drifted delay

def measure (delay now : ℚ) : Pacer :=
  { p with
    baseline := p.drifted delay
    lastExcess := p.excess delay
    samples := inWindow now (p.samples ++ [⟨now, p.excess delay⟩]) }

/-- The pacer the deadline of a frame is computed by. -/
def paced (delay now : ℚ) : Pacer :=
  (p.measure delay now).control now

/-- The wait for a frame, and the account of it. -/
def present (now : ℚ) : Pacer × ℚ :=
  let wait := p.targetMs - p.lastExcess
  let deadline := if wait > SLACK_MS then now + wait else now
  let p := if wait > SLACK_MS then { p with held := p.held + 1 } else p
  let p := if p.targetMs > 0 ∧ p.lastExcess > p.targetMs then p.noteUnderrun else p
  (p, deadline)

def schedule (call : Call) : Pacer × ℚ :=
  match call.stamp with
  | none => (p, call.now)
  | some backendTs =>
      let delay := call.now - backendTs
      if p.Discontinuous delay then (p.rebase delay call.now, call.now)
      else (p.paced delay call.now).present call.now

def serve (call : Call) : Pacer :=
  (p.schedule call).1

def inForce (call : Call) : ℚ :=
  match call.stamp with
  | none => p.targetMs
  | some backendTs =>
      let delay := call.now - backendTs
      if p.Discontinuous delay then p.targetMs else (p.paced delay call.now).targetMs

end Pacer

def InRange (reserve : ℚ) : Prop :=
  reserve = 0 ∨ DEADBAND ≤ reserve ∧ reserve ≤ MAX

/-- What holds of one call: the reserve is in range before and after an underrun, the
deadline is not before now nor later than the reserve allows, and an underrun raises the
reserve no higher than the tail justifies. -/
structure Sound (p : Pacer) (call : Call) (p' : Pacer) : Prop where
  inForce : InRange (p.inForce call)
  reserve : InRange p'.targetMs
  now_le : call.now ≤ (p.schedule call).2
  le_reserve : (p.schedule call).2 ≤ call.now + p.inForce call
  underrun : p.inForce call < p'.targetMs → p'.targetMs ≤ SAFETY * p'.tail

theorem InRange.nonneg {reserve : ℚ} (h : InRange reserve) : 0 ≤ reserve := by
  rcases h with rfl | ⟨hlow, -⟩
  · exact le_refl 0
  · exact le_trans (by decide) hlow

theorem InRange.le_max {reserve : ℚ} (h : InRange reserve) : reserve ≤ MAX := by
  rcases h with rfl | ⟨-, hhigh⟩
  · decide
  · exact hhigh

theorem inRange_snapped {target : ℚ} (h : target ≤ MAX) :
    InRange (if target < DEADBAND then MIN else target) := by
  by_cases hsmall : target < DEADBAND
  · rw [if_pos hsmall]
    exact .inl rfl
  · rw [if_neg hsmall]
    exact .inr ⟨not_lt.mp hsmall, h⟩

/-- A stamped call finds no discontinuity, and leaves a tail that asks for at most `d`. -/
def Quiet (d : ℚ) (p : Pacer) (call : Call) (p' : Pacer) : Prop :=
  ∀ backendTs, call.stamp = some backendTs →
    ¬ p.Discontinuous (call.now - backendTs) ∧ SAFETY * p'.tail ≤ d

def stampedTimes (calls : List Call) : List ℚ :=
  (calls.filter fun call => call.stamp.isSome).map (·.now)

/-- The calls after a point in time, from the pacer the calls before it left: between the
point and an end they are quiet, and the stamped ones are at most `g` apart. -/
structure Calm (d g start finish : ℚ) (p : Pacer) (calls : List Call) : Prop where
  start_le : ∀ call ∈ calls, start ≤ call.now
  start_le_finish : start ≤ finish
  quiet : EachStep (handles serve) (Quiet d) p calls
  apart : Throttle.Apart g start finish (stampedTimes calls)

/-- Above what the tail asks for and the deadband, the reserve does not rise. -/
def NeverRises (d : ℚ) (p : Pacer) (_ : Call) (p' : Pacer) : Prop :=
  max d DEADBAND < p.targetMs → p'.targetMs ≤ p.targetMs

/-- The reserve at the end of a span is at most `d`, or a decay step lower than at its
beginning. The span begins at `a`, after the calls `visited`, and `rest` comes after it. -/
def FallsInSpans (d g start finish : ℚ) (p : Pacer) (calls : List Call) : Prop :=
  ∀ visited span rest a, calls = visited ++ span ++ rest → start ≤ a →
    a + (CONTROL_INTERVAL_MS + DECAY_INTERVAL_MS + g) ≤ finish →
    (∀ call ∈ visited, call.now ≤ a) →
    (∀ call ∈ rest, a + (CONTROL_INTERVAL_MS + DECAY_INTERVAL_MS + g) ≤ call.now) →
    let first := visited.foldl serve p
    let last := span.foldl serve first
    last.targetMs ≤ d ∨ last.targetMs ≤ first.targetMs - DECAY_STEP

namespace Pacer
variable {p : Pacer} {now desired delay d : ℚ} {call : Call}

/-- A control tick raises the reserve, decays it, or leaves it until the next decay step. -/
theorem moved_cases (p : Pacer) (now desired : ℚ) :
    (p.targetMs < desired ∧ p.moved now desired = (desired, now)) ∨
      (desired ≤ p.targetMs ∧
        p.moved now desired = (max MIN (max desired (p.targetMs - DECAY_STEP)), now)) ∨
      (now - p.lastDecay < DECAY_INTERVAL_MS ∧
        p.moved now desired = (p.targetMs, p.lastDecay)) := by
  unfold moved
  by_cases hrise : desired > p.targetMs
  · exact .inl ⟨hrise, if_pos hrise⟩
  · rw [if_neg hrise]
    by_cases hdue : now - p.lastDecay ≥ DECAY_INTERVAL_MS
    · exact .inr (.inl ⟨not_lt.mp hrise, if_pos hdue⟩)
    · exact .inr (.inr ⟨not_le.mp hdue, if_neg hdue⟩)

theorem moved_le (hp : p.targetMs ≤ MAX) (hdesired : desired ≤ MAX) :
    (p.moved now desired).1 ≤ MAX := by
  rcases p.moved_cases now desired with ⟨-, hrise⟩ | ⟨-, hdecay⟩ | ⟨-, hkeep⟩
  · rw [hrise]
    exact hdesired
  · rw [hdecay]
    have hstep : (0 : ℚ) ≤ DECAY_STEP := by decide
    exact max_le (by decide) (max_le hdesired (by linarith))
  · rw [hkeep]
    exact hp

theorem control_inRange (hp : InRange p.targetMs) : InRange (p.control now).targetMs := by
  unfold control
  split
  · exact hp
  · exact inRange_snapped (moved_le hp.le_max (min_le_left _ _))

/-- An underrun steps the reserve up as far as the tail justifies, or leaves it. -/
theorem noteUnderrun_target (p : Pacer) :
    p.noteUnderrun.targetMs = p.targetMs ∨
      p.targetMs < p.noteUnderrun.targetMs ∧ p.noteUnderrun.targetMs ≤ MAX ∧
        p.noteUnderrun.targetMs ≤ SAFETY * p.tail := by
  unfold noteUnderrun
  simp only
  split
  case isTrue hup =>
    refine .inr ⟨hup, min_le_left _ _, ?_⟩
    rw [mul_comm]
    exact (min_le_right _ _).trans (min_le_right _ _)
  case isFalse => exact .inl rfl

/-- After the deadline is computed, an underrun of a reserve that is not zero may step it
up. -/
theorem present_target (p : Pacer) (now : ℚ) :
    (p.present now).1.targetMs = p.targetMs ∨
      0 < p.targetMs ∧ p.targetMs < (p.present now).1.targetMs ∧
        (p.present now).1.targetMs ≤ MAX ∧ (p.present now).1.targetMs ≤ SAFETY * p.tail := by
  set q : Pacer := if p.targetMs - p.lastExcess > SLACK_MS then { p with held := p.held + 1 } else p
    with hq
  have htarget : q.targetMs = p.targetMs := by
    rw [hq]
    split <;> rfl
  have htail : q.tail = p.tail := by
    rw [hq]
    split <;> rfl
  have hpresent : (p.present now).1 =
      if q.targetMs > 0 ∧ q.lastExcess > q.targetMs then q.noteUnderrun else q := rfl
  rw [hpresent]
  split
  case isTrue hunder =>
    have := q.noteUnderrun_target
    rw [htarget, htail] at this
    rw [htarget] at hunder
    rcases this with hsame | hup
    · exact .inl hsame
    · exact .inr ⟨hunder.1, hup⟩
  case isFalse => exact .inl htarget

theorem present_frame (p : Pacer) (now : ℚ) :
    (p.present now).1.lastControl = p.lastControl ∧ (p.present now).1.lastDecay = p.lastDecay ∧
      (p.present now).1.samples = p.samples := by
  simp only [present, noteUnderrun]
  refine ⟨?_, ?_, ?_⟩ <;> split <;> split <;> rfl

theorem tail_congr {p p' : Pacer} (h : p'.samples = p.samples) : p'.tail = p.tail := by
  unfold tail
  rw [h]

theorem present_deadline (hreserve : 0 ≤ p.targetMs) (hexcess : 0 ≤ p.lastExcess) :
    now ≤ (p.present now).2 ∧ (p.present now).2 ≤ now + p.targetMs := by
  have hslack : (0 : ℚ) < SLACK_MS := by decide
  simp only [present]
  split
  case isTrue hwait =>
    constructor
    · linarith
    · linarith
  case isFalse =>
    constructor
    · exact le_refl now
    · linarith

theorem control_frame (p : Pacer) (now : ℚ) :
    (p.control now).samples = p.samples ∧ (p.control now).lastExcess = p.lastExcess := by
  unfold control
  split <;> exact ⟨rfl, rfl⟩

theorem excess_nonneg (p : Pacer) (delay : ℚ) : 0 ≤ p.excess delay :=
  sub_nonneg.mpr (min_le_left _ _)

theorem measure_samples (p : Pacer) (delay now : ℚ) : (p.measure delay now).samples =
    inWindow now (p.samples ++ [⟨now, p.excess delay⟩]) := by
  simp only [measure]

theorem mem_of_mem_inWindow {samples : List Sample} {s : Sample} (h : s ∈ inWindow now samples) :
    s ∈ samples := by
  simp only [inWindow] at h
  have hrecent := mem_of_mem_drop h
  exact (dropWhile_suffix _).subset hrecent

structure Sane (p : Pacer) : Prop where
  reserve : InRange p.targetMs
  excess : ∀ s ∈ p.samples, 0 ≤ s.excess

theorem sane_paced (h : p.Sane) (delay now : ℚ) : (p.paced delay now).Sane where
  reserve := control_inRange h.reserve
  excess := by
    intro s hs
    unfold paced at hs
    rw [(control_frame _ _).1, measure_samples] at hs
    rcases mem_append.mp (mem_of_mem_inWindow hs) with hold | hnew
    · exact h.excess s hold
    · obtain rfl := mem_singleton.mp hnew
      exact p.excess_nonneg delay

theorem sane_present (h : p.Sane) (now : ℚ) : (p.present now).1.Sane where
  reserve := by
    rcases p.present_target now with hsame | ⟨hpos, hup, hmax, -⟩
    · rw [hsame]
      exact h.reserve
    · rcases h.reserve with hzero | ⟨hlow, -⟩
      · exact absurd hpos (by simp [hzero])
      · exact .inr ⟨hlow.trans hup.le, hmax⟩
  excess := by
    rw [(p.present_frame now).2.2]
    exact h.excess

/-- A call without a stamp changes nothing, one at a discontinuity starts over, and any
other is paced and presented. -/
theorem schedule_cases (p : Pacer) (call : Call) :
    (call.stamp = none ∧ p.schedule call = (p, call.now) ∧ p.inForce call = p.targetMs) ∨
      ∃ backendTs, call.stamp = some backendTs ∧
        ((p.Discontinuous (call.now - backendTs) ∧
            p.schedule call = (p.rebase (call.now - backendTs) call.now, call.now) ∧
            p.inForce call = p.targetMs) ∨
          (¬ p.Discontinuous (call.now - backendTs) ∧
            p.schedule call = (p.paced (call.now - backendTs) call.now).present call.now ∧
            p.inForce call = (p.paced (call.now - backendTs) call.now).targetMs)) := by
  unfold schedule inForce
  cases hstamp : call.stamp with
  | none => exact .inl ⟨rfl, rfl, rfl⟩
  | some backendTs =>
    refine .inr ⟨backendTs, rfl, ?_⟩
    by_cases hfar : p.Discontinuous (call.now - backendTs)
    · exact .inl ⟨hfar, if_pos hfar, if_pos hfar⟩
    · exact .inr ⟨hfar, if_neg hfar, if_neg hfar⟩

theorem sane_serve (h : p.Sane) (call : Call) : (p.serve call).Sane := by
  unfold serve
  rcases p.schedule_cases call with ⟨-, hsame, -⟩ | ⟨ts, -, ⟨-, hfar, -⟩ | ⟨-, hnear, -⟩⟩
  · rw [hsame]
    exact h
  · rw [hfar]
    exact ⟨h.reserve, by simp [rebase]⟩
  · rw [hnear]
    exact sane_present (sane_paced h _ _) _

/-- A call that is presented at once and leaves the reserve is sound. -/
theorem sound_of_unmoved (h : p.Sane) {p' : Pacer} (hschedule : p.schedule call = (p', call.now))
    (hforce : p.inForce call = p.targetMs) (hkept : p'.targetMs = p.targetMs) :
    Sound p call (p.serve call) := by
  have hserve : p.serve call = p' := congrArg Prod.fst hschedule
  have hdeadline : (p.schedule call).2 = call.now := congrArg Prod.snd hschedule
  have hnonneg := h.reserve.nonneg
  rw [hserve]
  exact {
    inForce := hforce ▸ h.reserve
    reserve := hkept ▸ h.reserve
    now_le := hdeadline.ge
    le_reserve := by
      rw [hdeadline, hforce]
      linarith
    underrun := fun hup => by
      rw [hforce, hkept] at hup
      exact absurd hup (lt_irrefl _) }

theorem sound_serve (h : p.Sane) (call : Call) : Sound p call (p.serve call) := by
  rcases p.schedule_cases call with
    ⟨-, hsame, hforce⟩ | ⟨ts, -, ⟨-, hfar, hforce⟩ | ⟨-, hnear, hforce⟩⟩
  · exact sound_of_unmoved h hsame hforce rfl
  · exact sound_of_unmoved h hfar hforce rfl
  · set q := p.paced (call.now - ts) call.now with hq
    have hsane : q.Sane := sane_paced h _ _
    have hexcess : 0 ≤ q.lastExcess := by
      rw [hq, paced, (control_frame _ _).2]
      exact excess_nonneg _ _
    have hdeadline : call.now ≤ (q.present call.now).2 ∧
        (q.present call.now).2 ≤ call.now + q.targetMs :=
      present_deadline hsane.reserve.nonneg hexcess
    have hserve : p.serve call = (q.present call.now).1 := congrArg Prod.fst hnear
    rw [hserve]
    constructor
    case inForce => exact hforce ▸ hsane.reserve
    case reserve => exact (sane_present hsane _).reserve
    case now_le => exact hnear ▸ hdeadline.1
    case le_reserve =>
      rw [hnear, hforce]
      exact hdeadline.2
    case underrun =>
      intro hup
      rw [hforce] at hup
      rcases q.present_target call.now with hsame | ⟨-, -, -, hjustified⟩
      · exact absurd hup (by simp [hsame])
      · rwa [tail_congr (q.present_frame call.now).2.2]

end Pacer

namespace Pacer
variable {p : Pacer} {now delay d : ℚ} {call : Call}

/-- The reserve with its two clocks. -/
def gauge (p : Pacer) : Throttle.Gauge ℚ :=
  ⟨p.targetMs, p.lastControl, p.lastDecay⟩

@[simp] theorem gauge_level (p : Pacer) : p.gauge.level = p.targetMs := rfl

/-- What a stamped call does to the reserve when the tail asks for at most `d`. -/
def Lowers (d : ℚ) : Throttle.Gauge ℚ → ℚ → Throttle.Gauge ℚ → Prop :=
  Throttle.Descends CONTROL_INTERVAL_MS DECAY_INTERVAL_MS DECAY_STEP d

theorem tail_nonneg (h : p.Sane) : 0 ≤ p.tail := by
  unfold tail
  simp only
  set v := (p.samples.map (·.excess)).insertionSort (· ≤ ·)
  set k := min (p.samples.length - 1) ⌊(p.samples.length : ℚ) * QUANTILE⌋₊
  cases hk : v[k]? with
  | none => exact le_refl _
  | some x =>
    have hx : x ∈ p.samples.map (·.excess) :=
      (mem_insertionSort _).mp (mem_of_getElem? hk)
    obtain ⟨s, hs, rfl⟩ := mem_map.mp hx
    exact h.excess s hs

theorem control_lowers (hd : 0 ≤ d) (htail : SAFETY * p.tail ≤ d) :
    Lowers d p.gauge now (p.control now).gauge := by
  have hdesired : min MAX (p.tail * SAFETY) ≤ d := by
    rw [mul_comm] at htail
    exact (min_le_right _ _).trans htail
  -- The snap to zero does not lift the reserve above `d`.
  have hsnap : ∀ target bound : ℚ, target ≤ max d bound →
      (if target < DEADBAND then MIN else target) ≤ max d bound := by
    intro target bound h
    split
    · exact hd.trans (le_max_left _ _)
    · exact h
  by_cases hearly : now - p.lastControl < CONTROL_INTERVAL_MS
  · have hsame : p.control now = p := if_pos hearly
    rw [hsame]
    exact {
      level_le := le_max_right _ _
      dropped_le := .inl rfl
      early := fun _ => ⟨rfl, rfl⟩
      late := fun hlate => absurd hearly (not_lt.mpr hlate) }
  · set desired := min MAX (p.tail * SAFETY) with hdef
    have hgauge : (p.control now).gauge =
        ⟨if (p.moved now desired).1 < DEADBAND then MIN else (p.moved now desired).1, now,
          (p.moved now desired).2⟩ := by
      unfold control
      rw [if_neg hearly]
      rfl
    have hcontrol : CONTROL_INTERVAL_MS ≤ now - p.lastControl := not_lt.mp hearly
    rw [hgauge]
    rcases p.moved_cases now desired with ⟨-, hrise⟩ | ⟨-, hdecay⟩ | ⟨hrecent, hkeep⟩
    · rw [hrise]
      have hlow : ∀ bound : ℚ, desired ≤ max d bound :=
        fun bound => hdesired.trans (le_max_left _ _)
      exact {
        level_le := hsnap _ _ (hlow _)
        dropped_le := .inr rfl
        early := fun hless => absurd hless hearly
        late := fun _ => ⟨rfl, .inl (hsnap _ _ (hlow _))⟩ }
    · rw [hdecay]
      have hlow : max MIN (max desired (p.targetMs - DECAY_STEP)) ≤
          max d (p.targetMs - DECAY_STEP) :=
        max_le (hd.trans (le_max_left _ _)) (max_le_max_right _ hdesired)
      have hstep : p.targetMs - DECAY_STEP ≤ p.targetMs := by
        have : (0 : ℚ) ≤ DECAY_STEP := by decide
        linarith
      exact {
        level_le := hsnap _ _ (hlow.trans (max_le_max_left _ hstep))
        dropped_le := .inr rfl
        early := fun hless => absurd hless hearly
        late := fun _ => ⟨rfl, .inl (hsnap _ _ hlow)⟩ }
    · rw [hkeep]
      exact {
        level_le := hsnap _ _ (le_max_right _ _)
        dropped_le := .inl rfl
        early := fun hless => absurd hless hearly
        late := fun _ => ⟨rfl, .inr ⟨hrecent, rfl⟩⟩ }

theorem serve_lowers (h : p.Sane) {backendTs : ℚ} (hstamp : call.stamp = some backendTs)
    (hquiet : Quiet d p call (p.serve call)) : Lowers d p.gauge call.now (p.serve call).gauge := by
  obtain ⟨hnear, htail⟩ := hquiet backendTs hstamp
  have hd : 0 ≤ d := by
    have hsafety : (0 : ℚ) ≤ SAFETY := by decide +kernel
    exact (mul_nonneg hsafety (tail_nonneg (sane_serve h call))).trans htail
  set q := p.measure (call.now - backendTs) call.now with hq
  have hserve : p.serve call = ((q.control call.now).present call.now).1 := by
    unfold serve schedule
    rw [hstamp]
    simp only [if_neg hnear]
    rfl
  obtain ⟨hcontrol, hdecay, hsamples⟩ := (q.control call.now).present_frame call.now
  have hqtail : SAFETY * q.tail ≤ d := by
    rw [hserve, tail_congr hsamples, tail_congr (control_frame _ _).1] at htail
    exact htail
  have hlevel : ((q.control call.now).present call.now).1.targetMs ≤
      max d (q.control call.now).targetMs := by
    rcases (q.control call.now).present_target call.now with hsame | ⟨-, -, -, hjustified⟩
    · rw [hsame]
      exact le_max_right _ _
    · rw [tail_congr (control_frame q _).1] at hjustified
      exact (hjustified.trans hqtail).trans (le_max_left _ _)
  have hgauge : (p.serve call).gauge =
      { (q.control call.now).gauge with
        level := ((q.control call.now).present call.now).1.targetMs } := by
    rw [hserve]
    unfold gauge
    rw [hcontrol, hdecay]
  rw [hgauge]
  have hmeasured : q.gauge = p.gauge := rfl
  rw [← hmeasured]
  exact (control_lowers hd hqtail).adjusted hlevel

theorem serve_of_unstamped (hstamp : call.stamp = none) : p.serve call = p := by
  unfold serve schedule
  rw [hstamp]

theorem serve_not_rising (h : p.Sane) (hquiet : Quiet d p call (p.serve call)) :
    NeverRises d p call (p.serve call) := by
  intro habove
  cases hstamp : call.stamp with
  | none => rw [serve_of_unstamped hstamp]
  | some backendTs =>
    have hle : (p.serve call).targetMs ≤ max d p.targetMs :=
      (serve_lowers h hstamp hquiet).level_le
    rwa [max_eq_right ((le_max_left _ _).trans habove.le)] at hle

theorem sane_start : ({} : Pacer).Sane where
  reserve := .inl rfl
  excess := by simp

theorem sane_foldl (h : p.Sane) (calls : List Call) : (calls.foldl serve p).Sane := by
  induction calls generalizing p with
  | nil => exact h
  | cons call calls ih => exact ih (sane_serve h call)

theorem run_foldl (p : Pacer) (calls : List Call) :
    Run (handles serve) p calls (calls.foldl serve p) :=
  (run_handles_iff serve p _ calls).mpr rfl

theorem sound_run (h : p.Sane) (calls : List Call) :
    EachStep (handles serve) Sound p calls := by
  induction calls generalizing p with
  | nil => exact EachStep.nil
  | cons call calls ih =>
    exact eachStep_handles_cons.mpr ⟨sound_serve h call, ih (sane_serve h call)⟩

variable {calls : List Call}

theorem not_rising_run (h : p.Sane) (hquiet : EachStep (handles serve) (Quiet d) p calls) :
    EachStep (handles serve) (NeverRises d) p calls := by
  induction calls generalizing p with
  | nil => exact EachStep.nil
  | cons call calls ih =>
    obtain ⟨hfirst, hrest⟩ := eachStep_handles_cons.mp hquiet
    exact eachStep_handles_cons.mpr
      ⟨serve_not_rising h hfirst, ih (sane_serve h call) hrest⟩

theorem run_lowers (h : p.Sane) (hquiet : EachStep (handles serve) (Quiet d) p calls) :
    Run (Lowers d) p.gauge (stampedTimes calls) (calls.foldl serve p).gauge := by
  induction calls generalizing p with
  | nil => exact Run.nil
  | cons call calls ih =>
    obtain ⟨hfirst, hrest⟩ := eachStep_handles_cons.mp hquiet
    have hrun := ih (sane_serve h call) hrest
    cases hstamp : call.stamp with
    | none =>
      rw [serve_of_unstamped hstamp] at hrun
      simpa [stampedTimes, hstamp, serve_of_unstamped hstamp] using hrun
    | some backendTs =>
      have hstep := serve_lowers h hstamp hfirst
      simpa [stampedTimes, hstamp] using Run.cons hstep hrun

theorem primed_of_quiet (hquiet : EachStep (handles serve) (Quiet d) p calls) (hcall : call ∈ calls)
    (hstamp : call.stamp.isSome) : p.primed = true := by
  induction calls generalizing p with
  | nil => simp at hcall
  | cons first calls ih =>
    obtain ⟨hfirst, hrest⟩ := eachStep_handles_cons.mp hquiet
    cases hts : first.stamp with
    | none =>
      rw [serve_of_unstamped hts] at hrest
      rcases mem_cons.mp hcall with rfl | hlater
      · simp [hts] at hstamp
      · exact ih hrest hlater
    | some backendTs =>
      by_contra hprimed
      exact (hfirst backendTs hts).1 (.inl (Bool.eq_false_iff.mpr hprimed))

/-- The clocks of a primed pacer are not ahead of the calls. -/
theorem clocks_foldl (h : p.Sane) (hclocks : p.primed = true → p.gauge.Behind now)
    (hcalls : ∀ call ∈ calls, call.now ≤ now)
    (hprimed : (calls.foldl serve p).primed = true) : (calls.foldl serve p).gauge.Behind now := by
  induction calls generalizing p with
  | nil => exact hclocks hprimed
  | cons call calls ih =>
    refine ih (sane_serve h call) ?_ (fun c hc => hcalls c (mem_cons_of_mem _ hc)) hprimed
    have hnow : call.now ≤ now := hcalls call (mem_cons_self ..)
    intro hnext
    rcases p.schedule_cases call with ⟨hstamp, -⟩ | ⟨ts, hstamp, ⟨-, hfar, -⟩ | ⟨hnear, -⟩⟩
    · rw [serve_of_unstamped hstamp] at hnext ⊢
      exact hclocks hnext
    · unfold serve
      rw [hfar]
      exact ⟨hnow, hnow⟩
    · have hquiet : Quiet (SAFETY * (p.serve call).tail) p call (p.serve call) := by
        intro ts' hts'
        obtain rfl : ts = ts' := Option.some.inj (hstamp.symm.trans hts')
        exact ⟨hnear, le_refl _⟩
      have hp : p.primed = true := by
        by_contra hunprimed
        exact hnear (.inl (Bool.eq_false_iff.mpr hunprimed))
      exact (serve_lowers h hstamp hquiet).behind (hclocks hp) hnow

end Pacer

variable {calls : List Call}

/-- A stamped call falls late enough in a span of calm calls. -/
theorem Calm.exists_late {d g start finish a : ℚ} {p : Pacer}
    (h : Calm d g start finish p calls) (ha : start ≤ a)
    (hend : a + (CONTROL_INTERVAL_MS + DECAY_INTERVAL_MS + g) ≤ finish) :
    ∃ call ∈ calls, call.stamp.isSome ∧ a + DECAY_INTERVAL_MS + CONTROL_INTERVAL_MS ≤ call.now ∧
      call.now < a + (CONTROL_INTERVAL_MS + DECAY_INTERVAL_MS + g) := by
  have hpos : (0 : ℚ) < DECAY_INTERVAL_MS + CONTROL_INTERVAL_MS := by decide +kernel
  obtain ⟨y, hy, hlate, hsoon⟩ :=
    h.apart.exists_between (x := a + DECAY_INTERVAL_MS + CONTROL_INTERVAL_MS) (by linarith)
      (by linarith)
  obtain ⟨call, hcall, rfl⟩ := mem_map.mp hy
  obtain ⟨hmem, hstamp⟩ := mem_filter.mp hcall
  exact ⟨call, hmem, hstamp, hlate, by linarith⟩

theorem Calm.falls {d g start finish : ℚ} {p : Pacer}
    (h : Calm d g start finish p calls) (hsane : p.Sane)
    (hclocks : p.primed = true → p.gauge.Behind start) :
    FallsInSpans d g start finish p calls := by
  intro visited span rest a hcalls ha hend hvisited hrest
  simp only
  obtain ⟨call, hcall, hstamp, hlate, hsoon⟩ := h.exists_late ha hend
  have hperiod : (0 : ℚ) < DECAY_INTERVAL_MS := by decide
  have htick : (0 : ℚ) < CONTROL_INTERVAL_MS := by decide
  have hspan : call ∈ span := by
    rw [hcalls] at hcall
    rcases mem_append.mp hcall with hearly | hafter
    · rcases mem_append.mp hearly with hbefore | hin
      · have := hvisited call hbefore
        linarith
      · exact hin
    · have := hrest call hafter
      linarith
  have hquiet := h.quiet
  rw [hcalls] at hquiet
  have hquiet := (hquiet.take rfl).drop (run_foldl p visited)
  have hfirst : (visited.foldl serve p).gauge.Behind a := by
    refine clocks_foldl hsane ?_ hvisited (primed_of_quiet hquiet hspan hstamp)
    intro hprimed
    exact ⟨(hclocks hprimed).1.trans ha, (hclocks hprimed).2.trans ha⟩
  have hy : call.now ∈ stampedTimes span :=
    mem_map.mpr ⟨call, mem_filter.mpr ⟨hspan, hstamp⟩, rfl⟩
  have hlow := Throttle.lowered hperiod (by decide) htick.le hfirst
    (run_lowers (sane_foldl hsane visited) hquiet) hy hlate
  exact le_max_iff.mp hlow

/-- Calm calls lower the reserve by a decay step in every span. -/
theorem Calm.falls_by_spans {d g start finish : ℚ} {p : Pacer}
    (h : Calm d g start finish p calls) (hsane : p.Sane)
    (hclocks : p.primed = true → p.gauge.Behind start) (n : Nat)
    (hend : start + n * (CONTROL_INTERVAL_MS + DECAY_INTERVAL_MS + g) ≤ finish) :
    (calls.foldl serve p).targetMs ≤ max d (p.targetMs - n * DECAY_STEP) := by
  have hperiod : (0 : ℚ) < DECAY_INTERVAL_MS := by decide
  have htick : (0 : ℚ) < CONTROL_INTERVAL_MS := by decide
  have hrun := run_lowers hsane h.quiet
  cases n with
  | zero => simpa using Throttle.level_le hrun
  | succ n =>
    have hgap : 0 ≤ g := by
      refine h.apart.gap_nonneg ?_ h.start_le_finish
      intro z hz
      obtain ⟨call, hcall, rfl⟩ := mem_map.mp hz
      exact h.start_le call (mem_filter.mp hcall).1
    have hone : start + (CONTROL_INTERVAL_MS + DECAY_INTERVAL_MS + g) ≤ finish := by
      refine le_trans ?_ hend
      push_cast
      have : 0 ≤ (n : ℚ) * (CONTROL_INTERVAL_MS + DECAY_INTERVAL_MS + g) := by positivity
      linarith
    obtain ⟨call, hcall, hstamp, -⟩ := h.exists_late (le_refl start) hone
    have hbehind := hclocks (primed_of_quiet h.quiet hcall hstamp)
    have hend : start + (n + 1) •
        (DECAY_INTERVAL_MS + CONTROL_INTERVAL_MS + g) ≤ finish := by
      rw [nsmul_eq_mul, add_comm DECAY_INTERVAL_MS]
      exact hend
    simpa [nsmul_eq_mul] using
      Throttle.lowered_by_spans hperiod (by decide) htick.le hgap hbehind hrun h.apart
        (n + 1) hend

/-- The reserve is in range after every call, no deadline is early or later than the reserve
allows, and an underrun raises the reserve no higher than the tail justifies. From any point
after which the calls are calm, the reserve does not rise above what the tail asks for and
the deadband, and falls in every span, so that it cannot stay above `d`. -/
theorem reserve_follows_tail (calls : List Call) :
    EachStep (handles serve) Sound {} calls ∧
      ∀ before after d g start finish, calls = before ++ after →
        (∀ call ∈ before, call.now ≤ start) →
        Calm d g start finish (before.foldl serve {}) after →
        EachStep (handles serve) (NeverRises d) (before.foldl serve {}) after ∧
          FallsInSpans d g start finish (before.foldl serve {}) after ∧
          ∀ n : Nat, start + n * (CONTROL_INTERVAL_MS + DECAY_INTERVAL_MS + g) ≤ finish →
            (calls.foldl serve {}).targetMs ≤
              max d ((before.foldl serve {}).targetMs - n * DECAY_STEP) := by
  refine ⟨sound_run sane_start calls, ?_⟩
  intro before after d g start finish hcalls hbefore hcalm
  have hsane := sane_foldl sane_start before
  have hclocks : (before.foldl serve {}).primed = true →
      (before.foldl serve {}).gauge.Behind start :=
    clocks_foldl sane_start (by simp) hbefore
  refine ⟨not_rising_run hsane hcalm.quiet, hcalm.falls hsane hclocks, ?_⟩
  intro n hend
  rw [hcalls, List.foldl_append]
  exact hcalm.falls_by_spans hsane hclocks n hend

/-- A frame 20 ms late, and then frames on time, 100 ms apart. -/
def lateFrame : List Call :=
  [⟨some 1000, 1000⟩, ⟨some 1080, 1100⟩, ⟨some 3200, 3200⟩]

def onTime : List Call :=
  [⟨some 3300, 3300⟩, ⟨some 3400, 3400⟩, ⟨some 3500, 3500⟩, ⟨some 3600, 3600⟩]

def afterLateFrame : Pacer :=
  lateFrame.foldl serve {}

instance (d : ℚ) (p : Pacer) (call : Call) (p' : Pacer) : Decidable (Quiet d p call p') :=
  match h : call.stamp with
  | none => isTrue fun _ hts => by simp [h] at hts
  | some ts =>
      decidable_of_iff (¬ p.Discontinuous (call.now - ts) ∧ SAFETY * p'.tail ≤ d)
        ⟨fun hq ts' hts => by
            obtain rfl : ts = ts' := Option.some.inj (h.symm.trans hts)
            exact hq, fun hq => hq ts h⟩

theorem onTime_calm : Calm 0 100 3200 3650 afterLateFrame onTime where
  start_le := by decide +kernel
  start_le_finish := by decide +kernel
  quiet := by
    refine eachStep_handles_cons.mpr ⟨by decide +kernel, ?_⟩
    refine eachStep_handles_cons.mpr ⟨by decide +kernel, ?_⟩
    refine eachStep_handles_cons.mpr ⟨by decide +kernel, ?_⟩
    exact eachStep_handles_cons.mpr ⟨by decide +kernel, EachStep.nil⟩
  apart := by
    unfold Throttle.Apart
    decide +kernel

/-- The reserve a late frame leaves falls from there on. -/
theorem reserve_follows_tail_onTime :
    afterLateFrame.targetMs > 20 ∧
      (onTime.foldl serve afterLateFrame).targetMs ≤
        afterLateFrame.targetMs - DECAY_STEP := by
  refine ⟨by decide +kernel, ?_⟩
  have hfall := ((reserve_follows_tail (lateFrame ++ onTime)).2 lateFrame onTime 0 100 3200 3650 rfl
    (by decide +kernel) onTime_calm).2.1 [] onTime [] 3200 rfl (by decide +kernel)
    (by decide +kernel) (by simp) (by simp)
  refine hfall.resolve_left ?_
  decide +kernel

end MoonlightWeb.Frontend.FramePacer
