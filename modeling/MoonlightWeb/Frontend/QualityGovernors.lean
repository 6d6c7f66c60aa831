import MoonlightWeb.Lib.ShyRecovery

/-! # `DecodeRateGovernor` and `EnhancerGovernor`

The two governors that give up quality under pressure: frames a second of the host, and
rungs of the enhancer's ladder. Both recover shyly, by clocks of the same kind.
-/

namespace MoonlightWeb.Frontend.QualityGovernors
open Lib Lib.ShyRecovery

/-- `x > 0 ? x : 0`, where what is missing is not above zero. -/
def positive (x : Option ℚ) : ℚ :=
  match x with
  | some x => if x > 0 then x else 0
  | none => 0

namespace DecodeRate

def QUEUE_DEGRADE : ℚ := 4
def QUEUE_RECOVER : ℚ := 1
def DEGRADE_SUSTAIN_MS : ℚ := 3000
def DEGRADE_MARGIN : ℚ := 93 / 100
def RECOVER_STEP : ℚ := 1 / 10
def RECOVER_BASE_MS : ℚ := 20000
def RECOVER_MAX_MS : ℚ := 300000
def RECOVER_REGRET_MS : ℚ := 15000
def SETTLE_MS : ℚ := 2500
def FLOOR_RATIO : ℚ := 1 / 2
def FLOOR_FPS : Nat := 30

/-- `Math.round` of a number that is not negative. -/
def round (x : ℚ) : Nat := ⌊x + 1 / 2⌋.toNat

/-- A cap of 0 is none. -/
structure Governor where
  setFps : Nat
  cap : Nat := 0
  degradeSince : ℚ := 0
  recoverSince : ℚ := 0
  recoverAfterMs : ℚ := RECOVER_BASE_MS
  lastRaiseMs : ℚ := 0
  settleUntil : ℚ := 0

open Governor

/-- The viewer's setting is a whole number of frames a second. -/
def create (setFps : Int) : Governor := { setFps := if setFps > 0 then setFps.toNat else 0 }

structure Obs where
  decodeQueue : Option ℚ
  decodedFps : Option ℚ
  now : ℚ

namespace Governor

variable (g : Governor)

def current : Nat := if g.cap ≠ 0 then g.cap else g.setFps

def floor : Nat := max FLOOR_FPS (round (g.setFps * FLOOR_RATIO))

def pace (obs : Obs) : ℚ :=
  match obs.decodedFps with
  | some decodedFps => if decodedFps > 0 then min decodedFps g.current else g.current
  | none => g.current

/-- The cap a step down sets. -/
def lower (obs : Obs) : Nat :=
  max g.floor ⌊g.pace obs * DEGRADE_MARGIN⌋.toNat

def step : Nat := max 1 (round (g.setFps * RECOVER_STEP))

def higher : Nat := if g.cap + g.step ≥ g.setFps then 0 else g.cap + g.step

/-- `_set`. -/
def set (cap : Nat) (now : ℚ) : Governor × Option Nat :=
  ({ g with
      cap := cap
      degradeSince := 0
      recoverSince := 0
      settleUntil := now + SETTLE_MS }, some cap)

/-- A standing queue. -/
def pressed (obs : Obs) : Governor × Option Nat :=
  let degradeSince := if g.degradeSince = 0 then obs.now else g.degradeSince
  let held : Governor := { g with recoverSince := 0, degradeSince := degradeSince }
  if obs.now - degradeSince < DEGRADE_SUSTAIN_MS then (held, none)
  else if g.lower obs ≥ g.current then (held, none)
  else
    let recoverAfterMs :=
      if g.lastRaiseMs ≠ 0 ∧ obs.now - g.lastRaiseMs < RECOVER_REGRET_MS then
        min RECOVER_MAX_MS (g.recoverAfterMs * 2)
      else g.recoverAfterMs
    { held with recoverAfterMs := recoverAfterMs }.set (g.lower obs) obs.now

/-- A queue that does not stand. -/
def eased (obs : Obs) : Governor × Option Nat :=
  if g.cap = 0 ∨ positive obs.decodeQueue > QUEUE_RECOVER then
    ({ g with degradeSince := 0, recoverSince := 0 }, none)
  else
    let recoverSince := if g.recoverSince = 0 then obs.now else g.recoverSince
    if obs.now - recoverSince < g.recoverAfterMs then
      ({ g with degradeSince := 0, recoverSince := recoverSince }, none)
    else
      { g with lastRaiseMs := obs.now }.set g.higher obs.now

def update (obs : Obs) : Governor × Option Nat :=
  if g.setFps = 0 then (g, none)
  else if obs.now < g.settleUntil then (g, none)
  else if positive obs.decodeQueue > QUEUE_DEGRADE then g.pressed obs
  else g.eased obs

/-- A reading in the clear: taken into account, with a cap to raise and a queue about empty. -/
def clear (obs : Obs) : Bool :=
  decide (g.settleUntil ≤ obs.now ∧ g.cap ≠ 0 ∧ positive obs.decodeQueue ≤ QUEUE_RECOVER)

def StepsDown (obs : Obs) : Prop :=
  g.settleUntil ≤ obs.now ∧ positive obs.decodeQueue > QUEUE_DEGRADE ∧ g.degradeSince ≠ 0 ∧
    DEGRADE_SUSTAIN_MS ≤ obs.now - g.degradeSince ∧ g.lower obs < g.current

/-- No cap, or one between the floor and the setting. -/
def Bounds : Prop :=
  g.cap = 0 ∨ 30 ≤ g.cap ∧ g.setFps ≤ 2 * g.cap ∧ g.cap < g.setFps

end Governor

def tunables : Tunables := ⟨SETTLE_MS, RECOVER_REGRET_MS, RECOVER_MAX_MS⟩

/-- A change of the cap is a raise when it asks for more frames. -/
def moveOf (before : Governor) (after : Governor × Option Nat) : Option Move :=
  match after.2 with
  | none => none
  | some _ => if before.current < after.1.current then some .raise else some .down

def control : Control Governor Obs where
  update g obs := (g.update obs).1
  reading g obs := ⟨obs.now, g.clear obs, moveOf g (g.update obs)⟩
  timers g := ⟨g.recoverSince, g.lastRaiseMs, g.settleUntil, g.recoverAfterMs⟩

/-! ### What an update does -/

structure Sane (g : Governor) : Prop where
  bounds : g.Bounds
  uncapped : g.cap = 0 → g.recoverSince = 0

section
variable {g : Governor} {obs : Obs}

theorem half_le_floor (g : Governor) : g.setFps ≤ 2 * g.floor ∧ 30 ≤ g.floor := by
  have hround : round (g.setFps * FLOOR_RATIO) = (g.setFps + 1) / 2 := by
    have hhalf : (g.setFps : ℚ) * FLOOR_RATIO + 1 / 2 = ((g.setFps + 1 : ℕ) : ℚ) / (2 : ℕ) := by
      unfold FLOOR_RATIO
      push_cast
      ring
    rw [round, hhalf, Rat.floor_natCast_div_natCast]
    rfl
  unfold floor FLOOR_FPS
  rw [hround]
  omega

/-- A raise asks for more frames, within the setting. -/
theorem higher_spec (hs : Sane g) (hcap : g.cap ≠ 0) :
    g.current < (if g.higher ≠ 0 then g.higher else g.setFps) ∧
      (g.higher = 0 ∨ 30 ≤ g.higher ∧ g.setFps ≤ 2 * g.higher ∧ g.higher < g.setFps) := by
  obtain ⟨hlow, hhalf, hlt⟩ := hs.bounds.resolve_left hcap
  have hstep : 1 ≤ g.step := le_max_left _ _
  unfold current higher
  rw [if_pos hcap]
  by_cases hover : g.cap + g.step ≥ g.setFps
  · rw [if_pos hover, if_neg (not_not_intro rfl)]
    exact ⟨hlt, Or.inl rfl⟩
  · rw [if_neg hover, if_pos (by omega)]
    omega

theorem lower_spec (hbelow : g.lower obs < g.current) (hs : Sane g) :
    ¬ g.current < (if g.lower obs ≠ 0 then g.lower obs else g.setFps) ∧
      30 ≤ g.lower obs ∧ g.setFps ≤ 2 * g.lower obs ∧ g.lower obs < g.setFps := by
  obtain ⟨hhalf, hlow⟩ := half_le_floor g
  have hfloor : g.floor ≤ g.lower obs := le_max_left _ _
  have hcurrent : g.current ≤ g.setFps := by
    unfold current
    split_ifs with hcap
    · exact Nat.le_of_lt (hs.bounds.resolve_left hcap).2.2
    · exact le_rfl
  rw [if_pos (by omega)]
  omega

theorem update_cases (hs : Sane g) (hsettling : obs.now < g.settleUntil → g.recoverSince = 0) :
    (g.clear obs = false ∧ ¬ g.StepsDown obs ∧
      ∃ since, g.update obs = ({ g with degradeSince := since, recoverSince := 0 }, none)) ∨
    (g.clear obs = true ∧ ¬ g.StepsDown obs ∧
      g.update obs = ({ g with
        degradeSince := 0
        recoverSince := if g.recoverSince = 0 then obs.now else g.recoverSince }, none)) ∨
    (g.clear obs = true ∧ ¬ g.StepsDown obs ∧
      g.recoverAfterMs ≤ obs.now - (if g.recoverSince = 0 then obs.now else g.recoverSince) ∧
      g.update obs = { g with lastRaiseMs := obs.now }.set g.higher obs.now) ∨
    (g.clear obs = false ∧ g.StepsDown obs ∧
      ∃ since, g.update obs = { g with
        recoverSince := 0
        degradeSince := since
        recoverAfterMs :=
          if g.lastRaiseMs ≠ 0 ∧ obs.now - g.lastRaiseMs < RECOVER_REGRET_MS then
            min RECOVER_MAX_MS (g.recoverAfterMs * 2)
          else g.recoverAfterMs }.set (g.lower obs) obs.now) := by
  by_cases hset : g.setFps = 0
  · have hcap : g.cap = 0 := by
      rcases hs.bounds with hcap | ⟨-, -, hlt⟩
      · exact hcap
      · omega
    have hcurrent : g.current = 0 := by
      unfold current
      rw [if_neg (not_not_intro hcap), hset]
    refine Or.inl ⟨decide_eq_false (fun h => h.2.1 hcap), ?_, g.degradeSince, ?_⟩
    · rintro ⟨-, -, -, -, hbelow⟩
      rw [hcurrent] at hbelow
      exact Nat.not_lt_zero _ hbelow
    · rw [update, if_pos hset, ← hs.uncapped hcap]
  by_cases hnow : obs.now < g.settleUntil
  · refine Or.inl ⟨decide_eq_false (fun h => not_le.mpr hnow h.1), fun h => not_le.mpr hnow h.1,
      g.degradeSince, ?_⟩
    rw [update, if_neg hset, if_pos hnow, ← hsettling hnow]
  have hsettled := not_lt.mp hnow
  by_cases hqueue : positive obs.decodeQueue > QUEUE_DEGRADE
  · have hclear : g.clear obs = false := by
      refine decide_eq_false (fun h => absurd hqueue (not_lt.mpr (h.2.2.trans ?_)))
      decide
    have hupdate : g.update obs = g.pressed obs := by
      rw [update, if_neg hset, if_neg hnow, if_pos hqueue]
    rw [hupdate]
    unfold pressed
    dsimp only
    by_cases hsustained :
        obs.now - (if g.degradeSince = 0 then obs.now else g.degradeSince) < DEGRADE_SUSTAIN_MS
    · refine Or.inl ⟨hclear, ?_, _, by rw [if_pos hsustained]⟩
      rintro ⟨-, -, hstanding, hlong, -⟩
      rw [if_neg hstanding] at hsustained
      exact absurd hsustained (not_lt.mpr hlong)
    · rw [if_neg hsustained]
      by_cases hlower : g.lower obs ≥ g.current
      · refine Or.inl ⟨hclear, ?_, _, by rw [if_pos hlower]⟩
        exact fun h => absurd h.2.2.2.2 (not_lt.mpr hlower)
      · rw [if_neg hlower]
        refine Or.inr (Or.inr (Or.inr ⟨hclear, ⟨hsettled, hqueue, ?_⟩, _, rfl⟩))
        have hstanding : g.degradeSince ≠ 0 := by
          intro hzero
          rw [if_pos hzero, sub_self] at hsustained
          exact hsustained (by decide)
        rw [if_neg hstanding] at hsustained
        exact ⟨hstanding, not_lt.mp hsustained, not_le.mp hlower⟩
  · have hdown : ¬ g.StepsDown obs := fun h => hqueue h.2.1
    have hupdate : g.update obs = g.eased obs := by
      rw [update, if_neg hset, if_neg hnow, if_neg hqueue]
    rw [hupdate]
    unfold eased
    by_cases hidle : g.cap = 0 ∨ positive obs.decodeQueue > QUEUE_RECOVER
    · refine Or.inl ⟨decide_eq_false (fun h => ?_), hdown, 0, by rw [if_pos hidle]⟩
      rcases hidle with hcap | hfull
      · exact h.2.1 hcap
      · exact absurd hfull (not_lt.mpr h.2.2)
    · rw [if_neg hidle]
      rw [not_or, not_lt] at hidle
      have hclear : g.clear obs = true := decide_eq_true ⟨hsettled, hidle.1, hidle.2⟩
      by_cases hwait : obs.now - (if g.recoverSince = 0 then obs.now else g.recoverSince) <
          g.recoverAfterMs
      · exact Or.inr (Or.inl ⟨hclear, hdown, by rw [if_pos hwait]⟩)
      · exact Or.inr (Or.inr (Or.inl ⟨hclear, hdown, not_lt.mp hwait, by rw [if_neg hwait]⟩))

theorem update_tick {log : List Reading} (hs : Sane g)
    (hb : Books tunables log (control.timers g)) (hlast : ∀ e ∈ log, e.now ≤ obs.now) :
    Tick tunables (control.timers g) (control.reading g obs)
        (control.timers (control.update g obs)) ∧
      ((control.reading g obs).move = some .down ↔ g.StepsDown obs) ∧
      Sane (control.update g obs) := by
  have hsettling : obs.now < g.settleUntil → g.recoverSince = 0 :=
    fun hnow => hb.not_running (r := control.reading g obs) hlast hnow
  have hsettled : ∀ {b}, g.clear obs = b → b = true → g.settleUntil ≤ obs.now := by
    rintro b rfl hclear
    exact (of_decide_eq_true hclear).1
  unfold control
  dsimp only
  rcases update_cases hs hsettling with ⟨hclear, hdown, since, hupdate⟩ | ⟨hclear, hdown, hupdate⟩ |
      ⟨hclear, hdown, hwait, hupdate⟩ | ⟨hclear, hdown, since, hupdate⟩
  · rw [hupdate]
    exact ⟨Tick.lapse rfl hclear, ⟨(nomatch ·), fun h => absurd h hdown⟩, hs.bounds, fun _ => rfl⟩
  · rw [hupdate]
    have hcap := (of_decide_eq_true hclear).2.1
    exact ⟨Tick.count rfl hclear (hsettled hclear rfl), ⟨(nomatch ·), fun h => absurd h hdown⟩,
      hs.bounds, fun h => absurd h hcap⟩
  · have hcap := (of_decide_eq_true hclear).2.1
    obtain ⟨hmore, hbounds⟩ := higher_spec hs hcap
    have hmove : moveOf g (g.update obs) = some .raise := by
      rw [hupdate]
      exact if_pos hmore
    rw [hmove, hupdate]
    exact ⟨Tick.raise rfl hclear (hsettled hclear rfl) hwait,
      ⟨(nomatch ·), fun h => absurd h hdown⟩, hbounds, fun _ => rfl⟩
  · obtain ⟨hless, hbounds⟩ := lower_spec hdown.2.2.2.2 hs
    have hmove : moveOf g (g.update obs) = some .down := by
      rw [hupdate]
      exact if_neg hless
    rw [hmove, hupdate]
    exact ⟨Tick.down rfl hclear hdown.1, ⟨fun _ => hdown, fun _ => rfl⟩, Or.inr hbounds,
      fun _ => rfl⟩

end

/-- Along a run every update is as promised exactly when none charges a bet twice. -/
theorem promised_iff (setFps : Int) (readings : List Obs) :
    EachStep (moves control.observe) (control.Promised tunables Bounds)
        ⟨create setFps, []⟩ readings ↔
      EachStep (moves control.observe) (control.BetsOnce tunables StepsDown)
        ⟨create setFps, []⟩ readings := by
  have hbooks : Books tunables [] (control.timers (create setFps)) :=
    Books.start (show 0 < RECOVER_BASE_MS by decide)
      (show RECOVER_BASE_MS ≤ RECOVER_MAX_MS by decide)
  exact control.promised_iff (fun g hs => Sane.bounds hs)
    (fun g obs log hs hb _ hlast => update_tick hs hb hlast) ⟨Or.inl rfl, fun _ => rfl⟩ hbooks
    readings

end DecodeRate

namespace Enhancer

inductive Rung where
  | fsr1
  | nis
  | sgsr
  | off
  deriving DecidableEq

def ENHANCER_LADDER : List Rung := [.fsr1, .nis, .sgsr, .off]

def DEGRADE_RATIO : ℚ := 8 / 10
def DECODE_QUEUE_DEGRADE : ℚ := 4
def DECODE_QUEUE_RECOVER : ℚ := 1
def RECOVER_RATIO : ℚ := 4 / 10
def DEGRADE_SUSTAIN_MS : ℚ := 2000
def RECOVER_BASE_MS : ℚ := 15000
def RECOVER_MAX_MS : ℚ := 300000
def RECOVER_REGRET_MS : ℚ := 10000
def SETTLE_MS : ℚ := 2000
def MIN_BUDGET_MS : ℚ := 1
def MAX_BUDGET_MS : ℚ := 200

/-- `ENHANCER_LADDER.indexOf`, of a name that may be no rung. -/
def indexOf : Option Rung → Int
  | some rung => ENHANCER_LADDER.idxOf rung
  | none => -1

structure Profile where
  fixedBudgetMs : Option ℚ := none
  warmupMs : Option ℚ := none
  noRecovery : Bool := false
  startRung : Option Rung := none
  recoverAfterMs : Option ℚ := none

structure Governor where
  ceiling : Int
  level : Int
  degradeSince : ℚ := 0
  recoverSince : ℚ := 0
  recoverAfterMs : ℚ
  lastRecoveryMs : ℚ := 0
  settleUntil : ℚ := 0
  fixedBudgetMs : ℚ
  warmupMs : ℚ
  noRecovery : Bool
  firstObsMs : ℚ := 0

def create (preferred : Option Rung) (profile : Profile) : Governor :=
  let idx := indexOf preferred
  let ceiling := if idx ≥ 0 then idx else 0
  let start := indexOf profile.startRung
  { ceiling := ceiling
    level := if start > ceiling then start else ceiling
    recoverAfterMs := min RECOVER_MAX_MS (max RECOVER_BASE_MS (positive profile.recoverAfterMs))
    fixedBudgetMs := positive profile.fixedBudgetMs
    warmupMs := positive profile.warmupMs
    noRecovery := profile.noRecovery }

structure Obs where
  serviceMs : Option ℚ
  arrivalMs : Option ℚ
  decodeQueue : Option ℚ
  now : ℚ

/-- The budget and the wait of an observation that has a usable budget. -/
def Obs.usable (obs : Obs) : Option (ℚ × ℚ) :=
  match obs.arrivalMs, obs.serviceMs with
  | some budget, some wait =>
      if ¬ (budget ≥ MIN_BUDGET_MS) ∨ budget > MAX_BUDGET_MS ∨ ¬ (wait ≥ 0) then none
      else some (budget, wait)
  | _, _ => none

namespace Governor

variable (g : Governor)

/-- `level`, the algo the renderer should run. -/
def rung : Option Rung := ENHANCER_LADDER[g.level.toNat]?

def lapse : Governor := { g with degradeSince := 0, recoverSince := 0 }

/-- The governor with the time of its first observation. -/
def warmed (now : ℚ) : Governor :=
  if g.warmupMs > 0 ∧ g.firstObsMs = 0 then { g with firstObsMs := now } else g

def Warming (now : ℚ) : Prop :=
  g.warmupMs > 0 ∧ now - (g.warmed now).firstObsMs < g.warmupMs

instance (g : Governor) (now : ℚ) : Decidable (g.Warming now) := inferInstanceAs (Decidable (_ ∧ _))

def degradeAbove (budget : ℚ) : ℚ :=
  if g.fixedBudgetMs > 0 then g.fixedBudgetMs else budget * DEGRADE_RATIO

def recoverBelow (budget : ℚ) : ℚ :=
  if g.fixedBudgetMs > 0 then -1 else budget * RECOVER_RATIO

/-- The draw does not fit, or the decoder starves behind it. -/
def Pressed (budget wait queue : ℚ) : Prop :=
  wait > g.degradeAbove budget ∨ queue > DECODE_QUEUE_DEGRADE

instance (g : Governor) (budget wait queue : ℚ) : Decidable (g.Pressed budget wait queue) :=
  inferInstanceAs (Decidable (_ ∨ _))

def Clear (budget wait queue : ℚ) : Prop :=
  g.noRecovery = false ∧ wait < g.recoverBelow budget ∧ queue ≤ DECODE_QUEUE_RECOVER ∧
    g.level > g.ceiling

instance (g : Governor) (budget wait queue : ℚ) : Decidable (g.Clear budget wait queue) :=
  inferInstanceAs (Decidable (_ ∧ _))

/-- Under pressure. -/
def degrade (now : ℚ) : Governor × Option Rung :=
  let degradeSince := if g.degradeSince = 0 then now else g.degradeSince
  let held : Governor := { g with recoverSince := 0, degradeSince := degradeSince }
  if now - degradeSince < DEGRADE_SUSTAIN_MS then (held, none)
  else if g.level ≥ ENHANCER_LADDER.length - 1 then ({ held with degradeSince := 0 }, none)
  else
    let recoverAfterMs :=
      if g.lastRecoveryMs > 0 ∧ now - g.lastRecoveryMs < RECOVER_REGRET_MS then
        min RECOVER_MAX_MS (g.recoverAfterMs * 2)
      else g.recoverAfterMs
    let lowered : Governor :=
      { held with
        degradeSince := 0
        recoverAfterMs := recoverAfterMs
        level := g.level + 1
        settleUntil := now + SETTLE_MS }
    (lowered, lowered.rung)

/-- In the clear. -/
def recover (now : ℚ) : Governor × Option Rung :=
  let recoverSince := if g.recoverSince = 0 then now else g.recoverSince
  if now - recoverSince < g.recoverAfterMs then
    ({ g with degradeSince := 0, recoverSince := recoverSince }, none)
  else
    let raised : Governor :=
      { g with
        degradeSince := 0
        recoverSince := 0
        level := g.level - 1
        lastRecoveryMs := now
        settleUntil := now + SETTLE_MS }
    (raised, raised.rung)

def update (obs : Obs) : Governor × Option Rung :=
  match obs.usable with
  | none => (g.lapse, none)
  | some (budget, wait) =>
      if obs.now < g.settleUntil then (g.lapse, none)
      else if g.Warming obs.now then ((g.warmed obs.now).lapse, none)
      else if g.Pressed budget wait (positive obs.decodeQueue) then
        (g.warmed obs.now).degrade obs.now
      else if g.Clear budget wait (positive obs.decodeQueue) then
        (g.warmed obs.now).recover obs.now
      else ((g.warmed obs.now).lapse, none)

def Judged (obs : Obs) (budget wait : ℚ) : Prop :=
  obs.usable = some (budget, wait) ∧ g.settleUntil ≤ obs.now ∧ ¬ g.Warming obs.now

def clear (obs : Obs) : Bool :=
  match obs.usable with
  | none => false
  | some (budget, wait) =>
      decide (g.settleUntil ≤ obs.now ∧ ¬ g.Warming obs.now ∧
        ¬ g.Pressed budget wait (positive obs.decodeQueue) ∧
        g.Clear budget wait (positive obs.decodeQueue))

def StepsDown (obs : Obs) : Prop :=
  ∃ budget wait, g.Judged obs budget wait ∧ g.Pressed budget wait (positive obs.decodeQueue) ∧
    g.degradeSince ≠ 0 ∧ DEGRADE_SUSTAIN_MS ≤ obs.now - g.degradeSince ∧
    g.level < ENHANCER_LADDER.length - 1

/-- The level stays between the user's ceiling and off. -/
def Bounds : Prop :=
  0 ≤ g.ceiling ∧ g.ceiling ≤ g.level ∧ g.level ≤ indexOf (some .off)

end Governor

def tunables : Tunables := ⟨SETTLE_MS, RECOVER_REGRET_MS, RECOVER_MAX_MS⟩

/-- A change of the level is a raise when it goes up the ladder. -/
def moveOf (before : Governor) (after : Governor × Option Rung) : Option Move :=
  match after.2 with
  | none => none
  | some _ => if after.1.level < before.level then some .raise else some .down

def control : Control Governor Obs where
  update g obs := (g.update obs).1
  reading g obs := ⟨obs.now, g.clear obs, moveOf g (g.update obs)⟩
  timers g := ⟨g.recoverSince, g.lastRecoveryMs, g.settleUntil, g.recoverAfterMs⟩

/-! ### What an update does -/

structure Sane (g : Governor) : Prop where
  bounds : g.Bounds
  raised : 0 ≤ g.lastRecoveryMs

section
variable {g : Governor} {obs : Obs}

theorem warmed_eq (g : Governor) (now : ℚ) :
    ∃ first, g.warmed now = { g with firstObsMs := first } := by
  unfold Governor.warmed
  split_ifs
  · exact ⟨now, rfl⟩
  · exact ⟨g.firstObsMs, rfl⟩

theorem rung_of_level (hhigh : g.level ≤ indexOf (some .off)) :
    ∃ rung, g.rung = some rung := by
  have hlast : indexOf (some .off) = 3 := rfl
  have hlt : g.level.toNat < ENHANCER_LADDER.length := by
    show g.level.toNat < 4
    omega
  exact ⟨_, List.getElem?_eq_getElem hlt⟩

theorem judged_unique {budget wait budget' wait' : ℚ} (h : g.Judged obs budget wait)
    (husable : obs.usable = some (budget', wait')) : budget = budget' ∧ wait = wait' := by
  have hpair := Option.some.inj (h.1.symm.trans husable)
  exact ⟨congrArg Prod.fst hpair, congrArg Prod.snd hpair⟩

theorem update_cases (g : Governor) (obs : Obs) : ∃ first,
    (g.clear obs = false ∧ ¬ g.StepsDown obs ∧
      ∃ since, g.update obs =
        ({ g with firstObsMs := first, degradeSince := since, recoverSince := 0 }, none)) ∨
    (g.clear obs = true ∧ ¬ g.StepsDown obs ∧ g.settleUntil ≤ obs.now ∧
      g.update obs = ({ g with
        firstObsMs := first
        degradeSince := 0
        recoverSince := if g.recoverSince = 0 then obs.now else g.recoverSince }, none)) ∨
    (g.clear obs = true ∧ ¬ g.StepsDown obs ∧ g.settleUntil ≤ obs.now ∧ g.level > g.ceiling ∧
      g.recoverAfterMs ≤ obs.now - (if g.recoverSince = 0 then obs.now else g.recoverSince) ∧
      ∃ raised, raised = { g with
          firstObsMs := first
          degradeSince := 0
          recoverSince := 0
          level := g.level - 1
          lastRecoveryMs := obs.now
          settleUntil := obs.now + SETTLE_MS } ∧
        g.update obs = (raised, raised.rung)) ∨
    (g.clear obs = false ∧ g.StepsDown obs ∧ g.settleUntil ≤ obs.now ∧
      ∃ lowered, lowered = { g with
          firstObsMs := first
          recoverSince := 0
          degradeSince := 0
          recoverAfterMs :=
            if g.lastRecoveryMs > 0 ∧ obs.now - g.lastRecoveryMs < RECOVER_REGRET_MS then
              min RECOVER_MAX_MS (g.recoverAfterMs * 2)
            else g.recoverAfterMs
          level := g.level + 1
          settleUntil := obs.now + SETTLE_MS } ∧
        g.update obs = (lowered, lowered.rung)) := by
  cases husable : obs.usable with
  | none =>
    refine ⟨g.firstObsMs, Or.inl ⟨?_, ?_, 0, ?_⟩⟩
    · rw [Governor.clear, husable]
    · rintro ⟨budget, wait, hjudged, -⟩
      exact absurd (husable.symm.trans hjudged.1) (nomatch ·)
    · rw [Governor.update, husable]
      rfl
  | some reading =>
    obtain ⟨budget, wait⟩ := reading
    have hclear : g.clear obs = decide (g.settleUntil ≤ obs.now ∧ ¬ g.Warming obs.now ∧
        ¬ g.Pressed budget wait (positive obs.decodeQueue) ∧
        g.Clear budget wait (positive obs.decodeQueue)) := by
      rw [Governor.clear, husable]
    rw [hclear, Governor.update, husable]
    dsimp only
    by_cases hnow : obs.now < g.settleUntil
    · refine ⟨g.firstObsMs, Or.inl ⟨decide_eq_false (fun h => not_le.mpr hnow h.1), ?_, 0, ?_⟩⟩
      · rintro ⟨_, _, hjudged, -⟩
        exact not_le.mpr hnow hjudged.2.1
      · rw [if_pos hnow]
        rfl
    rw [if_neg hnow]
    obtain ⟨first, hfirst⟩ := warmed_eq g obs.now
    refine ⟨first, ?_⟩
    by_cases hwarming : g.Warming obs.now
    · refine Or.inl ⟨decide_eq_false (fun h => h.2.1 hwarming), ?_, 0, ?_⟩
      · rintro ⟨_, _, hjudged, -⟩
        exact hjudged.2.2 hwarming
      · rw [if_pos hwarming, hfirst]
        rfl
    rw [if_neg hwarming]
    have hjudged : g.Judged obs budget wait := ⟨husable, not_lt.mp hnow, hwarming⟩
    by_cases hpressed : g.Pressed budget wait (positive obs.decodeQueue)
    · rw [if_pos hpressed, hfirst, decide_eq_false (fun h => h.2.2.1 hpressed)]
      unfold Governor.degrade
      dsimp only
      by_cases hsustained :
          obs.now - (if g.degradeSince = 0 then obs.now else g.degradeSince) < DEGRADE_SUSTAIN_MS
      · refine Or.inl ⟨rfl, ?_, _, by rw [if_pos hsustained]⟩
        rintro ⟨_, _, -, -, hstanding, hlong, -⟩
        rw [if_neg hstanding] at hsustained
        exact absurd hsustained (not_lt.mpr hlong)
      · rw [if_neg hsustained]
        by_cases hlast : g.level ≥ ENHANCER_LADDER.length - 1
        · refine Or.inl ⟨rfl, ?_, _, by rw [if_pos hlast]⟩
          rintro ⟨_, _, -, -, -, -, hlevel⟩
          exact absurd hlevel (not_lt.mpr hlast)
        · rw [if_neg hlast]
          refine Or.inr (Or.inr (Or.inr ⟨rfl, ⟨budget, wait, hjudged, hpressed, ?_⟩,
            not_lt.mp hnow, _, rfl, rfl⟩))
          have hstanding : g.degradeSince ≠ 0 := by
            intro hzero
            rw [if_pos hzero, sub_self] at hsustained
            exact hsustained (by decide)
          rw [if_neg hstanding] at hsustained
          exact ⟨hstanding, not_lt.mp hsustained, not_le.mp hlast⟩
    · have hdown : ¬ g.StepsDown obs := by
        rintro ⟨budget', wait', hjudged', hpressed', -⟩
        obtain ⟨rfl, rfl⟩ := judged_unique hjudged' husable
        exact hpressed hpressed'
      rw [if_neg hpressed]
      by_cases hfree : g.Clear budget wait (positive obs.decodeQueue)
      · rw [if_pos hfree, hfirst,
          decide_eq_true ⟨not_lt.mp hnow, hwarming, hpressed, hfree⟩]
        unfold Governor.recover
        dsimp only
        by_cases hwait : obs.now - (if g.recoverSince = 0 then obs.now else g.recoverSince) <
            g.recoverAfterMs
        · exact Or.inr (Or.inl ⟨rfl, hdown, not_lt.mp hnow, by rw [if_pos hwait]⟩)
        · exact Or.inr (Or.inr (Or.inl ⟨rfl, hdown, not_lt.mp hnow, hfree.2.2.2, not_lt.mp hwait, _,
            rfl, by rw [if_neg hwait]⟩))
      · exact Or.inl ⟨decide_eq_false (fun h => hfree h.2.2.2), hdown, 0,
          by rw [if_neg hfree, hfirst]; rfl⟩

theorem update_tick (hs : Sane g) (hpos : 0 < obs.now) :
    Tick tunables (control.timers g) (control.reading g obs)
        (control.timers (control.update g obs)) ∧
      ((control.reading g obs).move = some .down ↔ g.StepsDown obs) ∧
      Sane (control.update g obs) := by
  have hoff : indexOf (some .off) = ENHANCER_LADDER.length - 1 := rfl
  obtain ⟨hzero, hceiling, hlast⟩ := hs.bounds
  unfold control
  dsimp only
  obtain ⟨first, ⟨hclear, hdown, since, hupdate⟩ | ⟨hclear, hdown, hsettled, hupdate⟩ |
    ⟨hclear, hdown, hsettled, hlevel, hwait, raised, hraised, hupdate⟩ |
    ⟨hclear, hdown, hsettled, lowered, hlowered, hupdate⟩⟩ := update_cases g obs
  · rw [hupdate]
    exact ⟨Tick.lapse rfl hclear, ⟨(nomatch ·), fun h => absurd h hdown⟩, hs.bounds, hs.raised⟩
  · rw [hupdate]
    exact ⟨Tick.count rfl hclear hsettled, ⟨(nomatch ·), fun h => absurd h hdown⟩, hs.bounds,
      hs.raised⟩
  · have hnew : raised.level = g.level - 1 := by rw [hraised]
    obtain ⟨rung, hrung⟩ := @rung_of_level raised (by omega)
    have hmove : moveOf g (g.update obs) = some .raise := by
      have hup : raised.level < g.level := by omega
      rw [hupdate, hrung]
      exact if_pos hup
    rw [hmove, hupdate, hraised]
    exact ⟨Tick.raise rfl hclear hsettled hwait, ⟨(nomatch ·), fun h => absurd h hdown⟩,
      ⟨hzero, by dsimp only; omega, by dsimp only; omega⟩, le_of_lt hpos⟩
  · have hnew : lowered.level = g.level + 1 := by rw [hlowered]
    have hbelow : g.level < ENHANCER_LADDER.length - 1 := by
      obtain ⟨_, _, -, -, -, -, hbelow⟩ := hdown
      exact hbelow
    obtain ⟨rung, hrung⟩ := @rung_of_level lowered (by omega)
    have hmove : moveOf g (g.update obs) = some .down := by
      have hup : ¬ lowered.level < g.level := by omega
      rw [hupdate, hrung]
      exact if_neg hup
    have hregret : (g.lastRecoveryMs > 0 ∧ obs.now - g.lastRecoveryMs < RECOVER_REGRET_MS) ↔
        (g.lastRecoveryMs ≠ 0 ∧ obs.now - g.lastRecoveryMs < RECOVER_REGRET_MS) :=
      and_congr_left (fun _ => ⟨ne_of_gt, fun h => lt_of_le_of_ne hs.raised h.symm⟩)
    have hwait : (if g.lastRecoveryMs > 0 ∧ obs.now - g.lastRecoveryMs < RECOVER_REGRET_MS then
        min RECOVER_MAX_MS (g.recoverAfterMs * 2) else g.recoverAfterMs) =
          (control.timers g).afterDown tunables obs.now := if_congr hregret rfl rfl
    have hbounds : lowered.Bounds := by
      rw [hlowered]
      exact ⟨hzero, by dsimp only; omega, by dsimp only; omega⟩
    rw [hmove, hupdate]
    refine ⟨?_, ⟨fun _ => hdown, fun _ => rfl⟩, hbounds, by rw [hlowered]; exact hs.raised⟩
    rw [hlowered]
    dsimp only
    rw [hwait]
    exact Tick.down rfl hclear hsettled

end

theorem indexOf_range (rung : Option Rung) : -1 ≤ indexOf rung ∧ indexOf rung ≤ 3 := by
  cases rung with
  | none => decide
  | some rung => cases rung <;> decide

theorem create_sane (preferred : Option Rung) (profile : Profile) :
    Sane (create preferred profile) := by
  have hceiling := indexOf_range preferred
  have hstart := indexOf_range profile.startRung
  have hoff : indexOf (some .off) = 3 := rfl
  refine ⟨?_, le_rfl⟩
  unfold Governor.Bounds create
  dsimp only
  split_ifs <;> omega

theorem promised_iff (preferred : Option Rung) (profile : Profile) (readings : List Obs) :
    EachStep (moves control.observe) (control.Promised tunables Governor.Bounds)
        ⟨create preferred profile, []⟩ readings ↔
      EachStep (moves control.observe) (control.BetsOnce tunables Governor.StepsDown)
        ⟨create preferred profile, []⟩ readings := by
  have hpos : 0 < min RECOVER_MAX_MS (max RECOVER_BASE_MS (positive profile.recoverAfterMs)) :=
    lt_min (by decide) (lt_max_of_lt_left (by decide))
  have hbooks : Books tunables [] (control.timers (create preferred profile)) :=
    Books.start hpos (min_le_left _ _)
  exact control.promised_iff (fun g hs => Sane.bounds hs)
    (fun g obs log hs _ hpos _ => update_tick hs hpos) (create_sane preferred profile) hbooks
    readings

end Enhancer

/-- Either governor keeps its promises along a run exactly when no step down falls due within
the time of regret of a raise that is undone already, with a wait that can still grow. -/
theorem recoveries_shy_iff (setFps : Int) (decoded : List DecodeRate.Obs)
    (preferred : Option Enhancer.Rung) (profile : Enhancer.Profile) (drawn : List Enhancer.Obs) :
    (EachStep (moves DecodeRate.control.observe)
        (DecodeRate.control.Promised DecodeRate.tunables DecodeRate.Governor.Bounds)
        ⟨DecodeRate.create setFps, []⟩ decoded ↔
      EachStep (moves DecodeRate.control.observe)
        (DecodeRate.control.BetsOnce DecodeRate.tunables DecodeRate.Governor.StepsDown)
        ⟨DecodeRate.create setFps, []⟩ decoded) ∧
      (EachStep (moves Enhancer.control.observe)
          (Enhancer.control.Promised Enhancer.tunables Enhancer.Governor.Bounds)
          ⟨Enhancer.create preferred profile, []⟩ drawn ↔
        EachStep (moves Enhancer.control.observe)
          (Enhancer.control.BetsOnce Enhancer.tunables Enhancer.Governor.StepsDown)
          ⟨Enhancer.create preferred profile, []⟩ drawn) :=
  ⟨DecodeRate.promised_iff setFps decoded, Enhancer.promised_iff preferred profile drawn⟩

/-- At 120 frames a second: a step down, a raise, and two steps down 6 s and 12 s after it. -/
theorem one_bet_charged_twice :
    ¬ ∀ readings, EachStep (moves DecodeRate.control.observe)
      (DecodeRate.control.Promised DecodeRate.tunables DecodeRate.Governor.Bounds)
      ⟨DecodeRate.create 120, []⟩ readings := by
  intro hall
  let seen : ℚ → ℚ → DecodeRate.Obs := fun queue now => ⟨some queue, none, now⟩
  let before : List DecodeRate.Obs :=
    [seen 10 1000, seen 10 4000, seen 0 7000, seen 0 27000, seen 10 30000, seen 10 33000,
      seen 10 36000]
  have hrun : (runMoves DecodeRate.control.observe ⟨DecodeRate.create 120, []⟩ before).map
      (fun w => (lastBet w.log, w.control.recoverAfterMs,
        ((w.control.update (seen 10 39000)).1.recoverAfterMs,
          (DecodeRate.control.observe w (seen 10 39000)).isSome))) =
      some (some ⟨27000, true⟩, 40000, 80000, true) := by decide +kernel
  obtain ⟨w, hw, hvalues⟩ := Option.map_eq_some_iff.mp hrun
  obtain ⟨w', hw'⟩ := Option.isSome_iff_exists.mp
    (congrArg (fun v => v.2.2.2) hvalues)
  have hstep := hall (before ++ [seen 10 39000]) before (seen 10 39000) [] w w' rfl
    (run_of_runMoves _ hw) hw'
  have hlast : lastBet w.log = some ⟨27000, true⟩ := congrArg (fun v => v.1) hvalues
  have hsame : w'.control.recoverAfterMs = w.control.recoverAfterMs := by
    refine hstep.2.doubled.trans (if_neg (fun h => ?_))
    obtain ⟨b, hb, hopen, -⟩ := h.2
    rw [hlast] at hb
    cases hb
    cases hopen
  have hupdated : w'.control = (w.control.update (seen 10 39000)).1 := by
    unfold Control.observe at hw'
    split_ifs at hw'
    cases hw'
    rfl
  have hbefore : w.control.recoverAfterMs = 40000 := congrArg (fun v => v.2.1) hvalues
  have hafter : (w.control.update (seen 10 39000)).1.recoverAfterMs = 80000 :=
    congrArg (fun v => v.2.2.1) hvalues
  rw [hupdated, hafter, hbefore] at hsame
  exact absurd hsame (by decide)

end MoonlightWeb.Frontend.QualityGovernors
