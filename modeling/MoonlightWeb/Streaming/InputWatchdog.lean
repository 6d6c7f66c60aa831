import MoonlightWeb.Qt.QHash

/-! # The input watchdog

What the client holds down as the engine last applied it, and since when the client
was last heard: a tick that finds the client silent lets go of what is held, through
the engine's sink. The clock is an argument, the timer that drives the ticks is not
part of the model, and what a call hands to the sink is its result.
-/

namespace MoonlightWeb.Streaming.InputWatchdog

open Js Qt

structure HeldKey where
  keyCode : Int
  modifiers : Nat
  flags : Nat
  hold : Bool
deriving DecidableEq, Repr

/-- The members; `lastAliveMs` is `none` until the first message of the client. -/
structure Watchdog where
  lastAliveMs : Option Int
  heldKeys : QHash Int HeldKey
  heldButtons : BitVec 32
  heldButtonsHold : Bool
  activePads : QHash Int (BitVec 16)
  shortFired : Bool
  longFired : Bool
  heartbeatSeen : Bool

def Watchdog.fresh : Watchdog where
  lastAliveMs := none
  heldKeys := .empty
  heldButtons := 0
  heldButtonsHold := false
  activePads := .empty
  shortFired := false
  longFired := false
  heartbeatSeen := false

/-- What a call hands to the sink, in the order of the calls. -/
structure Handed where
  keys : List HeldKey
  buttons : List Int
  pads : List (Int × BitVec 16)
deriving DecidableEq, Repr

def Handed.nothing : Handed := ⟨[], [], []⟩

def staleMs : Int := 250
def staleHoldMs : Int := 3000

variable (w : Watchdog)

def noteKey (key : HeldKey) (down : Bool) : Watchdog :=
  { w with
    heldKeys := if down then w.heldKeys.set key.keyCode key else w.heldKeys.delete key.keyCode }

/-- The bit of a button of the browser's numbering; no bit outside it. -/
def buttonBit (button : Int) : BitVec 32 :=
  if 1 ≤ button ∧ button ≤ 32 then 1#32 <<< (button - 1).toNat else 0

def noteButton (button : Int) (down hold : Bool) : Watchdog :=
  if down then
    { w with
      heldButtons := w.heldButtons ||| buttonBit button
      heldButtonsHold := if hold then true else w.heldButtonsHold }
  else
    let heldButtons := w.heldButtons &&& ~~~ buttonBit button
    { w with
      heldButtons
      heldButtonsHold := if heldButtons = 0 then false else w.heldButtonsHold }

def notePad (controller : Int) (mask : BitVec 16) (atRest : Bool) : Watchdog :=
  { w with
    activePads := if atRest then w.activePads.delete controller
      else w.activePads.set controller mask }

/-- `static_cast<short>`. -/
def toShort (n : Int) : Int := (BitVec.ofInt 16 n).toInt

/-- `qAbs` of a `short`, which returns a `short`. -/
def qAbs (n : Int) : Int := toShort (if n ≥ 0 then n else -n)

def stickAtRest : Int := 4096

def padAtRest (buttonFlags leftTrigger rightTrigger leftStickX leftStickY rightStickX
    rightStickY : Int) : Bool :=
  decide (buttonFlags = 0) && decide (leftTrigger = 0) && decide (rightTrigger = 0) &&
    decide (qAbs leftStickX < stickAtRest) && decide (qAbs leftStickY < stickAtRest) &&
    decide (qAbs rightStickX < stickAtRest) && decide (qAbs rightStickY < stickAtRest)

/-- How long the client had been silent, when the tick acted on it, is returned. -/
def noteClientAlive (nowMs : Int) : Watchdog × Int :=
  let silentMs :=
    match w.lastAliveMs with
    | some lastAliveMs => if w.shortFired || w.longFired then nowMs - lastAliveMs else 0
    | none => 0
  ({ w with lastAliveMs := some nowMs, shortFired := false, longFired := false }, silentMs)

def anythingHeld : Bool :=
  !w.heldKeys.entries.isEmpty || w.heldButtons != 0 || !w.activePads.entries.isEmpty

variable (buttons : BitVec 32)

/-- The buttons whose bits are set, lowest first. -/
def buttonsOf : List Int :=
  ((List.range 32).map fun i : Nat => (i : Int) + 1).filter fun b => buttons &&& buttonBit b ≠ 0

def takesButtons (includeHold : Bool) : Bool :=
  w.heldButtons != 0 && (includeHold || !w.heldButtonsHold)

def release (includeHold : Bool) : Watchdog × Handed :=
  ({ w with
      heldKeys := w.heldKeys.filter fun _ key => key.hold && !includeHold
      heldButtons := if takesButtons w includeHold then 0 else w.heldButtons
      heldButtonsHold := if takesButtons w includeHold then false else w.heldButtonsHold
      activePads := if includeHold then .empty else w.activePads },
    { keys := (w.heldKeys.filter fun _ key => !(key.hold && !includeHold)).values
      buttons := buttonsOf (if takesButtons w includeHold then w.heldButtons else 0)
      pads := if includeHold then w.activePads.entries else [] })

def tick (nowMs : Int) : Watchdog × Handed :=
  match w.lastAliveMs with
  | none => (w, .nothing)
  | some lastAliveMs =>
      if !w.heartbeatSeen then (w, .nothing)
      else
        let silentMs := nowMs - lastAliveMs
        if silentMs ≥ staleHoldMs && !w.longFired then
          release { w with longFired := true, shortFired := true } true
        else if silentMs ≥ staleMs && !w.shortFired then
          release { w with shortFired := true } false
        else (w, .nothing)

/-- What the engine sends to match the heartbeat. -/
structure SyncDiff where
  press : List HeldKey
  release : List HeldKey
  buttonsDown : List Int
  buttonsUp : List Int
deriving DecidableEq, Repr

/-- One key of the heartbeat: recorded and to press when it is missing, its hold flag
brought up to date otherwise. -/
def syncKey (found : QHash Int HeldKey × List HeldKey) (key : HeldKey) :
    QHash Int HeldKey × List HeldKey :=
  match found.1.get key.keyCode with
  | none => (found.1.set key.keyCode key, found.2 ++ [key])
  | some held => (found.1.set key.keyCode { held with hold := key.hold }, found.2)

variable (keys : List HeldKey)

def listed (keyCode : Int) : Bool := keys.any fun key => key.keyCode = keyCode

def sync (keys : List HeldKey) (buttonMask : BitVec 32) (buttonsHold : Bool) :
    Watchdog × SyncDiff :=
  let found := keys.foldl syncKey (w.heldKeys, [])
  ({ w with
      heartbeatSeen := true
      heldKeys := found.1.filter fun keyCode _ => listed keys keyCode
      heldButtons := buttonMask
      heldButtonsHold := buttonMask != 0 && buttonsHold },
    { press := found.2
      release := (found.1.filter fun keyCode _ => !listed keys keyCode).values
      buttonsDown := buttonsOf (buttonMask &&& ~~~ w.heldButtons)
      buttonsUp := buttonsOf (w.heldButtons &&& ~~~ buttonMask) })

theorem and_buttonBit (b : Int) :
    buttons &&& buttonBit b ≠ 0 ↔
      1 ≤ b ∧ b ≤ 32 ∧ buttons.getLsbD (b - 1).toNat = true := by
  unfold buttonBit
  by_cases hrange : 1 ≤ b ∧ b ≤ 32
  · have hlt : (b - 1).toNat < 32 := by omega
    rw [if_pos hrange, ← BitVec.twoPow_eq, BitVec.and_twoPow]
    cases hbit : buttons.getLsbD (b - 1).toNat with
    | false => simp
    | true =>
      have hpow : BitVec.twoPow 32 (b - 1).toNat ≠ 0 := by
        intro hzero
        have hself : (BitVec.twoPow 32 (b - 1).toNat).getLsbD (b - 1).toNat = true := by
          rw [BitVec.getLsbD_twoPow, decide_eq_true hlt, decide_eq_true rfl, Bool.and_self]
        rw [hzero, show (0 : BitVec 32) = 0#32 from rfl, BitVec.getLsbD_zero] at hself
        cases hself
      exact iff_of_true hpow ⟨hrange.1, hrange.2, rfl⟩
  · rw [if_neg hrange]
    refine iff_of_false (by simp) ?_
    rintro ⟨hlow, hhigh, _⟩
    exact hrange ⟨hlow, hhigh⟩

theorem getLsbD_buttonBit (b b' : Int) (hb' : 1 ≤ b') :
    (buttonBit b).getLsbD (b' - 1).toNat = true ↔ 1 ≤ b ∧ b ≤ 32 ∧ b' = b := by
  unfold buttonBit
  by_cases hrange : 1 ≤ b ∧ b ≤ 32
  · rw [if_pos hrange, ← BitVec.twoPow_eq, BitVec.getLsbD_twoPow]
    simp only [Bool.and_eq_true, decide_eq_true_eq]
    omega
  · rw [if_neg hrange]
    refine iff_of_false (by simp) ?_
    rintro ⟨hlow, hhigh, _⟩
    exact hrange ⟨hlow, hhigh⟩

theorem held_press (b b' : Int) :
    (buttons ||| buttonBit b) &&& buttonBit b' ≠ 0 ↔
      buttons &&& buttonBit b' ≠ 0 ∨ (1 ≤ b ∧ b ≤ 32 ∧ b' = b) := by
  rw [and_buttonBit, and_buttonBit, BitVec.getLsbD_or, Bool.or_eq_true]
  constructor
  · rintro ⟨hlow, hhigh, hbit | hbit⟩
    · exact Or.inl ⟨hlow, hhigh, hbit⟩
    · exact Or.inr ((getLsbD_buttonBit b b' hlow).mp hbit)
  · rintro (⟨hlow, hhigh, hbit⟩ | ⟨hlow, hhigh, rfl⟩)
    · exact ⟨hlow, hhigh, Or.inl hbit⟩
    · exact ⟨hlow, hhigh, Or.inr ((getLsbD_buttonBit b' b' hlow).mpr ⟨hlow, hhigh, rfl⟩)⟩

/-- The buttons held after a release are those before but the one released. -/
theorem held_lift (b b' : Int) :
    (buttons &&& ~~~ buttonBit b) &&& buttonBit b' ≠ 0 ↔
      buttons &&& buttonBit b' ≠ 0 ∧ b' ≠ b := by
  rw [and_buttonBit, and_buttonBit, BitVec.getLsbD_and, Bool.and_eq_true, BitVec.getLsbD_not]
  constructor
  · rintro ⟨hlow, hhigh, hbit, hother⟩
    refine ⟨⟨hlow, hhigh, hbit⟩, ?_⟩
    rintro rfl
    have hself := (getLsbD_buttonBit b' b' hlow).mpr ⟨hlow, hhigh, rfl⟩
    rw [hself, Bool.not_true, Bool.and_false] at hother
    cases hother
  · rintro ⟨⟨hlow, hhigh, hbit⟩, hne⟩
    have hlt : (b' - 1).toNat < 32 := by omega
    have hother : (buttonBit b).getLsbD (b' - 1).toNat = false := by
      by_contra hset
      exact hne ((getLsbD_buttonBit b b' hlow).mp (by simpa using hset)).2.2
    refine ⟨hlow, hhigh, hbit, ?_⟩
    rw [hother, decide_eq_true hlt, Bool.not_false, Bool.and_self]

theorem mem_buttonsOf (b : Int) :
    b ∈ buttonsOf buttons ↔ buttons &&& buttonBit b ≠ 0 := by
  unfold buttonsOf
  rw [List.mem_filter, decide_eq_true_eq]
  constructor
  · exact fun h => h.2
  · intro h
    obtain ⟨hlow, hhigh, _⟩ := (and_buttonBit buttons b).mp h
    have hlt : (b - 1).toNat < 32 := by omega
    have hnumber : ((b - 1).toNat : Int) + 1 = b := by omega
    exact ⟨List.mem_map.mpr ⟨(b - 1).toNat, List.mem_range.mpr hlt, hnumber⟩, h⟩

/-- After the heartbeat's keys are gone through, each of them is recorded. -/
theorem get_syncKeys (found : QHash Int HeldKey × List HeldKey)
    (keyCode : Int) :
    ((keys.foldl syncKey found).1.get keyCode).isSome =
      ((found.1.get keyCode).isSome || listed keys keyCode) := by
  induction keys generalizing found with
  | nil => simp [listed]
  | cons key rest ih =>
    have hstep : ((syncKey found key).1.get keyCode).isSome =
        ((found.1.get keyCode).isSome || decide (key.keyCode = keyCode)) := by
      unfold syncKey
      by_cases hcode : keyCode = key.keyCode
      · subst hcode
        cases found.1.get key.keyCode <;> simp
      · have hcode' : ¬ key.keyCode = keyCode := fun h => hcode h.symm
        cases found.1.get key.keyCode <;>
          simp [JsMap.get_set_of_ne _ _ hcode, hcode']
    rw [List.foldl_cons, ih, hstep, Bool.or_assoc]
    simp [listed]

def Keyed (held : QHash Int HeldKey) : Prop :=
  ∀ keyCode key, held.get keyCode = some key → key.keyCode = keyCode

theorem Keyed.empty : Keyed .empty := by
  intro keyCode key hget
  cases hget

variable {held : QHash Int HeldKey}

theorem Keyed.set (h : Keyed held) {code : Int} {key : HeldKey}
    (hcode : key.keyCode = code) : Keyed (held.set code key) := by
  intro keyCode other hget
  by_cases hself : keyCode = code
  · rw [hself, JsMap.get_set_self] at hget
    rw [← Option.some.inj hget, hself, hcode]
  · rw [JsMap.get_set_of_ne _ _ hself] at hget
    exact h keyCode other hget

theorem Keyed.delete (h : Keyed held) (code : Int) :
    Keyed (held.delete code) := by
  intro keyCode other hget
  by_cases hcode : keyCode = code
  · subst hcode
    rw [JsMap.get_delete_self] at hget
    cases hget
  · rw [JsMap.get_delete_of_ne _ hcode] at hget
    exact h keyCode other hget

theorem Keyed.filter (h : Keyed held) (keep : Int → HeldKey → Bool) :
    Keyed (held.filter keep) := by
  intro keyCode other hget
  rw [JsMap.get_filter, Option.filter_eq_some_iff] at hget
  exact h keyCode other hget.1

theorem Keyed.syncKeys {found : QHash Int HeldKey × List HeldKey}
    (h : Keyed found.1) : Keyed (keys.foldl syncKey found).1 := by
  induction keys generalizing found with
  | nil => exact h
  | cons key rest ih =>
    refine ih ?_
    unfold syncKey
    cases hget : found.1.get key.keyCode with
    | none => exact h.set rfl
    | some held =>
      have hcode : held.keyCode = key.keyCode := h _ _ hget
      exact h.set (show ({ held with hold := key.hold } : HeldKey).keyCode = _ from hcode)

end MoonlightWeb.Streaming.InputWatchdog
