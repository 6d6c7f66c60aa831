import MoonlightWeb.Qt.Json
import MoonlightWeb.Streaming.InputWatchdog

/-! # The pads of a session

A client numbers its pads from zero. What its gamepad messages say is narrowed by the
relay, shifted by the session's offset and handed to the host by the engine, which
also notes what is pushed with the watchdog. The engines are connected, and the offset
is the one the session was set up with.
-/

namespace MoonlightWeb.Streaming.Controllers

open Qt InputWatchdog

inductive Engine
  | moonlight
  | native
deriving DecidableEq, Repr

structure PadState where
  buttonFlags : Int
  leftTrigger : Int
  rightTrigger : Int
  leftStickX : Int
  leftStickY : Int
  rightStickX : Int
  rightStickY : Int
deriving DecidableEq, Repr

def PadState.zero : PadState := ⟨0, 0, 0, 0, 0, 0, 0⟩

def PadState.atRest (pad : PadState) : Bool :=
  padAtRest pad.buttonFlags pad.leftTrigger pad.rightTrigger pad.leftStickX pad.leftStickY
    pad.rightStickX pad.rightStickY

/-- The gamepad messages of a client, with the members the relay reads of them. -/
inductive Message
  | gamepad (index mask buttons lt rt lx ly rx ry : QJsonValue)
  | gamepadconnect (index mask ctype rumble : QJsonValue)
  | gamepaddisconnect (index mask : QJsonValue)

inductive Call
  | sendControllerState (controllerNumber : Int) (activeGamepadMask : BitVec 16) (pad : PadState)
  | sendControllerArrival (controllerNumber : Int) (activeGamepadMask : BitVec 16) (type : Int)
      (hasRumble : Bool)
  | sendControllerRemoval (controllerNumber : Int) (activeGamepadMask : BitVec 16)
deriving DecidableEq, Repr

/-- `static_cast<uint8_t>`. -/
def toByte (n : Int) : Int := n % 256

/-- `static_cast<uint16_t>`, and the bits of a `static_cast<short>`. -/
def toMask (n : Int) : BitVec 16 := BitVec.ofInt 16 n

/-- The gamepad branches of `onInputMessage`, the same in every relay. -/
def onInputMessage : Message → Call
  | .gamepad index mask buttons lt rt lx ly rx ry =>
      .sendControllerState (toShort (index.toInt 0)) (toMask (mask.toInt 0))
        { buttonFlags := buttons.toInt 0
          leftTrigger := toByte (lt.toInt 0)
          rightTrigger := toByte (rt.toInt 0)
          leftStickX := toShort (lx.toInt 0)
          leftStickY := toShort (ly.toInt 0)
          rightStickX := toShort (rx.toInt 0)
          rightStickY := toShort (ry.toInt 0) }
  | .gamepadconnect index mask ctype rumble =>
      .sendControllerArrival (toByte (index.toInt 0)) (toMask (mask.toInt 0))
        (toByte (ctype.toInt 0)) (rumble.toBool false)
  | .gamepaddisconnect index mask =>
      .sendControllerRemoval (toByte (index.toInt 0)) (toMask (mask.toInt 0))

/-- What is handed to the host. The capabilities of a GameStream arrival are the
analog triggers, and rumble when `hasRumble`. -/
inductive HostEvent
  | arrival (controllerNumber : Int) (activeGamepadMask : BitVec 16) (type : Int) (hasRumble : Bool)
  | state (controllerNumber : Int) (activeGamepadMask : BitVec 16) (pad : PadState)
  | removal (controllerNumber : Int) (activeGamepadMask : BitVec 16)
deriving DecidableEq, Repr

def HostEvent.controllerNumber : HostEvent → Int
  | .arrival controllerNumber _ _ _ => controllerNumber
  | .state controllerNumber _ _ => controllerNumber
  | .removal controllerNumber _ => controllerNumber

def HostEvent.activeGamepadMask : HostEvent → BitVec 16
  | .arrival _ activeGamepadMask _ _ => activeGamepadMask
  | .state _ activeGamepadMask _ => activeGamepadMask
  | .removal _ activeGamepadMask => activeGamepadMask

def maxShiftedGamepads : Int := 4

/-- The number and the mask of the shim's session, or a refusal. -/
def applyControllerOffset (offset controllerNumber : Int) (activeGamepadMask : BitVec 16) :
    Option (Int × BitVec 16) :=
  if offset ≤ 0 then some (controllerNumber, activeGamepadMask)
  else
    let shifted := controllerNumber + offset
    if shifted < 0 ∨ shifted ≥ maxShiftedGamepads then none
    else
      some (toShort shifted,
        ((activeGamepadMask &&& 0xF) <<< offset.toNat) ||| (1#16 <<< shifted.toNat))

/-- The number of the native engine's session. -/
def shiftedController (controllerNumber offset : Int) : Int :=
  let shifted := controllerNumber + offset
  if shifted < 0 then 0 else if shifted > 255 then 255 else shifted

/-- `MoonlightShim::sendControllerState`. -/
def shimState (offset : Int) (w : Watchdog) (controllerNumber : Int) (activeGamepadMask : BitVec 16)
    (pad : PadState) : Watchdog × List HostEvent :=
  match applyControllerOffset offset controllerNumber activeGamepadMask with
  | none => (w, [])
  | some (number, mask) => (notePad w number mask pad.atRest, [.state number mask pad])

/-- The calls of `MoonlightShim`. A removal is an empty state. -/
def shimCall (offset : Int) (w : Watchdog) : Call → Watchdog × List HostEvent
  | .sendControllerArrival controllerNumber activeGamepadMask type hasRumble =>
      match applyControllerOffset offset (toShort controllerNumber) activeGamepadMask with
      | none => (w, [])
      | some (number, mask) => (w, [.arrival (toByte number) mask type hasRumble])
  | .sendControllerState controllerNumber activeGamepadMask pad =>
      shimState offset w controllerNumber activeGamepadMask pad
  | .sendControllerRemoval controllerNumber activeGamepadMask =>
      shimState offset w (toShort controllerNumber) activeGamepadMask .zero

/-- The calls of `NativeMediaEngine`. A removal leaves the watchdog alone. -/
def nativeCall (offset : Int) (w : Watchdog) : Call → Watchdog × List HostEvent
  | .sendControllerArrival controllerNumber activeGamepadMask type hasRumble =>
      (w, [.arrival (shiftedController controllerNumber offset) activeGamepadMask type hasRumble])
  | .sendControllerState controllerNumber activeGamepadMask pad =>
      let number := shiftedController controllerNumber offset
      (notePad w number activeGamepadMask pad.atRest, [.state number activeGamepadMask pad])
  | .sendControllerRemoval controllerNumber activeGamepadMask =>
      (w, [.removal (shiftedController controllerNumber offset) activeGamepadMask])

variable (engine : Engine)

def call (offset : Int) (w : Watchdog) (c : Call) : Watchdog × List HostEvent :=
  match engine with
  | .moonlight => shimCall offset w c
  | .native => nativeCall offset w c

/-- The sink's `neutralizePad`. -/
def neutralizePad (pad : Int × BitVec 16) : HostEvent :=
  match engine with
  | .moonlight => .state pad.1 pad.2 .zero
  | .native => .state (toByte pad.1) pad.2 .zero

/-- What happens to the pads of a session. The heartbeat, the one other message the
ticks depend on, stands for the client's other input. -/
inductive Event
  | alive (nowMs : Int)
  | message (m : Message)
  | heartbeat (keys : List HeldKey) (buttonMask : BitVec 32) (buttonsHold : Bool)
  | tick (nowMs : Int)
  | release (includeHold : Bool)

def handle (offset : Int) (w : Watchdog) : Event → Watchdog × List HostEvent
  | .alive nowMs => ((noteClientAlive w nowMs).1, [])
  | .message m => call engine offset w (onInputMessage m)
  | .heartbeat keys buttonMask buttonsHold => ((sync w keys buttonMask buttonsHold).1, [])
  | .tick nowMs => ((tick w nowMs).1, (tick w nowMs).2.pads.map (neutralizePad engine))
  | .release includeHold =>
      ((release w includeHold).1, (release w includeHold).2.pads.map (neutralizePad engine))

theorem toShort_of_bounds {n : Int} (hlow : -32768 ≤ n) (hhigh : n ≤ 32767) : toShort n = n := by
  unfold toShort
  rw [BitVec.toInt_ofInt]
  exact Int.bmod_eq_of_le (by omega) (by omega)

theorem toByte_bounds (n : Int) : 0 ≤ toByte n ∧ toByte n ≤ 255 := by
  unfold toByte
  omega

theorem toByte_of_bounds {n : Int} (hlow : 0 ≤ n) (hhigh : n ≤ 255) : toByte n = n := by
  unfold toByte
  omega

theorem shiftedController_bounds (controllerNumber offset : Int) :
    0 ≤ shiftedController controllerNumber offset ∧
      shiftedController controllerNumber offset ≤ 255 := by
  unfold shiftedController
  simp only
  split
  · omega
  · split <;> omega

/-- A shifted session's number is taken over, with its bit. -/
theorem applyControllerOffset_pos {offset controllerNumber : Int} (mask : BitVec 16)
    (hoffset : 0 < offset) :
    applyControllerOffset offset controllerNumber mask =
      if 0 ≤ controllerNumber + offset ∧ controllerNumber + offset < 4 then
        some (controllerNumber + offset,
          ((mask &&& 0xF) <<< offset.toNat) ||| (1#16 <<< (controllerNumber + offset).toNat))
      else none := by
  unfold applyControllerOffset maxShiftedGamepads
  rw [if_neg (by omega)]
  simp only
  by_cases hrange : 0 ≤ controllerNumber + offset ∧ controllerNumber + offset < 4
  · rw [if_pos hrange, if_neg (by omega), toShort_of_bounds (by omega) (by omega)]
  · rw [if_neg hrange, if_pos (by omega)]

variable {w : Watchdog}

theorem mem_release_pads {includeHold : Bool} {pad : Int × BitVec 16}
    (h : pad ∈ (release w includeHold).2.pads) : w.activePads.get pad.1 = some pad.2 := by
  cases includeHold with
  | true => exact (Js.JsMap.mem_entries_iff _ _ _).mp h
  | false => exact absurd h List.not_mem_nil

theorem release_pads_get {includeHold : Bool} {number : Int} {mask : BitVec 16}
    (h : (release w includeHold).1.activePads.get number = some mask) :
    w.activePads.get number = some mask := by
  cases includeHold with
  | true => cases h
  | false => exact h

theorem mem_tick_pads {nowMs : Int} {pad : Int × BitVec 16}
    (h : pad ∈ (tick w nowMs).2.pads) : w.activePads.get pad.1 = some pad.2 := by
  unfold tick at h
  split at h
  · exact absurd h List.not_mem_nil
  · split at h
    · exact absurd h List.not_mem_nil
    · simp only at h
      split at h
      · exact mem_release_pads (w := { w with longFired := true, shortFired := true }) h
      · split at h
        · exact mem_release_pads (w := { w with shortFired := true }) h
        · exact absurd h List.not_mem_nil

theorem tick_pads_get {nowMs : Int} {number : Int} {mask : BitVec 16}
    (h : (tick w nowMs).1.activePads.get number = some mask) :
    w.activePads.get number = some mask := by
  unfold tick at h
  split at h
  · exact h
  · split at h
    · exact h
    · simp only at h
      split at h
      · exact release_pads_get (w := { w with longFired := true, shortFired := true }) h
      · split at h
        · exact release_pads_get (w := { w with shortFired := true }) h
        · exact h

theorem notePad_get {controller number : Int} {noted mask : BitVec 16}
    {atRest : Bool} (h : (notePad w controller noted atRest).activePads.get number = some mask) :
    (number = controller ∧ mask = noted ∧ atRest = false) ∨
      (number ≠ controller ∧ w.activePads.get number = some mask) := by
  by_cases hsame : number = controller
  · left
    subst hsame
    cases atRest with
    | true => simp [notePad] at h
    | false =>
      simp only [notePad, Bool.false_eq_true, if_false, Js.JsMap.get_set_self] at h
      exact ⟨rfl, (Option.some.inj h).symm, rfl⟩
  · right
    refine ⟨hsame, ?_⟩
    cases atRest with
    | true =>
      simp only [notePad, if_true, Js.JsMap.get_delete_of_ne _ hsame] at h
      exact h
    | false =>
      simp only [notePad, Bool.false_eq_true, if_false, Js.JsMap.get_set_of_ne _ _ hsame] at h
      exact h

end MoonlightWeb.Streaming.Controllers
