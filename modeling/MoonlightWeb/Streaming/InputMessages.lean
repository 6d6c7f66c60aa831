import MoonlightWeb.Streaming.Controllers

/-! # The input messages of a client

What a client may send is filtered by the policy of its session, decoded by the codec
the three transports share, and handed to the engine by the switch each of them has of
its own. The switches differ in the heartbeat only. Messages that make no input call,
keyframe requests, link reports and who draws the pointer among them, end in `none`. The
relays are connected and running.
-/

namespace MoonlightWeb.Streaming.InputMsg

open Qt InputWatchdog

structure Policy where
  gamepad : Bool
  keyboardMouse : Bool
deriving DecidableEq, Repr

/-- Channel housekeeping, which is never input. -/
def housekeeping : List QString :=
  [qs "ping", qs "requestidr", qs "request_idr", qs "clientstats", qs "linkstats",
    qs "invalidateref", qs "framefloor", qs "clientrefresh", qs "clientbitrate", qs "clientfpscap"]

/-- Whether a message of this type may act on the host. -/
def allowed (type : QString) (p : Policy) : Bool :=
  if (qs "gamepad").isPrefixOf type then p.gamepad
  else if type ∈ housekeeping then true
  else if type = qs "inputstate" then true
  else p.keyboardMouse

/-- The heartbeat without what the policy forbids. -/
def filterHeldState (p : Policy) (keys : List HeldKey) (buttons : BitVec 32) :
    List HeldKey × BitVec 32 :=
  if !p.keyboardMouse then ([], 0) else (keys, buttons)

inductive KeyboardMode
  | positional
  | native
  | sunshineWindows
deriving DecidableEq, Repr

/-- `SS_KBE_FLAG_NON_NORMALIZED`. -/
def nonNormalized : Nat := 1

structure KeyPlan where
  keyCode : Int
  flags : Nat
  text : QString

def KeyPlan.isText (plan : KeyPlan) : Bool := !plan.text.isEmpty

/-- `QChar::toUpper`, as far as a comparison with the letters A to Z can see. -/
def toUpper (u : UInt16) : UInt16 :=
  if unit 'a' ≤ u ∧ u ≤ unit 'z' then u - 32
  else if u = 0x131 then unit 'I'
  else if u = 0x17F then unit 'S'
  else u

/-- The US virtual key of a letter, or 0. -/
def letterVk : QString → Int
  | [u] =>
      let up := toUpper u
      if up < unit 'A' ∨ up > unit 'Z' then 0 else up.toNat
  | _ => 0

variable (msg : QJsonObject)

def resolveKey (mode : KeyboardMode) : KeyPlan :=
  let code := (msg.value "code").toString
  if code = qs "IntlBackslash" then ⟨0xE2, nonNormalized, []⟩
  else if code = qs "IntlRo" then ⟨0xC1, nonNormalized, []⟩
  else
    let keyCode := toShort ((msg.value "keyCode").toInt 0)
    let ch := (msg.value "char").toString
    if ch.isEmpty then ⟨keyCode, 0, []⟩
    else
      match mode with
      | .positional => ⟨keyCode, 0, []⟩
      | .native => ⟨keyCode, 0, ch⟩
      | .sunshineWindows =>
          if (msg.value "nonUs").toBool false && letterVk ch != 0 then
            ⟨letterVk ch, nonNormalized, []⟩
          else ⟨keyCode, 0, []⟩

def modifierMask : Nat :=
  (if (msg.value "ctrlKey").toBool false then 0x02 else 0) |||
  (if (msg.value "shiftKey").toBool false then 0x01 else 0) |||
  (if (msg.value "altKey").toBool false then 0x04 else 0) |||
  (if (msg.value "metaKey").toBool false then 0x08 else 0)

/-- One key of a heartbeat; a key that resolves to a character is left out. -/
def parseHeldKey (mode : KeyboardMode) (v : QJsonValue) : Option HeldKey :=
  let k := v.toObject
  let plan := resolveKey k mode
  if plan.isText then none
  else
    some
      { keyCode := plan.keyCode
        flags := plan.flags
        modifiers := modifierMask k
        hold := (k.value "hold").toBool false }

def parseHeldKeys (mode : KeyboardMode) : List HeldKey :=
  (msg.value "keys").toArray.filterMap (parseHeldKey mode)

/-- The input calls of `IMediaEngine`; a paste goes through the clipboard bridge. -/
inductive EngineCall
  | sendKeyChar (text : QString) (down : Bool) (modifiers : Nat)
  | sendKeyEvent (keyCode : Int) (down : Bool) (modifiers flags : Nat) (hold : Bool)
  | syncHeldInputs (keys : List HeldKey) (buttonMask : BitVec 32) (buttonsHold : Bool)
  | sendMousePosition (x y referenceWidth referenceHeight : Int)
  | sendMouseMove (dx dy : Int)
  | sendMouseButton (down : Bool) (button : Int) (hold : Bool)
  | sendMouseScroll (delta : Int)
  | sendMouseHScroll (delta : Int)
  | sendSecureAttention
  | sendUtf8Text (text : QString)
  | syncLockKeys (numLock capsLock scrollLock : Bool)
  | pasteFromClient (text : QString) (injectCtrl : Bool)
  | releaseInputBlock
  | controller (c : Controllers.Call)

structure Session where
  policy : Policy
  keyboardMode : KeyboardMode
  clipboardEnabled : Bool
  nativeEngine : Bool

inductive Relay
  | dataChannel
  | mediaTrack
  | stream
deriving DecidableEq, Repr

/-- `static_cast<short>` of an integer member. -/
def short (key : String) : Int := toShort ((msg.value key).toInt 0)

def keyCall (s : Session) (msg : QJsonObject) (down : Bool) : EngineCall :=
  let plan := resolveKey msg s.keyboardMode
  if plan.isText then .sendKeyChar plan.text down (modifierMask msg)
  else
    .sendKeyEvent plan.keyCode down (modifierMask msg) plan.flags ((msg.value "hold").toBool false)

def heartbeatKeys (s : Session) (msg : QJsonObject) : List HeldKey :=
  parseHeldKeys msg s.keyboardMode

def heartbeatButtons : BitVec 32 :=
  BitVec.ofInt 32 ((msg.value "buttons").toInt 0)

/-- The heartbeat as a relay hands it on: `DataChannelRelay` alone filters it. -/
def heartbeat (relay : Relay) (s : Session) (msg : QJsonObject) : List HeldKey × BitVec 32 :=
  match relay with
  | .dataChannel => filterHeldState s.policy (heartbeatKeys s msg) (heartbeatButtons msg)
  | .mediaTrack => (heartbeatKeys s msg, heartbeatButtons msg)
  | .stream => (heartbeatKeys s msg, heartbeatButtons msg)

def mouseMoveCall : EngineCall :=
  if msg.contains "x" && msg.contains "y" && msg.contains "referenceWidth" &&
      msg.contains "referenceHeight" then
    .sendMousePosition (short msg "x") (short msg "y") (short msg "referenceWidth")
      (short msg "referenceHeight")
  else .sendMouseMove (short msg "dx") (short msg "dy")

def gamepadMessage : Controllers.Message :=
  .gamepad (msg.value "index") (msg.value "mask") (msg.value "buttons") (msg.value "lt")
    (msg.value "rt") (msg.value "lx") (msg.value "ly") (msg.value "rx") (msg.value "ry")

/-- The switch over the type of a message that was let through. -/
def switch (relay : Relay) (s : Session) (msg : QJsonObject) (type : QString) :
    Option EngineCall :=
  if type = qs "keydown" then some (keyCall s msg true)
  else if type = qs "keyup" then some (keyCall s msg false)
  else if type = qs "inputstate" then
    some (.syncHeldInputs (heartbeat relay s msg).1 (heartbeat relay s msg).2
      ((msg.value "buttonsHold").toBool false))
  else if type = qs "mousemove" then some (mouseMoveCall msg)
  else if type = qs "mousedown" then
    some (.sendMouseButton true ((msg.value "button").toInt 1) ((msg.value "hold").toBool false))
  else if type = qs "mouseup" then
    some (.sendMouseButton false ((msg.value "button").toInt 1) ((msg.value "hold").toBool false))
  else if type = qs "mousewheel" then some (.sendMouseScroll (short msg "delta"))
  else if type = qs "mousehwheel" then some (.sendMouseHScroll (short msg "delta"))
  else if type = qs "secureattention" then some .sendSecureAttention
  else if type = qs "textinput" then some (.sendUtf8Text (msg.value "text").toString)
  else if type = qs "locksync" then
    some (.syncLockKeys ((msg.value "numLock").toBool false) ((msg.value "capsLock").toBool false)
      ((msg.value "scrollLock").toBool false))
  else if type = qs "clipboardpaste" then
    if s.clipboardEnabled then
      some (.pasteFromClient (msg.value "text").toString ((msg.value "injectCtrl").toBool false))
    else none
  else if type = qs "unblockinput" then
    if s.nativeEngine then some .releaseInputBlock else none
  else if type = qs "gamepad" then
    some (.controller (Controllers.onInputMessage (gamepadMessage msg)))
  else if type = qs "gamepadconnect" then
    some (.controller (Controllers.onInputMessage
      (.gamepadconnect (msg.value "index") (msg.value "mask") (msg.value "ctype")
        (msg.value "rumble"))))
  else if type = qs "gamepaddisconnect" then
    some (.controller (Controllers.onInputMessage
      (.gamepaddisconnect (msg.value "index") (msg.value "mask"))))
  else none

def onInputMessage (relay : Relay) (s : Session) (msg : QJsonObject) : Option EngineCall :=
  let type := (msg.value "type").toString
  if !allowed type s.policy then none else switch relay s msg type

def noted (engine : Controllers.Engine) (offset : Int) (w : Watchdog) : EngineCall → Watchdog
  | .sendKeyEvent keyCode down modifiers flags hold =>
      noteKey w { keyCode, modifiers, flags, hold } down
  | .syncHeldInputs keys buttonMask buttonsHold => (sync w keys buttonMask buttonsHold).1
  | .sendMouseButton down button hold => noteButton w button down hold
  | .controller c => (Controllers.call engine offset w c).1
  | _ => w

/-- What the engine presses to match a heartbeat. -/
def represses (w : Watchdog) : EngineCall → List HeldKey × List Int
  | .syncHeldInputs keys buttonMask buttonsHold =>
      ((sync w keys buttonMask buttonsHold).2.press,
        (sync w keys buttonMask buttonsHold).2.buttonsDown)
  | _ => ([], [])

def keyboardTypes : List QString :=
  [qs "keydown", qs "keyup", qs "mousemove", qs "mousedown", qs "mouseup", qs "mousewheel",
    qs "mousehwheel", qs "secureattention", qs "textinput", qs "locksync", qs "clipboardpaste",
    qs "unblockinput"]

def gamepadTypes : List QString := [qs "gamepad", qs "gamepadconnect", qs "gamepaddisconnect"]

theorem allowed_keyboard {type : QString} (h : type ∈ keyboardTypes) (p : Policy) :
    allowed type p = p.keyboardMouse := by
  have hplain : ∀ type ∈ keyboardTypes, (qs "gamepad").isPrefixOf type = false ∧
      type ∉ housekeeping ∧ type ≠ qs "inputstate" := by decide
  obtain ⟨hpad, hhouse, hstate⟩ := hplain type h
  simp [allowed, hpad, hhouse, hstate]

theorem allowed_gamepad {type : QString} (h : type ∈ gamepadTypes) (p : Policy) :
    allowed type p = p.gamepad := by
  have hfront : ∀ type ∈ gamepadTypes, (qs "gamepad").isPrefixOf type = true := by decide
  simp [allowed, hfront type h]

/-- A call by what it asks for. -/
inductive Kind
  | keyboardMouse
  | heartbeat
  | gamepad
deriving DecidableEq, Repr

def EngineCall.kind : EngineCall → Kind
  | .syncHeldInputs _ _ _ => .heartbeat
  | .controller _ => .gamepad
  | _ => .keyboardMouse

end MoonlightWeb.Streaming.InputMsg
