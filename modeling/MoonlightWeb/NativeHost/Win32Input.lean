import Mathlib
import MoonlightWeb.Lib.Switches

/-! # SendInput

`Win32Input` injects keys, characters and text through `SendInput`; the host's keyboard
is the set of the scancodes down on it. A key goes out at the position its virtual key
has on a US board, a character at the position the host's layout gives its virtual key,
with the modifiers it needs set up around it. What is pressed is remembered by virtual
key; the modifiers a character brought are not. The batches are taken whole, the desktop
does not switch, and every event is one the elevation gate let through. The mouse and the
diagnostics are not part of the model.
-/

namespace MoonlightWeb.NativeHost.Win32Input

open Lib

structure ScanCode where
  scan : Nat
  extended : Bool
deriving DecidableEq, Repr

def kLetters : List Nat :=
  [0x1E, 0x30, 0x2E, 0x20, 0x12, 0x21, 0x22, 0x23, 0x17, 0x24, 0x25, 0x26, 0x32,
    0x31, 0x18, 0x19, 0x10, 0x13, 0x1F, 0x14, 0x16, 0x2F, 0x11, 0x2D, 0x15, 0x2C]

def kNumpad : List Nat := [0x52, 0x4F, 0x50, 0x51, 0x4B, 0x4C, 0x4D, 0x47, 0x48, 0x49]

/-- The keys one by one: virtual key and scancode. -/
def usKeys : List (Nat × Nat) :=
  [(0x1B, 0x0001), (0xC0, 0x0029), (0xBD, 0x000C), (0xBB, 0x000D), (0x08, 0x000E), (0x09, 0x000F),
    (0xDB, 0x001A), (0xDD, 0x001B), (0xDC, 0x002B), (0x14, 0x003A), (0xBA, 0x0027), (0xDE, 0x0028),
    (0x0D, 0x001C), (0xE2, 0x0056), (0xBC, 0x0033), (0xBE, 0x0034), (0xBF, 0x0035), (0x20, 0x0039),
    (0x10, 0x002A), (0xA0, 0x002A), (0xA1, 0x0036), (0x11, 0x001D), (0xA2, 0x001D), (0xA3, 0xE01D),
    (0x12, 0x0038), (0xA4, 0x0038), (0xA5, 0xE038), (0x5B, 0xE05B), (0x5C, 0xE05C), (0x5D, 0xE05D),
    (0x7A, 0x0057), (0x7B, 0x0058), (0x2C, 0xE037), (0x91, 0x0046), (0x2D, 0xE052), (0x2E, 0xE053),
    (0x24, 0xE047), (0x23, 0xE04F), (0x21, 0xE049), (0x22, 0xE051), (0x26, 0xE048), (0x28, 0xE050),
    (0x25, 0xE04B), (0x27, 0xE04D), (0x90, 0x0045), (0x6F, 0xE035), (0x6A, 0x0037), (0x6D, 0x004A),
    (0x6B, 0x004E), (0x6E, 0x0053)]

/-- The scancode of a virtual key on the US layout, 0 for one it does not name. -/
def usScanCode (vk : Nat) : Nat :=
  if 0x41 ≤ vk ∧ vk ≤ 0x5A then kLetters.getD (vk - 0x41) 0
  else if 0x60 ≤ vk ∧ vk ≤ 0x69 then kNumpad.getD (vk - 0x60) 0
  else if vk = 0x30 then 0x0B
  else if 0x30 < vk ∧ vk ≤ 0x39 then 0x02 + (vk - 0x31)
  else if 0x70 ≤ vk ∧ vk ≤ 0x79 then 0x3B + (vk - 0x70)
  else (usKeys.lookup vk).getD 0

def isExtendedKey (vk : Nat) : Bool :=
  vk ∈ [0xA3, 0xA5, 0x2D, 0x2E, 0x24, 0x23, 0x21, 0x22, 0x25, 0x27, 0x26, 0x28, 0x90, 0x6F, 0x5B,
    0x5C, 0x5D, 0x2C]

inductive Modifier
  | shift
  | control
  | menu
deriving DecidableEq, Repr

namespace Modifier

/-- The unsided virtual key, and its bit in what `VkKeyScanExW` answers. -/
def vk : Modifier → Nat
  | shift => 0x10
  | control => 0x11
  | menu => 0x12

def bit : Modifier → Nat
  | shift => 0
  | control => 1
  | menu => 2

/-- The virtual keys that hold it: the unsided one, the left and the right. -/
def keys : Modifier → List Nat
  | shift => [0x10, 0xA0, 0xA1]
  | control => [0x11, 0xA2, 0xA3]
  | menu => [0x12, 0xA4, 0xA5]

def left : Modifier → ScanCode
  | shift => ⟨0x2A, false⟩
  | control => ⟨0x1D, false⟩
  | menu => ⟨0x38, false⟩

def right : Modifier → ScanCode
  | shift => ⟨0x36, false⟩
  | control => ⟨0x1D, true⟩
  | menu => ⟨0x38, true⟩

def Down (m : Modifier) (down : Finset ScanCode) : Prop := m.left ∈ down ∨ m.right ∈ down

end Modifier

/-- What Windows answers about the foreground window's layout and the calling thread's. An
unsided modifier is on its left key on every layout. -/
structure HostLayout where
  /-- `MultiByteToWideChar`: the UTF-16 units of a text. -/
  wide : List UInt8 → List Nat
  /-- `VkKeyScanExW`, as the 16 bits of its answer. -/
  vkKeyScan : Nat → UInt16
  /-- `MapVirtualKeyExW` in the foreground window's layout. -/
  mapVirtualKeyEx : Nat → Nat
  /-- `MapVirtualKeyW`, which answers in the calling thread's. -/
  mapVirtualKey : Nat → Nat
  /-- Where Windows puts a virtual key that is sent as such. -/
  carried : Nat → ScanCode
  unsided : ∀ m : Modifier, mapVirtualKeyEx m.vk = m.left.scan

/-- What a key event names: a scancode, or a virtual key that Windows places. -/
inductive Key
  | scanCode (code : ScanCode)
  | virtualKey (vk : Nat)
deriving DecidableEq, Repr

/-- A keyboard `INPUT`, down or up. -/
inductive Input
  | key (key : Key) (press : Bool)
  | unicode (unit : Nat) (press : Bool)
deriving DecidableEq, Repr

section

variable (layout : HostLayout)

namespace HostLayout

def place : Key → ScanCode
  | .scanCode code => code
  | .virtualKey vk => layout.carried vk

/-- What an input moves on the keyboard; a character sent as such moves no key. -/
def moved : Input → Option (ScanCode × Bool)
  | .key key press => some (layout.place key, press)
  | .unicode _ _ => none

def keyOf (unit : Nat) : Nat := (layout.vkKeyScan unit).toNat &&& 0xFF

def needs (unit : Nat) (m : Modifier) : Bool :=
  (((layout.vkKeyScan unit).toNat >>> 8) &&& 0xFF).testBit m.bit

/-- No key of the layout has the unit. -/
def unreachable (unit : Nat) : Bool := layout.vkKeyScan unit = 0xFFFF || layout.keyOf unit = 0

end HostLayout

def sendBatch (down : Finset ScanCode) (inputs : List Input) : Finset ScanCode :=
  flips down (inputs.filterMap layout.moved)

variable (vk : Nat)

/-- The scancode a virtual key is mapped to, 0 to send the virtual key itself. -/
def mapped (nonNormalized : Bool) : Nat :=
  if nonNormalized then 0
  else if usScanCode vk = 0 then layout.mapVirtualKey vk
  else usScanCode vk

/-- What `makeKeyInput` names, for a press and a release alike. -/
def makeKey (nonNormalized : Bool) : Key :=
  if mapped layout vk nonNormalized &&& 0xFF = 0 ∨
      (mapped layout vk nonNormalized >>> 8) &&& 0xFF = 0xE1 then
    .virtualKey vk
  else
    .scanCode ⟨mapped layout vk nonNormalized &&& 0xFF,
      (mapped layout vk nonNormalized >>> 8) &&& 0xFF = 0xE0 || isExtendedKey vk⟩

def makeKeyInput (down nonNormalized : Bool) : Input :=
  .key (makeKey layout vk nonNormalized) down

/-- What `hostKeyInput` names. -/
def hostKey : Key :=
  if layout.mapVirtualKeyEx vk &&& 0xFF = 0 then .virtualKey vk
  else
    .scanCode ⟨layout.mapVirtualKeyEx vk &&& 0xFF,
      (layout.mapVirtualKeyEx vk >>> 8) &&& 0xFF = 0xE0 || isExtendedKey vk⟩

def hostKeyInput (press : Bool) : Input := .key (hostKey layout vk) press

def kFlagNonNormalized : Nat := 0x01

def nonNormalized (keyFlags : Nat) : Bool := keyFlags &&& kFlagNonNormalized ≠ 0

/-- A key event acts: its code is one of a key, and it is no heartbeat of a held one. -/
def acts (held : Finset Nat) (keyCode : Int) (resync down : Bool) : Bool :=
  !(keyCode ≤ 0 || keyCode > 0xFF) && !(down && resync && keyCode.toNat ∈ held)

/-- What is sent, and the record of held keys after it. -/
def injectKey (held : Finset Nat) (keyCode : Int) (keyFlags : Nat) (resync down : Bool) :
    List Input × Finset Nat :=
  if acts held keyCode resync down then
    ([makeKeyInput layout keyCode.toNat down (nonNormalized keyFlags)],
      if down then insert keyCode.toNat held else held.erase keyCode.toNat)
  else ([], held)

def injectText (text : List UInt8) : List Input :=
  if text = [] then []
  else (layout.wide text).flatMap fun unit => [.unicode unit true, .unicode unit false]

variable (record : Finset Nat)

def held (m : Modifier) : Bool := m.keys.any fun vk => vk ∈ record

/-- Held by the viewer, unwanted by the unit: Shift, and Ctrl with Alt when both are held
and neither is needed. -/
def lifted (unit : Nat) : List Modifier :=
  (if held record .shift && !layout.needs unit .shift then [.shift] else []) ++
    (if held record .control && held record .menu && !layout.needs unit .control &&
        !layout.needs unit .menu then
      [.control, .menu] else [])

/-- Needed by the unit, not held by the viewer. -/
def brought (unit : Nat) : List Modifier :=
  [.shift, .control, .menu].filter fun m => layout.needs unit m && !held record m

/-- What surrounds the key of a unit; on a release the directions are the other ones. -/
def around (unit : Nat) (down : Bool) : List Input :=
  (lifted layout record unit).map (fun m => hostKeyInput layout m.vk !down) ++
    (brought layout record unit).map (fun m => hostKeyInput layout m.vk down)

def keyedUnit (text : List UInt8) : Option Nat :=
  if text = [] then none
  else
    match layout.wide text with
    | [unit] => if layout.unreachable unit then none else some unit
    | _ => none

def injectChar (text : List UInt8) (down : Bool) :
    List Input × Finset Nat :=
  match keyedUnit layout text with
  | none => (if down then injectText layout text else [], record)
  | some unit =>
      if down then
        (around layout record unit true ++ [hostKeyInput layout (layout.keyOf unit) true],
          insert (layout.keyOf unit) record)
      else
        (hostKeyInput layout (layout.keyOf unit) false :: (around layout record unit false).reverse,
          record.erase (layout.keyOf unit))

inductive InputEvent
  | keyDown (keyCode : Int) (keyFlags : Nat) (resync : Bool)
  | keyUp (keyCode : Int) (keyFlags : Nat) (resync : Bool)
  | charDown (text : List UInt8)
  | charUp (text : List UInt8)
  | utf8Text (text : List UInt8)
deriving DecidableEq, Repr

def injected : InputEvent → List Input × Finset Nat
  | .keyDown keyCode keyFlags resync => injectKey layout record keyCode keyFlags resync true
  | .keyUp keyCode keyFlags resync => injectKey layout record keyCode keyFlags resync false
  | .charDown text => injectChar layout record text true
  | .charUp text => injectChar layout record text false
  | .utf8Text text => (injectText layout text, record)

end

/-- The session's side of the keyboard: `m_Started`, the scancodes down on the host, and
`m_HeldKeys`. -/
structure Session where
  started : Bool
  down : Finset ScanCode
  heldKeys : Finset Nat
deriving DecidableEq

/-- The session `start` opened. -/
def Session.opened : Session := ⟨true, ∅, ∅⟩

variable (layout : HostLayout)

def inject (s : Session) (event : InputEvent) : Session :=
  if !s.started then s
  else
    { s with
      down := sendBatch layout s.down (injected layout s.heldKeys event).1
      heldKeys := (injected layout s.heldKeys event).2 }

/-- Every virtual key on record goes up where the US layout has it. -/
def releaseAll (s : Session) : Session :=
  { s with
    down := sendBatch layout s.down
      ((s.heldKeys.sort (· ≤ ·)).map fun vk => makeKeyInput layout vk false false)
    heldKeys := ∅ }

def stop (s : Session) : Session :=
  if !s.started then s else { releaseAll layout s with started := false }

end MoonlightWeb.NativeHost.Win32Input
