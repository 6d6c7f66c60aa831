import Mathlib

/-! # The uinput keyboard

`UinputInput` injects keys and characters into a virtual keyboard, here the set of the
codes down on it. A key goes out as a position, a character as the key the host's
layout has it on, with the modifiers of its level set up around it; what was pressed for
the viewer is recorded, the modifiers a character brought are not. The writes to the
device succeed. The mouse, which has codes of its own, and the logging are not part of
the model.
-/

namespace MoonlightWeb.NativeHost.UinputInput

open List

def kEvdevLetters : List Nat :=
  [30, 48, 46, 32, 18, 33, 34, 35, 23, 36, 37, 38, 50, 49, 24, 25, 16, 19, 31, 20, 22, 47, 17, 45,
    21, 44]

def kEvdevNumpad : List Nat := [82, 79, 80, 81, 75, 76, 77, 71, 72, 73]

/-- The keys one by one: virtual key and code. -/
def evdevKeys : List (Int × Nat) :=
  [(0x1B, 1), (0xC0, 41), (0xBD, 12), (0xBB, 13), (0x08, 14), (0x09, 15), (0xDB, 26), (0xDD, 27),
    (0xDC, 43), (0x14, 58), (0xBA, 39), (0xDE, 40), (0x0D, 28), (0xBC, 51), (0xBE, 52), (0xBF, 53),
    (0x20, 57), (0xA0, 42), (0xA1, 54), (0xA2, 29), (0xA3, 97), (0xA4, 56), (0xA5, 100),
    (0x5B, 125), (0x5C, 126), (0x5D, 127), (0x10, 42), (0x11, 29), (0x12, 56), (0x7A, 87),
    (0x7B, 88), (0x2C, 99), (0x91, 70), (0x13, 119), (0x2D, 110), (0x2E, 111), (0x24, 102),
    (0x23, 107), (0x21, 104), (0x22, 109), (0x25, 105), (0x26, 103), (0x27, 106), (0x28, 108),
    (0x90, 69), (0x6F, 98), (0x6A, 55), (0x6D, 74), (0x6B, 78), (0x6E, 83), (0xE2, 86)]

/-- The code of a virtual key, 0 for one Linux does not name. -/
def evdevKeyCode (vk : Int) : Nat :=
  if 0x41 ≤ vk ∧ vk ≤ 0x5A then kEvdevLetters.getD (vk - 0x41).toNat 0
  else if 0x60 ≤ vk ∧ vk ≤ 0x69 then kEvdevNumpad.getD (vk - 0x60).toNat 0
  else if vk = 0x30 then 11
  else if 0x30 < vk ∧ vk ≤ 0x39 then (2 + (vk - 0x31)).toNat
  else if 0x70 ≤ vk ∧ vk ≤ 0x79 then (59 + (vk - 0x70)).toNat
  else (evdevKeys.lookup vk).getD 0

def keyLeftShift : Nat := 42
def keyRightShift : Nat := 54
def keyRightAlt : Nat := 100

/-- The value bits of a lead byte and how many bytes follow it. -/
def leadByte (c : Nat) : Option (Nat × Nat) :=
  if c < 0x80 then some (c, 0)
  else if c &&& 0xE0 = 0xC0 then some (c &&& 0x1F, 1)
  else if c &&& 0xF0 = 0xE0 then some (c &&& 0x0F, 2)
  else if c &&& 0xF8 = 0xF0 then some (c &&& 0x07, 3)
  else none

/-- The code point the following bytes complete. -/
def continued : Nat → List UInt8 → Option Nat
  | cp, [] => some cp
  | cp, cc :: rest =>
      if cc.toNat &&& 0xC0 ≠ 0x80 then none
      else continued ((cp <<< 6) ||| (cc.toNat &&& 0x3F)) rest

/-- The loop of `decodeUtf8`; a byte is read in every turn. -/
def decodeFrom : Nat → List UInt8 → List Nat
  | 0, _ => []
  | _, [] => []
  | turns + 1, c :: rest =>
      match leadByte c.toNat with
      | none => decodeFrom turns rest
      | some (cp, extra) =>
          -- truncated by the end of the buffer
          if extra ≥ rest.length + 1 then []
          else
            match continued cp (rest.take extra) with
            | none => decodeFrom turns rest
            | some cp =>
                let following := decodeFrom turns (rest.drop extra)
                if (0xD800 ≤ cp ∧ cp ≤ 0xDFFF) ∨ cp > 0x10FFFF then following
                else cp :: following

def decodeUtf8 (text : List UInt8) : List Nat := decodeFrom text.length text

/-- `XkbStroke`: a key and the modifiers to hold, 0 where unused. -/
structure Stroke where
  code : Nat
  mods : Nat × Nat
deriving DecidableEq, Repr

def Stroke.modList (s : Stroke) : List Nat := [s.mods.1, s.mods.2]

/-- What `find` has for a character: its own key, or a dead key and a base. -/
inductive Strokes
  | one (stroke : Stroke)
  | two (dead base : Stroke)
deriving DecidableEq, Repr

def Strokes.toList : Strokes → List Stroke
  | .one stroke => [stroke]
  | .two dead base => [dead, base]

/-- The host's layout, as `find` answers for a code point. -/
abbrev TextMap := Nat → Option Strokes

/-- One event on the device: a code, and whether it goes down. -/
abbrev Emitted := Nat × Bool

def emit (down : Finset Nat) (event : Emitted) : Finset Nat :=
  if event.2 then insert event.1 down else down.erase event.1

def emitAll (down : Finset Nat) (events : List Emitted) : Finset Nat := events.foldl emit down

def press (codes : List Nat) : List Emitted := codes.map fun code => (code, true)

def letGo (codes : List Nat) : List Emitted := codes.map fun code => (code, false)

def injectKey (held : Finset Nat) (keyCode : Int) (down : Bool) : List Emitted × Finset Nat :=
  let code := evdevKeyCode keyCode
  if code = 0 then ([], held)
  else ([(code, down)], if down then insert code held else held.erase code)

def wants (stroke : Stroke) (modifier : Nat) : Bool :=
  stroke.mods.1 = modifier || stroke.mods.2 = modifier

def lift (held : Finset Nat) (stroke : Stroke) : List Nat :=
  (if wants stroke keyLeftShift then []
    else [keyLeftShift, keyRightShift].filter fun modifier => modifier ∈ held) ++
  (if !wants stroke keyRightAlt && decide (keyRightAlt ∈ held) then [keyRightAlt] else [])

/-- Wanted by the stroke, not held by the viewer. -/
def mine (held : Finset Nat) (stroke : Stroke) : List Nat :=
  stroke.modList.filter fun modifier => modifier ≠ 0 ∧ modifier ∉ held

def typeStroke (held : Finset Nat) (stroke : Stroke) : List Emitted :=
  press (mine held stroke) ++ [(stroke.code, true), (stroke.code, false)] ++
    letGo (mine held stroke).reverse

variable (map : TextMap)

def textStrokes (text : List UInt8) : List Stroke :=
  (decodeUtf8 text).flatMap fun cp =>
    match map cp with
    | none => []
    | some strokes => strokes.toList

def injectText (held : Finset Nat) (text : List UInt8) :
    List Emitted × Finset Nat :=
  ((textStrokes map text).flatMap (typeStroke held), held)

/-- The modifiers of a stroke are set up before its key goes down. -/
def setUp (held : Finset Nat) (stroke : Stroke) : List Emitted :=
  letGo (lift held stroke) ++ press (mine held stroke)

/-- After the key went up, what was set up is undone by what the viewer holds now. -/
def putBack (held : Finset Nat) (stroke : Stroke) : List Emitted :=
  letGo (mine held stroke).reverse ++ press (lift held stroke).reverse

def injectChar (held : Finset Nat) (text : List UInt8) (down : Bool) :
    List Emitted × Finset Nat :=
  match decodeUtf8 text with
  | [cp] =>
      match map cp with
      | none => ([], held)
      | some (.two _ _) => if down then injectText map held text else ([], held)
      | some (.one stroke) =>
          if down then
            (setUp held stroke ++ [(stroke.code, true)], insert stroke.code held)
          else
            ((stroke.code, false) :: putBack held stroke, held.erase stroke.code)
  | _ => ([], held)

inductive InputEvent
  | keyDown (keyCode : Int)
  | keyUp (keyCode : Int)
  | charDown (text : List UInt8)
  | charUp (text : List UInt8)
  | utf8Text (text : List UInt8)
deriving DecidableEq, Repr

/-- The device and the record; `isOpen` is `m_Keyboard ≥ 0`. -/
structure Keyboard where
  isOpen : Bool
  down : Finset Nat
  held : Finset Nat
deriving DecidableEq

/-- The keyboard `start` created. -/
def Keyboard.started : Keyboard := ⟨true, ∅, ∅⟩

def injected (held : Finset Nat) : InputEvent → List Emitted × Finset Nat
  | .keyDown keyCode => injectKey held keyCode true
  | .keyUp keyCode => injectKey held keyCode false
  | .charDown text => injectChar map held text true
  | .charUp text => injectChar map held text false
  | .utf8Text text => injectText map held text

def inject (k : Keyboard) (event : InputEvent) : Keyboard :=
  if !k.isOpen then k
  else
    { k with
      down := emitAll k.down (injected map k.held event).1
      held := (injected map k.held event).2 }

/-- What is recorded is lifted before the device goes. -/
def stop (k : Keyboard) : Keyboard where
  isOpen := false
  down := if k.isOpen then emitAll k.down (letGo (k.held.sort (· ≤ ·))) else k.down
  held := ∅

section

variable (down held : Finset Nat) (codes : List Nat) (code : Nat)

theorem emitAll_append (first second : List Emitted) :
    emitAll down (first ++ second) = emitAll (emitAll down first) second :=
  foldl_append

theorem mem_emitAll_press : code ∈ emitAll down (press codes) ↔ code ∈ down ∨ code ∈ codes := by
  induction codes generalizing down with
  | nil => simp [emitAll, press]
  | cons head rest ih =>
    change code ∈ emitAll (insert head down) (press rest) ↔ _
    rw [ih, Finset.mem_insert, mem_cons]
    tauto

theorem mem_emitAll_letGo : code ∈ emitAll down (letGo codes) ↔ code ∈ down ∧ code ∉ codes := by
  induction codes generalizing down with
  | nil => simp [emitAll, letGo]
  | cons head rest ih =>
    change code ∈ emitAll (down.erase head) (letGo rest) ↔ _
    rw [ih, Finset.mem_erase, mem_cons]
    tauto

variable (stroke : Stroke)

theorem mem_lift : code ∈ lift held stroke ↔
    code ∈ held ∧ (((code = keyLeftShift ∨ code = keyRightShift) ∧
        wants stroke keyLeftShift = false) ∨
      (code = keyRightAlt ∧ wants stroke keyRightAlt = false)) := by
  have hshift : (code ∈ if wants stroke keyLeftShift then ([] : List Nat)
        else [keyLeftShift, keyRightShift].filter fun modifier => modifier ∈ held) ↔
      code ∈ held ∧ (code = keyLeftShift ∨ code = keyRightShift) ∧
        wants stroke keyLeftShift = false := by
    cases wants stroke keyLeftShift with
    | true => simp
    | false => simp [mem_filter, and_comm]
  have halt : (code ∈ if !wants stroke keyRightAlt && decide (keyRightAlt ∈ held) then
        [keyRightAlt] else ([] : List Nat)) ↔
      code ∈ held ∧ code = keyRightAlt ∧ wants stroke keyRightAlt = false := by
    by_cases hheld : keyRightAlt ∈ held
    · cases wants stroke keyRightAlt with
      | true => simp
      | false =>
        simp only [hheld, Bool.not_false, decide_true, Bool.and_true, if_true, mem_singleton,
          and_true]
        exact ⟨fun h => ⟨h ▸ hheld, h⟩, fun h => h.2⟩
    · simp only [hheld, decide_false, Bool.and_false, Bool.false_eq_true, if_false,
        not_mem_nil, false_iff]
      rintro ⟨hcode, rfl, _⟩
      exact hheld hcode
  unfold lift
  rw [mem_append, hshift, halt, ← and_or_left]

theorem mem_mine : code ∈ mine held stroke ↔
    wants stroke code = true ∧ code ≠ 0 ∧ code ∉ held := by
  have hmods : code ∈ stroke.modList ↔ wants stroke code = true := by
    unfold Stroke.modList wants
    rw [Bool.or_eq_true, decide_eq_true_eq, decide_eq_true_eq, mem_cons, mem_singleton,
      eq_comm, @eq_comm _ code stroke.mods.2]
  unfold mine
  rw [mem_filter, decide_eq_true_eq, hmods]

theorem mem_setUp : code ∈ emitAll down (setUp held stroke) ↔
    (code ∈ down ∧ code ∉ lift held stroke) ∨ code ∈ mine held stroke := by
  unfold setUp
  rw [emitAll_append, mem_emitAll_press, mem_emitAll_letGo]

theorem mem_putBack : code ∈ emitAll down (putBack held stroke) ↔
    (code ∈ down ∧ code ∉ mine held stroke) ∨ code ∈ lift held stroke := by
  unfold putBack
  rw [emitAll_append, mem_emitAll_press, mem_emitAll_letGo, mem_reverse, mem_reverse]

theorem mem_typeStroke : code ∈ emitAll down (typeStroke held stroke) ↔
    code ∈ down ∧ code ≠ stroke.code ∧ code ∉ mine held stroke := by
  unfold typeStroke
  rw [emitAll_append, emitAll_append, mem_emitAll_letGo, mem_reverse]
  change code ∈ (insert stroke.code (emitAll down (press (mine held stroke)))).erase stroke.code ∧
    _ ↔ _
  rw [Finset.mem_erase, Finset.mem_insert, mem_emitAll_press]
  tauto

/-- A text takes the keys and the own modifiers of its strokes up. -/
theorem mem_typeStrokes (strokes : List Stroke) :
    code ∈ emitAll down (strokes.flatMap (typeStroke held)) ↔
      code ∈ down ∧ ∀ stroke ∈ strokes, code ≠ stroke.code ∧ code ∉ mine held stroke := by
  induction strokes generalizing down with
  | nil => simp [emitAll]
  | cons head rest ih =>
    rw [flatMap_cons, emitAll_append, ih, mem_typeStroke, forall_mem_cons]
    tauto

/-- A text leaves the device as it found it when nothing it takes up was down. -/
theorem typeStrokes_eq_iff (strokes : List Stroke) :
    emitAll down (strokes.flatMap (typeStroke held)) = down ↔
      ∀ stroke ∈ strokes, stroke.code ∉ down ∧ ∀ modifier ∈ mine held stroke, modifier ∉ down := by
  constructor
  · intro heq stroke hstroke
    have hkept : ∀ code ∈ down, code ≠ stroke.code ∧ code ∉ mine held stroke := by
      intro code hcode
      rw [← heq] at hcode
      exact ((mem_typeStrokes down held code strokes).mp hcode).2 stroke hstroke
    exact ⟨fun hcode => (hkept _ hcode).1 rfl, fun modifier hmine hdown =>
      (hkept modifier hdown).2 hmine⟩
  · intro hfree
    ext code
    rw [mem_typeStrokes]
    refine ⟨fun h => h.1, fun hcode => ⟨hcode, fun stroke hstroke => ⟨?_, fun hmine => ?_⟩⟩⟩
    · rintro rfl
      exact (hfree stroke hstroke).1 hcode
    · exact (hfree stroke hstroke).2 code hmine hcode

end

end MoonlightWeb.NativeHost.UinputInput
