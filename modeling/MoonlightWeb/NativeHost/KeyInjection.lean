import MoonlightWeb.Lib.Run
import MoonlightWeb.NativeHost.UinputInput
import MoonlightWeb.Qt.QHash

/-! # Keys and characters over runs

The record of held keys leaves out the modifiers a character brought, and a release
computes anew what its press set up. Where the device and the record agree on the
modifiers, the keyboard does what its viewer means; where characters overlap they may
part.
-/

namespace MoonlightWeb.NativeHost.UinputInput

open Lib Js Qt Finset

def levelModifiers : Finset Nat := {keyLeftShift, keyRightShift, keyRightAlt}

def heldCharacter (map : TextMap) (text : List UInt8) : Option (Nat × Stroke) :=
  match decodeUtf8 text with
  | [cp] =>
      match map cp with
      | some (.one stroke) => some (cp, stroke)
      | _ => none
  | _ => none

/-- The strokes an event types whole: those of a text, or of a character on press that
needs a dead key. -/
def typed (map : TextMap) : InputEvent → List Stroke
  | .utf8Text text => textStrokes map text
  | .charDown text =>
      match decodeUtf8 text with
      | [cp] =>
          match map cp with
          | some (.two _ _) => textStrokes map text
          | _ => []
      | _ => []
  | _ => []

inductive Event
  | inject (event : InputEvent)
  | stop
deriving DecidableEq, Repr

/-- The keyboard, the keys pressed and not released, and the characters held, each with
the level modifiers that were down when its key went down. -/
structure Typing where
  keyboard : Keyboard
  keys : Finset Nat
  chars : QHash Nat (Finset Nat)

open Typing

namespace Typing

def initial : Typing := ⟨.started, ∅, .empty⟩

def keysAfter (keys : Finset Nat) : InputEvent → Finset Nat
  | .keyDown keyCode =>
      if evdevKeyCode keyCode = 0 then keys else insert (evdevKeyCode keyCode) keys
  | .keyUp keyCode =>
      if evdevKeyCode keyCode = 0 then keys else keys.erase (evdevKeyCode keyCode)
  | _ => keys

/-- The level modifiers on the device when the key of a stroke goes down. -/
def levelsAt (k : Keyboard) (stroke : Stroke) : Finset Nat :=
  levelModifiers.filter fun modifier => modifier ∈ emitAll k.down (setUp k.held stroke)

variable (map : TextMap)

def charsAfter (t : Typing) : InputEvent → QHash Nat (Finset Nat)
  | .charDown text =>
      match heldCharacter map text with
      | some (cp, stroke) => t.chars.set cp (levelsAt t.keyboard stroke)
      | none => t.chars
  | .charUp text =>
      match heldCharacter map text with
      | some (cp, _) => t.chars.delete cp
      | none => t.chars
  | _ => t.chars

def next (t : Typing) : Event → Typing
  | .inject event =>
      if t.keyboard.isOpen then
        ⟨inject map t.keyboard event, keysAfter t.keys event, t.charsAfter map event⟩
      else t
  | .stop => ⟨stop t.keyboard, ∅, .empty⟩

/-- What the keyboard is to do at a step. -/
structure Faithful (map : TextMap) (t : Typing) (e : Event) (t' : Typing) : Prop where
  /-- The key of a character goes down with the level modifiers of its stroke. -/
  exactly : ∀ text cp stroke, e = .inject (.charDown text) → t.keyboard.isOpen = true →
    heldCharacter map text = some (cp, stroke) →
      ∀ modifier ∈ levelModifiers, modifier ∈ levelsAt t.keyboard stroke ↔ wants stroke modifier
  /-- A level modifier that stands as another held character was pressed with it is left so. -/
  others : ∀ text cp stroke, e = .inject (.charUp text) →
    heldCharacter map text = some (cp, stroke) →
      ∀ other levels, other ≠ cp → t.chars.get other = some levels →
        ∀ modifier ∈ levelModifiers, (modifier ∈ t.keyboard.down ↔ modifier ∈ levels) →
          (modifier ∈ t'.keyboard.down ↔ modifier ∈ levels)
  /-- A text and a character on a dead key leave the device as they found it. -/
  asFound : ∀ text, (e = .inject (.utf8Text text) ∨ ((e = .inject (.charDown text) ∨
      e = .inject (.charUp text)) ∧ heldCharacter map text = none)) →
    t'.keyboard.down = t.keyboard.down
  /-- Nothing is down when nothing is pressed. -/
  released : t'.keys = ∅ → (∀ cp, t'.chars.get cp = none) → t'.keyboard.down = ∅
  /-- Nothing is down after the stop. -/
  stopped : e = .stop → t'.keyboard.down = ∅

/-- The device and the record agree as far as the step needs. -/
def Agreed (t : Typing) (e : Event) (_ : Typing) : Prop :=
  match e with
  | .inject (.charDown text) =>
      match heldCharacter map text with
      | some (_, stroke) =>
          ∀ modifier ∈ levelModifiers,
            (wants stroke modifier = true → modifier ∈ t.keyboard.held →
              modifier ∈ t.keyboard.down ∧ modifier ∉ lift t.keyboard.held stroke) ∧
            (wants stroke modifier = false → modifier ∈ t.keyboard.down →
              modifier ∈ lift t.keyboard.held stroke)
      | none => ∀ stroke ∈ typed map (.charDown text), stroke.code ∉ t.keyboard.down ∧
          ∀ modifier ∈ mine t.keyboard.held stroke, modifier ∉ t.keyboard.down
  | .inject (.charUp text) =>
      match heldCharacter map text with
      | some (cp, stroke) =>
          stroke.code ∉ levelModifiers ∧
            ∀ other levels, other ≠ cp → t.chars.get other = some levels →
              ∀ modifier ∈ levelModifiers, (modifier ∈ t.keyboard.down ↔ modifier ∈ levels) →
                (modifier ∈ mine t.keyboard.held stroke → modifier ∉ levels) ∧
                (modifier ∈ lift t.keyboard.held stroke → modifier ∈ levels)
      | none => True
  | .inject (.utf8Text text) =>
      ∀ stroke ∈ textStrokes map text, stroke.code ∉ t.keyboard.down ∧
        ∀ modifier ∈ mine t.keyboard.held stroke, modifier ∉ t.keyboard.down
  | .stop => t.keyboard.down ⊆ t.keyboard.held
  | _ => True

def SomeHeld (chars : QHash Nat (Finset Nat)) (kind : Stroke → Prop) : Prop :=
  ∃ cp levels stroke, chars.get cp = some levels ∧ map cp = some (.one stroke) ∧ kind stroke

/-- Every code down and every code recorded is accounted for by what is pressed; a
keyboard that was stopped has none down. -/
structure Accounted (map : TextMap) (t : Typing) : Prop where
  down : ∀ code ∈ t.keyboard.down, code ∈ t.keyboard.held ∨
    SomeHeld map t.chars fun stroke => wants stroke code = true ∧ code ≠ 0
  held : ∀ code ∈ t.keyboard.held, code ∈ t.keys ∨
    SomeHeld map t.chars fun stroke => stroke.code = code
  closed : t.keyboard.isOpen = false → t.keyboard.down = ∅

end Typing

section

variable {map : TextMap} {held : Finset Nat} {text : List UInt8}

theorem heldCharacter_eq_some {cp : Nat} {stroke : Stroke}
    (h : heldCharacter map text = some (cp, stroke)) :
    decodeUtf8 text = [cp] ∧ map cp = some (.one stroke) := by
  unfold heldCharacter at h
  rcases hdecode : decodeUtf8 text with _ | ⟨first, _ | ⟨second, rest⟩⟩
  · simp [hdecode] at h
  · cases hmap : map first with
    | none => simp [hdecode, hmap] at h
    | some strokes =>
      cases strokes with
      | one other =>
        simp only [hdecode, hmap, Option.some.injEq, Prod.mk.injEq] at h
        obtain ⟨rfl, rfl⟩ := h
        exact ⟨rfl, hmap⟩
      | two dead base => simp [hdecode, hmap] at h
  · simp [hdecode] at h

theorem injectChar_held {cp : Nat} {stroke : Stroke}
    (h : heldCharacter map text = some (cp, stroke)) (down : Bool) :
    injectChar map held text down =
      if down then (setUp held stroke ++ [(stroke.code, true)], insert stroke.code held)
      else ((stroke.code, false) :: putBack held stroke, held.erase stroke.code) := by
  obtain ⟨hdecode, hmap⟩ := heldCharacter_eq_some h
  simp only [injectChar, hdecode, hmap]

theorem injectChar_press (h : heldCharacter map text = none) :
    injectChar map held text true =
      ((typed map (.charDown text)).flatMap (typeStroke held), held) := by
  rcases hdecode : decodeUtf8 text with _ | ⟨cp, _ | ⟨second, rest⟩⟩
  · simp [injectChar, typed, hdecode]
  · cases hmap : map cp with
    | none => simp [injectChar, typed, hdecode, hmap]
    | some strokes =>
      cases strokes with
      | one stroke => simp [heldCharacter, hdecode, hmap] at h
      | two dead base => simp [injectChar, typed, injectText, hdecode, hmap]
  · simp [injectChar, typed, hdecode]

theorem injectChar_release (h : heldCharacter map text = none) :
    injectChar map held text false = ([], held) := by
  rcases hdecode : decodeUtf8 text with _ | ⟨cp, _ | ⟨second, rest⟩⟩
  · simp [injectChar, hdecode]
  · cases hmap : map cp with
    | none => simp [injectChar, hdecode, hmap]
    | some strokes =>
      cases strokes with
      | one stroke => simp [heldCharacter, hdecode, hmap] at h
      | two dead base => simp [injectChar, hdecode, hmap]
  · simp [injectChar, hdecode]

end

namespace Typing

section

variable {map : TextMap} {t : Typing}

theorem next_inject (hopen : t.keyboard.isOpen = true) (event : InputEvent) :
    t.next map (.inject event) =
      ⟨⟨true, emitAll t.keyboard.down (injected map t.keyboard.held event).1,
        (injected map t.keyboard.held event).2⟩,
        keysAfter t.keys event, t.charsAfter map event⟩ := by
  simp [next, inject, hopen]

theorem next_closed (hclosed : t.keyboard.isOpen = false) (event : InputEvent) :
    t.next map (.inject event) = t := by
  simp [next, hclosed]

theorem mem_levelsAt (k : Keyboard) (stroke : Stroke) (modifier : Nat) :
    modifier ∈ levelsAt k stroke ↔ modifier ∈ levelModifiers ∧
      ((modifier ∈ k.down ∧ modifier ∉ lift k.held stroke) ∨ modifier ∈ mine k.held stroke) := by
  unfold levelsAt
  rw [mem_filter, mem_setUp]

theorem level_ne_zero {modifier : Nat} (h : modifier ∈ levelModifiers) : modifier ≠ 0 := by
  rintro rfl
  revert h
  decide

theorem lift_level {held : Finset Nat} {stroke : Stroke} {modifier : Nat}
    (h : modifier ∈ lift held stroke) : modifier ∈ levelModifiers := by
  obtain ⟨_, (⟨rfl | rfl, _⟩ | ⟨rfl, _⟩)⟩ := (mem_lift held modifier stroke).mp h <;>
    decide

/-- The level modifiers are those of the stroke exactly when device and record agree. -/
theorem exactly_iff (k : Keyboard) (stroke : Stroke) :
    (∀ modifier ∈ levelModifiers, modifier ∈ levelsAt k stroke ↔ wants stroke modifier) ↔
      ∀ modifier ∈ levelModifiers, (wants stroke modifier = true → modifier ∈ k.held →
          modifier ∈ k.down ∧ modifier ∉ lift k.held stroke) ∧
        (wants stroke modifier = false → modifier ∈ k.down → modifier ∈ lift k.held stroke) := by
  refine forall_congr' fun modifier => imp_congr_right fun hlevel => ?_
  have hzero := level_ne_zero hlevel
  rw [mem_levelsAt, and_iff_right hlevel, mem_mine]
  cases hwants : wants stroke modifier with
  | true =>
    simp only [Bool.true_eq_false, false_implies, true_and, and_true, true_implies, hzero, ne_eq,
      not_false_eq_true]
    tauto
  | false =>
    simp only [Bool.false_eq_true, false_and, or_false, iff_false, false_implies, true_and,
      true_implies]
    tauto

theorem mem_release (down held : Finset Nat) (stroke : Stroke) (code : Nat) :
    code ∈ emitAll down ((stroke.code, false) :: putBack held stroke) ↔
      (code ∈ down ∧ code ≠ stroke.code ∧ code ∉ mine held stroke) ∨ code ∈ lift held stroke := by
  change code ∈ emitAll (down.erase stroke.code) (putBack held stroke) ↔ _
  rw [mem_putBack, mem_erase]
  tauto

theorem mem_press (down held : Finset Nat) (stroke : Stroke) (code : Nat) :
    code ∈ emitAll down (setUp held stroke ++ [(stroke.code, true)]) ↔
      code = stroke.code ∨ (code ∈ down ∧ code ∉ lift held stroke) ∨
        code ∈ mine held stroke := by
  rw [emitAll_append]
  change code ∈ insert stroke.code (emitAll down (setUp held stroke)) ↔ _
  rw [mem_insert, mem_setUp]

end

section

variable {map : TextMap} {chars : QHash Nat (Finset Nat)} {kind : Stroke → Prop} {cp : Nat}
  {stroke : Stroke}

theorem SomeHeld.set (h : SomeHeld map chars kind) (cp : Nat) (levels : Finset Nat) :
    SomeHeld map (chars.set cp levels) kind := by
  obtain ⟨other, before, held, hget, hmap, hkind⟩ := h
  by_cases hsame : other = cp
  · exact ⟨other, levels, held, by rw [hsame, JsMap.get_set_self], hmap, hkind⟩
  · exact ⟨other, before, held, by rw [JsMap.get_set_of_ne _ _ hsame]; exact hget, hmap, hkind⟩

theorem SomeHeld.pressed (hmap : map cp = some (.one stroke)) (hkind : kind stroke)
    (levels : Finset Nat) : SomeHeld map (chars.set cp levels) kind :=
  ⟨cp, levels, stroke, JsMap.get_set_self _ _ _, hmap, hkind⟩

theorem SomeHeld.delete (h : SomeHeld map chars kind) (hmap : map cp = some (.one stroke))
    (hother : ¬ kind stroke) : SomeHeld map (chars.delete cp) kind := by
  obtain ⟨other, levels, held, hget, hheld, hkind⟩ := h
  have hne : other ≠ cp := by
    rintro rfl
    rw [hmap] at hheld
    obtain rfl := Strokes.one.inj (Option.some.inj hheld)
    exact hother hkind
  exact ⟨other, levels, held, by rw [JsMap.get_delete_of_ne _ hne]; exact hget, hheld, hkind⟩

end

namespace Accounted

variable {map : TextMap} {t : Typing}

theorem initial (map : TextMap) : Accounted map initial where
  down := fun code hcode => absurd hcode (notMem_empty code)
  held := fun code hcode => absurd hcode (notMem_empty code)
  closed := fun hno => by cases hno

variable (h : Accounted map t)

include h

theorem keyDown (hopen : t.keyboard.isOpen = true) (keyCode : Int) :
    Accounted map (t.next map (.inject (.keyDown keyCode))) := by
  rw [next_inject hopen]
  by_cases hcode : evdevKeyCode keyCode = 0
  · simp only [injected, injectKey, keysAfter, hcode, if_true]
    exact ⟨h.down, h.held, fun hno => by cases hno⟩
  · simp only [injected, injectKey, keysAfter, hcode, if_false, if_true]
    refine ⟨?_, ?_, fun hno => by cases hno⟩
    · intro code hdown
      rcases mem_insert.mp hdown with rfl | hbefore
      · exact Or.inl (mem_insert_self _ _)
      · exact (h.down code hbefore).imp_left mem_insert_of_mem
    · intro code hheld
      rcases mem_insert.mp hheld with rfl | hbefore
      · exact Or.inl (mem_insert_self _ _)
      · exact (h.held code hbefore).imp_left mem_insert_of_mem

theorem keyUp (hopen : t.keyboard.isOpen = true) (keyCode : Int) :
    Accounted map (t.next map (.inject (.keyUp keyCode))) := by
  rw [next_inject hopen]
  by_cases hcode : evdevKeyCode keyCode = 0
  · simp only [injected, injectKey, keysAfter, hcode, if_true]
    exact ⟨h.down, h.held, fun hno => by cases hno⟩
  · simp only [injected, injectKey, keysAfter, hcode, if_false, Bool.false_eq_true]
    refine ⟨?_, ?_, fun hno => by cases hno⟩
    · intro code hdown
      obtain ⟨hne, hbefore⟩ := mem_erase.mp hdown
      exact (h.down code hbefore).imp_left fun hheld => mem_erase.mpr ⟨hne, hheld⟩
    · intro code hheld
      obtain ⟨hne, hbefore⟩ := mem_erase.mp hheld
      exact (h.held code hbefore).imp_left fun hkey => mem_erase.mpr ⟨hne, hkey⟩

theorem typedWhole {event : InputEvent} {strokes : List Stroke}
    (hopen : t.keyboard.isOpen = true) (hinjected : injected map t.keyboard.held event =
      (strokes.flatMap (typeStroke t.keyboard.held), t.keyboard.held))
    (hkeys : keysAfter t.keys event = t.keys) (hchars : t.charsAfter map event = t.chars) :
    Accounted map (t.next map (.inject event)) := by
  rw [next_inject hopen, hinjected, hkeys, hchars]
  refine ⟨fun code hdown => ?_, h.held, fun hno => by cases hno⟩
  exact h.down code ((mem_typeStrokes _ _ _ _).mp hdown).1

theorem charDown (hopen : t.keyboard.isOpen = true) {text : List UInt8}
    {cp : Nat} {stroke : Stroke} (hchar : heldCharacter map text = some (cp, stroke)) :
    Accounted map (t.next map (.inject (.charDown text))) := by
  have hmap := (heldCharacter_eq_some hchar).2
  rw [next_inject hopen]
  simp only [injected, injectChar_held hchar, charsAfter, hchar, keysAfter, if_true]
  refine ⟨?_, ?_, fun hno => by cases hno⟩
  · intro code hdown
    rcases (mem_press _ _ _ _).mp hdown with rfl | ⟨hbefore, _⟩ | hmine
    · exact Or.inl (mem_insert_self _ _)
    · exact (h.down code hbefore).imp mem_insert_of_mem fun hsome => hsome.set _ _
    · obtain ⟨hwants, hzero, _⟩ := (mem_mine _ _ _).mp hmine
      exact Or.inr (SomeHeld.pressed hmap ⟨hwants, hzero⟩ _)
  · intro code hheld
    rcases mem_insert.mp hheld with rfl | hbefore
    · exact Or.inr ⟨cp, _, stroke, JsMap.get_set_self _ _ _, hmap, rfl⟩
    · exact (h.held code hbefore).imp_right fun hsome => hsome.set _ _

theorem charUp (hopen : t.keyboard.isOpen = true) {text : List UInt8}
    {cp : Nat} {stroke : Stroke} (hchar : heldCharacter map text = some (cp, stroke))
    (hlevel : stroke.code ∉ levelModifiers) :
    Accounted map (t.next map (.inject (.charUp text))) := by
  have hmap := (heldCharacter_eq_some hchar).2
  rw [next_inject hopen]
  simp only [injected, injectChar_held hchar, charsAfter, hchar, keysAfter, Bool.false_eq_true,
    if_false]
  refine ⟨?_, ?_, fun hno => by cases hno⟩
  · intro code hdown
    rcases (mem_release _ _ _ _).mp hdown with ⟨hbefore, hne, hmine⟩ | hlift
    · rcases h.down code hbefore with hheld | hsome
      · exact Or.inl (mem_erase.mpr ⟨hne, hheld⟩)
      · by_cases hwants : wants stroke code = true ∧ code ≠ 0
        · left
          by_contra hgone
          have hheld : code ∉ t.keyboard.held := fun hheld =>
            hgone (mem_erase.mpr ⟨hne, hheld⟩)
          exact hmine ((mem_mine _ _ _).mpr ⟨hwants.1, hwants.2, hheld⟩)
        · exact Or.inr (hsome.delete hmap hwants)
    · have hne : code ≠ stroke.code := fun heq => hlevel (heq ▸ lift_level hlift)
      exact Or.inl (mem_erase.mpr ⟨hne, ((mem_lift _ _ _).mp hlift).1⟩)
  · intro code hheld
    obtain ⟨hne, hbefore⟩ := mem_erase.mp hheld
    exact (h.held code hbefore).imp_right fun hsome => hsome.delete hmap fun heq => hne heq.symm

theorem stopped (hrecorded : t.keyboard.down ⊆ t.keyboard.held) :
    (stop t.keyboard).down = ∅ := by
  unfold stop
  cases hopen : t.keyboard.isOpen with
  | false => exact h.closed hopen
  | true =>
    refine eq_empty_iff_forall_notMem.mpr fun code hcode => ?_
    obtain ⟨hdown, hlifted⟩ := (mem_emitAll_letGo _ _ _).mp hcode
    exact hlifted ((mem_sort _).mpr (hrecorded hdown))

theorem released (hkeys : t.keys = ∅)
    (hchars : ∀ cp, t.chars.get cp = none) : t.keyboard.down = ∅ := by
  have hnone : ∀ kind, ¬ SomeHeld map t.chars kind := by
    rintro kind ⟨cp, levels, stroke, hget, _⟩
    rw [hchars cp] at hget
    cases hget
  refine eq_empty_iff_forall_notMem.mpr fun code hdown => ?_
  have hheld := (h.down code hdown).resolve_right (hnone _)
  have hkey := (h.held code hheld).resolve_right (hnone _)
  rw [hkeys] at hkey
  exact absurd hkey (notMem_empty code)

theorem next {e : Event} {t' : Typing} (hagreed : Agreed map t e t') :
    Accounted map (t.next map e) := by
  cases e with
  | stop =>
    have hdown := h.stopped hagreed
    refine ⟨?_, fun code hcode => absurd hcode (notMem_empty code), fun _ => hdown⟩
    intro code hcode
    rw [show (t.next map .stop).keyboard = stop t.keyboard from rfl, hdown] at hcode
    exact absurd hcode (notMem_empty code)
  | inject event =>
    cases hopen : t.keyboard.isOpen with
    | false =>
      rw [next_closed hopen]
      exact h
    | true =>
      cases event with
      | keyDown keyCode => exact h.keyDown hopen keyCode
      | keyUp keyCode => exact h.keyUp hopen keyCode
      | charDown text =>
        cases hchar : heldCharacter map text with
        | some char => exact h.charDown hopen hchar
        | none =>
          refine h.typedWhole hopen (injectChar_press hchar) rfl ?_
          simp only [charsAfter, hchar]
      | charUp text =>
        cases hchar : heldCharacter map text with
        | some char =>
          simp only [Agreed, hchar] at hagreed
          exact h.charUp hopen hchar hagreed.1
        | none =>
          have hnone : injected map t.keyboard.held (.charUp text) =
              (([] : List Stroke).flatMap (typeStroke t.keyboard.held),
                t.keyboard.held) := injectChar_release hchar
          refine h.typedWhole hopen hnone rfl ?_
          simp only [charsAfter, hchar]
      | utf8Text text => exact h.typedWhole hopen rfl rfl rfl

omit h

end Accounted

/-- A release that takes back no modifier another character was pressed with leaves its
modifiers as they are. -/
theorem others_of_agreed {down held levels : Finset Nat} {stroke : Stroke} {modifier : Nat}
    (hlevel : modifier ∈ levelModifiers) (hcode : stroke.code ∉ levelModifiers)
    (hmine : modifier ∈ mine held stroke → modifier ∉ levels)
    (hlift : modifier ∈ lift held stroke → modifier ∈ levels)
    (hagree : modifier ∈ down ↔ modifier ∈ levels) :
    modifier ∈ emitAll down ((stroke.code, false) :: putBack held stroke) ↔
      modifier ∈ levels := by
  have hne : modifier ≠ stroke.code := fun heq => hcode (heq ▸ hlevel)
  rw [mem_release]
  constructor
  · rintro (⟨hdown, _, _⟩ | hback)
    · exact hagree.mp hdown
    · exact hlift hback
  · intro hin
    exact Or.inl ⟨hagree.mpr hin, hne, fun hown => hmine hown hin⟩

theorem faithful_of_agreed {map : TextMap} {t : Typing} {e : Event} (h : Accounted map t)
    (hagreed : Agreed map t e (t.next map e)) : Faithful map t e (t.next map e) := by
  have hnext := h.next hagreed
  refine ⟨?_, ?_, ?_, hnext.released, ?_⟩
  · rintro text cp stroke rfl _ hchar
    simp only [Agreed, hchar] at hagreed
    exact (exactly_iff t.keyboard stroke).mpr hagreed
  · rintro text cp stroke rfl hchar other levels hother hget modifier hlevel hagree
    simp only [Agreed, hchar] at hagreed
    obtain ⟨hcode, hkept⟩ := hagreed
    obtain ⟨hmine, hlift⟩ := hkept other levels hother hget modifier hlevel hagree
    cases hopen : t.keyboard.isOpen with
    | false =>
      rw [next_closed hopen]
      exact hagree
    | true =>
      rw [next_inject hopen]
      simp only [injected, injectChar_held hchar, Bool.false_eq_true, if_false]
      exact others_of_agreed hlevel hcode hmine hlift hagree
  · intro text htext
    cases hopen : t.keyboard.isOpen with
    | false =>
      rcases htext with rfl | ⟨rfl | rfl, _⟩ <;> rw [next_closed hopen]
    | true =>
      rcases htext with rfl | ⟨rfl | rfl, hchar⟩
      · rw [next_inject hopen]
        exact (typeStrokes_eq_iff _ _ _).mpr hagreed
      · rw [next_inject hopen]
        simp only [Agreed, hchar] at hagreed
        simp only [injected, injectChar_press hchar]
        exact (typeStrokes_eq_iff _ _ _).mpr hagreed
      · rw [next_inject hopen]
        simp only [injected, injectChar_release hchar]
        rfl
  · rintro rfl
    exact h.stopped hagreed

end Typing

def twoLetters : TextMap := fun cp =>
  if cp = 65 then some (.one ⟨30, (keyLeftShift, 0)⟩)
  else if cp = 98 then some (.one ⟨48, (0, 0)⟩)
  else none

end MoonlightWeb.NativeHost.UinputInput
