import Mathlib
import MoonlightWeb.Lib.Run
import MoonlightWeb.Lib.Switches
import MoonlightWeb.Js.Text

/-! # The modifiers of the special-keys bar

`StreamViewKeyboard` latches a modifier for the next key and locks it on a fast second tap. A
character typed with a modifier goes out as a key where it is a letter or a digit; any other
text goes out as text, and what goes out as text lifts no modifier. The capitals of a character
are given by `upper`.
-/

namespace MoonlightWeb.Frontend.StreamViewKeyboard

open Lib Js List

inductive Modifier
  | ctrlKey
  | shiftKey
  | altKey
  | metaKey
deriving DecidableEq, Repr

open Modifier

/-- `MOD_VK`. -/
def MOD_VK : Modifier → Nat
  | ctrlKey => 0x11
  | shiftKey => 0x10
  | altKey => 0x12
  | metaKey => 0x5B

def modifiers : List Modifier := [ctrlKey, shiftKey, altKey, metaKey]

/-- A key event with the modifiers flagged on it, a text, or the message for the secure
attention sequence. -/
inductive Message
  | key (vk : Nat) (down : Bool) (flags : Finset Modifier)
  | textInput (text : JsString)
  | secureAttention
deriving DecidableEq

/-- `pressed` are the press-and-hold keys that are down. `applied` follows what a modifier was
on since it was latched: such a key, or a text. -/
structure Bar where
  heldMods : Finset Modifier := ∅
  lockedMods : Finset Modifier := ∅
  modLastTap : Modifier → ℚ := fun _ => 0
  pressed : Finset Nat := ∅
  applied : Finset (Modifier × Option Nat) := ∅
  sent : List Message := []

open Bar

namespace Bar

/-- Held for the next key only. -/
def oneShot (b : Bar) : Finset Modifier := b.heldMods \ b.lockedMods

def send (b : Bar) (message : Message) : Bar := { b with sent := b.sent ++ [message] }

def sendKeyEvent (b : Bar) (vk : Nat) (down : Bool) : Bar := b.send (.key vk down b.heldMods)

def apply (b : Bar) (what : Option Nat) : Bar :=
  { b with applied := b.applied ∪ b.oneShot.image fun name => (name, what) }

def toggleMod (b : Bar) (name : Modifier) (now : ℚ) : Bar :=
  if name ∉ b.heldMods then
    { b with
      heldMods := insert name b.heldMods
      lockedMods := b.lockedMods.erase name
      modLastTap := Function.update b.modLastTap name now
      applied := b.applied.filter fun entry => entry.1 ≠ name }.sendKeyEvent (MOD_VK name) true
  else if name ∉ b.lockedMods ∧ now - b.modLastTap name ≤ 300 then
    { b with lockedMods := insert name b.lockedMods }
  else
    { b with
      heldMods := b.heldMods.erase name
      lockedMods := b.lockedMods.erase name }.sendKeyEvent (MOD_VK name) false

def releaseMod (b : Bar) (name : Modifier) : Bar :=
  if name ∈ b.heldMods ∧ name ∉ b.lockedMods then
    { b with heldMods := b.heldMods.erase name }.sendKeyEvent (MOD_VK name) false
  else b

def releaseLatchedMods (b : Bar) : Bar := modifiers.foldl releaseMod b

def sendToolbarKey (b : Bar) (vk : Nat) : Bar :=
  ((b.sendKeyEvent vk true).sendKeyEvent vk false).releaseLatchedMods

def sendKey (b : Bar) (vk : Nat) : Bar := b.sendToolbarKey vk

def sendTextInput (b : Bar) (text : JsString) : Bar := (b.apply none).send (.textInput text)

def hideMod (b : Bar) (name : Modifier) : Bar :=
  if name ∈ b.heldMods then
    { b with
      heldMods := b.heldMods.erase name
      lockedMods := b.lockedMods.erase name }.send (.key (MOD_VK name) false ∅)
  else b

def hideKbToolbar (b : Bar) : Bar := modifiers.foldl hideMod b

def press (b : Bar) (vk : Nat) : Bar :=
  if vk ∈ b.pressed then b
  else ({ b with pressed := insert vk b.pressed }.apply (some vk)).sendKeyEvent vk true

def tick (b : Bar) (vk : Nat) : Bar :=
  if vk ∈ b.pressed then (b.apply (some vk)).sendKeyEvent vk true else b

def release (b : Bar) (vk : Nat) : Bar :=
  if vk ∈ b.pressed then
    ({ b with pressed := b.pressed.erase vk }.sendKeyEvent vk false).releaseLatchedMods
  else b

end Bar

inductive InputType
  | insertText
  | insertLineBreak
  | insertParagraph
  | deleteContentBackward
  | insertFromPaste
  | insertReplacementText
  | other
deriving DecidableEq, Repr

/-- What an edit is sent as. -/
inductive Action
  | key (vk : Nat)
  | text (text : JsString)

def KBD_SENTINEL : JsString := [0x20, 0x20, 0x20, 0x20]

variable (upper : UInt16 → UInt16)

def charToVk : JsString → Option Nat
  | [ch] =>
      let c := (upper ch).toNat
      if (0x30 ≤ c ∧ c ≤ 0x39) ∨ (0x41 ≤ c ∧ c ≤ 0x5A) then some c else none
  | _ => none

/-- How many units two texts share at the front. -/
def common : JsString → JsString → Nat
  | a :: s, b :: t => if a = b then common s t + 1 else 0
  | _, _ => 0

/-- The difference between the sentinel and what the field holds. -/
def diffed (value : JsString) : List Action :=
  let p := common KBD_SENTINEL value
  let s := common (KBD_SENTINEL.drop p).reverse (value.drop p).reverse
  let inserted := (value.drop p).take (value.length - s - p)
  List.replicate (KBD_SENTINEL.length - p - s) (.key 0x08) ++
    if inserted = [] then []
    else if inserted = [0x0A] ∨ inserted = [0x0D] ∨ inserted = [0x0D, 0x0A] then [.key 0x0D]
    else [.text inserted]

/-- The input handler: what an edit is sent as, with a modifier held or not. -/
def inputActions (anyModHeld : Bool) (type : InputType) (data : Option JsString)
    (value : JsString) : List Action :=
  match type, data with
  | .insertText, some data =>
      match charToVk upper data with
      | some vk => if anyModHeld then [.key vk] else [.text data]
      | none => [.text data]
  | .insertLineBreak, _ => [.key 0x0D]
  | .insertParagraph, _ => [.key 0x0D]
  | .deleteContentBackward, _ => [.key 0x08]
  | .insertFromPaste, some data => [.text data]
  | .insertReplacementText, some data => [.text data]
  | _, _ => diffed value

def navKeys : List Nat := [0x09, 0x1B, 0x2E, 0x26, 0x28, 0x25, 0x27, 0x24, 0x23, 0x21, 0x22]

inductive Event
  | tapMod (name : Modifier) (now : ℚ)
  | plain (vk : Nat)
  | press (vk : Nat)
  | tick (vk : Nat)
  | release (vk : Nat)
  | secureAttention
  | input (type : InputType) (data : Option JsString) (value : JsString)
  | navigate (vk : Nat)
  | hide

def holdKeys : List Nat := [0x2E, 0x25, 0x26, 0x28, 0x27]

/-- The buttons and keys there are. -/
def Event.Offered : Event → Prop
  | .tapMod name _ => name ∈ [shiftKey, ctrlKey, altKey]
  | .plain vk => vk ∈ [0x5B, 0x1B, 0x09]
  | .press vk | .tick vk | .release vk => vk ∈ holdKeys
  | .navigate vk => vk ∈ navKeys
  | _ => True

def actions (b : Bar) : Event → List Action
  | .plain vk => [.key vk]
  | .navigate vk => [.key vk]
  | .input type data value => inputActions upper (decide (b.heldMods ≠ ∅)) type data value
  | _ => []

def Bar.perform (b : Bar) : Action → Bar
  | .key vk => b.sendKey vk
  | .text text => b.sendTextInput text

def Bar.handle (b : Bar) (e : Event) : Bar :=
  match e with
  | .tapMod name now => b.toggleMod name now
  | .press vk => b.press vk
  | .tick vk => b.tick vk
  | .release vk => b.release vk
  | .secureAttention => b.releaseLatchedMods.send .secureAttention
  | .hide => b.hideKbToolbar
  | e => (actions upper b e).foldl perform b

def Step (b : Bar) (e : Event) (b' : Bar) : Prop := e.Offered ∧ b' = b.handle upper e

def modOf (vk : Nat) : Option Modifier := modifiers.find? fun name => MOD_VK name = vk

def modEvents (sent : List Message) : List (Modifier × Bool) :=
  sent.filterMap fun
    | .key vk down _ => (modOf vk).map fun name => (name, down)
    | _ => none

/-- The modifiers down on the host are those recorded, each pressed and lifted in turn. -/
structure Synced (b : Bar) : Prop where
  alternates : Alternates ∅ (modEvents b.sent)
  held : flips ∅ (modEvents b.sent) = b.heldMods

/-- What an event presses again or for the first time on a press-and-hold key. -/
def pressing (b : Bar) : Event → Option Nat
  | .press vk => if vk ∈ b.pressed then none else some vk
  | .tick vk => if vk ∈ b.pressed then some vk else none
  | _ => none

/-- What is promised of a step. A modifier held for one key is on nothing a second time, and
goes with what it was on; a key held down is lifted later, and takes it along then. -/
structure Kept (b : Bar) (e : Event) (b' : Bar) : Prop where
  synced : Synced b'
  locked : ∀ m ∈ b.lockedMods, (∀ now, e ≠ .tapMod m now) → e ≠ .hide →
    m ∈ b'.heldMods ∧ m ∈ b'.lockedMods
  hidden : e = .hide → b'.heldMods = ∅
  once : actions upper b e ≠ [] →
    ∀ m ∈ b.oneShot, (∀ what, (m, what) ∉ b.applied) ∧ m ∉ b'.heldMods
  pressed : ∀ vk ∈ pressing b e, ∀ m ∈ b.oneShot, ∀ what, (m, what) ∈ b.applied → what = some vk
  released : ∀ vk, e = .release vk → vk ∈ b.pressed → ∀ m ∈ b.oneShot, m ∉ b'.heldMods

/-- No text is sent under a modifier held for one key, and nothing is while another key that was
sent under it is still down. -/
structure Spared (b : Bar) (e : Event) : Prop where
  text : ∀ text rest, actions upper b e = .text text :: rest → b.oneShot = ∅
  once : actions upper b e ≠ [] → ∀ m ∈ b.oneShot, ∀ what, (m, what) ∉ b.applied
  pressed : ∀ vk ∈ pressing b e, ∀ m ∈ b.oneShot, ∀ what, (m, what) ∈ b.applied → what = some vk

variable {upper} {b b' : Bar}

structure Inv (b : Bar) : Prop extends Synced b where
  locked : b.lockedMods ⊆ b.heldMods
  no_meta : metaKey ∉ b.heldMods

theorem modOf_MOD_VK (m : Modifier) : modOf (MOD_VK m) = some m := by
  cases m <;> rfl

theorem Synced.advance (h : Synced b) {more : List Message} (hsent : b'.sent = b.sent ++ more)
    (halternates : Alternates b.heldMods (modEvents more))
    (hheld : flips b.heldMods (modEvents more) = b'.heldMods) : Synced b' := by
  have hevents : modEvents b'.sent = modEvents b.sent ++ modEvents more := by
    rw [hsent, modEvents, filterMap_append]
    rfl
  constructor
  · rw [hevents, alternates_append, h.held]
    exact ⟨h.alternates, halternates⟩
  · rw [hevents, flips_append, h.held, hheld]

/-- A message that is not about a modifier. -/
theorem Synced.other (h : Synced b) {message : Message} (hnone : modEvents [message] = [])
    (hsent : b'.sent = b.sent ++ [message]) (hheld : b'.heldMods = b.heldMods) : Synced b' :=
  h.advance hsent (by rw [hnone]; trivial) (by rw [hnone, hheld]; rfl)

theorem modEvents_mod (m : Modifier) (down : Bool) (flags : Finset Modifier) :
    modEvents [.key (MOD_VK m) down flags] = [(m, down)] := by
  simp [modEvents, modOf_MOD_VK]

theorem modEvents_key {vk : Nat} (hvk : modOf vk = none) (down : Bool)
    (flags : Finset Modifier) : modEvents [.key vk down flags] = [] := by
  simp [modEvents, hvk]

theorem modEvents_text (text : JsString) : modEvents [.textInput text] = [] := rfl

theorem Synced.lift (h : Synced b) {m : Modifier} {flags : Finset Modifier}
    (hm : m ∈ b.heldMods) (hsent : b'.sent = b.sent ++ [.key (MOD_VK m) false flags])
    (hheld : b'.heldMods = b.heldMods.erase m) : Synced b' := by
  refine h.advance hsent ?_ ?_ <;> rw [modEvents_mod]
  · exact ⟨by simp [hm], trivial⟩
  · rw [hheld]
    rfl

/-- The latched modifiers among some are lifted. -/
theorem releaseMods_spec (names : List Modifier) (h : Synced b) :
    Synced (names.foldl releaseMod b) ∧
      (∀ m, m ∈ (names.foldl releaseMod b).heldMods ↔
        m ∈ b.heldMods ∧ (m ∈ names → m ∈ b.lockedMods)) ∧
      (names.foldl releaseMod b).lockedMods = b.lockedMods := by
  induction names generalizing b with
  | nil => simp [h]
  | cons name names ih =>
    rw [foldl_cons]
    have hstep : Synced (b.releaseMod name) ∧ (b.releaseMod name).lockedMods = b.lockedMods ∧
        ∀ m, m ∈ (b.releaseMod name).heldMods ↔
          m ∈ b.heldMods ∧ (m = name → m ∈ b.lockedMods) := by
      unfold releaseMod
      split_ifs with hlatched
      · refine ⟨h.lift hlatched.1 rfl rfl, rfl, fun m => ?_⟩
        simp only [sendKeyEvent, send, Finset.mem_erase]
        constructor
        · exact fun ⟨hne, hm⟩ => ⟨hm, fun heq => absurd heq hne⟩
        · exact fun ⟨hm, hlocked⟩ => ⟨fun heq => hlatched.2 (heq ▸ hlocked heq), hm⟩
      · refine ⟨h, rfl, fun m => ⟨fun hm => ⟨hm, ?_⟩, And.left⟩⟩
        rintro rfl
        by_contra hno
        exact hlatched ⟨hm, hno⟩
    obtain ⟨hsynced, hlocked, hheld⟩ := hstep
    obtain ⟨hsynced', hheld', hlocked'⟩ := ih hsynced
    refine ⟨hsynced', fun m => ?_, hlocked'.trans hlocked⟩
    rw [hheld', hheld, hlocked, mem_cons]
    tauto

theorem mem_modifiers (m : Modifier) : m ∈ modifiers := by
  cases m <;> decide

theorem releaseLatchedMods_spec (h : Synced b) :
    Synced b.releaseLatchedMods ∧ b.releaseLatchedMods.heldMods = b.heldMods ∩ b.lockedMods ∧
      b.releaseLatchedMods.lockedMods = b.lockedMods := by
  obtain ⟨hsynced, hheld, hlocked⟩ := releaseMods_spec modifiers h
  refine ⟨hsynced, Finset.ext fun m => ?_, hlocked⟩
  rw [Finset.mem_inter]
  exact (hheld m).trans (and_congr_right fun _ => forall_prop_of_true (mem_modifiers m))

/-- The state after the modifiers held for one key are lifted. -/
theorem Inv.lifted (h : Inv b) (hsynced : Synced b')
    (hheld : b'.heldMods = b.heldMods ∩ b.lockedMods) (hlocked : b'.lockedMods = b.lockedMods) :
    Inv b' ∧ b'.heldMods = b.lockedMods := by
  have hlocks := Finset.inter_eq_right.mpr h.locked
  rw [hlocks] at hheld
  refine ⟨⟨hsynced, by rw [hlocked, hheld], ?_⟩, hheld⟩
  rw [hheld]
  exact fun hmeta => h.no_meta (h.locked hmeta)

/-- The keys that are sent on their own. -/
def Typed (vk : Nat) : Prop := modOf vk = none ∨ vk = 0x5B

theorem sendKey_spec (h : Inv b) {vk : Nat} (hvk : Typed vk) :
    Inv (b.sendKey vk) ∧ (b.sendKey vk).heldMods = b.lockedMods ∧
      (b.sendKey vk).lockedMods = b.lockedMods := by
  have hsynced : Synced ((b.sendKeyEvent vk true).sendKeyEvent vk false) := by
    rcases hvk with hnone | rfl
    · have hdown : Synced (b.sendKeyEvent vk true) :=
        h.toSynced.other (modEvents_key hnone _ _) rfl rfl
      exact hdown.other (modEvents_key hnone _ _) rfl rfl
    · refine h.toSynced.advance (append_assoc _ _ _) ?_ ?_
      · exact ⟨by simp [h.no_meta], by simp [Lib.flip], trivial⟩
      · exact Finset.erase_insert h.no_meta
  obtain ⟨hreleased, hheld, hlocked⟩ := releaseLatchedMods_spec hsynced
  obtain ⟨hinv, hheld⟩ := h.lifted hreleased hheld hlocked
  exact ⟨hinv, hheld, hlocked⟩

theorem Inv.same (h : Inv b) (hsynced : Synced b') (hheld : b'.heldMods = b.heldMods)
    (hlocked : b'.lockedMods = b.lockedMods) : Inv b' :=
  ⟨hsynced, by rw [hheld, hlocked]; exact h.locked, by rw [hheld]; exact h.no_meta⟩

def Action.Typed : Action → Prop
  | .key vk => StreamViewKeyboard.Typed vk
  | .text _ => True

/-- An edit keeps the locks, and lifts the other modifiers if it begins with a key. -/
theorem perform_spec (acts : List Action) (h : Inv b) (htyped : ∀ a ∈ acts, a.Typed) :
    Inv (acts.foldl perform b) ∧ (acts.foldl perform b).lockedMods = b.lockedMods ∧
      (acts.foldl perform b).heldMods ⊆ b.heldMods ∧
      ∀ vk rest, acts = .key vk :: rest → (acts.foldl perform b).heldMods = b.lockedMods := by
  induction acts generalizing b with
  | nil => exact ⟨h, rfl, le_rfl, fun _ _ heq => by cases heq⟩
  | cons a acts ih =>
    rw [foldl_cons]
    cases a with
    | key vk =>
      obtain ⟨hinv, hheld, hlocked⟩ := sendKey_spec h (htyped _ mem_cons_self)
      obtain ⟨hinv', hlocked', hsub, -⟩ :=
        ih hinv fun a ha => htyped a (mem_cons_of_mem _ ha)
      have hlocks : (acts.foldl perform (b.sendKey vk)).heldMods = b.lockedMods := by
        refine Finset.Subset.antisymm (hheld ▸ hsub) ?_
        rw [← hlocked, ← hlocked']
        exact hinv'.locked
      exact ⟨hinv', hlocked'.trans hlocked, hlocks.subset.trans h.locked, fun _ _ _ => hlocks⟩
    | text text =>
      have hinv : Inv (b.sendTextInput text) :=
        h.same (Synced.other h.toSynced (modEvents_text text) rfl rfl) rfl rfl
      obtain ⟨hinv', hlocked', hsub, -⟩ :=
        ih hinv fun a ha => htyped a (mem_cons_of_mem _ ha)
      exact ⟨hinv', hlocked', hsub, fun _ _ heq => by cases heq⟩

theorem charToVk_typed {ch : JsString} {vk : Nat} (h : charToVk upper ch = some vk) :
    Typed vk := by
  have hmods : ∀ m, MOD_VK m < 0x30 ∨ 0x5A < MOD_VK m := fun m => by cases m <;> decide
  unfold charToVk at h
  split at h
  · next ch =>
      dsimp only at h
      generalize (upper ch).toNat = c at h
      split_ifs at h with hrange
      cases h
      refine Or.inl (List.find?_eq_none.mpr fun m _ => ?_)
      have hm := hmods m
      simp only [decide_eq_true_eq]
      omega
  · cases h

theorem diffed_shape (value : JsString) : (∀ a ∈ diffed value, a.Typed) ∧
    ∀ text rest, diffed value = .text text :: rest → rest = [] := by
  unfold diffed
  dsimp only
  generalize KBD_SENTINEL.length - _ - _ = deleted
  generalize List.take _ _ = inserted
  constructor
  · intro a ha
    rcases mem_append.mp ha with ha | ha
    · rw [eq_of_mem_replicate ha]
      exact Or.inl rfl
    · split_ifs at ha
      · cases ha
      · rw [mem_singleton.mp ha]
        exact Or.inl rfl
      · rw [mem_singleton.mp ha]
        trivial
  · intro text rest heq
    cases deleted with
    | zero =>
      simp only [replicate_zero, nil_append] at heq
      split_ifs at heq <;> cases heq
      rfl
    | succ n =>
      rw [replicate_succ, cons_append] at heq
      cases heq

theorem inputActions_shape (held : Bool) (type : InputType) (data : Option JsString)
    (value : JsString) : (∀ a ∈ inputActions upper held type data value, a.Typed) ∧
    ∀ text rest, inputActions upper held type data value = .text text :: rest → rest = [] := by
  have hkey : ∀ vk, Typed vk → (∀ a ∈ [Action.key vk], a.Typed) ∧
      ∀ text rest, [Action.key vk] = .text text :: rest → rest = [] :=
    fun vk hvk => ⟨fun a ha => mem_singleton.mp ha ▸ hvk, fun _ _ heq => by cases heq⟩
  have htext : ∀ s, (∀ a ∈ [Action.text s], a.Typed) ∧
      ∀ text rest, [Action.text s] = .text text :: rest → rest = [] :=
    fun s => ⟨by simp [Action.Typed], fun _ _ heq => (List.cons.inj heq).2.symm⟩
  unfold inputActions
  split
  · split
    · next vk hvk =>
        split_ifs
        · exact hkey vk (charToVk_typed hvk)
        · exact htext _
    · exact htext _
  · exact hkey _ (Or.inl rfl)
  · exact hkey _ (Or.inl rfl)
  · exact hkey _ (Or.inl rfl)
  · exact htext _
  · exact htext _
  · exact diffed_shape value

theorem actions_shape {e : Event} (he : e.Offered) :
    (∀ a ∈ actions upper b e, a.Typed) ∧
      ∀ text rest, actions upper b e = .text text :: rest → rest = [] := by
  have hnone : (∀ a ∈ ([] : List Action), a.Typed) ∧
      ∀ text rest, ([] : List Action) = .text text :: rest → rest = [] :=
    ⟨by simp, fun _ _ heq => by cases heq⟩
  cases e with
  | plain vk =>
    refine ⟨fun a ha => ?_, fun _ _ heq => by cases heq⟩
    rw [mem_singleton.mp ha]
    have hvk : vk ∈ [0x5B, 0x1B, 0x09] := he
    simp only [mem_cons, not_mem_nil, or_false] at hvk
    rcases hvk with rfl | rfl | rfl
    · exact Or.inr rfl
    · exact Or.inl rfl
    · exact Or.inl rfl
  | navigate vk =>
    refine ⟨fun a ha => ?_, fun _ _ heq => by cases heq⟩
    rw [mem_singleton.mp ha]
    have hall : ∀ vk ∈ navKeys, modOf vk = none := by decide
    exact Or.inl (hall vk he)
  | input type data value => exact inputActions_shape _ type data value
  | _ => exact hnone

theorem hideMods_spec (names : List Modifier) (h : Inv b) :
    Inv (names.foldl hideMod b) ∧
      ∀ m, m ∈ (names.foldl hideMod b).heldMods ↔ m ∈ b.heldMods ∧ m ∉ names := by
  induction names generalizing b with
  | nil => simp [h]
  | cons name names ih =>
    rw [foldl_cons]
    have hstep : Inv (b.hideMod name) ∧
        ∀ m, m ∈ (b.hideMod name).heldMods ↔ m ∈ b.heldMods ∧ m ≠ name := by
      unfold hideMod
      split_ifs with hheld
      · refine ⟨⟨h.toSynced.lift hheld rfl rfl, Finset.erase_subset_erase name h.locked, ?_⟩, ?_⟩
        · exact fun hmeta => h.no_meta (Finset.mem_of_mem_erase hmeta)
        · intro m
          simp only [send, Finset.mem_erase]
          exact and_comm
      · exact ⟨h, fun m => ⟨fun hm => ⟨hm, fun heq => hheld (heq ▸ hm)⟩, And.left⟩⟩
    obtain ⟨hinv, hmem⟩ := hstep
    obtain ⟨hinv', hmem'⟩ := ih hinv
    refine ⟨hinv', fun m => ?_⟩
    rw [hmem', hmem, mem_cons]
    tauto

theorem hideKbToolbar_spec (h : Inv b) : Inv b.hideKbToolbar ∧ b.hideKbToolbar.heldMods = ∅ := by
  obtain ⟨hinv, hmem⟩ := hideMods_spec modifiers h
  refine ⟨hinv, Finset.eq_empty_of_forall_notMem fun m hm => ?_⟩
  exact ((hmem m).mp hm).2 (mem_modifiers m)

theorem toggleMod_spec (h : Inv b) {name : Modifier} (hname : name ≠ metaKey) (now : ℚ) :
    Inv (b.toggleMod name now) ∧
      ∀ m ∈ b.lockedMods, m ≠ name → m ∈ (b.toggleMod name now).lockedMods := by
  unfold toggleMod
  split_ifs with hheld hfast
  · refine ⟨⟨⟨h.alternates, h.held⟩, Finset.insert_subset hheld h.locked, h.no_meta⟩, ?_⟩
    exact fun m hm _ => Finset.mem_insert_of_mem hm
  · refine ⟨⟨h.toSynced.lift hheld rfl rfl, ?_, ?_⟩, ?_⟩
    · exact Finset.erase_subset_erase name h.locked
    · exact fun hmeta => h.no_meta (Finset.mem_of_mem_erase hmeta)
    · exact fun m hm hne => Finset.mem_erase.mpr ⟨hne, hm⟩
  · refine ⟨⟨h.toSynced.advance rfl ?_ ?_, ?_, ?_⟩, ?_⟩
    · rw [modEvents_mod]
      exact ⟨by simp [hheld], trivial⟩
    · rw [modEvents_mod]
      rfl
    · exact (Finset.erase_subset _ _).trans (h.locked.trans (Finset.subset_insert _ _))
    · intro hmeta
      rcases Finset.mem_insert.mp hmeta with heq | hmeta
      · exact hname heq.symm
      · exact h.no_meta hmeta
    · exact fun m hm hne => Finset.mem_erase.mpr ⟨hne, hm⟩

/-- What an event makes of the modifiers, by what it sends first. -/
structure Handled (upper : UInt16 → UInt16) (b : Bar) (e : Event) (b' : Bar) : Prop where
  inv : Inv b'
  locked : ∀ m ∈ b.lockedMods, (∀ now, e ≠ .tapMod m now) → e ≠ .hide → m ∈ b'.lockedMods
  hidden : e = .hide → b'.heldMods = ∅
  key : ∀ vk rest, actions upper b e = .key vk :: rest → b'.heldMods = b.lockedMods
  text : ∀ text rest, actions upper b e = .text text :: rest → b'.heldMods = b.heldMods
  released : ∀ vk, e = .release vk → vk ∈ b.pressed → b'.heldMods = b.lockedMods

theorem Handled.typed {e : Event} (h : Inv b) (he : e.Offered)
    (heq : b.handle upper e = (actions upper b e).foldl perform b) (hhide : e ≠ .hide)
    (hrelease : ∀ vk, e ≠ .release vk) : Handled upper b e (b.handle upper e) := by
  obtain ⟨htyped, hlast⟩ := @actions_shape upper b _ he
  obtain ⟨hinv, hlocked, -, hkey⟩ := perform_spec _ h htyped
  rw [heq]
  refine ⟨hinv, fun m hm _ _ => ?_, fun heq => absurd heq hhide, hkey, ?_,
    fun vk heq => absurd heq (hrelease vk)⟩
  · rw [hlocked]
    exact hm
  · intro text rest hacts
    obtain rfl := hlast text rest hacts
    rw [hacts]
    rfl

/-- A press-and-hold key goes down, once more or for the first time. -/
theorem inv_held {vk : Nat} (h : Inv b) (hvk : vk ∈ holdKeys) {down : Bool} {b' : Bar}
    (hsent : b'.sent = b.sent ++ [.key vk down b.heldMods]) (hheld : b'.heldMods = b.heldMods)
    (hlocked : b'.lockedMods = b.lockedMods) : Inv b' := by
  have hnone : ∀ vk ∈ holdKeys, modOf vk = none := by decide
  exact h.same (h.toSynced.other (modEvents_key (hnone vk hvk) _ _) hsent hheld) hheld hlocked

theorem inv_send (h : Inv b) {message : Message} (hnone : modEvents [message] = []) :
    Inv (b.send message) :=
  h.same (h.toSynced.other hnone rfl rfl) rfl rfl

/-- An event that sends nothing as a key of its own or as text. -/
theorem Handled.quiet {e : Event} (hacts : actions upper b e = []) (hhide : e ≠ .hide)
    (hrelease : ∀ vk, e ≠ .release vk) (hinv : Inv b')
    (hlocked : ∀ m ∈ b.lockedMods, (∀ now, e ≠ .tapMod m now) → m ∈ b'.lockedMods) :
    Handled upper b e b' := by
  refine ⟨hinv, fun m hm hne _ => hlocked m hm hne, fun heq => absurd heq hhide, ?_, ?_,
    fun vk heq => absurd heq (hrelease vk)⟩ <;>
  · intro _ _ heq
    rw [hacts] at heq
    cases heq

theorem handle_spec {e : Event} (h : Inv b) (he : e.Offered) :
    Handled upper b e (b.handle upper e) := by
  cases e with
  | tapMod name now =>
    have hname : name ≠ metaKey := by
      rintro rfl
      exact absurd (show metaKey ∈ [shiftKey, ctrlKey, altKey] from he) (by decide)
    obtain ⟨hinv, hlocked⟩ := toggleMod_spec h hname now
    refine .quiet rfl (by simp) (by simp) hinv fun m hm hne => hlocked m hm ?_
    rintro rfl
    exact hne now rfl
  | press vk =>
    refine .quiet rfl (by simp) (by simp) ?_ ?_ <;> simp only [handle, press]
    · split_ifs
      · exact h
      · exact inv_held h he rfl rfl rfl
    · split_ifs <;> exact fun m hm _ => hm
  | tick vk =>
    refine .quiet rfl (by simp) (by simp) ?_ ?_ <;> simp only [handle, tick]
    · split_ifs
      · exact inv_held h he rfl rfl rfl
      · exact h
    · split_ifs <;> exact fun m hm _ => hm
  | release vk =>
    simp only [handle, release]
    split_ifs with hpressed
    · have hup : Inv ({ b with pressed := b.pressed.erase vk }.sendKeyEvent vk false) :=
        inv_held h he rfl rfl rfl
      obtain ⟨hsynced, hheld, hlocked⟩ := releaseLatchedMods_spec hup.toSynced
      obtain ⟨hinv, hheld⟩ := hup.lifted hsynced hheld hlocked
      refine ⟨hinv, fun m hm _ _ => ?_, by simp, by simp [actions], by simp [actions],
        fun _ _ _ => hheld⟩
      rw [hlocked]
      exact hm
    · refine ⟨h, fun m hm _ _ => hm, by simp, by simp [actions], by simp [actions], ?_⟩
      rintro _ heq hdown
      cases heq
      exact absurd hdown hpressed
  | secureAttention =>
    obtain ⟨hsynced, hheld, hlocked⟩ := releaseLatchedMods_spec h.toSynced
    obtain ⟨hinv, -⟩ := h.lifted hsynced hheld hlocked
    have heq : b.handle upper .secureAttention = b.releaseLatchedMods.send .secureAttention := rfl
    rw [heq]
    refine .quiet rfl (by simp) (by simp) ?_ fun m hm _ => ?_
    · exact inv_send hinv rfl
    · rw [send, hlocked]
      exact hm
  | hide =>
    obtain ⟨hinv, hnone⟩ := hideKbToolbar_spec h
    exact ⟨hinv, by simp, fun _ => hnone, by simp [actions], by simp [actions], by simp⟩
  | plain vk => exact .typed h he rfl (by simp) (by simp)
  | navigate vk => exact .typed h he rfl (by simp) (by simp)
  | input type data value => exact .typed h he rfl (by simp) (by simp)

theorem mem_oneShot {m : Modifier} : m ∈ b.oneShot ↔ m ∈ b.heldMods ∧ m ∉ b.lockedMods :=
  Finset.mem_sdiff

/-- One step keeps what is promised exactly when it meets the condition. -/
theorem kept_step_iff {e : Event} (h : Inv b) (hstep : Step upper b e b') :
    Kept upper b e b' ↔ Spared upper b e := by
  obtain ⟨he, rfl⟩ := hstep
  have hhandled := @handle_spec upper b e h he
  constructor
  · intro hkept
    refine ⟨fun text rest hacts => ?_, fun hacts m hm => (hkept.once hacts m hm).1, hkept.pressed⟩
    refine Finset.eq_empty_of_forall_notMem fun m hm => ?_
    have hgone := (hkept.once (by simp [hacts]) m hm).2
    rw [hhandled.text text rest hacts] at hgone
    exact hgone (mem_oneShot.mp hm).1
  · intro hspared
    refine ⟨hhandled.inv.toSynced, fun m hm hne hhide => ?_, hhandled.hidden,
      fun hacts m hm => ⟨hspared.once hacts m hm, ?_⟩, hspared.pressed, ?_⟩
    · have hlocked := hhandled.locked m hm hne hhide
      exact ⟨hhandled.inv.locked hlocked, hlocked⟩
    · cases hfirst : actions upper b e with
      | nil => exact absurd hfirst hacts
      | cons act rest =>
        cases act with
        | key vk =>
          rw [hhandled.key vk rest hfirst]
          exact (mem_oneShot.mp hm).2
        | text text =>
          rw [hspared.text text rest hfirst] at hm
          cases hm
    · intro vk heq hpressed m hm
      rw [hhandled.released vk heq hpressed]
      exact (mem_oneShot.mp hm).2

/-- Along any run from a bar with nothing latched, the modifiers are kept as promised exactly as
long as no text is sent under one held for the next key, nor anything under one that another
key still down was sent under. -/
theorem kept_iff_spared (upper : UInt16 → UInt16) (events : List Event) :
    EachStep (Step upper) (Kept upper) {} events ↔
      EachStep (Step upper) (fun b e _ => Spared upper b e) {} events := by
  have hstart : Inv {} := ⟨⟨trivial, rfl⟩, le_rfl, by simp⟩
  refine eachStep_iff (S := Inv) (I := fun _ => True) ?_ (fun _ _ _ _ _ => trivial) ?_ hstart
    trivial events
  · rintro b e _ h ⟨he, rfl⟩
    exact (handle_spec h he).inv
  · exact fun b e b' h _ => kept_step_iff h

/-- Ctrl is latched and an accented letter typed: it goes out as text, and Ctrl is still held
for what comes after it. -/
theorem text_under_ctrl :
    ∃ upper b, upper 0xE9 = 0xC9 ∧ Run (Step upper) {} [.tapMod ctrlKey 0,
        .input .insertText (some [0xE9]) KBD_SENTINEL] b ∧
      b.sent = [.key 0x11 true {ctrlKey}, .textInput [0xE9]] ∧ b.oneShot = {ctrlKey} ∧
      ¬ EachStep (Step upper) (Kept upper) {} [.tapMod ctrlKey 0,
        .input .insertText (some [0xE9]) KBD_SENTINEL] := by
  have hfirst : Step (fun _ => 0xC9) {} (.tapMod ctrlKey 0)
      (toggleMod {} ctrlKey 0) := ⟨by simp [Event.Offered], rfl⟩
  have hlast : Step (fun _ => 0xC9) (toggleMod {} ctrlKey 0)
      (.input .insertText (some [0xE9]) KBD_SENTINEL)
      (sendTextInput (toggleMod {} ctrlKey 0) [0xE9]) := ⟨trivial, rfl⟩
  refine ⟨fun _ => 0xC9, _, rfl, Run.snoc (Run.single hfirst) hlast, rfl, rfl, fun hall => ?_⟩
  have hkept := hall [.tapMod ctrlKey 0] _ [] _ _ rfl (Run.single hfirst) hlast
  exact (hkept.once (by decide) ctrlKey (by decide)).2 (by decide)

end MoonlightWeb.Frontend.StreamViewKeyboard
