import MoonlightWeb.Lib.Run
import MoonlightWeb.Streaming.InputWatchdog

/-! # The dead-man switch over runs

Messages mark the client alive and then note what they press and release; ticks come
in between at any time. What the client last pressed is on account until it releases
it or the sink is told to. A press of a button without a bit is on account and never
recorded, and a press noted after the tick of the same silence is not let go of; in
every other run the switch lets go of all of it.
-/

namespace MoonlightWeb.Streaming.InputWatchdog

open Lib Js Qt JsMap

inductive Input
  | key (keyCode : Int)
  | button (number : Int)
  | pad (controller : Int)
deriving DecidableEq, Repr

/-- What the engine notes of a message. -/
inductive Note
  | key (key : HeldKey) (down : Bool)
  | button (button : Int) (down hold : Bool)
  | pad (controller : Int) (mask : BitVec 16) (atRest : Bool)
  | heartbeat (keys : List HeldKey) (buttonMask : BitVec 32) (buttonsHold : Bool)
deriving DecidableEq, Repr

def note (w : Watchdog) : Note → Watchdog
  | .key key down => noteKey w key down
  | .button button down hold => noteButton w button down hold
  | .pad controller mask atRest => notePad w controller mask atRest
  | .heartbeat keys buttonMask buttonsHold => (sync w keys buttonMask buttonsHold).1

inductive Event
  | alive (nowMs : Int)
  | note (n : Note)
  | tick (nowMs : Int)
  | release (includeHold : Bool)
deriving DecidableEq, Repr

/-- Whether an input is among those handed to the sink. -/
def Handed.Has (h : Handed) : Input → Prop
  | .key keyCode => ∃ key ∈ h.keys, key.keyCode = keyCode
  | .button number => number ∈ h.buttons
  | .pad controller => ∃ mask, (controller, mask) ∈ h.pads

def Recorded (w : Watchdog) : Input → Prop
  | .key keyCode => (w.heldKeys.get keyCode).isSome = true
  | .button number => w.heldButtons &&& buttonBit number ≠ 0
  | .pad controller => (w.activePads.get controller).isSome = true

/-- The account after a note: what was last noted as pressed. The heartbeat speaks of
every key and button. -/
def owedAfter (owed : Set Input) : Note → Set Input
  | .key key down =>
      if down then insert (.key key.keyCode) owed else owed \ {.key key.keyCode}
  | .button button down _ => if down then insert (.button button) owed else owed \ {.button button}
  | .pad controller _ atRest =>
      if atRest then owed \ {.pad controller} else insert (.pad controller) owed
  | .heartbeat keys buttonMask _ => fun
      | .key keyCode => listed keys keyCode = true
      | .button number => buttonMask &&& buttonBit number ≠ 0
      | .pad controller => owed (.pad controller)

/-- The watchdog, the clock, and the inputs whose last note was a press and that were
not handed to the sink since. -/
structure Watched where
  watchdog : Watchdog
  clockMs : Int
  owed : Set Input

open Watched

namespace Watched

def initial (clockMs : Int) : Watched := ⟨.fresh, clockMs, ∅⟩

def handed (s : Watched) : Event → Handed
  | .tick nowMs => (tick s.watchdog nowMs).2
  | .release includeHold => (release s.watchdog includeHold).2
  | _ => .nothing

/-- The clock does not go back, and what is noted belongs to a message, which marked
the client alive first. -/
def next (s : Watched) : Event → Option Watched
  | .alive nowMs =>
      if nowMs < s.clockMs then none
      else some ⟨(noteClientAlive s.watchdog nowMs).1, nowMs, s.owed⟩
  | .note n =>
      if s.watchdog.lastAliveMs = none then none
      else some ⟨note s.watchdog n, s.clockMs, owedAfter s.owed n⟩
  | .tick nowMs =>
      if nowMs < s.clockMs then none
      else
        some ⟨(tick s.watchdog nowMs).1, nowMs,
          { i | i ∈ s.owed ∧ ¬ (s.handed (.tick nowMs)).Has i }⟩
  | .release includeHold =>
      some ⟨(release s.watchdog includeHold).1, s.clockMs,
        { i | i ∈ s.owed ∧ ¬ (s.handed (.release includeHold)).Has i }⟩

/-- The switch works at a step: the hold flag stands for some button; a tick at the
long timeout leaves nothing recorded and nothing on account; a tick at the short one
lets go of every recorded key without the hold flag. -/
structure DeadMan (s : Watched) (e : Event) (s' : Watched) : Prop where
  hold : s'.watchdog.heldButtonsHold = true → s'.watchdog.heldButtons ≠ 0
  long : ∀ nowMs aliveMs, e = .tick nowMs → s.watchdog.lastAliveMs = some aliveMs →
    s.watchdog.heartbeatSeen = true → staleHoldMs ≤ nowMs - aliveMs →
      anythingHeld s'.watchdog = false ∧ s'.owed = ∅
  short : ∀ nowMs aliveMs, e = .tick nowMs → s.watchdog.lastAliveMs = some aliveMs →
    s.watchdog.heartbeatSeen = true → staleMs ≤ nowMs - aliveMs →
      ∀ keyCode key, s.watchdog.heldKeys.get keyCode = some key → key.hold = false →
        key ∈ (s.handed e).keys ∧ s'.watchdog.heldKeys.get keyCode = none

end Watched

/-- The note presses a key that a brief stall lets go of. -/
def Note.PressesLight : Note → Prop
  | .key k down => down = true ∧ k.hold = false
  | .heartbeat keys _ _ => ∃ k ∈ keys, k.hold = false
  | _ => False

def Note.Presses : Note → Prop
  | .key _ down => down = true
  | .button _ down _ => down = true
  | .pad _ _ atRest => atRest = false
  | .heartbeat keys buttonMask _ => keys ≠ [] ∨ buttonMask ≠ 0

/-- A button pressed has a bit. -/
def Note.Numbered : Note → Prop
  | .button number down _ => down = true → 1 ≤ number ∧ number ≤ 32
  | _ => True

/-- Every button pressed has a bit, and nothing is pressed that the tick of the same
silence should already have let go of. -/
def Watched.InTime (s : Watched) (e : Event) (_ : Watched) : Prop :=
  match e with
  | .note n => n.Numbered ∧ (n.PressesLight → s.watchdog.shortFired = false) ∧
      (n.Presses → s.watchdog.longFired = false)
  | _ => True

theorem anythingHeld_eq_false_iff (w : Watchdog) :
    anythingHeld w = false ↔
      w.heldKeys.entries = [] ∧ w.heldButtons = 0 ∧ w.activePads.entries = [] := by
  unfold anythingHeld
  simp [and_assoc]

theorem not_recorded {w : Watchdog} (h : anythingHeld w = false) (i : Input) : ¬ Recorded w i := by
  obtain ⟨hkeys, hbuttons, hpads⟩ := (anythingHeld_eq_false_iff w).mp h
  cases i with
  | key keyCode => simp [Recorded, JsMap.get, hkeys]
  | button number => simp [Recorded, hbuttons]
  | pad controller => simp [Recorded, JsMap.get, hpads]

structure Kept (w : Watchdog) (owed : Set Input) : Prop where
  keyed : Keyed w.heldKeys
  hold : w.heldButtonsHold = true → w.heldButtons ≠ 0
  owed : ∀ i ∈ owed, Recorded w i
  short : w.shortFired = true → ∀ keyCode key, w.heldKeys.get keyCode = some key → key.hold = true
  long : w.longFired = true → anythingHeld w = false

theorem Kept.fresh : Kept .fresh ∅ where
  keyed := Keyed.empty
  hold := fun h => by cases h
  owed := fun _ h => absurd h (Set.notMem_empty _)
  short := fun h => by cases h
  long := fun h => by cases h

theorem Kept.alive {w : Watchdog} {owed : Set Input} (h : Kept w owed) (nowMs : Int) :
    Kept (noteClientAlive w nowMs).1 owed where
  keyed := h.keyed
  hold := h.hold
  owed := by
    intro i hi
    have hrecorded := h.owed i hi
    cases i <;> exact hrecorded
  short := fun hno => by cases hno
  long := fun hno => by cases hno

section

variable (w : Watchdog) (includeHold : Bool)

theorem release_all : anythingHeld (release w true).1 = false := by
  have hkeys : (w.heldKeys.filter fun _ key => key.hold && !true).entries = [] := by
    rw [filter, List.filter_eq_nil_iff]
    simp
  have hbuttons : (if takesButtons w true then (0 : BitVec 32) else w.heldButtons) = 0 := by
    unfold takesButtons
    by_cases hnone : w.heldButtons = 0 <;> simp [hnone]
  simp only [anythingHeld, release, hkeys, hbuttons]
  rfl

theorem release_recorded {w : Watchdog} (hkeyed : Keyed w.heldKeys) {i : Input} (h : Recorded w i) :
    (release w includeHold).2.Has i ∨ Recorded (release w includeHold).1 i := by
  cases i with
  | key keyCode =>
    obtain ⟨key, hget⟩ := Option.isSome_iff_exists.mp h
    by_cases hstays : (key.hold && !includeHold) = true
    · right
      simp [Recorded, release, get_filter, hget, hstays]
    · left
      refine ⟨key, (mem_values_iff _ _).mpr ⟨keyCode, ?_⟩, hkeyed keyCode key hget⟩
      have hgoes : (key.hold && !includeHold) = false := Bool.eq_false_iff.mpr hstays
      rw [get_filter, hget, Option.filter_some_pos (by rw [hgoes, Bool.not_false])]
  | button number =>
    by_cases htakes : takesButtons w includeHold = true
    · left
      simp only [Handed.Has, release, htakes, if_true]
      exact (mem_buttonsOf _ _).mpr h
    · right
      simp only [Recorded, release, htakes]
      exact h
  | pad controller =>
    cases includeHold with
    | true =>
      left
      obtain ⟨mask, hget⟩ := Option.isSome_iff_exists.mp h
      exact ⟨mask, (mem_entries_iff _ _ _).mpr hget⟩
    | false =>
      right
      exact h

theorem release_light {keyCode : Int} {key : HeldKey} (hget : w.heldKeys.get keyCode = some key)
    (hlight : key.hold = false) :
    key ∈ (release w includeHold).2.keys ∧
      (release w includeHold).1.heldKeys.get keyCode = none := by
  refine ⟨(mem_values_iff _ _).mpr ⟨keyCode, ?_⟩, ?_⟩
  · rw [get_filter, hget]
    simp [hlight]
  · simp [release, get_filter, hget, hlight]

theorem release_held {keyCode : Int} {key : HeldKey}
    (hget : (release w includeHold).1.heldKeys.get keyCode = some key) : key.hold = true := by
  simp only [release, get_filter, Option.filter_eq_some_iff, Bool.and_eq_true] at hget
  exact hget.2.1

theorem release_nothing {w : Watchdog} (h : anythingHeld w = false) :
    anythingHeld (release w includeHold).1 = false := by
  rw [anythingHeld_eq_false_iff] at h ⊢
  obtain ⟨hkeys, hbuttons, hpads⟩ := h
  refine ⟨?_, ?_, ?_⟩
  · simp [release, filter, hkeys]
  · simp [release, hbuttons]
  · cases includeHold with
    | true => rfl
    | false => exact hpads

end

section

variable {w : Watchdog} {owed : Set Input}

/-- A release keeps the account, whatever flags were raised for it. -/
theorem Kept.releaseAs (h : Kept w owed) (includeHold shortFired longFired : Bool)
    (hlong : longFired = true → includeHold = true ∨ anythingHeld w = false) :
    Kept (release { w with shortFired, longFired } includeHold).1
      { i | i ∈ owed ∧ ¬ (release { w with shortFired, longFired } includeHold).2.Has i } where
  keyed := h.keyed.filter _
  hold := by
    change (if takesButtons w includeHold then false else w.heldButtonsHold) = true →
      (if takesButtons w includeHold then (0 : BitVec 32) else w.heldButtons) ≠ 0
    by_cases htakes : takesButtons w includeHold = true
    · simp [htakes]
    · simp only [htakes]
      exact h.hold
  owed := by
    intro i hi
    have hrecorded : Recorded { w with shortFired, longFired } i := by
      have hbefore := h.owed i hi.1
      cases i <;> exact hbefore
    exact (release_recorded includeHold (w := { w with shortFired, longFired }) h.keyed
      hrecorded).resolve_left hi.2
  short := fun _ _ _ hget => release_held _ includeHold hget
  long := by
    intro hfired
    obtain rfl | hnothing := hlong hfired
    · exact release_all _
    · exact release_nothing (w := { w with shortFired, longFired }) includeHold hnothing

theorem Kept.release (h : Kept w owed) (includeHold : Bool) :
    Kept (release w includeHold).1
      { i | i ∈ owed ∧ ¬ (InputWatchdog.release w includeHold).2.Has i } :=
  h.releaseAs includeHold w.shortFired w.longFired fun hfired => Or.inr (h.long hfired)

theorem not_has_nothing (i : Input) : ¬ Handed.nothing.Has i := by
  cases i <;> simp [Handed.Has, Handed.nothing]

theorem Kept.tick (h : Kept w owed) (nowMs : Int) :
    Kept (tick w nowMs).1 { i | i ∈ owed ∧ ¬ (InputWatchdog.tick w nowMs).2.Has i } := by
  have hidle : Kept w { i | i ∈ owed ∧ ¬ Handed.nothing.Has i } := by
    have hsame : { i | i ∈ owed ∧ ¬ Handed.nothing.Has i } = owed :=
      Set.ext fun i => ⟨fun hi => hi.1, fun hi => ⟨hi, not_has_nothing i⟩⟩
    rw [hsame]
    exact h
  unfold InputWatchdog.tick
  split
  · exact hidle
  · split
    · exact hidle
    · simp only
      split
      · exact h.releaseAs true true true fun _ => Or.inl rfl
      · split
        · exact h.releaseAs false true w.longFired fun hfired => Or.inr (h.long hfired)
        · exact hidle

theorem Kept.noteKey (h : Kept w owed) (key : HeldKey) (down : Bool)
    (hlight : down = true ∧ key.hold = false → w.shortFired = false)
    (hpress : down = true → w.longFired = false) :
    Kept (noteKey w key down) (owedAfter owed (.key key down)) := by
  cases down with
  | true =>
    refine ⟨h.keyed.set rfl, h.hold, ?_, ?_, ?_⟩
    · rintro i (rfl | hi)
      · simp [Recorded, InputWatchdog.noteKey]
      · have hbefore := h.owed i hi
        cases i with
        | key keyCode =>
          by_cases hcode : keyCode = key.keyCode
          · simp [Recorded, InputWatchdog.noteKey, hcode]
          · simp only [Recorded, InputWatchdog.noteKey, if_true,
              get_set_of_ne _ _ hcode]
            exact hbefore
        | button number => exact hbefore
        | pad controller => exact hbefore
    · intro hfired keyCode other hget
      by_cases hcode : keyCode = key.keyCode
      · simp only [InputWatchdog.noteKey, if_true, hcode, get_set_self] at hget
        obtain rfl := Option.some.inj hget
        by_contra hno
        have hclear := hlight ⟨rfl, by simpa using hno⟩
        exact absurd (show w.shortFired = true from hfired) (by simp [hclear])
      · simp only [InputWatchdog.noteKey, if_true, get_set_of_ne _ _ hcode] at hget
        exact h.short hfired keyCode other hget
    · intro hfired
      exact absurd (show w.longFired = true from hfired) (by simp [hpress rfl])
  | false =>
    refine ⟨h.keyed.delete _, h.hold, ?_, ?_, ?_⟩
    · rintro i ⟨hi, hother⟩
      have hbefore := h.owed i hi
      cases i with
      | key keyCode =>
        have hcode : keyCode ≠ key.keyCode := fun heq => hother (by rw [heq]; rfl)
        simp only [Recorded, InputWatchdog.noteKey, Bool.false_eq_true, if_false,
          get_delete_of_ne _ hcode]
        exact hbefore
      | button number => exact hbefore
      | pad controller => exact hbefore
    · intro hfired keyCode other hget
      simp only [InputWatchdog.noteKey, Bool.false_eq_true, if_false] at hget
      by_cases hcode : keyCode = key.keyCode
      · rw [hcode, get_delete_self] at hget
        cases hget
      · rw [get_delete_of_ne _ hcode] at hget
        exact h.short hfired keyCode other hget
    · intro hfired
      obtain ⟨hkeys, hbuttons, hpads⟩ := (anythingHeld_eq_false_iff w).mp (h.long hfired)
      refine (anythingHeld_eq_false_iff _).mpr ⟨?_, hbuttons, hpads⟩
      simp [InputWatchdog.noteKey, delete, hkeys]

theorem Kept.noteButton (h : Kept w owed) (button : Int) (down hold : Bool)
    (hnumbered : down = true → 1 ≤ button ∧ button ≤ 32)
    (hpress : down = true → w.longFired = false) :
    Kept (noteButton w button down hold) (owedAfter owed (.button button down hold)) := by
  cases down with
  | true =>
    obtain ⟨hlow, hhigh⟩ := hnumbered rfl
    have hheld : ∀ number, (w.heldButtons ||| buttonBit button) &&& buttonBit number ≠ 0 ↔
        w.heldButtons &&& buttonBit number ≠ 0 ∨
          (1 ≤ button ∧ button ≤ 32 ∧ number = button) :=
      fun number => held_press w.heldButtons button number
    refine ⟨h.keyed, ?_, ?_, h.short, ?_⟩
    · intro _ hzero
      have hself := (hheld button).mpr (Or.inr ⟨hlow, hhigh, rfl⟩)
      change w.heldButtons ||| buttonBit button = 0 at hzero
      rw [hzero] at hself
      simp at hself
    · rintro i (rfl | hi)
      · exact (hheld button).mpr (Or.inr ⟨hlow, hhigh, rfl⟩)
      · have hbefore := h.owed i hi
        cases i with
        | key keyCode => exact hbefore
        | button number => exact (hheld number).mpr (Or.inl hbefore)
        | pad controller => exact hbefore
    · intro hfired
      exact absurd (show w.longFired = true from hfired) (by simp [hpress rfl])
  | false =>
    refine ⟨h.keyed, ?_, ?_, h.short, ?_⟩
    · simp only [InputWatchdog.noteButton, Bool.false_eq_true, if_false]
      split
      · intro hno
        cases hno
      · intro _
        assumption
    · rintro i ⟨hi, hother⟩
      have hbefore := h.owed i hi
      cases i with
      | key keyCode => exact hbefore
      | button number =>
        have hne : number ≠ button := fun heq => hother (by rw [heq]; rfl)
        exact (held_lift w.heldButtons button number).mpr ⟨hbefore, hne⟩
      | pad controller => exact hbefore
    · intro hfired
      obtain ⟨hkeys, hbuttons, hpads⟩ := (anythingHeld_eq_false_iff w).mp (h.long hfired)
      refine (anythingHeld_eq_false_iff _).mpr ⟨hkeys, ?_, hpads⟩
      simp [InputWatchdog.noteButton, hbuttons]

theorem Kept.notePad (h : Kept w owed) (controller : Int) (mask : BitVec 16) (atRest : Bool)
    (hpress : atRest = false → w.longFired = false) :
    Kept (notePad w controller mask atRest) (owedAfter owed (.pad controller mask atRest)) := by
  cases atRest with
  | false =>
    refine ⟨h.keyed, h.hold, ?_, h.short, ?_⟩
    · rintro i (rfl | hi)
      · simp [Recorded, InputWatchdog.notePad]
      · have hbefore := h.owed i hi
        cases i with
        | key keyCode => exact hbefore
        | button number => exact hbefore
        | pad other =>
          by_cases hsame : other = controller
          · simp [Recorded, InputWatchdog.notePad, hsame]
          · simp only [Recorded, InputWatchdog.notePad, Bool.false_eq_true, if_false,
              get_set_of_ne _ _ hsame]
            exact hbefore
    · intro hfired
      exact absurd (show w.longFired = true from hfired) (by simp [hpress rfl])
  | true =>
    refine ⟨h.keyed, h.hold, ?_, h.short, ?_⟩
    · rintro i ⟨hi, hother⟩
      have hbefore := h.owed i hi
      cases i with
      | key keyCode => exact hbefore
      | button number => exact hbefore
      | pad other =>
        have hne : other ≠ controller := fun heq => hother (by rw [heq]; rfl)
        simp only [Recorded, InputWatchdog.notePad, if_true, get_delete_of_ne _ hne]
        exact hbefore
    · intro hfired
      obtain ⟨hkeys, hbuttons, hpads⟩ := (anythingHeld_eq_false_iff w).mp (h.long hfired)
      refine (anythingHeld_eq_false_iff _).mpr ⟨hkeys, hbuttons, ?_⟩
      simp [InputWatchdog.notePad, delete, hpads]

theorem get_sync (keys : List HeldKey) (buttonMask : BitVec 32) (buttonsHold : Bool)
    (keyCode : Int) :
    ((sync w keys buttonMask buttonsHold).1.heldKeys.get keyCode).isSome = listed keys keyCode := by
  have hfound := get_syncKeys keys (w.heldKeys, []) keyCode
  simp only [sync, get_filter]
  cases hlisted : listed keys keyCode with
  | true =>
    rw [hlisted, Bool.or_true] at hfound
    obtain ⟨key, hget⟩ := Option.isSome_iff_exists.mp hfound
    rw [hget]
    simp
  | false =>
    cases (keys.foldl syncKey (w.heldKeys, [])).1.get keyCode <;> simp

/-- The keys recorded while a heartbeat is gone through keep or take its hold flags. -/
theorem syncKeys_hold (keys : List HeldKey) (found : QHash Int HeldKey × List HeldKey)
    (hkeys : ∀ key ∈ keys, key.hold = true)
    (hheld : ∀ keyCode key, found.1.get keyCode = some key → key.hold = true) :
    ∀ keyCode key, (keys.foldl syncKey found).1.get keyCode = some key → key.hold = true := by
  induction keys generalizing found with
  | nil => exact hheld
  | cons head rest ih =>
    refine ih _ (fun key hkey => hkeys key (List.mem_cons_of_mem _ hkey)) ?_
    have hhead := hkeys head List.mem_cons_self
    intro keyCode key hget
    unfold syncKey at hget
    cases hfound : found.1.get head.keyCode with
    | none =>
      rw [hfound] at hget
      by_cases hcode : keyCode = head.keyCode
      · rw [hcode, get_set_self] at hget
        rw [← Option.some.inj hget, hhead]
      · rw [get_set_of_ne _ _ hcode] at hget
        exact hheld keyCode key hget
    | some held =>
      rw [hfound] at hget
      by_cases hcode : keyCode = head.keyCode
      · rw [hcode, get_set_self] at hget
        rw [← Option.some.inj hget, hhead]
      · rw [get_set_of_ne _ _ hcode] at hget
        exact hheld keyCode key hget

theorem Kept.heartbeat (h : Kept w owed) (keys : List HeldKey) (buttonMask : BitVec 32)
    (buttonsHold : Bool) (hlight : (∃ key ∈ keys, key.hold = false) → w.shortFired = false)
    (hpress : keys ≠ [] ∨ buttonMask ≠ 0 → w.longFired = false) :
    Kept (sync w keys buttonMask buttonsHold).1
      (owedAfter owed (.heartbeat keys buttonMask buttonsHold)) where
  keyed := (h.keyed.syncKeys keys).filter _
  hold := by
    intro hheld hzero
    change (buttonMask != 0 && buttonsHold) = true at hheld
    change buttonMask = 0 at hzero
    simp [hzero] at hheld
  owed := by
    intro i hi
    cases i with
    | key keyCode => exact (get_sync keys buttonMask buttonsHold keyCode).trans hi
    | button number => exact hi
    | pad controller => exact h.owed (.pad controller) hi
  short := by
    intro hfired keyCode key hget
    have hkeys : ∀ key ∈ keys, key.hold = true := by
      intro key hkey
      by_contra hno
      have hclear := hlight ⟨key, hkey, by simpa using hno⟩
      exact absurd (show w.shortFired = true from hfired) (by simp [hclear])
    simp only [sync, get_filter, Option.filter_eq_some_iff] at hget
    exact syncKeys_hold keys (w.heldKeys, []) hkeys (h.short hfired) keyCode key hget.1
  long := by
    intro hfired
    have hnone : ¬ (keys ≠ [] ∨ buttonMask ≠ 0) := fun hsome =>
      absurd (show w.longFired = true from hfired) (by simp [hpress hsome])
    obtain ⟨rfl, rfl⟩ : keys = [] ∧ buttonMask = 0 := by
      rwa [not_or, not_not, not_not] at hnone
    obtain ⟨hkeys, _, hpads⟩ := (anythingHeld_eq_false_iff w).mp (h.long hfired)
    refine (anythingHeld_eq_false_iff _).mpr ⟨?_, rfl, hpads⟩
    simp [sync, filter, hkeys]

end

namespace Watched

theorem kept_next {s s' : Watched} {e : Event} (h : Kept s.watchdog s.owed)
    (hnext : s.next e = some s') (htime : InTime s e s') : Kept s'.watchdog s'.owed := by
  cases e with
  | alive nowMs =>
    simp only [next] at hnext
    split at hnext
    · cases hnext
    · obtain rfl := Option.some.inj hnext
      exact h.alive nowMs
  | note n =>
    obtain ⟨hnumbered, hlight, hpress⟩ := htime
    simp only [next] at hnext
    split at hnext
    · cases hnext
    · obtain rfl := Option.some.inj hnext
      cases n with
      | key key down => exact h.noteKey key down hlight hpress
      | button button down hold => exact h.noteButton button down hold hnumbered hpress
      | pad controller mask atRest => exact h.notePad controller mask atRest hpress
      | heartbeat keys buttonMask buttonsHold =>
        exact h.heartbeat keys buttonMask buttonsHold hlight hpress
  | tick nowMs =>
    simp only [next] at hnext
    split at hnext
    · cases hnext
    · obtain rfl := Option.some.inj hnext
      exact h.tick nowMs
  | release includeHold =>
    obtain rfl := Option.some.inj hnext
    exact h.release includeHold

/-- A tick at the long timeout leaves nothing recorded. -/
theorem tick_long {w : Watchdog} {owed : Set Input} (h : Kept w owed) {nowMs aliveMs : Int}
    (halive : w.lastAliveMs = some aliveMs) (hseen : w.heartbeatSeen = true)
    (hsilent : staleHoldMs ≤ nowMs - aliveMs) : anythingHeld (tick w nowMs).1 = false := by
  unfold tick
  simp only [halive, hseen, Bool.not_true, Bool.false_eq_true, if_false]
  cases hfired : w.longFired with
  | false =>
    rw [if_pos (by simpa using hsilent)]
    exact release_all _
  | true =>
    have hnothing := h.long hfired
    rw [if_neg (by simp)]
    split
    · exact release_nothing (w := { w with shortFired := true }) false hnothing
    · exact hnothing

/-- A tick at the short timeout leaves no key without the hold flag. -/
theorem tick_short {w : Watchdog} {owed : Set Input} (h : Kept w owed) {nowMs aliveMs : Int}
    (halive : w.lastAliveMs = some aliveMs) (hseen : w.heartbeatSeen = true)
    (hsilent : staleMs ≤ nowMs - aliveMs) {keyCode : Int} {key : HeldKey}
    (hget : w.heldKeys.get keyCode = some key) (hlight : key.hold = false) :
    key ∈ (tick w nowMs).2.keys ∧ (tick w nowMs).1.heldKeys.get keyCode = none := by
  unfold tick
  simp only [halive, hseen, Bool.not_true, Bool.false_eq_true, if_false]
  split
  · exact release_light { w with longFired := true, shortFired := true } true hget hlight
  · cases hfired : w.shortFired with
    | false =>
      rw [if_pos (by simpa using hsilent)]
      exact release_light { w with shortFired := true } false hget hlight
    | true =>
      have hhold := h.short hfired keyCode key hget
      rw [hlight] at hhold
      cases hhold

theorem deadMan_of_kept {s s' : Watched} {e : Event} (h : Kept s.watchdog s.owed)
    (hnext : s.next e = some s') (htime : InTime s e s') : DeadMan s e s' := by
  have hkept := kept_next h hnext htime
  refine ⟨hkept.hold, ?_, ?_⟩
  · rintro nowMs aliveMs rfl halive hseen hsilent
    have hnothing : anythingHeld s'.watchdog = false := by
      simp only [next] at hnext
      split at hnext
      · cases hnext
      · obtain rfl := Option.some.inj hnext
        exact tick_long h halive hseen hsilent
    refine ⟨hnothing, Set.eq_empty_iff_forall_notMem.mpr fun i hi => ?_⟩
    exact not_recorded hnothing i (hkept.owed i hi)
  · rintro nowMs aliveMs rfl halive hseen hsilent keyCode key hget hlight
    simp only [next] at hnext
    split at hnext
    · cases hnext
    · obtain rfl := Option.some.inj hnext
      exact tick_short h halive hseen hsilent hget hlight

end Watched

/-- The switch works along every run whose presses are numbered and in time. -/
theorem dead_man_along (clockMs : Int) (labels : List Event)
    (hlabels : EachStep (moves next) InTime (initial clockMs) labels) :
    EachStep (moves next) DeadMan (initial clockMs) labels := by
  intro visited e rest s s' hl hrun hstep
  have hkept : Kept s.watchdog s.owed :=
    (hlabels.take hl).invariant (I := fun s => Kept s.watchdog s.owed)
      (fun _ _ _ h hnext htime => kept_next h hnext htime) Kept.fresh hrun
  exact deadMan_of_kept hkept hstep (hlabels visited e rest s s' hl hrun hstep)

/-- A click that a silence follows. -/
theorem dead_man_along_click :
    EachStep (moves next) DeadMan (initial 0)
      [.alive 0, .note (.button 1 true true), .note (.button 1 false false), .tick 4000] := by
  refine dead_man_along 0 _ ?_
  refine EachStep.cons fun s hs => ⟨trivial, ?_⟩
  obtain rfl := Option.some.inj hs
  refine EachStep.cons fun s hs =>
    ⟨⟨fun _ => ⟨by decide, by decide⟩, fun _ => rfl, fun _ => rfl⟩, ?_⟩
  obtain rfl := Option.some.inj hs
  refine EachStep.cons fun s hs => ⟨⟨(fun hno => by cases hno), fun _ => rfl, fun _ => rfl⟩, ?_⟩
  obtain rfl := Option.some.inj hs
  exact EachStep.cons fun s hs => ⟨trivial, EachStep.nil⟩

/-- A press of button 40, which the client may name, with the hold flag. -/
theorem unnumbered_press_keeps_hold :
    ¬ ∀ (clockMs : Int) (labels : List Event),
      EachStep (moves next) DeadMan (initial clockMs) labels := by
  intro hall
  have hrun : Run (moves next) (initial 0) [.alive 0] _ :=
    run_of_runMoves _ rfl
  have hstep := hall 0 ([.alive 0] ++ [.note (.button 40 true true)])
    [.alive 0] (.note (.button 40 true true)) [] _ _ rfl hrun rfl
  exact hstep.hold rfl rfl

end MoonlightWeb.Streaming.InputWatchdog
