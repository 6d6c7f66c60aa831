import MoonlightWeb.Lib.Run
import MoonlightWeb.Lib.Switches

/-! # Touch gestures and mouse buttons

`StreamViewTouch` resolves a gesture once the last finger leaves the picture. A finger on a
button of the overlay is counted with the others, but its own events leave the gesture alone.
How far a finger went and how long it stayed is told by the events; the wheel, the zoom and the
pointer are not part of the model.
-/

namespace MoonlightWeb.Frontend.StreamViewTouch

open Lib

/-- The members that decide on the buttons. `longPress` is the timer, armed. -/
structure Gesture where
  touchActive : Bool := false
  touchFingerCount : Nat := 0
  touchMaxFingers : Nat := 0
  touchMoved : Bool := false
  touchDragging : Bool := false
  touchHadTwoFingers : Bool := false
  lastMoveFingerCount : Nat := 0
  longPress : Bool := false
deriving DecidableEq, Repr

/-- A mouse button, and whether it goes down. -/
abbrev Message := Nat × Bool

namespace Gesture

/-- The first finger of a gesture. -/
def begun (g : Gesture) (newCount : Nat) : Gesture :=
  if g.touchActive then g
  else
    { g with
      touchActive := true
      touchMaxFingers := 0
      touchMoved := false
      touchDragging := false
      touchHadTwoFingers := false
      lastMoveFingerCount := newCount }

/-- A touch on the picture, with `newCount` fingers on the screen. -/
def handleTouchStart (g : Gesture) (newCount : Nat) : Gesture :=
  { g.begun newCount with
    touchFingerCount := newCount
    touchMaxFingers := max (g.begun newCount).touchMaxFingers newCount
    touchHadTwoFingers := (g.begun newCount).touchHadTwoFingers || decide (2 ≤ newCount)
    longPress := decide (newCount = 1) }

/-- The callback of the timer. -/
def longPressed (g : Gesture) : Gesture × List Message :=
  if g.touchActive ∧ g.touchMoved = false ∧ g.touchFingerCount = 1 ∧ g.touchMaxFingers = 1 ∧
      g.touchDragging = false then
    ({ g with longPress := false, touchDragging := true }, [(1, true)])
  else ({ g with longPress := false }, [])

/-- A finger moves on the picture, past the tolerance or not. -/
def handleTouchMove (g : Gesture) (count : Nat) (far : Bool) : Gesture :=
  if g.touchActive = false then g
  else if count ≠ g.lastMoveFingerCount then
    { g with touchFingerCount := count, lastMoveFingerCount := count }
  else if count = 1 then
    { g with
      touchFingerCount := count
      touchMoved := g.touchMoved || far
      longPress := g.longPress && (!far || g.touchDragging) }
  else
    { g with
      touchFingerCount := count
      touchMoved := g.touchMoved || far
      longPress := false }

/-- The buttons of a gesture that ends, near and soon enough for a tap or not. -/
def resolved (g : Gesture) (near : Bool) : List Message :=
  if g.touchDragging then [(1, false)]
  else if g.touchMoved = false ∧ near then
    if 3 ≤ g.touchMaxFingers then []
    else if g.touchMaxFingers = 2 then [(3, true), (3, false)]
    else [(1, true), (1, false)]
  else []

/-- Fingers leave the picture, and `count` remain on the screen. -/
def handleTouchEnd (g : Gesture) (count : Nat) (near : Bool) : Gesture × List Message :=
  if 0 < count then ({ g with touchFingerCount := count }, [])
  else ({}, g.resolved near)

end Gesture

/-- The fingers on the picture and on the overlay, and the messages sent. -/
structure Screen where
  gesture : Gesture := {}
  picture : Nat := 0
  overlay : Nat := 0
  sent : List Message := []
deriving DecidableEq, Repr

/-- Fingers land or leave at once; those on the overlay end in a handler that returns early. -/
inductive Event
  | landOnPicture (fingers : Nat)
  | landOnOverlay (fingers : Nat)
  | move (far : Bool)
  | leave (picture overlay : Nat) (near : Bool)
  | longPress
deriving DecidableEq, Repr

def Screen.touches (s : Screen) : Nat := s.picture + s.overlay

def step (s : Screen) : Event → Option Screen
  | .landOnPicture n =>
      if n = 0 then none
      else some { s with
        picture := s.picture + n
        gesture := s.gesture.handleTouchStart (s.touches + n) }
  | .landOnOverlay n => if n = 0 then none else some { s with overlay := s.overlay + n }
  | .move far =>
      if s.picture = 0 then none
      else some { s with gesture := s.gesture.handleTouchMove s.touches far }
  | .leave p o near =>
      if p + o = 0 ∨ s.picture < p ∨ s.overlay < o then none
      else if p = 0 then some { s with overlay := s.overlay - o }
      else some {
        picture := s.picture - p
        overlay := s.overlay - o
        gesture := (s.gesture.handleTouchEnd (s.touches - (p + o)) near).1
        sent := s.sent ++ (s.gesture.handleTouchEnd (s.touches - (p + o)) near).2 }
  | .longPress =>
      if s.gesture.longPress then
        some { s with gesture := s.gesture.longPressed.1, sent := s.sent ++ s.gesture.longPressed.2 }
      else none

/-- The buttons down on the host. -/
def Screen.held (s : Screen) : Finset Nat := flips ∅ s.sent

/-- Presses and releases alternate, and nothing is left of a gesture without a finger. -/
structure Released (s : Screen) : Prop where
  alternates : Alternates ∅ s.sent
  rests : s.touches = 0 → s.held = ∅ ∧ s.gesture = {}

/-- The last finger to leave is one that landed on the picture, if a gesture is under way. -/
def LeavesPicture (s : Screen) (e : Event) : Prop :=
  ∀ o near, e = .leave 0 o near → s.picture = 0 → s.overlay = o → s.gesture.touchActive = false

/-- What holds whichever finger leaves last. -/
structure Inv (s : Screen) : Prop where
  alternates : Alternates ∅ s.sent
  held : s.held = if s.gesture.touchDragging then {1} else ∅
  active : s.gesture.touchActive = false → s.gesture = {}
  touched : 0 < s.picture → s.gesture.touchActive = true

theorem Inv.send {s t : Screen} (h : Inv s) {more : List Message} (hsent : t.sent = s.sent ++ more)
    (hmore : Alternates s.held more)
    (hheld : flips s.held more = if t.gesture.touchDragging then {1} else ∅)
    (hactive : t.gesture.touchActive = false → t.gesture = {})
    (htouched : 0 < t.picture → t.gesture.touchActive = true) : Inv t where
  alternates := by
    rw [hsent, alternates_append]
    exact ⟨h.alternates, hmore⟩
  held := by
    rw [Screen.held, hsent, flips_append]
    exact hheld
  active := hactive
  touched := htouched

/-- The messages at the end of a gesture lift what it pressed. -/
theorem Inv.resolved {s : Screen} (h : Inv s) (near : Bool) :
    Alternates s.held (s.gesture.resolved near) ∧ flips s.held (s.gesture.resolved near) = ∅ := by
  rw [h.held]
  unfold Gesture.resolved
  cases s.gesture.touchDragging with
  | true =>
    simp only [if_true]
    exact ⟨by simp [Alternates], by decide⟩
  | false => split_ifs <;> exact ⟨by simp [Alternates, Lib.flip], by decide⟩

theorem inv_step {s t : Screen} {e : Event} (h : Inv s) (hstep : moves step s e t) : Inv t := by
  have hquiet : Alternates s.held [] := trivial
  cases e with
  | landOnPicture n =>
    simp only [moves, step] at hstep
    split_ifs at hstep with hn
    cases hstep
    have hdragging : (s.gesture.handleTouchStart (s.touches + n)).touchDragging =
        s.gesture.touchDragging := by
      unfold Gesture.handleTouchStart Gesture.begun
      by_cases hactive : s.gesture.touchActive = true
      · rw [if_pos hactive]
      · rw [if_neg hactive, h.active (by simpa using hactive)]
    have hactive : (s.gesture.handleTouchStart (s.touches + n)).touchActive = true := by
      unfold Gesture.handleTouchStart Gesture.begun
      split_ifs with hactive
      · exact hactive
      · rfl
    refine h.send (List.append_nil _).symm hquiet ?_ ?_ fun _ => hactive
    · rw [hdragging]
      exact h.held
    · intro hno
      exact absurd (hactive.symm.trans hno) (by decide)
  | landOnOverlay n =>
    simp only [moves, step] at hstep
    split_ifs at hstep
    cases hstep
    exact ⟨h.alternates, h.held, h.active, h.touched⟩
  | move far =>
    simp only [moves, step] at hstep
    split_ifs at hstep with hno
    cases hstep
    have hactive := h.touched (Nat.pos_of_ne_zero hno)
    have hkept : ∀ count, (s.gesture.handleTouchMove count far).touchActive = true ∧
        (s.gesture.handleTouchMove count far).touchDragging = s.gesture.touchDragging := by
      intro count
      unfold Gesture.handleTouchMove
      split_ifs <;> exact ⟨hactive, rfl⟩
    refine h.send (List.append_nil _).symm hquiet ?_ ?_ fun _ => (hkept _).1
    · rw [(hkept _).2]
      exact h.held
    · intro hfalse
      exact absurd ((hkept _).1.symm.trans hfalse) (by decide)
  | leave p o near =>
    simp only [moves, step] at hstep
    split_ifs at hstep with hno hp
    · cases hstep
      exact ⟨h.alternates, h.held, h.active, h.touched⟩
    · cases hstep
      have hactive : s.gesture.touchActive = true := h.touched (by omega)
      unfold Gesture.handleTouchEnd
      split_ifs with hleft
      · refine h.send rfl hquiet h.held ?_ fun _ => hactive
        intro hfalse
        exact absurd (hactive.symm.trans hfalse) (by decide)
      · obtain ⟨halternates, hnone⟩ := h.resolved near
        refine h.send rfl halternates hnone (fun _ => rfl) fun hpos => ?_
        unfold Screen.touches at hleft
        dsimp only at hpos
        omega
  | longPress =>
    simp only [moves, step] at hstep
    split_ifs at hstep with harmed
    cases hstep
    have hactive : s.gesture.touchActive = true := by
      by_contra hfalse
      rw [h.active (by simpa using hfalse)] at harmed
      exact absurd harmed (by decide)
    unfold Gesture.longPressed
    split_ifs with hgrabs
    · have hheld := h.held
      rw [hgrabs.2.2.2.2, if_neg (by decide)] at hheld
      refine h.send rfl ?_ ?_ ?_ fun _ => hactive
      · rw [hheld]
        simp [Alternates]
      · rw [hheld]
        rfl
      · intro hfalse
        exact absurd (hactive.symm.trans hfalse) (by decide)
    · refine h.send rfl hquiet h.held ?_ fun _ => hactive
      intro hfalse
      exact absurd (hactive.symm.trans hfalse) (by decide)

theorem released_iff {s : Screen} (h : Inv s) :
    Released s ↔ (s.touches = 0 → s.gesture.touchActive = false) := by
  constructor
  · intro hreleased hnone
    rw [(hreleased.rests hnone).2]
  · intro hrests
    refine ⟨h.alternates, fun hnone => ?_⟩
    have hgesture := h.active (hrests hnone)
    refine ⟨?_, hgesture⟩
    rw [h.held, hgesture]
    rfl

/-- One step leaves nothing held exactly when it meets the condition. -/
theorem released_step_iff {s t : Screen} {e : Event} (h : Inv s) (hstep : moves step s e t)
    (hrests : s.touches = 0 → s.gesture.touchActive = false) :
    Released t ↔ LeavesPicture s e := by
  rw [released_iff (inv_step h hstep)]
  have hinv := inv_step h hstep
  unfold LeavesPicture
  cases e with
  | leave p o near =>
    simp only [moves, step] at hstep
    split_ifs at hstep with hno hp
    · cases hstep
      subst hp
      constructor
      · rintro hrests o' near' heq hpicture rfl
        cases heq
        exact hrests (by simp [Screen.touches, hpicture])
      · intro hcond hnone
        simp only [Screen.touches] at hnone
        exact hcond o near rfl (by omega) (by omega)
    · cases hstep
      refine iff_of_true (fun hnone => ?_) fun o' near' heq => by cases heq; omega
      have hzero : ¬ 0 < s.touches - (p + o) := by
        simp only [Screen.touches] at hnone ⊢
        omega
      simp only [Gesture.handleTouchEnd]
      rw [if_neg hzero]
  | landOnPicture n =>
    simp only [moves, step] at hstep
    split_ifs at hstep with hn
    cases hstep
    exact iff_of_true (fun hnone => by simp only [Screen.touches] at hnone; omega)
      fun _ _ heq => by cases heq
  | landOnOverlay n =>
    simp only [moves, step] at hstep
    split_ifs at hstep with hn
    cases hstep
    exact iff_of_true (fun hnone => by simp only [Screen.touches] at hnone; omega)
      fun _ _ heq => by cases heq
  | move far =>
    simp only [moves, step] at hstep
    split_ifs at hstep with hn
    cases hstep
    exact iff_of_true (fun hnone => by simp only [Screen.touches] at hnone; omega)
      fun _ _ heq => by cases heq
  | longPress =>
    simp only [moves, step] at hstep
    split_ifs at hstep with harmed
    cases hstep
    refine iff_of_true (fun hnone => ?_) fun _ _ heq => by cases heq
    rw [h.active (hrests hnone)] at harmed
    exact absurd harmed (by decide)

/-- Along any run from an empty screen, presses and releases alternate and nothing is left of a
gesture without a finger, exactly as long as no finger on the overlay is the last to leave while
a gesture is under way. -/
theorem released_iff_leavesPicture (events : List Event) :
    EachStep (moves step) (fun _ _ t => Released t) {} events ↔
      EachStep (moves step) (fun s e _ => LeavesPicture s e) {} events := by
  have hstart : Inv {} := ⟨trivial, rfl, fun _ => rfl, fun h => absurd h (by decide)⟩
  refine eachStep_iff (S := Inv) (I := fun s => s.touches = 0 → s.gesture.touchActive = false)
    (fun s e t h => inv_step h) ?_ ?_ hstart (fun _ => rfl) events
  · intro s e t _ hreleased hnone
    rw [(hreleased.rests hnone).2]
  · intro s e t h hrests hstep
    exact released_step_iff h hstep hrests

/-- A drag, a finger on a button, and the drag's own finger leaves first: the button of the
mouse stays down with no finger on the screen. -/
theorem drag_left_held :
    ∃ s, Run (moves step) {} [.landOnPicture 1, .longPress, .landOnOverlay 1, .leave 1 0 false,
        .leave 0 1 false] s ∧ s.touches = 0 ∧ s.held = {1} ∧
      ¬ EachStep (moves step) (fun _ _ t => Released t) {} [.landOnPicture 1, .longPress,
        .landOnOverlay 1, .leave 1 0 false, .leave 0 1 false] := by
  have hrun : Run (moves step) {} [.landOnPicture 1, .longPress, .landOnOverlay 1,
      .leave 1 0 false] ⟨⟨true, 1, 1, false, true, false, 1, false⟩, 0, 1, [(1, true)]⟩ :=
    run_of_runMoves step (by decide)
  have hlast : moves step ⟨⟨true, 1, 1, false, true, false, 1, false⟩, 0, 1, [(1, true)]⟩
      (.leave 0 1 false) ⟨⟨true, 1, 1, false, true, false, 1, false⟩, 0, 0, [(1, true)]⟩ := rfl
  refine ⟨_, Run.snoc hrun hlast, rfl, by decide, fun hall => ?_⟩
  have hreleased := hall [.landOnPicture 1, .longPress, .landOnOverlay 1, .leave 1 0 false] _ [] _ _
    rfl hrun hlast
  exact absurd (hreleased.rests rfl).1 (by decide)

end MoonlightWeb.Frontend.StreamViewTouch
