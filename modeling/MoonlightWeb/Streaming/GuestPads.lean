import MoonlightWeb.Lib.Run
import MoonlightWeb.Streaming.Controllers

/-! # The pads of a guest

A guest's session shifts its pads past the owner's and the earlier guests'. The
numbers of arrivals and removals are bytes, which a shift can only raise; a state's
number is a `short`, and a negative one lands on the pads the shift was to leave alone.
-/

namespace MoonlightWeb.Streaming.Controllers

open Lib Qt InputWatchdog

variable (engine : Engine)

/-- A pad of the guest's own, and on the GameStream engine a mask without the others. -/
def Own (offset number : Int) (mask : BitVec 16) : Prop :=
  offset ≤ number ∧ (engine = .moonlight → ∀ i < offset.toNat, mask.getLsbD i = false)

/-- The host is handed events of the guest's own pads only. -/
def Isolated (offset : Int) (w : Watchdog) (e : Event) (_ : Watchdog) : Prop :=
  ∀ event ∈ (handle engine offset w e).2,
    Own engine offset event.controllerNumber event.activeGamepadMask

/-- A state's number is not negative, unless the shim refuses it; and the native engine's
numbers reach past the offset. -/
def Nonnegative (offset : Int) (_ : Watchdog) (e : Event) (_ : Watchdog) : Prop :=
  match engine, e with
  | .moonlight, .message (.gamepad index _ _ _ _ _ _ _ _) =>
      toShort (index.toInt 0) + offset < 0 ∨ 0 ≤ toShort (index.toInt 0) ∨
        4 ≤ toShort (index.toInt 0) + offset
  | .native, .message (.gamepad index _ _ _ _ _ _ _ _) =>
      0 ≤ toShort (index.toInt 0) ∧ offset ≤ 255
  | .native, .message _ => offset ≤ 255
  | _, _ => True

def RecordedOwn (offset : Int) (w : Watchdog) : Prop :=
  ∀ number mask, w.activePads.get number = some mask → Own engine offset number mask

def RecordedBytes (w : Watchdog) : Prop :=
  engine = .native → ∀ number mask, w.activePads.get number = some mask →
    0 ≤ number ∧ number ≤ 255

section

variable {engine : Engine} {offset : Int} {w : Watchdog}

theorem shimState_pads {controllerNumber number : Int} {given mask : BitVec 16} {pad : PadState}
    (h : (shimState offset w controllerNumber given pad).1.activePads.get number = some mask) :
    w.activePads.get number = some mask ∨
      HostEvent.state number mask pad ∈ (shimState offset w controllerNumber given pad).2 := by
  unfold shimState at h ⊢
  cases hshift : applyControllerOffset offset controllerNumber given with
  | none =>
    rw [hshift] at h
    exact Or.inl h
  | some shifted =>
    rw [hshift] at h
    rcases notePad_get h with ⟨rfl, rfl, _⟩ | ⟨_, hbefore⟩
    · exact Or.inr (List.mem_singleton.mpr rfl)
    · exact Or.inl hbefore

variable {number : Int}

theorem call_pads {c : Call} {mask : BitVec 16}
    (h : (call engine offset w c).1.activePads.get number = some mask) :
    w.activePads.get number = some mask ∨
      ∃ pad, HostEvent.state number mask pad ∈ (call engine offset w c).2 := by
  cases engine with
  | moonlight =>
    cases c with
    | sendControllerArrival controllerNumber given type hasRumble =>
      left
      simp only [call, shimCall] at h
      split at h <;> exact h
    | sendControllerState controllerNumber given pad =>
      exact (shimState_pads h).imp_right fun hsent => ⟨pad, hsent⟩
    | sendControllerRemoval controllerNumber given =>
      exact (shimState_pads h).imp_right fun hsent => ⟨.zero, hsent⟩
  | native =>
    cases c with
    | sendControllerArrival controllerNumber given type hasRumble => exact Or.inl h
    | sendControllerState controllerNumber given pad =>
      rcases notePad_get h with ⟨rfl, rfl, _⟩ | ⟨_, hbefore⟩
      · exact Or.inr ⟨pad, List.mem_singleton.mpr rfl⟩
      · exact Or.inl hbefore
    | sendControllerRemoval controllerNumber given => exact Or.inl h

theorem handle_pads {e : Event} {mask : BitVec 16}
    (h : (handle engine offset w e).1.activePads.get number = some mask) :
    w.activePads.get number = some mask ∨
      ∃ pad, HostEvent.state number mask pad ∈ (handle engine offset w e).2 := by
  cases e with
  | alive nowMs => exact Or.inl h
  | message m => exact call_pads h
  | heartbeat keys buttonMask buttonsHold => exact Or.inl h
  | tick nowMs => exact Or.inl (tick_pads_get h)
  | release includeHold => exact Or.inl (release_pads_get h)

theorem RecordedBytes.handle (h : RecordedBytes engine w) (e : Event) :
    RecordedBytes engine (handle engine offset w e).1 := by
  rintro rfl number mask hget
  cases e with
  | alive nowMs => exact h rfl number mask hget
  | message m =>
    cases m with
    | gamepad index given buttons lt rt lx ly rx ry =>
      rcases notePad_get hget with ⟨rfl, _, _⟩ | ⟨_, hbefore⟩
      · exact shiftedController_bounds _ _
      · exact h rfl number mask hbefore
    | gamepadconnect index given ctype rumble => exact h rfl number mask hget
    | gamepaddisconnect index given => exact h rfl number mask hget
  | heartbeat keys buttonMask buttonsHold => exact h rfl number mask hget
  | tick nowMs => exact h rfl number mask (tick_pads_get hget)
  | release includeHold => exact h rfl number mask (release_pads_get hget)

theorem RecordedOwn.handle (h : RecordedOwn engine offset w) {e : Event} {w' : Watchdog}
    (hisolated : Isolated engine offset w e w') :
    RecordedOwn engine offset (handle engine offset w e).1 := by
  intro number mask hget
  rcases handle_pads hget with hbefore | ⟨pad, hsent⟩
  · exact h number mask hbefore
  · exact hisolated _ hsent

theorem own_neutralizePad (hown : RecordedOwn engine offset w) (hbytes : RecordedBytes engine w)
    {pad : Int × BitVec 16} (hget : w.activePads.get pad.1 = some pad.2) :
    Own engine offset (neutralizePad engine pad).controllerNumber
      (neutralizePad engine pad).activeGamepadMask := by
  have hpad := hown pad.1 pad.2 hget
  cases engine with
  | moonlight => exact hpad
  | native =>
    obtain ⟨hlow, hhigh⟩ := hbytes rfl pad.1 pad.2 hget
    change Own .native offset (toByte pad.1) pad.2
    rw [toByte_of_bounds hlow hhigh]
    exact hpad

/-- The mask of a shifted session has none of the bits below the offset, unless its
number is below it. -/
theorem shifted_mask_low (mask : BitVec 16) (hnumber : offset ≤ number)
    (hoffset : 0 < offset) {i : Nat} (hi : i < offset.toNat) :
    (((mask &&& 0xF) <<< offset.toNat) ||| (1#16 <<< number.toNat)).getLsbD i = false := by
  have hne : number.toNat ≠ i := by omega
  rw [BitVec.getLsbD_or, BitVec.getLsbD_shiftLeft, ← BitVec.twoPow_eq, BitVec.getLsbD_twoPow]
  simp [hi, hne]

variable (hoffset : 0 < offset)

include hoffset

/-- What the shim sends for a number is the guest's own, unless the number is negative
and not refused. -/
theorem shim_own_iff (controllerNumber : Int) (given : BitVec 16) :
    (∀ shifted, applyControllerOffset offset controllerNumber given = some shifted →
        Own .moonlight offset shifted.1 shifted.2) ↔
      controllerNumber + offset < 0 ∨ 0 ≤ controllerNumber ∨ 4 ≤ controllerNumber + offset := by
  rw [applyControllerOffset_pos given hoffset]
  by_cases hrange : 0 ≤ controllerNumber + offset ∧ controllerNumber + offset < 4
  · rw [if_pos hrange]
    constructor
    · intro hown
      have hnumber := (hown _ rfl).1
      simp only at hnumber
      omega
    · rintro hsign _ ⟨⟩
      have hnumber : offset ≤ controllerNumber + offset := by omega
      exact ⟨hnumber, fun _ i hi => shifted_mask_low given hnumber hoffset hi⟩
  · rw [if_neg hrange]
    refine iff_of_true (fun shifted hno => by cases hno) ?_
    omega

/-- What the native engine sends for a number is the guest's own, unless the number is
negative or the offset past a byte. -/
theorem native_own_iff (controllerNumber : Int) (mask : BitVec 16) :
    Own .native offset (shiftedController controllerNumber offset) mask ↔
      0 ≤ controllerNumber ∧ offset ≤ 255 := by
  have hbound : offset ≤ shiftedController controllerNumber offset ↔
      0 ≤ controllerNumber ∧ offset ≤ 255 := by
    unfold shiftedController
    simp only
    split
    · omega
    · split <;> omega
  unfold Own
  rw [hbound]
  exact ⟨fun h => h.1, fun h => ⟨h, fun hno => by cases hno⟩⟩

theorem shimState_own_iff (controllerNumber : Int) (given : BitVec 16)
    (pad : PadState) :
    (∀ event ∈ (shimState offset w controllerNumber given pad).2,
        Own .moonlight offset event.controllerNumber event.activeGamepadMask) ↔
      controllerNumber + offset < 0 ∨ 0 ≤ controllerNumber ∨ 4 ≤ controllerNumber + offset := by
  rw [← shim_own_iff hoffset controllerNumber given]
  unfold shimState
  cases hshift : applyControllerOffset offset controllerNumber given with
  | none =>
    exact iff_of_true (fun _ hno => absurd hno List.not_mem_nil) (fun _ hno => by cases hno)
  | some shifted =>
    constructor
    · rintro hsent _ ⟨⟩
      exact hsent _ (List.mem_singleton.mpr rfl)
    · intro hown event hevent
      obtain rfl := List.mem_singleton.mp hevent
      exact hown shifted rfl

/-- An arrival, whose number is a byte, is always the guest's own on the shim. -/
theorem shimArrival_own (n : Int) (given : BitVec 16) (type : Int)
    (hasRumble : Bool) :
    ∀ event ∈ (shimCall offset w (.sendControllerArrival (toByte n) given type hasRumble)).2,
      Own .moonlight offset event.controllerNumber event.activeGamepadMask := by
  have hbyte := toByte_bounds n
  have hshort : toShort (toByte n) = toByte n := toShort_of_bounds (by omega) (by omega)
  have hown := (shim_own_iff hoffset (toByte n) given).mpr (Or.inr (Or.inl hbyte.1))
  intro event hevent
  simp only [shimCall, hshort] at hevent
  cases hshift : applyControllerOffset offset (toByte n) given with
  | none =>
    rw [hshift] at hevent
    exact absurd hevent List.not_mem_nil
  | some shifted =>
    rw [hshift] at hevent
    obtain rfl := List.mem_singleton.mp hevent
    have hnumber : 0 ≤ shifted.1 ∧ shifted.1 ≤ 255 := by
      rw [applyControllerOffset_pos given hoffset] at hshift
      split at hshift
      · obtain rfl := Option.some.inj hshift
        simp only
        omega
      · cases hshift
    change Own .moonlight offset (toByte shifted.1) shifted.2
    rw [toByte_of_bounds hnumber.1 hnumber.2]
    exact hown shifted hshift

theorem message_isolated_iff (m : Message) (w' : Watchdog) :
    Isolated engine offset w (.message m) w' ↔
      Nonnegative engine offset w (.message m) w' := by
  cases engine with
  | moonlight =>
    cases m with
    | gamepad index given buttons lt rt lx ly rx ry =>
      exact shimState_own_iff hoffset (toShort (index.toInt 0)) (toMask (given.toInt 0)) _
    | gamepadconnect index given ctype rumble =>
      exact iff_of_true (shimArrival_own hoffset _ _ _ _) trivial
    | gamepaddisconnect index given =>
      have hbyte := toByte_bounds (index.toInt 0)
      have hshort : toShort (toByte (index.toInt 0)) = toByte (index.toInt 0) :=
        toShort_of_bounds (by omega) (by omega)
      refine iff_of_true ?_ trivial
      refine (shimState_own_iff hoffset _ (toMask (given.toInt 0)) .zero).mpr ?_
      rw [hshort]
      exact Or.inr (Or.inl hbyte.1)
  | native =>
    have hsent : ∀ event : HostEvent,
        (∀ e ∈ [event], Own .native offset e.controllerNumber e.activeGamepadMask) ↔
          Own .native offset event.controllerNumber event.activeGamepadMask :=
      fun event => List.forall_mem_singleton
    cases m with
    | gamepad index given buttons lt rt lx ly rx ry =>
      exact (hsent (.state _ _ _)).trans (native_own_iff hoffset _ _)
    | gamepadconnect index given ctype rumble =>
      have hbyte := (toByte_bounds (index.toInt 0)).1
      exact ((hsent (.arrival _ _ _ _)).trans (native_own_iff hoffset _ _)).trans
        (and_iff_right hbyte)
    | gamepaddisconnect index given =>
      have hbyte := (toByte_bounds (index.toInt 0)).1
      exact ((hsent (.removal _ _)).trans (native_own_iff hoffset _ _)).trans (and_iff_right hbyte)

omit hoffset

theorem isolated_of_recorded (hown : RecordedOwn engine offset w)
    (hbytes : RecordedBytes engine w) {e : Event} (he : ∀ m, e ≠ .message m) (w' : Watchdog) :
    Isolated engine offset w e w' := by
  intro event hevent
  cases e with
  | alive nowMs => exact absurd hevent List.not_mem_nil
  | message m => exact absurd rfl (he m)
  | heartbeat keys buttonMask buttonsHold => exact absurd hevent List.not_mem_nil
  | tick nowMs =>
    obtain ⟨pad, hpad, rfl⟩ := List.mem_map.mp hevent
    exact own_neutralizePad hown hbytes (mem_tick_pads hpad)
  | release includeHold =>
    obtain ⟨pad, hpad, rfl⟩ := List.mem_map.mp hevent
    exact own_neutralizePad hown hbytes (mem_release_pads hpad)

theorem isolated_iff (hoffset : 0 < offset) (hown : RecordedOwn engine offset w)
    (hbytes : RecordedBytes engine w) (e : Event) (w' : Watchdog) :
    Isolated engine offset w e w' ↔ Nonnegative engine offset w e w' := by
  by_cases he : ∀ m, e ≠ .message m
  · refine iff_of_true (isolated_of_recorded hown hbytes he w') ?_
    cases e with
    | message m => exact absurd rfl (he m)
    | _ => cases engine <;> trivial
  · rw [not_forall] at he
    obtain ⟨m, hm⟩ := he
    obtain rfl := not_not.mp hm
    exact message_isolated_iff hoffset m w'

end

def session (offset : Int) : Watchdog → Event → Watchdog :=
  fun w e => (handle engine offset w e).1

/-- The guest's events stay among its own pads in exactly the runs without negative
numbers. -/
theorem pads_isolated_iff (engine : Engine) (offset : Int) (hoffset : 0 < offset)
    (labels : List Event) :
    EachStep (handles (session engine offset)) (Isolated engine offset) .fresh labels ↔
      EachStep (handles (session engine offset)) (Nonnegative engine offset) .fresh labels := by
  refine eachStep_iff_of_kept (S := RecordedBytes engine) (I := RecordedOwn engine offset)
    ?_ ?_ ?_ ?_ ?_ labels
  · rintro w e _ hbytes rfl
    exact hbytes.handle e
  · rintro w e _ _ hown rfl hisolated
    exact hown.handle hisolated
  · intro w e w' hbytes hown _
    exact isolated_iff hoffset hown hbytes e w'
  · intro _ number mask hget
    cases hget
  · intro number mask hget
    cases hget

/-- A second player's pad, pushed and left. -/
theorem pads_isolated_iff_second_player :
    EachStep (handles (session .native 1)) (Isolated .native 1) .fresh
        [.message (.gamepad (.number 0) (.number 1) (.number 1) .null .null .null .null .null .null),
          .release true] ↔
      EachStep (handles (session .native 1)) (Nonnegative .native 1) .fresh
        [.message (.gamepad (.number 0) (.number 1) (.number 1) .null .null .null .null .null .null),
          .release true] :=
  pads_isolated_iff .native 1 (by decide) _

/-- Index 65535 of a guest's state is the owner's pad. -/
theorem wrapped_index_reaches_owner :
    ¬ ∀ (engine : Engine) (offset : Int), 0 < offset → ∀ labels : List Event,
      EachStep (handles (session engine offset)) (Isolated engine offset) .fresh labels := by
  intro hall
  have hstep := hall .moonlight 1 (by decide)
    [.message (.gamepad (.number 65535) (.number 1) (.number 1) .null .null .null .null .null .null)]
    [] _ [] .fresh _ rfl Run.nil rfl
  have hown := hstep (.state 0 _ _) (List.mem_singleton.mpr rfl)
  exact absurd hown.1 (by decide)

end MoonlightWeb.Streaming.Controllers
