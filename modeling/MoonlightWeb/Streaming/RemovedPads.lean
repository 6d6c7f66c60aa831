import MoonlightWeb.Streaming.GuestPads

/-! # The pads a client removed

The GameStream host reads a removal off the mask, where the shift of a guest's session
sets the bit again; the native host is told of the removal, and the watchdog is not.
-/

namespace MoonlightWeb.Streaming.Controllers

open Lib Qt InputWatchdog

def padOf (engine : Engine) (offset number : Int) : Option Int :=
  match engine with
  | .moonlight => (applyControllerOffset offset number 0).map Prod.fst
  | .native => if 0 ≤ number + offset ∧ number + offset ≤ 255 then some (number + offset) else none

/-- The host's number of the pad an event removes. -/
def removedBy (engine : Engine) (offset : Int) : Event → Option Int
  | .message (.gamepaddisconnect index _) => padOf engine offset (toByte (index.toInt 0))
  | _ => none

structure Tracked where
  watchdog : Watchdog
  removed : Set Int

open Tracked

namespace Tracked

def initial : Tracked := ⟨.fresh, ∅⟩

variable (engine : Engine)

/-- A message that names a pad takes it off the account, its removal puts it there. -/
def removedAfter (offset : Int) (t : Tracked) (e : Event) : Set Int :=
  match e with
  | .message _ =>
      { number | (number ∈ t.removed ∧
          ∀ event ∈ (handle engine offset t.watchdog e).2, event.controllerNumber ≠ number) ∨
        removedBy engine offset e = some number }
  | _ => t.removed

def next (offset : Int) (t : Tracked) (e : Event) : Tracked :=
  ⟨(handle engine offset t.watchdog e).1, t.removedAfter engine offset e⟩

/-- The removal of a pad as its engine's host reads it. -/
def Reads (number : Int) (event : HostEvent) : Prop :=
  match engine with
  | .moonlight => ∃ mask, event = .state number mask .zero ∧ mask.getLsbD number.toNat = false
  | .native => ∃ mask, event = .removal number mask

/-- A removal reaches the host; the watchdog records no removed pad; and what it lets go
of names none. -/
structure Forgets (engine : Engine) (offset : Int) (t : Tracked) (e : Event) (t' : Tracked) :
    Prop where
  reaches : ∀ number, removedBy engine offset e = some number →
    ∃ event ∈ (handle engine offset t.watchdog e).2, Reads engine number event
  forgotten : ∀ number ∈ t'.removed, t'.watchdog.activePads.get number = none
  silent : (∀ m, e ≠ .message m) →
    ∀ event ∈ (handle engine offset t.watchdog e).2, event.controllerNumber ∉ t.removed

/-- On the GameStream engine the session is not shifted and the removal's mask has the
pad's bit cleared; on the native one the watchdog does not record the pad. -/
def Clean (offset : Int) (t : Tracked) (e : Event) (_ : Tracked) : Prop :=
  match e with
  | .message (.gamepaddisconnect index mask) =>
      ∀ number, padOf engine offset (toByte (index.toInt 0)) = some number →
        match engine with
        | .moonlight => offset ≤ 0 ∧ (toMask (mask.toInt 0)).getLsbD number.toNat = false
        | .native => t.watchdog.activePads.get number = none
  | _ => True

/-- No removed pad is recorded. -/
def Forgotten (t : Tracked) : Prop :=
  ∀ number ∈ t.removed, t.watchdog.activePads.get number = none

end Tracked

section

variable {engine : Engine} {offset : Int} {t : Tracked}

theorem get_of_not_named {w : Watchdog} {e : Event} {number : Int}
    (hnone : w.activePads.get number = none)
    (hother : ∀ event ∈ (handle engine offset w e).2, event.controllerNumber ≠ number) :
    (handle engine offset w e).1.activePads.get number = none := by
  cases hget : (handle engine offset w e).1.activePads.get number with
  | none => rfl
  | some mask =>
    rcases handle_pads hget with hbefore | ⟨pad, hsent⟩
    · rw [hnone] at hbefore
      cases hbefore
    · exact absurd rfl (hother _ hsent)

theorem silent_of_forgotten (hforgotten : t.Forgotten) (hbytes : RecordedBytes engine t.watchdog)
    {pad : Int × BitVec 16} (hget : t.watchdog.activePads.get pad.1 = some pad.2) :
    (neutralizePad engine pad).controllerNumber ∉ t.removed := by
  have hnumber : (neutralizePad engine pad).controllerNumber = pad.1 := by
    cases engine with
    | moonlight => rfl
    | native =>
      obtain ⟨hlow, hhigh⟩ := hbytes rfl pad.1 pad.2 hget
      exact toByte_of_bounds hlow hhigh
  rw [hnumber]
  intro hremoved
  rw [hforgotten pad.1 hremoved] at hget
  cases hget

theorem forgets_of_kept (hforgotten : t.Forgotten) (hbytes : RecordedBytes engine t.watchdog)
    {e : Event} (hnone : removedBy engine offset e = none) :
    t.Forgets engine offset e (t.next engine offset e) := by
  refine ⟨?_, ?_, ?_⟩
  · intro number hremoved
    rw [hnone] at hremoved
    cases hremoved
  · intro number hremoved
    cases e with
    | alive nowMs => exact hforgotten number hremoved
    | message m =>
      rcases hremoved with ⟨hbefore, hother⟩ | hself
      · exact get_of_not_named (hforgotten number hbefore) hother
      · rw [hnone] at hself
        cases hself
    | heartbeat keys buttonMask buttonsHold => exact hforgotten number hremoved
    | tick nowMs =>
      cases hget : (tick t.watchdog nowMs).1.activePads.get number with
      | none => exact hget
      | some mask => exact absurd (tick_pads_get hget) (by simp [hforgotten number hremoved])
    | release includeHold =>
      cases hget : (release t.watchdog includeHold).1.activePads.get number with
      | none => exact hget
      | some mask => exact absurd (release_pads_get hget) (by simp [hforgotten number hremoved])
  · intro he event hevent
    cases e with
    | alive nowMs => exact absurd hevent List.not_mem_nil
    | message m => exact absurd rfl (he m)
    | heartbeat keys buttonMask buttonsHold => exact absurd hevent List.not_mem_nil
    | tick nowMs =>
      obtain ⟨pad, hpad, rfl⟩ := List.mem_map.mp hevent
      exact silent_of_forgotten hforgotten hbytes (mem_tick_pads hpad)
    | release includeHold =>
      obtain ⟨pad, hpad, rfl⟩ := List.mem_map.mp hevent
      exact silent_of_forgotten hforgotten hbytes (mem_release_pads hpad)

theorem toShort_toByte (n : Int) : toShort (toByte n) = toByte n :=
  toShort_of_bounds (by have := toByte_bounds n; omega) (by have := toByte_bounds n; omega)

/-- What the shim's shift makes of a removal's mask: the pad's bit is clear only when
nothing is shifted and the client cleared it. -/
theorem shifted_bit_iff {number shifted : Int} {given mask : BitVec 16}
    (hshift : applyControllerOffset offset number given = some (shifted, mask)) :
    mask.getLsbD shifted.toNat = false ↔
      offset ≤ 0 ∧ given.getLsbD shifted.toNat = false := by
  by_cases hoffset : offset ≤ 0
  · simp only [applyControllerOffset, if_pos hoffset, Option.some.injEq, Prod.mk.injEq] at hshift
    obtain ⟨_, rfl⟩ := hshift
    exact (and_iff_right hoffset).symm
  · rw [applyControllerOffset_pos given (by omega)] at hshift
    split at hshift
    · rename_i hrange
      simp only [Option.some.injEq, Prod.mk.injEq] at hshift
      obtain ⟨rfl, rfl⟩ := hshift
      have hlt : (number + offset).toNat < 16 := by omega
      refine iff_of_false ?_ fun h => hoffset h.1
      rw [BitVec.getLsbD_or, ← BitVec.twoPow_eq, BitVec.getLsbD_twoPow, decide_eq_true hlt,
        decide_eq_true rfl]
      simp
    · cases hshift

theorem padOf_moonlight (number : Int) (given : BitVec 16) :
    padOf .moonlight offset number = (applyControllerOffset offset number given).map Prod.fst := by
  by_cases hoffset : offset ≤ 0
  · simp [padOf, applyControllerOffset, hoffset]
  · unfold padOf
    simp only
    rw [applyControllerOffset_pos 0 (by omega), applyControllerOffset_pos given (by omega)]
    split <;> rfl

/-- A removal is forgotten when it reaches the host and the pad is not left recorded. -/
theorem removal_forgets_iff (hforgotten : t.Forgotten) (m : Message) :
    t.Forgets engine offset (.message m) (t.next engine offset (.message m)) ↔
      ∀ number, removedBy engine offset (.message m) = some number →
        (∃ event ∈ (handle engine offset t.watchdog (.message m)).2,
            Reads engine number event) ∧
          (handle engine offset t.watchdog (.message m)).1.activePads.get number = none := by
  constructor
  · intro h number hremoved
    exact ⟨h.reaches number hremoved, h.forgotten number (Or.inr hremoved)⟩
  · intro h
    refine ⟨fun number hremoved => (h number hremoved).1, ?_, fun hno => absurd rfl (hno m)⟩
    rintro number (⟨hbefore, hother⟩ | hself)
    · exact get_of_not_named (hforgotten number hbefore) hother
    · exact (h number hself).2

/-- The shim's removal never leaves the pad recorded, and the host reads it when the
bit is clear. -/
theorem moonlight_removal_iff (hforgotten : t.Forgotten) (index mask : QJsonValue) :
    t.Forgets .moonlight offset (.message (.gamepaddisconnect index mask))
        (t.next .moonlight offset (.message (.gamepaddisconnect index mask))) ↔
      ∀ number, padOf .moonlight offset (toByte (index.toInt 0)) = some number →
        offset ≤ 0 ∧ (toMask (mask.toInt 0)).getLsbD number.toNat = false := by
  have hhandle : handle .moonlight offset t.watchdog (.message (.gamepaddisconnect index mask)) =
      shimState offset t.watchdog (toByte (index.toInt 0)) (toMask (mask.toInt 0)) .zero := by
    change shimState offset t.watchdog (toShort (toByte (index.toInt 0))) _ _ = _
    rw [toShort_toByte]
  rw [removal_forgets_iff hforgotten, hhandle]
  refine forall_congr' fun number => ?_
  change (padOf .moonlight offset (toByte (index.toInt 0)) = some number → _) ↔ _
  rw [padOf_moonlight _ (toMask (mask.toInt 0))]
  refine imp_congr_right fun hnumber => ?_
  obtain ⟨⟨shifted, shiftedMask⟩, hshift, rfl⟩ := Option.map_eq_some_iff.mp hnumber
  have hsent : shimState offset t.watchdog (toByte (index.toInt 0)) (toMask (mask.toInt 0)) .zero =
      (notePad t.watchdog shifted shiftedMask true, [.state shifted shiftedMask .zero]) := by
    unfold shimState
    rw [hshift]
    rfl
  rw [hsent]
  have hgone : (notePad t.watchdog shifted shiftedMask true).activePads.get shifted = none := by
    simp [notePad]
  rw [and_iff_left hgone, ← shifted_bit_iff hshift]
  constructor
  · rintro ⟨event, hevent, read, rfl, hclear⟩
    obtain ⟨_, rfl, _⟩ := HostEvent.state.inj (List.mem_singleton.mp hevent)
    exact hclear
  · intro hclear
    exact ⟨_, List.mem_singleton.mpr rfl, shiftedMask, rfl, hclear⟩

/-- The native engine's removal always reaches the host, and leaves recorded what was. -/
theorem native_removal_iff (hforgotten : t.Forgotten) (index mask : QJsonValue) :
    t.Forgets .native offset (.message (.gamepaddisconnect index mask))
        (t.next .native offset (.message (.gamepaddisconnect index mask))) ↔
      ∀ number, padOf .native offset (toByte (index.toInt 0)) = some number →
        t.watchdog.activePads.get number = none := by
  rw [removal_forgets_iff hforgotten]
  refine forall_congr' fun number => ?_
  refine imp_congr_right fun hnumber => ?_
  refine and_iff_right ⟨_, List.mem_singleton.mpr rfl, toMask (mask.toInt 0), ?_⟩
  have hshifted : shiftedController (toByte (index.toInt 0)) offset = number := by
    simp only [removedBy, padOf] at hnumber
    unfold shiftedController
    split at hnumber
    · obtain rfl := Option.some.inj hnumber
      simp only
      rw [if_neg (by omega), if_neg (by omega)]
    · cases hnumber
  rw [hshifted]

theorem forgets_iff_clean (hforgotten : t.Forgotten) (hbytes : RecordedBytes engine t.watchdog)
    (e : Event) :
    t.Forgets engine offset e (t.next engine offset e) ↔
      t.Clean engine offset e (t.next engine offset e) := by
  cases e with
  | alive nowMs => exact iff_of_true (forgets_of_kept hforgotten hbytes rfl) trivial
  | message m =>
    cases m with
    | gamepad index given buttons lt rt lx ly rx ry =>
      exact iff_of_true (forgets_of_kept hforgotten hbytes rfl) trivial
    | gamepadconnect index given ctype rumble =>
      exact iff_of_true (forgets_of_kept hforgotten hbytes rfl) trivial
    | gamepaddisconnect index given =>
      cases engine with
      | moonlight => exact moonlight_removal_iff hforgotten index given
      | native => exact native_removal_iff hforgotten index given
  | heartbeat keys buttonMask buttonsHold =>
    exact iff_of_true (forgets_of_kept hforgotten hbytes rfl) trivial
  | tick nowMs => exact iff_of_true (forgets_of_kept hforgotten hbytes rfl) trivial
  | release includeHold => exact iff_of_true (forgets_of_kept hforgotten hbytes rfl) trivial

end

/-- Removed pads are forgotten in exactly the runs whose removals are clean. -/
theorem removed_forgotten_iff (engine : Engine) (offset : Int) (labels : List Event) :
    EachStep (handles (next engine offset)) (Forgets engine offset)
        initial labels ↔
      EachStep (handles (next engine offset)) (Clean engine offset)
        initial labels := by
  refine eachStep_iff (S := fun t => RecordedBytes engine t.watchdog) (I := Forgotten)
    ?_ ?_ ?_ ?_ ?_ labels
  · rintro t e _ hbytes rfl
    exact hbytes.handle e
  · intro t e t' _ hforgets
    exact hforgets.forgotten
  · rintro t e _ hbytes hforgotten rfl
    exact forgets_iff_clean hforgotten hbytes e
  · intro _ number mask hget
    cases hget
  · intro number hremoved
    exact absurd hremoved (Set.notMem_empty _)

/-- A second player's removal, whose mask the client cleared, reaches the GameStream host
with the bit of its pad set. -/
theorem removal_keeps_bit :
    ¬ ∀ (engine : Engine) (offset : Int) (labels : List Event),
      EachStep (handles (next engine offset)) (Forgets engine offset)
        initial labels := by
  intro hall
  have hstep := hall .moonlight 1 [.message (.gamepaddisconnect (.number 0) (.number 0))]
    [] _ [] initial _ rfl Run.nil rfl
  obtain ⟨event, hevent, mask, rfl, hclear⟩ := hstep.reaches 1 rfl
  have hmask : mask = 2#16 := (HostEvent.state.inj (List.mem_singleton.mp hevent)).2.1
  rw [hmask] at hclear
  exact absurd hclear (by decide)

end MoonlightWeb.Streaming.Controllers
