import Mathlib

/-! # The long-term reference slots of an encoder

Which frame each slot holds, and the slot the next picture may predict from when a frame
never arrived. Slots are numbered from zero; what the source answers with -1 is `none`.
-/

namespace MoonlightWeb.NativeHost.Encode

def kMaxSlots : Nat := 16

def kReachMs : Int := 125

/-- `m_Frame`, `m_Held` and `m_Ever` by slot. -/
structure ReferenceSlots where
  count : Nat
  stride : Nat
  frame : Nat → Nat
  isHeld : Nat → Bool
  ever : Nat → Bool
  count_le : count ≤ kMaxSlots
  stride_pos : 0 < stride

namespace ReferenceSlots

def new (slots stride : Int) : ReferenceSlots where
  count := min slots.toNat kMaxSlots
  stride := max stride.toNat 1
  frame := fun _ => 0
  isHeld := fun _ => false
  ever := fun _ => false
  count_le := Nat.min_le_right _ _
  stride_pos := by omega

/-- The marking stride that makes the slots span `kReachMs`. -/
def strideFor (fps slots : Int) : Int :=
  if fps ≤ 0 ∨ slots ≤ 0 then 1
  else
    let reachFrames := (fps * kReachMs + 999) / 1000
    let stride := (reachFrames + slots - 1) / slots
    if stride < 1 then 1 else stride

variable (t : ReferenceSlots)

def enabled : Bool := 0 < t.count

/-- How many frames back a loss can be named and still find a clean slot. -/
def reachFrames : Nat := t.count * t.stride

def slotFor (frameNumber : Nat) (always : Bool) : Option Nat :=
  if t.count = 0 then none
  else if !always && frameNumber % t.stride ≠ 0 then none
  else some (frameNumber / t.stride % t.count)

def marked (slot : Int) (frameNumber : Nat) : ReferenceSlots :=
  if slot < 0 ∨ slot ≥ t.count then t
  else
    { t with
      frame := Function.update t.frame slot.toNat frameNumber
      isHeld := Function.update t.isHeld slot.toNat true
      ever := Function.update t.ever slot.toNat true }

def bitFor (slot : Nat) : Nat := 1 <<< slot

def allBefore (bitfield : Nat) (lostFrom : Nat) : Bool :=
  bitfield ≠ 0 &&
    ((List.range kMaxSlots).all fun s =>
      bitfield &&& bitFor s = 0 || (s < t.count && t.ever s && t.frame s < lostFrom)) &&
    bitfield >>> kMaxSlots = 0

/-- One turn of the loop of `cleanSlotBefore`. -/
def betterSlot (lostFrom : Nat) (best : Option Nat) (s : Nat) : Option Nat :=
  if !t.isHeld s || t.frame s ≥ lostFrom then best
  else
    match best with
    | none => some s
    | some b => if t.frame s > t.frame b then some s else some b

def cleanSlotBefore (lostFrom : Nat) : Option Nat :=
  (List.range t.count).foldl (t.betterSlot lostFrom) none

def dropFrom (lostFrom : Nat) : ReferenceSlots :=
  { t with isHeld := fun s => t.isHeld s && !(decide (s < t.count) && t.frame s ≥ lostFrom) }

def clear : ReferenceSlots :=
  { t with frame := fun _ => 0, isHeld := fun _ => false, ever := fun _ => false }

/-- The slot `s` of the table holds the frame `f`. -/
def HeldAt (s f : Nat) : Prop := s < t.count ∧ t.isHeld s = true ∧ t.frame s = f

variable {t}

theorem HeldAt.unique {s f g : Nat} (hf : t.HeldAt s f) (hg : t.HeldAt s g) : f = g :=
  hf.2.2.symm.trans hg.2.2

@[simp] theorem marked_count (slot : Int) (n : Nat) : (t.marked slot n).count = t.count := by
  unfold marked
  split <;> rfl

@[simp] theorem marked_stride (slot : Int) (n : Nat) : (t.marked slot n).stride = t.stride := by
  unfold marked
  split <;> rfl

@[simp] theorem dropFrom_count (lost : Nat) : (t.dropFrom lost).count = t.count := rfl

@[simp] theorem dropFrom_stride (lost : Nat) : (t.dropFrom lost).stride = t.stride := rfl

@[simp] theorem clear_count : t.clear.count = t.count := rfl

@[simp] theorem clear_stride : t.clear.stride = t.stride := rfl

theorem not_heldAt_new (slots stride : Int) (s f : Nat) : ¬ (new slots stride).HeldAt s f :=
  fun h => Bool.false_ne_true h.2.1

theorem not_heldAt_clear (s f : Nat) : ¬ t.clear.HeldAt s f :=
  fun h => Bool.false_ne_true h.2.1

theorem heldAt_dropFrom {s f lost : Nat} :
    (t.dropFrom lost).HeldAt s f ↔ t.HeldAt s f ∧ f < lost := by
  unfold HeldAt dropFrom
  simp only [Bool.and_eq_true, Bool.not_eq_true', Bool.and_eq_false_iff, decide_eq_false_iff_not]
  constructor
  · rintro ⟨hs, ⟨hheld, hless⟩, rfl⟩
    exact ⟨⟨hs, hheld, rfl⟩, by omega⟩
  · rintro ⟨⟨hs, hheld, rfl⟩, hless⟩
    exact ⟨hs, ⟨hheld, Or.inr (by omega)⟩, rfl⟩

theorem heldAt_marked {slot : Int} {n s f : Nat} :
    (t.marked slot n).HeldAt s f ↔
      if 0 ≤ slot ∧ slot = s ∧ s < t.count then f = n else t.HeldAt s f := by
  unfold marked
  by_cases hrange : slot < 0 ∨ slot ≥ t.count
  · rw [if_pos hrange, if_neg (by omega)]
  · rw [if_neg hrange]
    by_cases hs : slot = s
    · have hslot : slot.toNat = s := by omega
      have hlt : s < t.count := by omega
      rw [if_pos ⟨by omega, hs, hlt⟩]
      simp [HeldAt, hslot, hlt, eq_comm]
    · have hslot : s ≠ slot.toNat := by omega
      rw [if_neg (by omega)]
      simp [HeldAt, Function.update_of_ne hslot]

/-- What the loop knows after `n` slots. -/
theorem foldl_betterSlot (lost n : Nat) :
    match (List.range n).foldl (t.betterSlot lost) none with
    | none => ∀ s < n, t.isHeld s = true → lost ≤ t.frame s
    | some b => b < n ∧ t.isHeld b = true ∧ t.frame b < lost ∧
        ∀ s < n, t.isHeld s = true → t.frame s < lost → t.frame s ≤ t.frame b := by
  induction n with
  | zero => exact fun s hs => absurd hs (Nat.not_lt_zero s)
  | succ n ih =>
    rw [List.range_succ, List.foldl_append, List.foldl_cons, List.foldl_nil]
    cases hbest : (List.range n).foldl (t.betterSlot lost) none with
    | none =>
      rw [hbest] at ih
      by_cases hskip : (!t.isHeld n || decide (t.frame n ≥ lost)) = true
      · have hstep : t.betterSlot lost none n = none := if_pos hskip
        rw [hstep]
        intro s hs hheld
        rcases Nat.lt_succ_iff_lt_or_eq.mp hs with hold | rfl
        · exact ih s hold hheld
        · simpa [hheld] using hskip
      · have hstep : t.betterSlot lost none n = some n := if_neg hskip
        have hn : t.isHeld n = true ∧ t.frame n < lost := by simpa using hskip
        rw [hstep]
        refine ⟨Nat.lt_succ_self n, hn.1, hn.2, ?_⟩
        intro s hs hheld hless
        rcases Nat.lt_succ_iff_lt_or_eq.mp hs with hold | rfl
        · exact absurd hless (not_lt.mpr (ih s hold hheld))
        · exact le_rfl
    | some b =>
      rw [hbest] at ih
      obtain ⟨hb, hheldb, hlessb, hnewest⟩ := ih
      by_cases hskip : (!t.isHeld n || decide (t.frame n ≥ lost)) = true
      · have hstep : t.betterSlot lost (some b) n = some b := if_pos hskip
        rw [hstep]
        refine ⟨by omega, hheldb, hlessb, ?_⟩
        intro s hs hheld hless
        rcases Nat.lt_succ_iff_lt_or_eq.mp hs with hold | rfl
        · exact hnewest s hold hheld hless
        · have hge : lost ≤ t.frame s := by simpa [hheld] using hskip
          omega
      · have hn : t.isHeld n = true ∧ t.frame n < lost := by simpa using hskip
        have hstep : t.betterSlot lost (some b) n =
            if t.frame n > t.frame b then some n else some b := if_neg hskip
        rw [hstep]
        by_cases hmore : t.frame n > t.frame b
        · rw [if_pos hmore]
          refine ⟨Nat.lt_succ_self n, hn.1, hn.2, ?_⟩
          intro s hs hheld hless
          rcases Nat.lt_succ_iff_lt_or_eq.mp hs with hold | rfl
          · have hle := hnewest s hold hheld hless
            omega
          · exact le_rfl
        · rw [if_neg hmore]
          refine ⟨by omega, hheldb, hlessb, ?_⟩
          intro s hs hheld hless
          rcases Nat.lt_succ_iff_lt_or_eq.mp hs with hold | rfl
          · exact hnewest s hold hheld hless
          · omega

theorem cleanSlotBefore_eq_none {lost : Nat} (h : t.cleanSlotBefore lost = none) :
    ∀ s f, t.HeldAt s f → lost ≤ f := by
  have hfold := foldl_betterSlot (t := t) lost t.count
  rw [show (List.range t.count).foldl (t.betterSlot lost) none = none from h] at hfold
  rintro s f ⟨hs, hheld, rfl⟩
  exact hfold s hs hheld

/-- The slot answered holds the newest frame before the loss. -/
theorem cleanSlotBefore_eq_some {lost slot : Nat} (h : t.cleanSlotBefore lost = some slot) :
    t.HeldAt slot (t.frame slot) ∧ t.frame slot < lost ∧
      ∀ s f, t.HeldAt s f → f < lost → f ≤ t.frame slot := by
  have hfold := foldl_betterSlot (t := t) lost t.count
  rw [show (List.range t.count).foldl (t.betterSlot lost) none = some slot from h] at hfold
  obtain ⟨hs, hheld, hless, hnewest⟩ := hfold
  refine ⟨⟨hs, hheld, rfl⟩, hless, ?_⟩
  rintro s f ⟨hs', hheld', rfl⟩ hf
  exact hnewest s hs' hheld' hf

/-- A slot is answered exactly when some held frame predates the loss. -/
theorem cleanSlotBefore_isSome_iff {lost : Nat} :
    (t.cleanSlotBefore lost).isSome = true ↔ ∃ s f, t.HeldAt s f ∧ f < lost := by
  cases h : t.cleanSlotBefore lost with
  | none =>
    simp only [Option.isSome_none, Bool.false_eq_true, false_iff]
    rintro ⟨s, f, hheld, hless⟩
    exact absurd hless (not_lt.mpr (cleanSlotBefore_eq_none h s f hheld))
  | some slot =>
    obtain ⟨hheld, hless, _⟩ := cleanSlotBefore_eq_some h
    simp only [Option.isSome_some, true_iff]
    exact ⟨slot, t.frame slot, hheld, hless⟩

end ReferenceSlots

end MoonlightWeb.NativeHost.Encode
