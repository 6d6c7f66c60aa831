import Mathlib

/-! # Checked arithmetic on machine integers

An operation on signed integers of `w` bits gives its exact result, or the fault that makes
it undefined. A program over these operations ends in a value exactly when it meets no fault.
-/

namespace MoonlightWeb.Lib

/-- Why a computation has no value. -/
inductive Fault
  | overflow
  | divideByZero
  | outOfFuel
deriving DecidableEq, Repr

namespace MachineInt

variable (w : Nat)

/-- The values of a signed integer of `w` bits. -/
def Fits (x : Int) : Prop := -2 ^ (w - 1) ≤ x ∧ x < 2 ^ (w - 1)

instance (w : Nat) (x : Int) : Decidable (Fits w x) := inferInstanceAs (Decidable (_ ∧ _))

theorem fits_32_iff {x : Int} : Fits 32 x ↔ -2147483648 ≤ x ∧ x ≤ 2147483647 := by
  have hpow : (2 : Int) ^ (32 - 1) = 2147483648 := by norm_num
  unfold Fits
  rw [hpow]
  omega

theorem fits_64_iff {x : Int} :
    Fits 64 x ↔ -9223372036854775808 ≤ x ∧ x ≤ 9223372036854775807 := by
  have hpow : (2 : Int) ^ (64 - 1) = 9223372036854775808 := by norm_num
  unfold Fits
  rw [hpow]
  omega

def fit (x : Int) : Except Fault Int :=
  if Fits w x then .ok x else .error .overflow

def add (a b : Int) : Except Fault Int := fit w (a + b)

def sub (a b : Int) : Except Fault Int := fit w (a - b)

def mul (a b : Int) : Except Fault Int := fit w (a * b)

def neg (a : Int) : Except Fault Int := fit w (-a)

/-- The quotient, rounded toward zero. -/
def div (a b : Int) : Except Fault Int :=
  if b = 0 then .error .divideByZero else fit w (a.tdiv b)

/-- The remainder, with the sign of the dividend. -/
def rem (a b : Int) : Except Fault Int :=
  if b = 0 then .error .divideByZero
  else if Fits w (a.tdiv b) then .ok (a.tmod b) else .error .overflow

section Rules

variable {w : Nat} {a b : Int}

theorem fit_ok (h : Fits w a) : fit w a = .ok a := if_pos h

theorem fit_error (h : ¬Fits w a) : fit w a = .error .overflow := if_neg h

theorem add_ok (h : Fits w (a + b)) : add w a b = .ok (a + b) := fit_ok h

theorem sub_ok (h : Fits w (a - b)) : sub w a b = .ok (a - b) := fit_ok h

theorem mul_ok (h : Fits w (a * b)) : mul w a b = .ok (a * b) := fit_ok h

theorem neg_ok (h : Fits w (-a)) : neg w a = .ok (-a) := fit_ok h

theorem div_ok (hb : b ≠ 0) (h : Fits w (a.tdiv b)) : div w a b = .ok (a.tdiv b) := by
  unfold div
  rw [if_neg hb, fit_ok h]

theorem rem_ok (hb : b ≠ 0) (h : Fits w (a.tdiv b)) : rem w a b = .ok (a.tmod b) := by
  unfold rem
  rw [if_neg hb, if_pos h]

/-- Dividing by a positive number leaves no range. -/
theorem fits_tdiv (hb : 0 < b) (h : Fits w a) : Fits w (a.tdiv b) := by
  have hpow : (0 : Int) < 2 ^ (w - 1) := by positivity
  rcases Int.le_total 0 a with ha | ha
  · have heq : a.tdiv b = a / b := Int.tdiv_eq_ediv_of_nonneg ha
    have hle : a / b ≤ a := Int.ediv_le_self b ha
    have hpos : 0 ≤ a / b := Int.ediv_nonneg ha hb.le
    rw [heq]
    exact ⟨by omega, lt_of_le_of_lt hle h.2⟩
  · have heq : a.tdiv b = -(-a / b) := by
      rw [← Int.tdiv_eq_ediv_of_nonneg (by omega), Int.neg_tdiv, Int.neg_neg]
    have hle : -a / b ≤ -a := Int.ediv_le_self b (by omega)
    have hpos : 0 ≤ -a / b := Int.ediv_nonneg (by omega) hb.le
    have hlow := h.1
    rw [heq]
    exact ⟨by omega, by omega⟩

/-- A quotient of what is not negative stays in range. -/
theorem div_nonneg (ha : 0 ≤ a) (hb : 0 < b) (h : Fits w a) : div w a b = .ok (a / b) := by
  have hle : a / b ≤ a := Int.ediv_le_self b ha
  have hpos : 0 ≤ a / b := Int.ediv_nonneg ha hb.le
  have heq : a.tdiv b = a / b := Int.tdiv_eq_ediv_of_nonneg ha
  have hfits : Fits w (a.tdiv b) := by
    rw [heq]
    exact ⟨by have := h.1; have hp : (0 : Int) ≤ 2 ^ (w - 1) := by positivity
              omega, lt_of_le_of_lt hle h.2⟩
  rw [div_ok hb.ne' hfits, heq]

end Rules

/-- A computation goes on with the value it has. -/
@[simp] theorem ok_bind {α β : Type} (a : α) (f : α → Except Fault β) :
    ((Except.ok a : Except Fault α) >>= f) = f a := rfl

@[simp] theorem error_bind {α β : Type} (e : Fault) (f : α → Except Fault β) :
    ((Except.error e : Except Fault α) >>= f) = .error e := rfl

end MachineInt

end MoonlightWeb.Lib
