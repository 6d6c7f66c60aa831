import MoonlightWeb.Lib.Trim
import MoonlightWeb.Qt.QString

/-! # ASCII texts

The numbers a text is made of, and what case folding and trimming do to ASCII units.
-/

namespace MoonlightWeb.Qt.QString
open Lib

/-- `QString::number` of a number that is not negative. -/
def number (n : Nat) : QString := (Nat.toDigits 10 n).map unit

def isDigit (u : UInt16) : Prop := unit '0' ≤ u ∧ u ≤ unit '9'

instance : DecidablePred isDigit := fun _ => inferInstanceAs (Decidable (_ ∧ _))

variable {c : Char}

theorem digit_range (h : c.isDigit = true) : 48 ≤ c.toNat ∧ c.toNat ≤ 57 := by
  simpa [Char.isDigit, UInt32.le_iff_toNat_le] using h

theorem unit_toNat_of_digit (h : c.isDigit = true) : (unit c).toNat = c.toNat := by
  have hrange := digit_range h
  unfold unit
  rw [UInt16.toNat_ofNat']
  exact Nat.mod_eq_of_lt (by omega)

theorem isDigit_unit (h : c.isDigit = true) : isDigit (unit c) := by
  constructor
  · rw [UInt16.le_iff_toNat_le, unit_toNat_of_digit h]
    exact (digit_range h).1
  · rw [UInt16.le_iff_toNat_le, unit_toNat_of_digit h]
    exact (digit_range h).2

theorem digit_of_mem_toDigits {n : Nat} (h : c ∈ Nat.toDigits 10 n) :
    c.isDigit = true :=
  Nat.isDigit_of_mem_toDigits (by decide) (by decide) h

variable {u : UInt16}

theorem isDigit_of_mem_number {n : Nat} (h : u ∈ number n) : isDigit u := by
  obtain ⟨c, hc, rfl⟩ := List.mem_map.mp h
  exact isDigit_unit (digit_of_mem_toDigits hc)

theorem number_ne_nil (n : Nat) : number n ≠ [] := by
  unfold number
  simp

/-- `toInt` on a number's text. -/
def value (s : QString) : Nat :=
  Nat.ofDigitChars 10 (s.map fun u => Char.ofNat u.toNat) 0

theorem value_number : Function.LeftInverse value number := by
  intro n
  have hdigits : (number n).map (fun u => Char.ofNat u.toNat) = Nat.toDigits 10 n := by
    unfold number
    rw [List.map_map]
    refine (List.map_congr_left ?_).trans (List.map_id _)
    intro c hc
    simp [unit_toNat_of_digit (digit_of_mem_toDigits hc)]
  rw [value, hdigits, Nat.ofDigitChars_ten_toDigits]

theorem number_injective : Function.Injective number :=
  value_number.injective

theorem fold_toNat (u : UInt16) : (fold u).toNat =
    if 65 ≤ u.toNat ∧ u.toNat ≤ 90 then u.toNat + 32
    else if u.toNat = 0x017F then 115
    else if u.toNat = 0x212A then 107
    else u.toNat := by
  have hA : (unit 'A').toNat = 65 := by decide
  have hZ : (unit 'Z').toNat = 90 := by decide
  unfold fold
  simp only [UInt16.le_iff_toNat_le, hA, hZ, ← UInt16.toNat_inj, UInt16.reduceToNat]
  split_ifs with hupper
  · rw [UInt16.toNat_add]
    simp only [UInt16.reduceToNat]
    omega
  · decide
  · decide
  · rfl

/-- Units before the upper case letters, and between them and the lower case ones, are
folded into by themselves alone. -/
theorem fold_eq_iff {u c : UInt16} (hc : c < unit 'A' ∨ unit 'Z' < c ∧ c < unit 'a') :
    fold u = c ↔ u = c := by
  have hA : (unit 'A').toNat = 65 := by decide
  have hZ : (unit 'Z').toNat = 90 := by decide
  have ha : (unit 'a').toNat = 97 := by decide
  rw [UInt16.lt_iff_toNat_lt, UInt16.lt_iff_toNat_lt, UInt16.lt_iff_toNat_lt, hA, hZ, ha] at hc
  rw [← UInt16.toNat_inj, ← UInt16.toNat_inj, fold_toNat]
  split_ifs <;> omega

theorem fold_fold (u : UInt16) : fold (fold u) = fold u := by
  rw [← UInt16.toNat_inj, fold_toNat, fold_toNat]
  split_ifs <;> omega

theorem fold_of_isDigit (h : isDigit u) : fold u = u := by
  have h0 : (unit '0').toNat = 48 := by decide
  have h9 : (unit '9').toNat = 57 := by decide
  obtain ⟨hlow, hhigh⟩ := h
  rw [UInt16.le_iff_toNat_le] at hlow hhigh
  rw [← UInt16.toNat_inj, fold_toNat]
  split_ifs <;> omega

/-- A visible ASCII character. -/
def Printable (u : UInt16) : Prop := 0x21 ≤ u ∧ u ≤ 0x7E

instance : DecidablePred Printable := fun _ => inferInstanceAs (Decidable (_ ∧ _))

theorem printable_iff : Printable u ↔ 0x21 ≤ u.toNat ∧ u.toNat ≤ 0x7E := by
  unfold Printable
  rw [UInt16.le_iff_toNat_le, UInt16.le_iff_toNat_le]
  rfl

theorem Printable.fold (h : Printable u) : Printable (fold u) := by
  rw [printable_iff] at h ⊢
  rw [fold_toNat]
  split_ifs <;> omega

theorem Printable.ascii (h : Printable u) : u < 128 := by
  rw [printable_iff] at h
  rw [UInt16.lt_iff_toNat_lt]
  simp only [UInt16.reduceToNat]
  omega

theorem isDigit.printable (h : isDigit u) : Printable u := by
  have h0 : (unit '0').toNat = 48 := by decide
  have h9 : (unit '9').toNat = 57 := by decide
  obtain ⟨hlow, hhigh⟩ := h
  rw [UInt16.le_iff_toNat_le] at hlow hhigh
  rw [printable_iff]
  omega

theorem Printable.not_isSpace (h : Printable u) : isSpace u = false := by
  rw [printable_iff] at h
  simp only [isSpace, Bool.or_eq_false_iff, Bool.and_eq_false_iff, decide_eq_false_iff_not,
    ← UInt16.toNat_inj, UInt16.le_iff_toNat_le, UInt16.reduceToNat]
  omega

/-- Nothing is trimmed from a text with no space in it. -/
theorem trimmed_of_printable {s : QString} (h : ∀ u ∈ s, Printable u) : trimmed s = s := by
  have hcore : Trimmed isSpace s := {
    head := fun u hu => (h u (List.mem_of_mem_head? hu)).not_isSpace
    last := fun u hu => (h u (List.mem_of_mem_getLast? hu)).not_isSpace }
  have htrim := @trim_eq _ isSpace [] s [] (by simp) (by simp) hcore
  rwa [List.nil_append, List.append_nil] at htrim

end MoonlightWeb.Qt.QString
