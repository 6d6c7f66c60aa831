import Mathlib

/-! # Rounding to 53 bits

The value of a double computed from an exact rational: the multiple of the unit in its last
place that is nearest, the even one when two are. Zero and the positive numbers far from
overflow and underflow are what is described here, and the error of a rounding is bounded
by half a unit.
-/

namespace MoonlightWeb.Lib.BinaryRounding

def ulp (q : ℚ) : ℚ :=
  2 ^ (Int.log 2 q - 52)

/-- The nearest whole number, the even one halfway. -/
def roundEven (x : ℚ) : ℤ :=
  let floor := ⌊x⌋
  if 2 * (x - floor) < 1 ∨ (2 * (x - floor) = 1 ∧ floor % 2 = 0) then floor else floor + 1

def toDouble (q : ℚ) : ℚ :=
  roundEven (q / ulp q) * ulp q

theorem ulp_pos (q : ℚ) : 0 < ulp q := by
  unfold ulp
  positivity

theorem roundEven_intCast (n : ℤ) : roundEven n = n := by
  unfold roundEven
  simp

theorem abs_roundEven_sub_le (x : ℚ) : |(roundEven x : ℚ) - x| ≤ 1 / 2 := by
  have hle := Int.floor_le x
  have hlt := Int.lt_floor_add_one x
  unfold roundEven
  dsimp only
  split
  case isTrue hdown =>
      have hhalf : 2 * (x - ⌊x⌋) ≤ 1 := by
        rcases hdown with hless | ⟨hequal, -⟩
        · exact hless.le
        · exact hequal.le
      rw [abs_le]
      constructor <;> linarith
  case isFalse hup =>
      have hhalf : 1 ≤ 2 * (x - ⌊x⌋) := by
        by_contra hless
        exact hup (Or.inl (not_le.mp hless))
      push_cast
      rw [abs_le]
      constructor <;> linarith

theorem abs_toDouble_sub_le (q : ℚ) : |toDouble q - q| ≤ ulp q / 2 := by
  have hpos := ulp_pos q
  have hone := abs_roundEven_sub_le (q / ulp q)
  have hfactor : toDouble q - q = (roundEven (q / ulp q) - q / ulp q) * ulp q := by
    unfold toDouble
    rw [sub_mul, div_mul_cancel₀ _ hpos.ne']
  rw [hfactor, abs_mul, abs_of_pos hpos]
  calc |(roundEven (q / ulp q) : ℚ) - q / ulp q| * ulp q
      ≤ 1 / 2 * ulp q := mul_le_mul_of_nonneg_right hone hpos.le
    _ = ulp q / 2 := by ring

theorem ulp_le {q : ℚ} {k : ℤ} (hq : 0 < q) (h : q < 2 ^ k) : ulp q ≤ 2 ^ (k - 53) := by
  have hlog : Int.log 2 q < k := (Int.lt_zpow_iff_log_lt (by norm_num) hq).mp (by exact_mod_cast h)
  unfold ulp
  exact zpow_le_zpow_right₀ (by norm_num) (by omega)

/-- The error of rounding a number below a power of two. -/
theorem abs_toDouble_sub_le_of_lt {q : ℚ} {k : ℤ} (hq : 0 < q) (h : q < 2 ^ k) :
    |toDouble q - q| ≤ 2 ^ (k - 54) := by
  have hunit := ulp_le hq h
  have hsplit : (2 : ℚ) ^ (k - 53) = 2 ^ (k - 54) * 2 := by
    rw [show k - 53 = k - 54 + 1 by omega, zpow_add₀ (by norm_num), zpow_one]
  calc |toDouble q - q| ≤ ulp q / 2 := abs_toDouble_sub_le q
    _ ≤ 2 ^ (k - 53) / 2 := by linarith
    _ = 2 ^ (k - 54) := by rw [hsplit]; ring

/-- The error of a rounding, relative to the number. -/
theorem abs_toDouble_sub_le_mul {q : ℚ} (hq : 0 < q) : |toDouble q - q| ≤ q * 2 ^ (-53 : ℤ) := by
  have hlog : (2 : ℚ) ^ Int.log 2 q ≤ q := by exact_mod_cast Int.zpow_log_le_self (by norm_num) hq
  have hunit : ulp q = 2 ^ Int.log 2 q * 2 ^ (-53 : ℤ) * 2 := by
    unfold ulp
    rw [show Int.log 2 q - 52 = Int.log 2 q + -53 + 1 by omega, zpow_add₀ (by norm_num),
      zpow_add₀ (by norm_num), zpow_one]
  have hscaled : (2 : ℚ) ^ Int.log 2 q * 2 ^ (-53 : ℤ) ≤ q * 2 ^ (-53 : ℤ) :=
    mul_le_mul_of_nonneg_right hlog (by positivity)
  calc |toDouble q - q| ≤ ulp q / 2 := abs_toDouble_sub_le q
    _ = 2 ^ Int.log 2 q * 2 ^ (-53 : ℤ) := by rw [hunit, mul_div_cancel_right₀ _ two_ne_zero]
    _ ≤ q * 2 ^ (-53 : ℤ) := hscaled

theorem toDouble_natCast {n : ℕ} (hn : 0 < n) (h : n < 2 ^ 53) : toDouble n = n := by
  have hq : (0 : ℚ) < n := by exact_mod_cast hn
  have hlog : Int.log 2 (n : ℚ) < 53 :=
    (Int.lt_zpow_iff_log_lt (by norm_num) hq).mp (by exact_mod_cast h)
  have hwhole : (n : ℚ) / ulp n = ((n * 2 ^ (52 - Int.log 2 (n : ℚ)).toNat : ℕ) : ℤ) := by
    have hexp : 52 - Int.log 2 (n : ℚ) = ((52 - Int.log 2 (n : ℚ)).toNat : ℤ) := by omega
    unfold ulp
    rw [show Int.log 2 (n : ℚ) - 52 = -(52 - Int.log 2 (n : ℚ)) by omega, zpow_neg, div_inv_eq_mul,
      hexp]
    push_cast
    rw [zpow_natCast]
    simp
  unfold toDouble
  rw [hwhole, roundEven_intCast, ← hwhole, div_mul_cancel₀ _ (ulp_pos _).ne']

end MoonlightWeb.Lib.BinaryRounding
