import Mathlib
import Audience.Decimal.Numeral
import Audience.Proofs.Binary64.Nearest

/-! # Reading numerals

A numeral reads as the double nearest to the number it writes. Where its size alone decides, the
number is below half of the least double, or beyond all of them.
-/

namespace Audience

section Powers

variable {a b : Nat}

theorem ten_pow_le_two_pow (h : 10 * a ≤ 3 * b) : 10 ^ a ≤ 2 ^ b := by
  have thousand : 10 ^ 3 ≤ 2 ^ 10 := by norm_num
  refine (Nat.pow_le_pow_iff_left (show 3 ≠ 0 by decide)).mp ?_
  calc (10 ^ a) ^ 3 = (10 ^ 3) ^ a := pow_right_comm 10 a 3
    _ ≤ (2 ^ 10) ^ a := Nat.pow_le_pow_left thousand a
    _ = 2 ^ (10 * a) := (pow_mul 2 10 a).symm
    _ ≤ 2 ^ (b * 3) := Nat.pow_le_pow_right (by decide) (by omega)
    _ = (2 ^ b) ^ 3 := pow_mul 2 b 3

theorem two_pow_le_ten_pow (h : 28 * b ≤ 93 * a) : 2 ^ b ≤ 10 ^ a := by
  have close : 2 ^ 93 ≤ 10 ^ 28 := by norm_num
  refine (Nat.pow_le_pow_iff_left (show 28 ≠ 0 by decide)).mp ?_
  calc (2 ^ b) ^ 28 = 2 ^ (b * 28) := (pow_mul 2 b 28).symm
    _ ≤ 2 ^ (93 * a) := Nat.pow_le_pow_right (by decide) (by omega)
    _ = (2 ^ 93) ^ a := pow_mul 2 93 a
    _ ≤ (10 ^ 28) ^ a := Nat.pow_le_pow_left close a
    _ = (10 ^ a) ^ 28 := pow_right_comm 10 28 a

end Powers

namespace Numeral

/-- The number that a numeral writes. -/
def value (n : Numeral) : ℚ :=
  n.coefficient * 10 ^ n.exponent

theorem value_nonneg (n : Numeral) : 0 ≤ n.value := by
  rw [value]
  positivity

theorem cast_tenTo (n : Nat) : ((tenTo n : ℕ) : ℚ) = 10 ^ n := by
  rw [tenTo, Nat.pow_eq]
  push_cast
  rfl

theorem value_lt (n : Numeral) : n.value < 10 ^ n.magnitude := by
  have digits : n.coefficient < 10 ^ (Nat.toDigits 10 n.coefficient).length :=
    (Nat.length_toDigits_le_iff (by decide) Nat.length_toDigits_pos).mp le_rfl
  rw [value, magnitude, zpow_add₀ (by norm_num), zpow_natCast]
  exact mul_lt_mul_of_pos_right (by exact_mod_cast digits) (by positivity)

theorem le_value {n : Numeral} (h : n.coefficient ≠ 0) : 10 ^ (n.magnitude - 1) ≤ n.value := by
  have some : 0 < (Nat.toDigits 10 n.coefficient).length := Nat.length_toDigits_pos
  have digits : 10 ^ ((Nat.toDigits 10 n.coefficient).length - 1) ≤ n.coefficient := by
    by_contra! less
    rcases Nat.eq_zero_or_pos ((Nat.toDigits 10 n.coefficient).length - 1) with single | more
    · rw [single, pow_zero, Nat.lt_one_iff] at less
      exact h less
    · have short := (Nat.length_toDigits_le_iff (by decide) more).mpr less
      omega
  have split : n.magnitude - 1 =
      ((Nat.toDigits 10 n.coefficient).length - 1 : ℕ) + n.exponent := by
    rw [magnitude]
    omega
  rw [value, split, zpow_add₀ (by norm_num), zpow_natCast]
  exact mul_le_mul_of_nonneg_right (by exact_mod_cast digits) (by positivity)

theorem value_negligible {n : Numeral} (h : n.magnitude < -330) :
    n.value * 2 ^ Binary64.quantaLog ≤ 1 / 2 := by
  have below : n.value ≤ 10 ^ (-331 : Int) :=
    n.value_lt.le.trans (zpow_le_zpow_right₀ (by norm_num) (by omega))
  have scale : (2 : ℚ) ^ Binary64.quantaLog * 2 ≤ 10 ^ 331 := by
    rw [← pow_succ]
    exact_mod_cast two_pow_le_ten_pow (show 28 * (Binary64.quantaLog + 1) ≤ 93 * 331 by decide)
  have cancel (k : Nat) : (10 : ℚ) ^ (-k : Int) * (10 ^ k / 2) = 1 / 2 := by
    rw [zpow_neg, zpow_natCast]
    field_simp
  calc n.value * 2 ^ Binary64.quantaLog ≤ 10 ^ (-331 : Int) * 2 ^ Binary64.quantaLog :=
        mul_le_mul_of_nonneg_right below (by positivity)
    _ ≤ 10 ^ (-331 : Int) * (10 ^ 331 / 2) := by
        refine mul_le_mul_of_nonneg_left ?_ (by positivity)
        exact (le_div_iff₀ two_pos).mpr scale
    _ = 1 / 2 := cancel 331

theorem le_value_of_huge {n : Numeral} (nonzero : n.coefficient ≠ 0) (h : 310 < n.magnitude) :
    2 ^ 1024 ≤ n.value := by
  calc (2 : ℚ) ^ 1024 ≤ 10 ^ 310 := by
        exact_mod_cast two_pow_le_ten_pow (show 28 * 1024 ≤ 93 * 310 by decide)
    _ = 10 ^ (310 : Int) := (zpow_natCast 10 310).symm
    _ ≤ 10 ^ (n.magnitude - 1) := zpow_le_zpow_right₀ (by norm_num) (by omega)
    _ ≤ n.value := le_value nonzero

/-- A numeral reads as the nearest double. -/
theorem isNearest_toFloat (n : Numeral) : Binary64.IsNearest n.value n.toFloat := by
  rw [toFloat]
  split
  next small =>
    apply Binary64.isNearest_zero n.value_nonneg
    rcases small with zero | tiny
    · rw [value, zero]
      norm_num
    · exact value_negligible tiny
  next large =>
    obtain ⟨nonzero, -⟩ := not_or.mp large
    split
    next huge =>
      apply Binary64.isNearest_infinity
      rw [Binary64.quantaOfBits_infinity, Nat.cast_mul, Nat.cast_pow, Nat.cast_pow, Nat.cast_ofNat]
      exact mul_le_mul_of_nonneg_right (le_value_of_huge nonzero huge) (by positivity)
    next =>
      split
      next whole =>
        have nearest := Binary64.isNearest_ofNat (n.coefficient * tenTo n.exponent.toNat)
        rw [Nat.cast_mul, cast_tenTo, ← zpow_natCast, Int.toNat_of_nonneg whole] at nearest
        exact nearest
      next broken =>
        have nearest := Binary64.isNearest_ofRatio n.coefficient
          (show 0 < tenTo (-n.exponent).toNat from Nat.pow_pos (by decide))
        rw [cast_tenTo, ← zpow_natCast, Int.toNat_of_nonneg (by omega), zpow_neg, div_inv_eq_mul]
          at nearest
        exact nearest

end Numeral

end Audience
