import Mathlib
import Audience.Proofs.Binary64.Order

/-! # Sums, halves and midpoints

Sums and halves of finite doubles are rounded, whatever their signs. Rounding keeps order and leaves
a doubled bound as it is, so half the sum of two doubles lies between them as long as the sum stays
below the greatest double.
-/

namespace Audience.Binary64

open Float.Model Float.Model.UnpackedFloat

section Signs

variable {u : UnpackedFloat} {x y : Float} {q : ℚ} {m : Nat} {e : Int} {accuracy : Accuracy}

theorem isRounded_neg (nonneg : 0 ≤ q) (unsigned : Unsigned u) (number : u ≠ .notANumber)
    (h : IsNearest q (.ofModel (.pack u))) : IsRounded (-q) (.ofModel (.pack u.neg)) := by
  have opposite : -Float.ofModel (.pack u) = .ofModel (.pack u.neg) :=
    eq_of_toBits (h.nonneg.toBits_neg.trans (toNat_pack_neg unsigned number).symm)
  rw [← opposite]
  exact .below nonneg h

theorem roundWithAccuracy_ne_nan (s : Sign) :
    roundWithAccuracy .binary64 s m e accuracy ≠ .notANumber := by
  simp only [roundWithAccuracy]
  split <;> rintro ⟨⟩

theorem roundWithAccuracy_negative : roundWithAccuracy .binary64 .negative m e accuracy =
    (roundWithAccuracy .binary64 .positive m e accuracy).neg := by
  simp only [roundWithAccuracy]
  split <;> rfl

theorem isRounded_roundWithAccuracy (nonneg : 0 ≤ q)
    (h : IsNearest q (.ofModel (.pack (roundWithAccuracy .binary64 .positive m e accuracy))))
    (s : Sign) : IsRounded (s.apply 1 * q)
      (.ofModel (.pack (roundWithAccuracy .binary64 s m e accuracy))) := by
  cases s with
  | positive =>
    rw [show Sign.apply .positive 1 = 1 from rfl, Int.cast_one, one_mul]
    exact .above nonneg h
  | negative =>
    rw [show Sign.apply .negative 1 = -1 from rfl, Int.cast_neg, Int.cast_one, neg_one_mul,
      roundWithAccuracy_negative]
    exact isRounded_neg nonneg (unsigned_roundWithAccuracy _ _ _) (roundWithAccuracy_ne_nan _) h

theorem isRounded_zero (s : Sign) : IsRounded 0 (.ofModel (.pack (.zero s))) := by
  cases s with
  | positive => exact .above le_rfl isNearest_nothing
  | negative =>
    rw [← neg_zero]
    exact isRounded_neg (u := .zero .positive) le_rfl rfl nofun isNearest_nothing

theorem isRounded_normalize (m e : Int) :
    IsRounded (m * 2 ^ e) (.ofModel (.pack (normalize .binary64 m e .positive))) := by
  rcases lt_or_ge m 0 with negative | nonneg
  · have nearest := isNearest_normalize (neg_nonneg.mpr negative.le) e
    have forward : normalize .binary64 (-m) e .positive =
        UnpackedFloat.round .binary64 .positive (-m).toNat e := by
      rw [UnpackedFloat.normalize, Int.compare_eq_gt.mpr (neg_pos.mpr negative)]
    have backward : normalize .binary64 m e .positive =
        (UnpackedFloat.round .binary64 .positive (-m).toNat e).neg := by
      rw [UnpackedFloat.normalize, Int.compare_eq_lt.mpr negative]
      exact roundWithAccuracy_negative
    have opposite : (m * 2 ^ e : ℚ) = -((-m : Int) * 2 ^ e) := by
      rw [Int.cast_neg, neg_mul, neg_neg]
    rw [forward] at nearest
    rw [backward, opposite]
    refine isRounded_neg ?_ (unsigned_roundWithAccuracy _ _ _) (roundWithAccuracy_ne_nan _) nearest
    have distance : 0 ≤ -m := neg_nonneg.mpr negative.le
    positivity
  · exact .above (by positivity) (isNearest_normalize nonneg e)

end Signs

section Sums

variable {x y : Float}

theorem ne_nan_of_isFinite (h : isFinite x = true) : read x ≠ .nan := fun nan => by
  rw [isFinite, nan] at h
  cases h

theorem unpack_of_isFinite (h : isFinite x = true) :
    (∃ sign, x.toModel.unpack = .zero sign ∧ value x = 0) ∨
      ∃ sign s m pos, IsSignificand s m ∧ x.toModel.unpack = .finite sign m (s - 1074) pos ∧
        value x = sign.apply m * 2 ^ ((s : Int) - 1074) := by
  obtain ⟨y, nonneg, side⟩ := exists_nonneg (ne_nan_of_isFinite h)
  have finite : y.toBits.toNat ≠ infinityBits := fun infinite => by
    rcases side with rfl | rfl
    · exact nonneg.isFinite_iff.mp h infinite
    · rw [isFinite, nonneg.read_neg, if_pos infinite] at h
      cases h
  have quanta := nonneg.value_eq
  have unpacks := nonneg.unpacks
  generalize y.toBits.toNat = bits at *
  generalize unpacked : y.toModel.unpack = u at *
  cases unpacks with
  | infinity => exact absurd rfl finite
  | zero =>
    left
    have nothing : quantaOfBits 0 = 0 := rfl
    have none : value y = 0 := by rw [quanta, nothing, Nat.cast_zero, zero_div]
    rcases side with rfl | rfl
    · exact ⟨_, unpacked, none⟩
    · rw [nonneg.unpack_neg, unpacked, nonneg.value_neg, none]
      exact ⟨_, rfl, neg_zero⟩
  | @finite s m significand pos _ =>
    right
    have amount : value y = m * 2 ^ ((s : Int) - 1074) := by
      rw [quanta, quantaOfBits_significand significand.1 significand.2.le]
      rw [Nat.cast_mul, Nat.cast_pow, Nat.cast_ofNat, mul_div_assoc, ← zpow_natCast, ← zpow_natCast,
        ← zpow_sub₀ two_ne_zero, quantaLog, Nat.cast_ofNat]
    rcases side with rfl | rfl
    · exact ⟨_, s, m, pos, significand, unpacked, amount⟩
    · rw [nonneg.unpack_neg, unpacked, nonneg.value_neg, amount]
      refine ⟨_, s, m, pos, significand, rfl, ?_⟩
      rw [← neg_mul, ← Int.cast_natCast, ← Int.cast_neg]
      rfl

theorem apply_decreaseExponent (s : Sign) (m : Nat) {e f : Int} (h : f ≤ e) :
    ((s.apply (decreaseExponent m e f).1 : Int) : ℚ) * 2 ^ f = s.apply m * 2 ^ e := by
  have same := decreaseExponent_value m h
  cases s with
  | positive => exact_mod_cast same
  | negative =>
    simp only [Sign.apply, Int.cast_neg, Int.cast_natCast, neg_mul]
    rw [same]

/-- A sum of finite doubles is rounded to nearest. -/
theorem isRounded_add (hx : isFinite x = true) (hy : isFinite y = true) :
    IsRounded (value x + value y) (x + y) := by
  show IsRounded _
    (.ofModel (.pack (UnpackedFloat.add .binary64 x.toModel.unpack y.toModel.unpack)))
  rcases unpack_of_isFinite hx with ⟨s, ux, vx⟩ | ⟨s, a, m, pos, -, ux, vx⟩
  · rcases unpack_of_isFinite hy with ⟨t, uy, vy⟩ | ⟨t, b, n, pos', -, uy, -⟩
    · rw [ux, uy, vx, vy, add_zero]
      simp only [UnpackedFloat.add]
      split <;> exact isRounded_zero _
    · have same : UnpackedFloat.add .binary64 (.zero s) y.toModel.unpack = y.toModel.unpack := by
        rw [uy]
        rfl
      rw [ux, same, vx, zero_add, ofModel_pack_unpack]
      exact isRounded_value (ne_nan_of_isFinite hy)
  · rcases unpack_of_isFinite hy with ⟨t, uy, vy⟩ | ⟨t, b, n, pos', -, uy, vy⟩
    · have same : UnpackedFloat.add .binary64 x.toModel.unpack (.zero t) = x.toModel.unpack := by
        rw [ux]
        rfl
      rw [uy, same, vy, add_zero, ofModel_pack_unpack]
      exact isRounded_value (ne_nan_of_isFinite hx)
    · rw [ux, uy, vx, vy]
      generalize (a : Int) - 1074 = e
      generalize (b : Int) - 1074 = f
      have sum := isRounded_normalize (s.apply (decreaseExponent m e (min e f)).1 +
        t.apply (decreaseExponent n f (min e f)).1) (min e f)
      rw [Int.cast_add, add_mul, apply_decreaseExponent s m (min_le_left e f),
        apply_decreaseExponent t n (min_le_right e f)] at sum
      exact sum

end Sums

section Halves

variable {x : Float} {s m : Nat}

theorem unpack_two :
    (2 : Float).toModel.unpack = .finite .positive hiddenBit (-51) (by decide) := by
  rfl

theorem IsSignificand.log2_le (h : IsSignificand s m) (pos : 0 < m) : m.log2 ≤ 52 :=
  Nat.le_of_lt_succ ((Nat.log2_lt pos.ne').mpr h.2)

theorem divCore_two_of_normal (h : IsSignificand s m) (pos : 0 < m) (normal : 0 < s) :
    ∃ j : ℕ, divCore .binary64 m (s - 1074) hiddenBit (-51) =
      (m * 2 ^ j, (s : Int) - 1075 - j, Accuracy.exact) := by
  have hidden : hiddenBit = 2 ^ 52 := rfl
  have length : m.log2 = 52 :=
    le_antisymm (h.log2_le pos) ((Nat.le_log2 pos.ne').mpr (h.1.resolve_left normal.ne'))
  have target : Format.binary64.targetExponent
      (totalExponent m (s - 1074) - totalExponent hiddenBit (-51)) =
        max ((s : Int) - 1076) (-1074) := by
    rw [Format.targetExponent, totalExponent, totalExponent, length, hidden, Nat.log2_two_pow,
      show (Format.binary64.mantissaBits : Int) = 53 by decide,
      show Format.binary64.minExponent = -1074 by decide]
    omega
  obtain ⟨j, hj⟩ : ∃ j : ℕ, max ((s : Int) - 1076) (-1074) = s - 1075 - j :=
    ⟨if s = 1 then 0 else 1, by split <;> omega⟩
  refine ⟨j, ?_⟩
  have shift : ((s : Int) - 1074 - -51 - (s - 1075 - j)).toNat = j + 52 := by omega
  have least : min ((s : Int) - 1074 - -51) (s - 1075 - j) = s - 1075 - j := by omega
  simp only [divCore, target, hj, least, shift, Nat.shiftLeft_eq, pow_add, ← Nat.mul_assoc]
  rw [hidden, Nat.mul_div_cancel _ (Nat.two_pow_pos 52), Nat.mul_mod_left]
  rfl

/-- At the least exponent half a quantum may be left over. -/
theorem divCore_two_of_least (h : IsSignificand 0 m) (pos : 0 < m) :
    divCore .binary64 m (-1074) hiddenBit (-51) =
      (m / 2, -1074, if m % 2 = 0 then .exact else .inexact .eq) := by
  have hidden : hiddenBit = 2 * 2 ^ 51 := rfl
  have short := h.log2_le pos
  have target : Format.binary64.targetExponent
      (totalExponent m (-1074) - totalExponent hiddenBit (-51)) = -1074 := by
    rw [Format.targetExponent, totalExponent, totalExponent, show hiddenBit.log2 = 52 by decide,
      show (Format.binary64.mantissaBits : Int) = 53 by decide,
      show Format.binary64.minExponent = -1074 by decide]
    omega
  have left : m * 2 ^ 51 % hiddenBit = m % 2 * 2 ^ 51 := by
    rw [hidden, Nat.mul_mod_mul_right]
  have whole : m * 2 ^ 51 / hiddenBit = m / 2 := by
    rw [hidden, Nat.mul_div_mul_right _ _ (Nat.two_pow_pos 51)]
  have shift : ((-1074 : Int) - -51 - -1074).toNat = 51 := by decide
  have least : min ((-1074 : Int) - -51) (-1074) = -1074 := by decide
  simp only [divCore, target, least, shift, Nat.shiftLeft_eq, left, whole]
  rcases Nat.mod_two_eq_zero_or_one m with even | odd
  · rw [even, Nat.zero_mul]
    rfl
  · rw [odd, Nat.one_mul]
    rfl

/-- What is left over of a half rounds as a bit that is shifted out. -/
theorem roundWithAccuracy_half (h : IsSignificand 0 m) (pos : 0 < m) :
    roundWithAccuracy .binary64 .positive (m / 2) (-1074)
        (if m % 2 = 0 then .exact else .inexact .eq) =
      roundWithAccuracy .binary64 .positive m (-1075) .exact := by
  have short := h.log2_le pos
  have shorter : (m / 2).log2 ≤ 52 := by
    have less := log2_div_two_pow m 1
    rw [pow_one] at less
    omega
  have first (accuracy : Accuracy) : shiftToTargetExponent .binary64 (m / 2) (-1074) accuracy =
      (.ofMantissaAndAccuracy (m / 2) accuracy, -1074) := by
    rw [shiftToTargetExponent, targetExponent_eq, shiftToExponent,
      show max (((m / 2).log2 : Int) + -1074 - 52) (-1074) = -1074 by omega]
    rfl
  have second : shiftToTargetExponent .binary64 m (-1075) .exact =
      ((ExtendedMantissa.ofMantissaAndAccuracy m .exact).shiftRightOne, -1074) := by
    rw [shiftToTargetExponent, targetExponent_eq, shiftToExponent,
      show max ((m.log2 : Int) + -1075 - 52) (-1074) = -1074 by omega]
    rfl
  have kept : ExtendedMantissa.ofMantissaAndAccuracy (m / 2)
      (if m % 2 = 0 then .exact else .inexact .eq) =
        (ExtendedMantissa.ofMantissaAndAccuracy m .exact).shiftRightOne := by
    rcases Nat.mod_two_eq_zero_or_one m with even | odd
    · rw [if_pos even]
      simp [ExtendedMantissa.ofMantissaAndAccuracy, ExtendedMantissa.shiftRightOne, even]
    · rw [if_neg (by omega)]
      simp [ExtendedMantissa.ofMantissaAndAccuracy, ExtendedMantissa.shiftRightOne, odd]
  simp only [roundWithAccuracy, first, second, kept]

theorem half_zpow (e : Int) : (2 : ℚ) ^ e / 2 = 2 ^ (e - 1) := by
  rw [zpow_sub_one₀ two_ne_zero, div_eq_mul_inv]

theorem isNearest_half (h : IsSignificand s m) (pos : 0 < m) :
    IsNearest (m * 2 ^ ((s : Int) - 1074) / 2) (.ofModel (.pack (roundWithAccuracy .binary64
      .positive (divCore .binary64 m (s - 1074) hiddenBit (-51)).1
        (divCore .binary64 m (s - 1074) hiddenBit (-51)).2.1
          (divCore .binary64 m (s - 1074) hiddenBit (-51)).2.2))) := by
  rcases Nat.eq_zero_or_pos s with rfl | normal
  · have nearest := isNearest_roundWithAccuracy pos (e := -1075) (.inr (by decide))
    rw [Nat.cast_zero, zero_sub, divCore_two_of_least h pos]
    simp only [roundWithAccuracy_half h pos]
    have same : (m : ℚ) * 2 ^ (-1074 : Int) / 2 = m * 2 ^ (-1075 : Int) := by
      rw [mul_div_assoc, half_zpow]
      rfl
    rwa [same]
  · obtain ⟨j, divided⟩ := divCore_two_of_normal h pos normal
    have full : 52 ≤ (m * 2 ^ j).log2 := by
      rw [log2_mul_two_pow pos]
      exact Nat.le_add_right_of_le ((Nat.le_log2 pos.ne').mpr (h.1.resolve_left normal.ne'))
    have nearest := isNearest_roundWithAccuracy (e := (s : Int) - 1075 - j)
      (Nat.mul_pos pos (Nat.two_pow_pos j)) (.inl full)
    have same : (m : ℚ) * 2 ^ ((s : Int) - 1074) / 2 =
        (m * 2 ^ j : ℕ) * 2 ^ ((s : Int) - 1075 - j) := by
      rw [Nat.cast_mul, Nat.cast_pow, Nat.cast_ofNat, mul_assoc, ← zpow_natCast,
        ← zpow_add₀ two_ne_zero, mul_div_assoc, half_zpow]
      congr 2
      ring
    rw [divided, same]
    exact nearest

/-- Half of a finite double is rounded to nearest. -/
theorem isRounded_half (h : isFinite x = true) : IsRounded (value x / 2) (x / 2) := by
  show IsRounded _
    (.ofModel (.pack (UnpackedFloat.div .binary64 x.toModel.unpack (2 : Float).toModel.unpack)))
  rw [unpack_two]
  rcases unpack_of_isFinite h with ⟨sign, unpacked, value⟩ |
    ⟨sign, s, m, pos, significand, unpacked, value⟩
  · rw [unpacked, value, zero_div]
    exact isRounded_zero _
  · rw [unpacked, value]
    have half := isRounded_roundWithAccuracy (by positivity) (isNearest_half significand pos) sign
    have same : (sign.apply m * 2 ^ ((s : Int) - 1074) / 2 : ℚ) =
        sign.apply 1 * (m * 2 ^ ((s : Int) - 1074) / 2) := by
      cases sign <;> simp [Sign.apply, neg_div]
    have positive : sign / .positive = sign := by cases sign <;> rfl
    rw [same]
    simp only [UnpackedFloat.div, positive]
    exact half

end Halves

section Midpoints

variable {a b x y : Float} {q : ℚ}

/-- A double that stands for a number is what the number is rounded to, up to the sign of zero. -/
theorem IsRounded.value_eq (h : IsRounded q x) (number : read y ≠ .nan) (same : value y = q) :
    value x = q := by
  have exactly := isRounded_value number
  rw [same] at exactly
  exact (le_antisymm (h.value_le exactly le_rfl) (exactly.value_le h le_rfl)).trans same

theorem isFinite_of_abs_le (number : read x ≠ .nan) (small : |value x| ≤ 2 ^ 64) :
    isFinite x = true := by
  have top := lt_infinity (n := 2 ^ 64) le_rfl
  push_cast at top
  obtain ⟨y, nonneg, side⟩ := exists_nonneg number
  have distance : |value x| = value y := by
    rcases side with rfl | rfl
    · exact abs_of_nonneg nonneg.value_nonneg
    · rw [nonneg.value_neg, abs_neg, abs_of_nonneg nonneg.value_nonneg]
  have finite := ne_infinity_of_lt nonneg (isNonneg_signed le_rfl)
    (distance ▸ small.trans_lt top)
  rcases side with rfl | rfl
  · exact nonneg.isFinite_iff.mpr finite
  · rw [isFinite, nonneg.read_neg, if_neg finite]

theorem IsNonneg.value_double (h : IsNonneg x) (small : value x ≤ 2 ^ 63) :
    value (x + x) = value x + value x := by
  obtain ⟨s, m, significand, bits⟩ := exists_significand x.toBits.toNat
  have top := lt_infinity (n := 2 ^ 64) le_rfl
  push_cast at top
  refine (isNearest_add h h).value_eq (s + 1) significand.2 ?_ (isNonneg_signed le_rfl)
    (by linarith)
  rw [← two_mul, mul_assoc, ← h.quanta_eq, bits,
    quantaOfBits_significand significand.1 significand.2.le]
  push_cast
  ring

theorem value_double (finite : isFinite x = true) (small : |value x| ≤ 2 ^ 63) :
    value (x + x) = value x + value x := by
  have rounded := isRounded_add finite finite
  obtain ⟨y, nonneg, rfl | rfl⟩ := exists_nonneg (ne_nan_of_isFinite finite)
  · exact nonneg.value_double ((le_abs_self _).trans small)
  · rw [nonneg.value_neg, abs_neg] at small
    have sum := (isNearest_add nonneg nonneg).nonneg
    have double := nonneg.value_double ((le_abs_self _).trans small)
    apply rounded.value_eq (y := -(y + y))
    · rw [sum.read_neg]
      split <;> exact nofun
    · rw [sum.value_neg, double, nonneg.value_neg]
      ring

/-- The midpoint of two doubles lies between them, though both the sum and its half are rounded. -/
theorem value_midpoint (ha : isFinite a = true) (hb : isFinite b = true)
    (smallA : |value a| ≤ 2 ^ 63) (smallB : |value b| ≤ 2 ^ 63) (le : value a ≤ value b) :
    read ((b + a) / 2) ≠ .nan ∧ value a ≤ value ((b + a) / 2) ∧ value ((b + a) / 2) ≤ value b := by
  have sum := isRounded_add hb ha
  have low := (isRounded_add ha ha).value_le sum (by linarith)
  have high := sum.value_le (isRounded_add hb hb) (by linarith)
  rw [value_double ha smallA] at low
  rw [value_double hb smallB] at high
  have finite : isFinite (b + a) = true := by
    apply isFinite_of_abs_le sum.ne_nan
    rw [abs_le] at *
    constructor <;> linarith
  have half := isRounded_half finite
  exact ⟨half.ne_nan, (isRounded_value (ne_nan_of_isFinite ha)).value_le half (by linarith),
    half.value_le (isRounded_value (ne_nan_of_isFinite hb)) (by linarith)⟩

end Midpoints

end Audience.Binary64
