import Mathlib
import Audience.Proofs.Binary64.Arithmetic

/-! # Rounded results

Sums, products and differences of doubles from zero on are the doubles nearest to the exact results.
A significand that is too long is shifted to the right, and of all the bits that it drops only two
are kept: they tell how the rest compares with a half. No number without a minus sign has a fraction
with one.
-/

namespace Audience.Binary64

open Float.Model Float.Model.UnpackedFloat

theorem divNearest_mul_right (num den : Nat) {c : Nat} (pos : 0 < c) :
    divNearest (num * c) (den * c) = divNearest num den := by
  have double : 2 * (num % den * c) = 2 * (num % den) * c := (Nat.mul_assoc _ _ _).symm
  simp only [divNearest, Nat.mul_div_mul_right _ _ pos, Nat.mul_mod_mul_right, double,
    Nat.mul_lt_mul_right pos]

section Shifts

variable {em : ExtendedMantissa} {m k : Nat}

/-- What a significand keeps after so many shifts: the quotient, and how the remainder compares with
a half and with nothing. -/
structure Keeps (em : ExtendedMantissa) (m k : Nat) : Prop where
  mantissa : em.mantissa = m / 2 ^ k
  roundBit : em.roundBit = decide (2 ^ k ≤ 2 * (m % 2 ^ k))
  stickyBit : em.stickyBit = decide (2 * (m % 2 ^ k) % 2 ^ k ≠ 0)

theorem keeps_exact (m : Nat) : Keeps (.ofMantissaAndAccuracy m .exact) m 0 where
  mantissa := (Nat.div_one m).symm
  roundBit := by simp [Nat.mod_one, ExtendedMantissa.ofMantissaAndAccuracy]
  stickyBit := by simp [Nat.mod_one, ExtendedMantissa.ofMantissaAndAccuracy]

theorem Keeps.shiftRightOne (h : Keeps em m k) : Keeps em.shiftRightOne m (k + 1) := by
  have small := Nat.mod_lt m (Nat.two_pow_pos k)
  have rest : m % 2 ^ (k + 1) = m % 2 ^ k + 2 ^ k * (m / 2 ^ k % 2) := by rw [pow_succ, Nat.mod_mul]
  obtain ⟨mantissa, roundBit, stickyBit⟩ := h
  constructor
  · rw [ExtendedMantissa.shiftRightOne, mantissa, Nat.div_div_eq_div_mul, pow_succ]
  · rw [ExtendedMantissa.shiftRightOne, mantissa, rest, pow_succ]
    rcases Nat.mod_two_eq_zero_or_one (m / 2 ^ k) with even | odd
    · rw [even, Nat.mul_zero, Nat.add_zero]
      exact (decide_eq_false (by omega)).symm
    · rw [odd, Nat.mul_one]
      exact (decide_eq_true (by omega)).symm
  · have nothing : 2 * (m % 2 ^ (k + 1)) % 2 ^ (k + 1) = 2 * (m % 2 ^ k) := by
      rw [rest, pow_succ, Nat.mul_comm (2 ^ k) 2, Nat.mul_mod_mul_left, Nat.add_mul_mod_self_left,
        Nat.mod_mod]
    rw [ExtendedMantissa.shiftRightOne, roundBit, stickyBit, nothing, ← Bool.decide_or,
      decide_eq_decide]
    rcases Nat.lt_or_ge (2 * (m % 2 ^ k)) (2 ^ k) with less | more
    · rw [Nat.mod_eq_of_lt less]
      omega
    · exact iff_of_true (.inl more) (by omega)

theorem keeps_shiftRight (m k : Nat) :
    Keeps (ExtendedMantissa.ofMantissaAndAccuracy m .exact >>> k) m k := by
  induction k with
  | zero => exact keeps_exact m
  | succ k ih => exact ih.shiftRightOne

theorem Keeps.roundedMantissa (h : Keeps em m k) : em.roundedMantissa = divNearest m (2 ^ k) := by
  have small := Nat.mod_lt m (Nat.two_pow_pos k)
  obtain ⟨mantissa, roundBit, stickyBit⟩ := h
  obtain ⟨mantissa', roundBit', stickyBit'⟩ := em
  simp only at mantissa roundBit stickyBit
  subst mantissa
  rw [divNearest]
  cases roundBit' with
  | false =>
    have below := of_decide_eq_false roundBit.symm
    rw [if_pos (by omega)]
    cases stickyBit' <;> rfl
  | true =>
    have above := of_decide_eq_true roundBit.symm
    have back : 2 * (m % 2 ^ k) % 2 ^ k = 2 * (m % 2 ^ k) - 2 ^ k := by
      rw [Nat.mod_eq_sub_mod above, Nat.mod_eq_of_lt (by omega)]
    rw [if_neg (by omega)]
    cases stickyBit' with
    | false =>
      have tie := of_decide_eq_false stickyBit.symm
      rw [if_neg (by omega)]
      rfl
    | true =>
      have more := of_decide_eq_true stickyBit.symm
      rw [if_pos (by omega)]
      rfl

end Shifts

section Logarithms

variable {m : Nat}

theorem log2_mul_two_pow (pos : 0 < m) (a : Nat) : (m * 2 ^ a).log2 = m.log2 + a := by
  rw [Nat.log2_eq_iff (Nat.mul_pos pos (Nat.two_pow_pos a)).ne', pow_add, Nat.add_right_comm,
    pow_add]
  exact ⟨Nat.mul_le_mul_right _ (Nat.log2_self_le pos.ne'),
    Nat.mul_lt_mul_of_pos_right Nat.lt_log2_self (Nat.two_pow_pos a)⟩

theorem log2_div_two_pow (m b : Nat) : (m / 2 ^ b).log2 = m.log2 - b := by
  induction b with
  | zero => rw [pow_zero, Nat.div_one, Nat.sub_zero]
  | succ b ih =>
    rw [pow_succ, ← Nat.div_div_eq_div_mul, ← Nat.sub_sub, ← ih]
    conv => rhs; rw [Nat.log2_def]
    split
    · rfl
    next small =>
      rw [Nat.log2_def, if_neg (by omega)]

end Logarithms

section Packed

variable {s m : Nat} {e : Int}

theorem toNat_packComponents (exponent : BitVec 11) (mantissa : BitVec 52) :
    (packComponents .binary64 .positive exponent mantissa).toNat =
      exponent.toNat * hiddenBit + mantissa.toNat := by
  have bits : (packComponents .binary64 .positive exponent mantissa).toNat =
      (0#1 ++ exponent ++ mantissa).toNat := rfl
  have hidden : hiddenBit = 2 ^ 52 := rfl
  rw [bits, BitVec.toNat_append, BitVec.toNat_append, BitVec.toNat_ofNat, Nat.zero_mod,
    Nat.zero_shiftLeft, Nat.zero_or, hidden, ← Nat.shiftLeft_eq]
  exact (Nat.shiftLeft_add_eq_or_of_lt mantissa.isLt _).symm

theorem toBits_pack (h : IsSignificand s m) (pos : 0 < m) :
    (Float.ofModel (.pack (.finite .positive m (s - 1074) pos))).toBits.toNat =
      min infinityBits (s * hiddenBit + m) := by
  have hidden : hiddenBit = 2 ^ 52 := rfl
  obtain ⟨normal, small⟩ := h
  show (UnpackedFloat.pack .binary64 (.finite .positive m (s - 1074) pos)).toNat = _
  have biased : ((s : Int) - 1074 + (Format.exponentBias .binary64 : Int) + (52 : Nat)).toNat =
      s + 1 := by
    rw [show (Format.exponentBias .binary64 : Int) = 1023 by decide]
    omega
  simp only [UnpackedFloat.pack, biased]
  split
  next overflow =>
    replace overflow : 2 ^ 11 ≤ s + 1 + 1 := overflow
    have infinite : (packedInfinity .binary64 .positive).toNat = infinityBits := by decide
    have many : 2046 * hiddenBit ≤ s * hiddenBit := Nat.mul_le_mul_right _ (by omega)
    rw [infinite, Nat.min_eq_left]
    unfold infinityBits
    omega
  next finite =>
    replace finite : ¬ 2 ^ 11 ≤ s + 1 + 1 := finite
    have few : s * hiddenBit ≤ 2045 * hiddenBit := Nat.mul_le_mul_right _ (by omega)
    rw [Nat.min_eq_right (by unfold infinityBits; omega)]
    split
    next full =>
      replace full : m.log2 = 52 := Nat.succ_injective full
      have lead := Nat.log2_self_le pos.ne'
      rw [full, ← hidden] at lead
      have carried : (s + 1) * hiddenBit = s * hiddenBit + hiddenBit := Nat.succ_mul _ _
      rw [toNat_packComponents, BitVec.toNat_ofNat, BitVec.toNat_ofNat,
        Nat.mod_eq_of_lt (show s + 1 < 2 ^ 11 by omega), carried]
      unfold hiddenBit at *
      omega
    next short =>
      have less : m < hiddenBit := by
        by_contra! full
        apply short
        show m.log2 + 1 = 53
        rw [Nat.succ_inj, Nat.log2_eq_iff pos.ne']
        unfold hiddenBit at *
        omega
      obtain rfl := normal.resolve_right (by omega)
      rw [toNat_packComponents, BitVec.toNat_ofNat, BitVec.toNat_ofNat]
      unfold hiddenBit at *
      omega

theorem targetExponent_eq (m : Nat) (e : Int) :
    Format.binary64.targetExponent (totalExponent m e) = max (m.log2 + e - 52) (-1074) := by
  simp only [Format.targetExponent, totalExponent, Format.mantissaBits, Format.minExponent]
  norm_num
  omega

theorem shiftToTargetExponent_of_fits (h : m < 2 * hiddenBit) (low : -1074 ≤ e) :
    shiftToTargetExponent .binary64 m e .exact = (⟨m, false, false⟩, e) := by
  have short : m.log2 ≤ 52 := by
    rcases Nat.eq_zero_or_pos m with rfl | pos
    · exact Nat.zero_le _
    · exact Nat.le_of_lt_succ ((Nat.log2_lt pos.ne').mpr h)
  rw [shiftToTargetExponent, targetExponent_eq, shiftToExponent,
    show (max (m.log2 + e - 52) (-1074) - e).toNat = 0 by omega]
  simp only [Int.natCast_zero, Int.add_zero]
  rfl

theorem shiftToTargetExponent_carry (low : -1074 ≤ e) :
    shiftToTargetExponent .binary64 (2 * hiddenBit) e .exact =
      (⟨hiddenBit, false, false⟩, e + 1) := by
  have length : (2 * hiddenBit).log2 = 53 := by
    rw [show 2 * hiddenBit = 2 ^ 53 from rfl, Nat.log2_two_pow]
  rw [shiftToTargetExponent, targetExponent_eq, shiftToExponent, length,
    show (max ((53 : Nat) + e - 52) (-1074) - e).toNat = 1 by omega]
  rfl

/-- A result is rounded at the last of its 53 bits, or where the doubles have no finer step. -/
theorem toBits_roundWithAccuracy {k : Nat} (step : max (m.log2 + e - 52) (-1074) = (s : Int) - 1074)
    (shift : e + k = (s : Int) - 1074) :
    (Float.ofModel (.pack (roundWithAccuracy .binary64 .positive m e .exact))).toBits.toNat =
      min infinityBits (s * hiddenBit + divNearest m (2 ^ k)) := by
  have hidden : hiddenBit = 2 ^ 52 := rfl
  have first : shiftToTargetExponent .binary64 m e .exact =
      (ExtendedMantissa.ofMantissaAndAccuracy m .exact >>> k, (s : Int) - 1074) := by
    rw [shiftToTargetExponent, targetExponent_eq, shiftToExponent, step,
      show ((s : Int) - 1074 - e).toNat = k by omega, shift]
  have rounded := (keeps_shiftRight m k).roundedMantissa
  have normal : s = 0 ∨ hiddenBit ≤ divNearest m (2 ^ k) := by
    rcases Nat.eq_zero_or_pos s with zero | more
    · exact .inl zero
    · right
      have length : m.log2 = k + 52 := by omega
      apply le_divNearest (Nat.two_pow_pos k)
      rw [hidden, ← pow_add, ← length]
      refine Nat.log2_self_le fun zero => ?_
      rw [zero, Nat.log2_zero] at length
      omega
  have most : divNearest m (2 ^ k) ≤ 2 * hiddenBit := by
    apply divNearest_le (Nat.two_pow_pos k)
    calc m ≤ 2 ^ (m.log2 + 1) := Nat.lt_log2_self.le
      _ ≤ 2 ^ (k + 53) := Nat.pow_le_pow_right (by decide) (by omega)
      _ = 2 ^ k * (2 * hiddenBit) := by rw [hidden, pow_add]; rfl
  simp only [roundWithAccuracy, first, rounded]
  generalize divNearest m (2 ^ k) = r at *
  rcases Nat.lt_or_eq_of_le most with fits | rfl
  · simp only [shiftToTargetExponent_of_fits fits (show -1074 ≤ (s : Int) - 1074 by omega)]
    split
    next none =>
      obtain rfl := normal.resolve_right (by unfold hiddenBit; omega)
      rw [none]
      rfl
    next some => exact toBits_pack ⟨normal, fits⟩ _
  · simp only [shiftToTargetExponent_carry (show -1074 ≤ (s : Int) - 1074 by omega)]
    have exponent : (s : Int) - 1074 + 1 = (s + 1 : ℕ) - 1074 := by omega
    have carried : (s + 1) * hiddenBit = s * hiddenBit + hiddenBit := Nat.succ_mul _ _
    have bits : s * hiddenBit + 2 * hiddenBit = (s + 1) * hiddenBit + hiddenBit := by omega
    rw [dif_neg (by decide), bits]
    simp only [exponent]
    exact toBits_pack ⟨.inr le_rfl, by decide⟩ (by decide)

theorem zpow_eq_div (e : Int) : (2 : ℚ) ^ e = (2 : ℚ) ^ e.toNat / 2 ^ (-e).toNat := by
  rw [← zpow_natCast, ← zpow_natCast, ← zpow_sub₀ two_ne_zero]
  congr 1
  omega

theorem isNearest_nothing : IsNearest 0 (.ofModel (.pack (.zero .positive))) := by
  rw [show Float.ofModel (.pack (.zero .positive)) = 0 by decide]
  exact isNearest_zero le_rfl (by norm_num)

/-- A result with enough bits, or as fine as doubles come, is rounded to the nearest double. -/
theorem isNearest_roundWithAccuracy (pos : 0 < m) (enough : 52 ≤ m.log2 ∨ e ≤ -1074) :
    IsNearest (m * 2 ^ e)
      (.ofModel (.pack (roundWithAccuracy .binary64 .positive m e .exact))) := by
  obtain ⟨s, step⟩ : ∃ s : ℕ, max (m.log2 + e - 52) (-1074) = (s : Int) - 1074 :=
    ⟨(max (m.log2 + e - 52) (-1074) + 1074).toNat, by omega⟩
  obtain ⟨k, shift⟩ : ∃ k : ℕ, e + k = (s : Int) - 1074 := ⟨((s : Int) - 1074 - e).toNat, by omega⟩
  have nearest := isNearest_ofRatio (m * 2 ^ e.toNat) (Nat.two_pow_pos (-e).toNat)
  push_cast at nearest
  rw [mul_div_assoc, ← zpow_eq_div] at nearest
  convert nearest using 1
  apply eq_of_toBits
  rw [toBits_roundWithAccuracy step shift, ofRatio, toBits_signed (bitsOfRatio_le _ _)]
  have quanta : (m * 2 ^ e.toNat) <<< quantaLog = m * 2 ^ (e.toNat + quantaLog) := by
    rw [Nat.shiftLeft_eq, Nat.mul_assoc, ← pow_add]
  have kept : spare (m * 2 ^ (e.toNat + quantaLog) / 2 ^ (-e).toNat) = s := by
    rw [spare, log2_div_two_pow, log2_mul_two_pow pos, quantaLog]
    omega
  have scale : 2 ^ (-e).toNat * 2 ^ s = 2 ^ k * 2 ^ (e.toNat + quantaLog) := by
    have exponents : (-e).toNat + s = k + (e.toNat + quantaLog) := by
      rw [quantaLog]
      omega
    rw [← pow_add, ← pow_add, exponents]
  simp only [bitsOfRatio, quanta, kept, Nat.shiftLeft_eq, scale]
  rw [divNearest_mul_right _ _ (Nat.two_pow_pos _)]

theorem isNearest_normalize {m : Int} (h : 0 ≤ m) (e : Int) :
    IsNearest (m * 2 ^ e) (.ofModel (.pack (normalize .binary64 m e .positive))) := by
  obtain ⟨n, rfl⟩ := Int.eq_ofNat_of_zero_le h
  simp only [UnpackedFloat.normalize]
  split
  next less => exact absurd (Int.compare_eq_lt.mp less) (Int.not_lt.mpr h)
  next zero =>
    rw [Int.compare_eq_eq.mp zero, Int.cast_zero, zero_mul]
    exact isNearest_nothing
  next more =>
    have pos : 0 < n := by simpa using Int.compare_eq_gt.mp more
    simp only [UnpackedFloat.round, decreaseExponent, Int.toNat_natCast, targetExponent_eq,
      Nat.shiftLeft_eq]
    generalize hk : (e - max (n.log2 + e - 52) (-1074)).toNat = k
    have nearest := @isNearest_roundWithAccuracy (n * 2 ^ k) (e - k)
      (Nat.mul_pos pos (Nat.two_pow_pos k)) (by rw [log2_mul_two_pow pos]; omega)
    have same : ((n * 2 ^ k : ℕ) : ℚ) * 2 ^ (e - k) = (n : ℤ) * 2 ^ e := by
      push_cast
      rw [mul_assoc, ← zpow_natCast, ← zpow_add₀ two_ne_zero, add_sub_cancel]
    rwa [same] at nearest

end Packed

section Floats

variable {x y : Float}

theorem ofModel_pack_unpack (x : Float) : Float.ofModel (.pack x.toModel.unpack) = x :=
  Float.ofBits_toBits x

theorem unpack_infinity : (signed false infinityBits).toModel.unpack = .infinity .positive := by
  rfl

theorem unpack_cases (h : IsNonneg x) :
    x = signed false infinityBits ∨ (x.toModel.unpack = .zero .positive ∧ value x = 0) ∨
      ∃ m e pos, x.toModel.unpack = .finite .positive m e pos ∧ (52 ≤ m.log2 ∨ e = -1074) ∧
        value x = m * 2 ^ e := by
  by_cases finite : x.toBits.toNat = infinityBits
  · exact .inl (eq_of_toBits (finite.trans (toBits_signed le_rfl).symm))
  · right
    rw [h.value_eq]
    rcases unpack_of_isNonneg h finite with ⟨unpacked, quanta⟩ | ⟨m, e, pos, unpacked, low, full,
      quanta⟩
    · exact .inl ⟨unpacked, by rw [quanta, Nat.cast_zero, zero_div]⟩
    · refine .inr ⟨m, e, pos, unpacked, full.imp_left (Nat.le_log2 pos.ne').mpr, ?_⟩
      rw [quanta]
      push_cast
      rw [mul_div_assoc, ← zpow_natCast, ← zpow_natCast, ← zpow_sub₀ two_ne_zero, quantaLog,
        Int.toNat_of_nonneg (by omega)]
      congr 2
      omega

theorem isNearest_of_infinity_le {q : ℚ} (h : value (signed false infinityBits) ≤ q) :
    IsNearest q (signed false infinityBits) := by
  rw [(isNonneg_signed le_rfl).value_eq, toBits_signed le_rfl,
    div_le_iff₀ (by positivity)] at h
  exact isNearest_infinity h

theorem IsNonneg.value_nonneg (h : IsNonneg x) : 0 ≤ value x := by
  rw [h.value_eq]
  positivity

theorem decreaseExponent_value (m : Nat) {e f : Int} (h : f ≤ e) :
    ((decreaseExponent m e f).1 : ℚ) * 2 ^ f = m * 2 ^ e := by
  simp only [decreaseExponent, Nat.shiftLeft_eq]
  push_cast
  rw [mul_assoc, ← zpow_natCast, ← zpow_add₀ two_ne_zero]
  congr 2
  omega

theorem add_infinity (hy : IsNonneg y) :
    UnpackedFloat.add .binary64 (.infinity .positive) y.toModel.unpack = .infinity .positive ∧
      UnpackedFloat.add .binary64 y.toModel.unpack (.infinity .positive) = .infinity .positive := by
  rcases unpack_cases hy with rfl | ⟨unpacked, -⟩ | ⟨m, e, pos, unpacked, -⟩
  · rw [unpack_infinity]
    exact ⟨rfl, rfl⟩
  · rw [unpacked]
    exact ⟨rfl, rfl⟩
  · rw [unpacked]
    exact ⟨rfl, rfl⟩

theorem add_nothing (hy : IsNonneg y) :
    UnpackedFloat.add .binary64 (.zero .positive) y.toModel.unpack = y.toModel.unpack ∧
      UnpackedFloat.add .binary64 y.toModel.unpack (.zero .positive) = y.toModel.unpack := by
  rcases unpack_cases hy with rfl | ⟨unpacked, -⟩ | ⟨m, e, pos, unpacked, -⟩
  · rw [unpack_infinity]
    exact ⟨rfl, rfl⟩
  · rw [unpacked]
    exact ⟨rfl, rfl⟩
  · rw [unpacked]
    exact ⟨rfl, rfl⟩

/-- A sum of doubles from zero on is rounded to nearest. -/
theorem isNearest_add (hx : IsNonneg x) (hy : IsNonneg y) :
    IsNearest (value x + value y) (x + y) := by
  have x0 := hx.value_nonneg
  have y0 := hy.value_nonneg
  show IsNearest _
    (.ofModel (.pack (UnpackedFloat.add .binary64 x.toModel.unpack y.toModel.unpack)))
  rcases unpack_cases hx with rfl | ⟨ux, vx⟩ | ⟨m, e, pos, ux, -, vx⟩
  · rw [unpack_infinity, (add_infinity hy).1]
    exact isNearest_of_infinity_le (by linarith)
  · rw [ux, (add_nothing hy).1, vx, zero_add, ofModel_pack_unpack]
    exact isNearest_value hy
  · rcases unpack_cases hy with rfl | ⟨uy, vy⟩ | ⟨m', e', pos', uy, -, vy⟩
    · rw [unpack_infinity, (add_infinity hx).2]
      exact isNearest_of_infinity_le (by linarith)
    · rw [uy, (add_nothing hx).2, vy, add_zero, ofModel_pack_unpack]
      exact isNearest_value hx
    · rw [ux, uy, vx, vy]
      have sum := @isNearest_normalize ((decreaseExponent m e (min e e')).1 +
        (decreaseExponent m' e' (min e e')).1) (by positivity) (min e e')
      push_cast at sum
      rw [add_mul, decreaseExponent_value m (min_le_left e e'),
        decreaseExponent_value m' (min_le_right e e')] at sum
      exact sum

theorem isNearest_sub (hx : IsNonneg x) (hy : IsNonneg y) (finite : x.toBits.toNat ≠ infinityBits)
    (le : value y ≤ value x) : IsNearest (value x - value y) (x - y) := by
  show IsNearest _
    (.ofModel (.pack (UnpackedFloat.sub .binary64 x.toModel.unpack y.toModel.unpack)))
  rcases unpack_cases hx with rfl | ⟨ux, vx⟩ | ⟨m, e, pos, ux, -, vx⟩
  · exact absurd (toBits_signed le_rfl) finite
  · obtain rfl : x = y := eq_of_value hx hy (le_antisymm (vx ▸ hy.value_nonneg) le)
    rw [ux, sub_self]
    exact isNearest_nothing
  · rcases unpack_cases hy with rfl | ⟨uy, vy⟩ | ⟨m', e', pos', uy, -, vy⟩
    · have bits := (value_le_iff hy hx).mp le
      rw [toBits_signed le_rfl] at bits
      exact absurd (le_antisymm hx bits) finite
    · have same : UnpackedFloat.sub .binary64 x.toModel.unpack (.zero .positive) =
          x.toModel.unpack := by
        rw [ux]
        rfl
      rw [uy, same, vy, sub_zero, ofModel_pack_unpack]
      exact isNearest_value hx
    · rw [vx, vy] at le ⊢
      rw [ux, uy]
      have two : (0 : ℚ) < 2 ^ min e e' := by positivity
      rw [← decreaseExponent_value m (min_le_left e e'),
        ← decreaseExponent_value m' (min_le_right e e')] at le ⊢
      have nonneg := le_of_mul_le_mul_right le two
      have difference := @isNearest_normalize ((decreaseExponent m e (min e e')).1 -
        (decreaseExponent m' e' (min e e')).1) (sub_nonneg.mpr (by exact_mod_cast nonneg))
        (min e e')
      push_cast at difference
      rw [sub_mul] at difference
      exact difference

theorem isNearest_mul (hx : IsNonneg x) (hy : IsNonneg y) (finite : x.toBits.toNat ≠ infinityBits)
    (finite' : y.toBits.toNat ≠ infinityBits) : IsNearest (value x * value y) (x * y) := by
  show IsNearest _
    (.ofModel (.pack (UnpackedFloat.mul .binary64 x.toModel.unpack y.toModel.unpack)))
  rcases unpack_cases hx with rfl | ⟨ux, vx⟩ | ⟨m, e, pos, ux, full, vx⟩
  · exact absurd (toBits_signed le_rfl) finite
  · rcases unpack_cases hy with rfl | ⟨uy, -⟩ | ⟨m', e', pos', uy, -⟩
    · exact absurd (toBits_signed le_rfl) finite'
    · rw [ux, uy, vx, zero_mul]
      exact isNearest_nothing
    · rw [ux, uy, vx, zero_mul]
      exact isNearest_nothing
  · rcases unpack_cases hy with rfl | ⟨uy, vy⟩ | ⟨m', e', pos', uy, full', vy⟩
    · exact absurd (toBits_signed le_rfl) finite'
    · rw [ux, uy, vy, mul_zero]
      exact isNearest_nothing
    · rw [ux, uy, vx, vy]
      have nonzero := (Nat.mul_pos pos pos').ne'
      have enough : 52 ≤ (m * m').log2 ∨ e + e' ≤ -1074 := by
        rw [Nat.le_log2 nonzero]
        rcases full with full | least
        · have many := (Nat.le_log2 pos.ne').mp full
          exact .inl (many.trans (Nat.le_mul_of_pos_right _ pos'))
        · rcases full' with full' | least'
          · have many := (Nat.le_log2 pos'.ne').mp full'
            exact .inl (many.trans (Nat.le_mul_of_pos_left _ pos))
          · right
            omega
      have product := isNearest_roundWithAccuracy (Nat.mul_pos pos pos') enough
      push_cast at product
      rw [zpow_add₀ two_ne_zero, mul_mul_mul_comm] at product
      exact product

theorem IsUnsigned.sub_truncate (h : IsUnsigned x) : IsUnsigned (x - Binary64.truncate x) := by
  rcases h.read_cases with finite | special
  · obtain ⟨nonneg, le⟩ := truncate_le finite.le finite.ne
    exact (isNearest_sub finite.le nonneg finite.ne
      ((value_le_iff nonneg finite.le).mpr le)).nonneg.isUnsigned
  · have same : Binary64.truncate x = x := by
      rw [Binary64.truncate]
      rcases special with infinite | nan
      · rw [infinite]
      · rw [nan]
    rw [same]
    exact isUnsigned_sub_self x

end Floats

end Audience.Binary64
