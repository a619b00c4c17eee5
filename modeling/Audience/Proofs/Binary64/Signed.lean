import Mathlib
import Audience.Proofs.Binary64.Whole

/-! # Doubles of either sign

The opposite of a double differs from it in one bit, and stands for the opposite number. So what
holds of doubles from zero on carries over to all but NaN: each is the rounding of the number it
stands for, rounding keeps the order of numbers, and doubles compare as the numbers do.
-/

namespace Audience.Binary64

open Float.Model Float.Model.UnpackedFloat

section Opposites

theorem toNat_packComponents_negative (exponent : BitVec 11) (mantissa : BitVec 52) :
    (packComponents .binary64 .negative exponent mantissa).toNat =
      (packComponents .binary64 .positive exponent mantissa).toNat + signBit := by
  have bits : (packComponents .binary64 .negative exponent mantissa).toNat =
      (1 <<< 11 ||| exponent.toNat) <<< 52 ||| mantissa.toNat := rfl
  have lead : 1 <<< 11 ||| exponent.toNat = 2 ^ 11 + exponent.toNat :=
    (Nat.two_pow_add_eq_or_of_lt exponent.isLt 1).symm
  rw [toNat_packComponents, bits, lead, ← Nat.shiftLeft_add_eq_or_of_lt mantissa.isLt,
    Nat.shiftLeft_eq]
  unfold hiddenBit signBit
  omega

variable {x y : Float}

theorem toNat_pack_neg {u : UnpackedFloat} (unsigned : Unsigned u) (number : u ≠ .notANumber) :
    (UnpackedFloat.pack .binary64 u.neg).toNat =
      (UnpackedFloat.pack .binary64 u).toNat + signBit := by
  cases u with
  | notANumber => exact absurd rfl number
  | infinity s =>
    obtain rfl : s = .positive := unsigned
    exact toNat_packComponents_negative _ _
  | zero s =>
    obtain rfl : s = .positive := unsigned
    exact toNat_packComponents_negative _ _
  | finite s m e pos =>
    obtain rfl : s = .positive := unsigned
    simp only [UnpackedFloat.pack, UnpackedFloat.neg]
    split
    · exact toNat_packComponents_negative _ _
    · split <;> exact toNat_packComponents_negative _ _

theorem IsNonneg.unpack_ne_nan (h : IsNonneg x) : x.toModel.unpack ≠ .notANumber := by
  rcases unpack_cases h with rfl | ⟨unpacked, -⟩ | ⟨m, e, pos, unpacked, -⟩
  · rw [unpack_infinity]
    exact nofun
  · rw [unpacked]
    exact nofun
  · rw [unpacked]
    exact nofun

theorem IsNonneg.toBits_neg (h : IsNonneg x) : (-x).toBits.toNat = x.toBits.toNat + signBit := by
  have opposite := toNat_pack_neg (unsigned_unpack h.isUnsigned) h.unpack_ne_nan
  have same := congrArg (·.toBits.toNat) (ofModel_pack_unpack x)
  exact opposite.trans (congrArg (· + signBit) same)

theorem IsNonneg.unpack_neg (h : IsNonneg x) : (-x).toModel.unpack = x.toModel.unpack.neg := by
  have unsigned := unpackSign_of_isUnsigned h.isUnsigned
  have bits : (-x).toModel.toBits.toBitVec = packComponents .binary64 .negative
      (@unpackExponent .binary64 x.toModel.toBits.toBitVec)
      (@unpackMantissa .binary64 x.toModel.toBits.toBitVec) := by
    apply BitVec.eq_of_toNat_eq
    have whole := @packComponents_unpackSign_unpackExponent_unpackMantissa .binary64
      x.toModel.toBits.toBitVec
    rw [unsigned] at whole
    refine h.toBits_neg.trans (Eq.trans ?_ (toNat_packComponents_negative _ _).symm)
    exact congrArg (·.toNat + signBit) whole.symm
  rw [Float.Model.unpack, bits]
  simp only [Float.Model.unpack, UnpackedFloat.unpack, unsigned, unpackSign_packComponents,
    unpackExponent_packComponents, unpackMantissa_packComponents]
  split
  · split <;> rfl
  · split
    · split <;> rfl
    · rfl

theorem IsNonneg.read_neg (h : IsNonneg x) :
    read (-x) = if x.toBits.toNat = infinityBits then .infinite true
      else .finite true (quantaOfBits x.toBits.toNat) := by
  have bound : x.toBits.toNat ≤ infinityBits := h
  have negative : decide (signBit ≤ (-x).toBits.toNat) = true := by
    rw [decide_eq_true_iff, h.toBits_neg]
    exact Nat.le_add_left _ _
  have field : (-x).toBits.toNat / hiddenBit % 2048 = x.toBits.toNat / hiddenBit ∧
      (-x).toBits.toNat % hiddenBit = x.toBits.toNat % hiddenBit := by
    rw [h.toBits_neg]
    unfold infinityBits signBit hiddenBit at *
    omega
  simp only [read, negative, field.1, field.2]
  by_cases greatest : x.toBits.toNat = infinityBits
  · rw [greatest]
    rfl
  · have finite : x.toBits.toNat / hiddenBit ≠ 2047 := by
      unfold infinityBits hiddenBit at *
      omega
    rw [if_neg finite, if_neg greatest, quantaOfBits]

theorem IsNonneg.rank?_eq (h : IsNonneg x) :
    rank? x = some (quantaOfBits x.toBits.toNat : Int) := by
  rw [rank?, h.read_eq]
  by_cases infinite : x.toBits.toNat = infinityBits
  · rw [if_pos infinite, infinite]
    rfl
  · rw [if_neg infinite]
    rfl

theorem IsNonneg.rank?_neg (h : IsNonneg x) :
    rank? (-x) = some (-(quantaOfBits x.toBits.toNat : Int)) := by
  rw [rank?, h.read_neg]
  by_cases infinite : x.toBits.toNat = infinityBits
  · rw [if_pos infinite, infinite]
    rfl
  · rw [if_neg infinite]
    rfl

theorem IsNonneg.value_neg (h : IsNonneg x) : value (-x) = -value x := by
  rw [value, value, h.rank?_eq, h.rank?_neg, ← neg_div]
  simp

theorem exists_nonneg (h : read x ≠ .nan) : ∃ y, IsNonneg y ∧ (x = y ∨ x = -y) := by
  have word : x.toBits.toNat < 2 * signBit := x.toBits.toNat_lt
  have bound : x.toBits.toNat % signBit ≤ infinityBits := by
    by_contra! more
    have special : x.toBits.toNat / hiddenBit % 2048 = 2047 ∧ x.toBits.toNat % hiddenBit ≠ 0 := by
      unfold infinityBits signBit hiddenBit at *
      omega
    apply h
    simp only [read, special.1, if_pos, if_neg special.2]
  rcases Nat.lt_or_ge x.toBits.toNat signBit with unsigned | negative
  · rw [Nat.mod_eq_of_lt unsigned] at bound
    exact ⟨x, bound, .inl rfl⟩
  · refine ⟨signed false (x.toBits.toNat % signBit), isNonneg_signed bound, .inr (eq_of_toBits ?_)⟩
    rw [(isNonneg_signed bound).toBits_neg, toBits_signed bound, Nat.mod_eq_sub_mod negative,
      Nat.mod_eq_of_lt (by omega), Nat.sub_add_cancel negative]

theorem signed_true {bits : Nat} (h : bits ≤ infinityBits) :
    signed true bits = -signed false bits := by
  have word : (-signed false bits).toBits = UInt64.ofNat (bits + signBit) := by
    rw [← UInt64.ofNat_toNat (x := (-signed false bits).toBits), (isNonneg_signed h).toBits_neg,
      toBits_signed h]
  rw [signed, if_pos rfl, ← word, Float.ofBits_toBits]

end Opposites

/-- The double that a number on either side of zero is rounded to: the one for its distance from
zero, or the opposite. -/
inductive IsRounded : ℚ → Float → Prop where
  | above {q x} (nonneg : 0 ≤ q) (h : IsNearest q x) : IsRounded q x
  | below {q x} (nonneg : 0 ≤ q) (h : IsNearest q x) : IsRounded (-q) (-x)

section Rounded

variable {p q : ℚ} {x y : Float}

theorem IsNearest.value_zero (h : IsNearest 0 x) : value x = 0 := by
  rw [h.unique (isNearest_zero le_rfl (by norm_num)), Binary64.value_zero]

/-- A greater number is rounded to no smaller double, on either side of zero. -/
theorem IsRounded.value_le (hx : IsRounded p x) (hy : IsRounded q y) (h : p ≤ q) :
    value x ≤ value y := by
  cases hx with
  | above nonneg hx =>
    cases hy with
    | above _ hy => exact hx.value_le hy h
    | @below q y nonneg' hy =>
      -- Both are zero.
      obtain rfl : p = 0 := by linarith
      obtain rfl : q = 0 := by linarith
      rw [hy.nonneg.value_neg, hx.value_zero, hy.value_zero, neg_zero]
  | @below p x nonneg hx =>
    rw [hx.nonneg.value_neg]
    cases hy with
    | above _ hy => linarith [hx.nonneg.value_nonneg, hy.nonneg.value_nonneg]
    | @below q y nonneg' hy =>
      rw [hy.nonneg.value_neg, neg_le_neg_iff]
      exact hy.value_le hx (neg_le_neg_iff.mp h)

theorem IsRounded.ne_nan (h : IsRounded q x) : read x ≠ .nan := by
  cases h with
  | above _ h =>
    rw [h.nonneg.read_eq]
    split <;> exact nofun
  | below _ h =>
    rw [h.nonneg.read_neg]
    split <;> exact nofun

theorem isRounded_value (h : read x ≠ .nan) : IsRounded (value x) x := by
  obtain ⟨y, nonneg, rfl | rfl⟩ := exists_nonneg h
  · exact .above nonneg.value_nonneg (isNearest_value nonneg)
  · rw [nonneg.value_neg]
    exact .below nonneg.value_nonneg (isNearest_value nonneg)

theorem exists_ofInt (i : Int) :
    ∃ n : ℕ, i = n ∧ ofInt i = ofNat n ∨ i = -n ∧ ofInt i = -ofNat n := by
  refine ⟨i.natAbs, ?_⟩
  rcases lt_trichotomy i 0 with negative | rfl | positive
  · right
    rw [ofInt, if_neg negative.ne, decide_eq_true negative, signed_true (bitsOfRatio_le _ _)]
    exact ⟨by omega, rfl⟩
  · left
    exact ⟨rfl, by decide⟩
  · left
    rw [ofInt, if_neg positive.ne', decide_eq_false positive.not_gt]
    exact ⟨by omega, rfl⟩

theorem isRounded_ofInt (i : Int) : IsRounded i (ofInt i) := by
  obtain ⟨n, ⟨rfl, double⟩ | ⟨rfl, double⟩⟩ := exists_ofInt i
  · rw [double, Int.cast_natCast]
    exact .above n.cast_nonneg (isNearest_ofNat n)
  · rw [double, Int.cast_neg, Int.cast_natCast]
    exact .below n.cast_nonneg (isNearest_ofNat n)

theorem value_ofInt {i : Int} (small : i.natAbs ≤ 2 ^ 53) : value (ofInt i) = i := by
  obtain ⟨n, ⟨rfl, double⟩ | ⟨rfl, double⟩⟩ := exists_ofInt i
  · rw [Int.natAbs_natCast] at small
    rw [double, value_ofNat small, Int.cast_natCast]
  · rw [Int.natAbs_neg, Int.natAbs_natCast] at small
    rw [double, (isNearest_ofNat n).nonneg.value_neg, value_ofNat small, Int.cast_neg,
      Int.cast_natCast]

theorem exists_rank (h : read x ≠ .nan) :
    ∃ r : Int, rank? x = some r ∧ value x = r / 2 ^ quantaLog := by
  obtain ⟨y, nonneg, rfl | rfl⟩ := exists_nonneg h
  · exact ⟨_, nonneg.rank?_eq, nonneg.value_eq.trans (by rw [Int.cast_natCast])⟩
  · refine ⟨_, nonneg.rank?_neg, ?_⟩
    rw [nonneg.value_neg, nonneg.value_eq, Int.cast_neg, Int.cast_natCast, neg_div]

/-- Doubles compare as the numbers they stand for. -/
theorem compare?_eq (hx : read x ≠ .nan) (hy : read y ≠ .nan) :
    compare? x y = some (compare (value x) (value y)) := by
  obtain ⟨r, rank, value⟩ := exists_rank hx
  obtain ⟨s, rank', value'⟩ := exists_rank hy
  have mono : StrictMono fun r : Int => (r : ℚ) / 2 ^ quantaLog := fun a b less =>
    div_lt_div_of_pos_right (Int.cast_lt.mpr less) (by positivity)
  have order := mono.cmp_map_eq r s
  rw [cmp_eq_compare, cmp_eq_compare] at order
  rw [compare?, rank, rank', value, value', order]
  rfl

end Rounded

end Audience.Binary64
