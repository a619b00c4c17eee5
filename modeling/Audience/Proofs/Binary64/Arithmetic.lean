import Mathlib
import Audience.Proofs.Binary64.Nearest

/-! # Doubles without a minus sign

The doubles from zero to infinity, and what is no number, are closed under sums, products and
rounding to whole numbers.
-/

namespace Audience.Binary64

open Float.Model Float.Model.UnpackedFloat

/-- The doubles from zero to infinity, and NaN. -/
def IsUnsigned (x : Float) : Prop :=
  x.toBits.toNat < signBit

def Unsigned : UnpackedFloat → Prop
  | .notANumber => True
  | .infinity s | .zero s | .finite s _ _ _ => s = .positive

section Unpacked

variable {u v : UnpackedFloat} {x : Float}

theorem unpackSign_eq_zero_iff (b : BitVec Format.binary64.numBits) :
    unpackSign b = 0#1 ↔ b.toNat < signBit := by
  rw [← BitVec.toNat_inj, unpackSign_def, BitVec.extractLsb'_toNat]
  have bound := b.isLt
  simp only [signBit, Nat.shiftRight_eq_div_pow] at *
  norm_num at bound ⊢
  omega

theorem unpackSign_of_isUnsigned (h : IsUnsigned x) :
    @unpackSign .binary64 x.toModel.toBits.toBitVec = 0#1 :=
  (unpackSign_eq_zero_iff _).mpr h

theorem unsigned_unpack (h : IsUnsigned x) : Unsigned x.toModel.unpack := by
  simp only [Float.Model.unpack, UnpackedFloat.unpack, unpackSign_of_isUnsigned h]
  split
  · split
    · rfl
    · trivial
  · split
    · split
      · rfl
      · rfl
    · rfl

theorem isUnsigned_pack (h : Unsigned u) : IsUnsigned (.ofModel (.pack u)) := by
  have packed : unpackSign (UnpackedFloat.pack .binary64 u) = 0#1 := by
    cases u with
    | notANumber => decide
    | infinity s =>
      obtain rfl : s = .positive := h
      decide
    | zero s =>
      obtain rfl : s = .positive := h
      decide
    | finite s m e pos =>
      obtain rfl : s = .positive := h
      simp only [UnpackedFloat.pack]
      split
      · decide
      · split <;> rw [unpackSign_packComponents] <;> rfl
  exact (unpackSign_eq_zero_iff _).mp packed

theorem unsigned_roundWithAccuracy (m : Nat) (e : Int) (accuracy : Accuracy) :
    Unsigned (roundWithAccuracy .binary64 .positive m e accuracy) := by
  simp only [roundWithAccuracy]
  split <;> rfl

theorem unsigned_normalize {m : Int} (h : 0 ≤ m) (e : Int) :
    Unsigned (normalize .binary64 m e .positive) := by
  simp only [UnpackedFloat.normalize]
  split
  next less => exact absurd (Int.compare_eq_lt.mp less) (Int.not_lt.mpr h)
  next => rfl
  next => exact unsigned_roundWithAccuracy _ _ _

theorem unsigned_add (hu : Unsigned u) (hv : Unsigned v) :
    Unsigned (UnpackedFloat.add .binary64 u v) := by
  cases u <;> cases v <;> simp only [Unsigned] at hu hv <;> subst_vars <;>
    simp only [UnpackedFloat.add]
  case finite.finite =>
    apply unsigned_normalize
    exact Int.add_nonneg (Int.natCast_nonneg _) (Int.natCast_nonneg _)
  all_goals trivial

theorem unsigned_mul (hu : Unsigned u) (hv : Unsigned v) :
    Unsigned (UnpackedFloat.mul .binary64 u v) := by
  cases u <;> cases v <;> simp only [Unsigned] at hu hv <;> subst_vars <;>
    simp only [UnpackedFloat.mul]
  case finite.finite => exact unsigned_roundWithAccuracy _ _ _
  all_goals trivial

theorem unsigned_sub_self (u : UnpackedFloat) : Unsigned (UnpackedFloat.sub .binary64 u u) := by
  cases u with
  | notANumber => trivial
  | infinity s => cases s <;> trivial
  | zero s => cases s <;> trivial
  | finite s m e pos =>
    simp only [UnpackedFloat.sub, Int.sub_self]
    exact unsigned_normalize le_rfl _

theorem IsNonneg.isUnsigned (h : IsNonneg x) : IsUnsigned x :=
  Nat.lt_of_le_of_lt h (by decide)

theorem toNat_unpackExponent (h : IsNonneg x) :
    (@unpackExponent .binary64 x.toModel.toBits.toBitVec).toNat = x.toBits.toNat / hiddenBit := by
  have bits : x.toModel.toBits.toBitVec.toNat = x.toBits.toNat := rfl
  have bound : x.toBits.toNat ≤ infinityBits := h
  rw [unpackExponent_def, BitVec.extractLsb'_toNat, bits, Nat.shiftRight_eq_div_pow]
  unfold infinityBits hiddenBit at *
  norm_num
  omega

theorem toNat_unpackMantissa (x : Float) :
    (@unpackMantissa .binary64 x.toModel.toBits.toBitVec).toNat = x.toBits.toNat % hiddenBit := by
  have bits : x.toModel.toBits.toBitVec.toNat = x.toBits.toNat := rfl
  rw [unpackMantissa_def, BitVec.extractLsb'_toNat, bits]
  rfl

theorem toNat_append_one (m : BitVec 52) : (1#1 ++ m).toNat = hiddenBit + m.toNat := by
  rw [BitVec.toNat_append]
  exact (Nat.two_pow_add_eq_or_of_lt m.isLt 1).symm

theorem unpack_of_isNonneg (h : IsNonneg x) (finite : x.toBits.toNat ≠ infinityBits) :
    (x.toModel.unpack = .zero .positive ∧ quantaOfBits x.toBits.toNat = 0) ∨
      ∃ m e pos, x.toModel.unpack = .finite .positive m e pos ∧ -1074 ≤ e ∧
        (hiddenBit ≤ m ∨ e = -1074) ∧
        quantaOfBits x.toBits.toNat = m * 2 ^ (e + 1074).toNat := by
  have field := toNat_unpackExponent h
  simp only [Float.Model.unpack, UnpackedFloat.unpack, unpackSign_of_isUnsigned h.isUnsigned,
    quantaOfBits, ← field, ← toNat_unpackMantissa]
  have bias : (Format.exponentBias .binary64 : Int) = 1023 := by decide
  split
  next top =>
    -- The greatest exponent belongs to infinity and to what is no number.
    exfalso
    rw [top] at field
    replace field : 2047 = x.toBits.toNat / hiddenBit := field
    have bound : x.toBits.toNat ≤ infinityBits := h
    unfold infinityBits hiddenBit at *
    omega
  next =>
    split
    next least =>
      rw [least]
      split
      next none =>
        rw [none]
        exact .inl ⟨rfl, rfl⟩
      next some =>
        have pos : 0 < (@unpackMantissa .binary64 x.toModel.toBits.toBitVec).toNat :=
          Nat.pos_of_ne_zero fun zero => some (BitVec.eq_of_toNat_eq zero)
        refine .inr ⟨_, _, pos, rfl, ?_, .inr ?_, ?_⟩
        · rw [bias]
          decide
        · rw [bias]
          decide
        · rw [bias]
          exact (Nat.mul_one _).symm
    next normal =>
      have pos : (@unpackExponent .binary64 x.toModel.toBits.toBitVec).toNat ≠ 0 := fun zero =>
        normal (BitVec.eq_of_toNat_eq zero)
      have lead := toNat_append_one (@unpackMantissa .binary64 x.toModel.toBits.toBitVec)
      refine .inr ⟨_, _, lead ▸ Nat.add_pos_left (by decide) _, rfl, ?_, .inl ?_, ?_⟩
      · rw [bias]
        omega
      · rw [lead]
        exact Nat.le_add_right _ _
      · have exponent (f : Nat) (pos : f ≠ 0) : ((f : Int) - (1023 + 52) + 1074).toNat = f - 1 := by
          omega
        rw [quantaOf, if_neg pos, Nat.shiftLeft_eq, lead, bias]
        congr 2
        exact (exponent _ pos).symm

end Unpacked

section Floats

variable {x y : Float}

theorem IsUnsigned.add (hx : IsUnsigned x) (hy : IsUnsigned y) : IsUnsigned (x + y) :=
  isUnsigned_pack (unsigned_add (unsigned_unpack hx) (unsigned_unpack hy))

theorem IsUnsigned.mul (hx : IsUnsigned x) (hy : IsUnsigned y) : IsUnsigned (x * y) :=
  isUnsigned_pack (unsigned_mul (unsigned_unpack hx) (unsigned_unpack hy))

theorem isUnsigned_sub_self (x : Float) : IsUnsigned (x - x) :=
  isUnsigned_pack (unsigned_sub_self x.toModel.unpack)

theorem IsUnsigned.read_cases (h : IsUnsigned x) :
    x.toBits.toNat < infinityBits ∨ read x = .infinite false ∨ read x = .nan := by
  have bound : x.toBits.toNat < signBit := h
  rcases Nat.lt_or_ge x.toBits.toNat infinityBits with finite | special
  · exact .inl finite
  · right
    have negative : decide (signBit ≤ x.toBits.toNat) = false := by
      rw [decide_eq_false_iff_not]
      omega
    have field : x.toBits.toNat / hiddenBit % 2048 = 2047 := by
      unfold infinityBits signBit hiddenBit at *
      omega
    by_cases fraction : x.toBits.toNat % hiddenBit = 0
    · left
      simp only [read, field, negative, fraction, if_pos]
    · right
      simp only [read, field, if_neg fraction, if_pos]

theorem toInt_ofIntClamp_eq (i : Int) :
    (Int64.ofIntClamp i).toInt = max Int64.minValue.toInt (min Int64.maxValue.toInt i) := by
  have order : Int64.minValue.toInt ≤ Int64.maxValue.toInt := by decide
  rw [Int64.ofIntClamp]
  split
  · split
    · rw [Int64.toInt_ofIntLE]
      omega
    · omega
  · omega

theorem ofIntClamp_nonneg {i : Int} (h : 0 ≤ i) : 0 ≤ (Int64.ofIntClamp i).toInt := by
  have high : 0 ≤ Int64.maxValue.toInt := by decide
  rw [toInt_ofIntClamp_eq]
  omega

theorem IsUnsigned.toInt64_nonneg (h : IsUnsigned x) : 0 ≤ (toInt64 x).toInt := by
  rw [toInt64]
  rcases h.read_cases with finite | infinite | nan
  · have nonneg : IsNonneg x := finite.le
    rw [nonneg.read_eq, if_neg finite.ne]
    exact ofIntClamp_nonneg (Int.natCast_nonneg _)
  · rw [infinite]
    decide
  · rw [nan]
    decide

theorem IsUnsigned.rounded (h : IsUnsigned x) (whole : Nat → Nat) :
    IsUnsigned (match read x with
      | .finite negative n => signed negative (bitsOfRatio (whole n) 1)
      | _ => x) := by
  rcases h.read_cases with finite | infinite | nan
  · have nonneg : IsNonneg x := finite.le
    rw [nonneg.read_eq, if_neg finite.ne]
    exact (isNonneg_signed (bitsOfRatio_le _ _)).isUnsigned
  · rw [infinite]
    exact h
  · rw [nan]
    exact h

theorem IsUnsigned.truncate (h : IsUnsigned x) : IsUnsigned (truncate x) :=
  h.rounded _

theorem IsUnsigned.roundAway (h : IsUnsigned x) : IsUnsigned (roundAway x) :=
  h.rounded _

theorem truncate_le (h : IsNonneg x) (finite : x.toBits.toNat ≠ infinityBits) :
    IsNonneg (truncate x) ∧ (truncate x).toBits.toNat ≤ x.toBits.toNat := by
  have whole : truncate x = ofNat (quantaOfBits x.toBits.toNat >>> quantaLog) := by
    rw [truncate, h.read_eq, if_neg finite]
    rfl
  have nearest := isNearest_ofNat (quantaOfBits x.toBits.toNat >>> quantaLog)
  rw [← whole] at nearest
  refine ⟨nearest.nonneg, (value_le_iff nearest.nonneg h).mp ?_⟩
  apply nearest.value_le (isNearest_value h)
  rw [h.value_eq, Nat.shiftRight_eq_div_pow]
  exact Nat.cast_div_le.trans (by rw [Nat.cast_pow, Nat.cast_ofNat])

end Floats

end Audience.Binary64
