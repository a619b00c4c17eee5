import Mathlib
import Audience.Binary64

/-! # Doubles in the order of their bits

The doubles from zero to infinity come in the order of their bits. Each is a significand times a
power of two, counted in quanta, and the next one is a significand more.
-/

namespace Audience.Binary64

/-- The quanta of the double with given bits, from zero on. Infinity stands at the power of two
behind the greatest double. -/
def quantaOfBits (bits : Nat) : Nat :=
  quantaOf (bits / hiddenBit) (bits % hiddenBit)

/-- A significand of a double: only the least exponent has small ones. -/
def IsSignificand (s m : Nat) : Prop :=
  (s = 0 ∨ hiddenBit ≤ m) ∧ m < 2 * hiddenBit

section Significands

variable {s m : Nat}

theorem exists_significand (bits : Nat) :
    ∃ s m, IsSignificand s m ∧ bits = s * hiddenBit + m := by
  have sum := Nat.div_add_mod' bits hiddenBit
  have small : bits % hiddenBit < hiddenBit := Nat.mod_lt _ (by decide)
  rcases Nat.eq_zero_or_pos (bits / hiddenBit) with zero | pos
  · refine ⟨0, bits % hiddenBit, ⟨.inl rfl, by omega⟩, ?_⟩
    rw [zero] at sum
    omega
  · refine ⟨bits / hiddenBit - 1, hiddenBit + bits % hiddenBit, ⟨.inr (by omega), by omega⟩, ?_⟩
    have field : (bits / hiddenBit - 1) * hiddenBit + hiddenBit = bits / hiddenBit * hiddenBit := by
      rw [← Nat.succ_mul, Nat.succ_eq_add_one, Nat.sub_add_cancel pos]
    omega

/-- The significand may also be the one that carries into the next exponent. -/
theorem quantaOfBits_significand (normal : s = 0 ∨ hiddenBit ≤ m) (h : m ≤ 2 * hiddenBit) :
    quantaOfBits (s * hiddenBit + m) = m * 2 ^ s := by
  have pos : 0 < hiddenBit := by decide
  have split (field fraction : Nat) (small : fraction < hiddenBit) :
      quantaOfBits (field * hiddenBit + fraction) = quantaOf field fraction := by
    rw [quantaOfBits, Nat.add_comm, Nat.add_mul_div_right _ _ pos, Nat.add_mul_mod_self_right,
      Nat.div_eq_of_lt small, Nat.mod_eq_of_lt small, Nat.zero_add]
  rcases Nat.lt_or_ge m hiddenBit with subnormal | normalized
  · obtain rfl := normal.resolve_right (by omega)
    rw [split 0 m subnormal, quantaOf, if_pos rfl, pow_zero, Nat.mul_one]
  · rcases Nat.lt_or_eq_of_le h with less | rfl
    · have bits : s * hiddenBit + m = (s + 1) * hiddenBit + (m - hiddenBit) := by
        rw [Nat.succ_mul]
        omega
      rw [bits, split _ _ (by omega), quantaOf, if_neg (Nat.succ_ne_zero s), Nat.shiftLeft_eq,
        Nat.add_sub_cancel, Nat.add_sub_cancel' normalized]
    · have bits : s * hiddenBit + 2 * hiddenBit = (s + 2) * hiddenBit + 0 := by
        rw [Nat.add_mul, Nat.add_zero]
      rw [bits, split _ _ pos, quantaOf, if_neg (Nat.succ_ne_zero _), Nat.shiftLeft_eq,
        Nat.add_zero, show s + 2 - 1 = s + 1 from rfl, pow_succ]
      ring

theorem IsSignificand.quantaOfBits_succ (h : IsSignificand s m) :
    quantaOfBits (s * hiddenBit + m + 1) = quantaOfBits (s * hiddenBit + m) + 2 ^ s := by
  rw [Nat.add_assoc, quantaOfBits_significand (h.1.imp_right Nat.le_succ_of_le) h.2,
    quantaOfBits_significand h.1 h.2.le, Nat.succ_mul]

theorem strictMono_quantaOfBits : StrictMono quantaOfBits := by
  refine strictMono_nat_of_lt_succ fun bits => ?_
  obtain ⟨s, m, significand, rfl⟩ := exists_significand bits
  rw [significand.quantaOfBits_succ]
  exact Nat.lt_add_of_pos_right (Nat.two_pow_pos s)

/-- Above a power of two all doubles are whole multiples of the step there. -/
theorem quantaOfBits_grid (bits s : Nat) :
    (∃ k, quantaOfBits bits = k * 2 ^ s) ∨ 0 < s ∧ quantaOfBits bits < hiddenBit * 2 ^ s := by
  obtain ⟨t, m, significand, rfl⟩ := exists_significand bits
  rw [quantaOfBits_significand significand.1 significand.2.le]
  rcases Nat.lt_or_ge t s with finer | coarser
  · right
    refine ⟨Nat.zero_lt_of_lt finer, ?_⟩
    calc m * 2 ^ t < 2 * hiddenBit * 2 ^ t :=
          Nat.mul_lt_mul_of_pos_right significand.2 (Nat.two_pow_pos t)
      _ = hiddenBit * 2 ^ (t + 1) := by rw [pow_succ]; ring
      _ ≤ hiddenBit * 2 ^ s := Nat.mul_le_mul_left _ (Nat.pow_le_pow_right (by decide) finer)
  · left
    refine ⟨m * 2 ^ (t - s), ?_⟩
    rw [Nat.mul_assoc, ← pow_add, Nat.sub_add_cancel coarser]

theorem quantaOfBits_infinity : quantaOfBits infinityBits = 2 ^ 1024 * 2 ^ quantaLog := by
  have bits : infinityBits = 2046 * hiddenBit + hiddenBit := rfl
  have hidden : hiddenBit = 2 ^ 52 := rfl
  rw [bits, quantaOfBits_significand (.inr le_rfl) (Nat.le_mul_of_pos_left _ (by decide)), hidden,
    quantaLog, ← pow_add, ← pow_add]

end Significands

section Floats

variable {x y : Float} {bits : Nat}

theorem eq_of_toBits (h : x.toBits.toNat = y.toBits.toNat) : x = y :=
  Float.toBits_inj.mp (UInt64.toNat_inj.mp h)

/-- The doubles from zero to infinity. -/
def IsNonneg (x : Float) : Prop :=
  x.toBits.toNat ≤ infinityBits

theorem toBits_signed (h : bits ≤ infinityBits) : (signed false bits).toBits.toNat = bits := by
  have bound : bits ≤ 9218868437227405312 := h
  have word : (UInt64.ofNat bits).toNat = bits := UInt64.toNat_ofNat_of_lt' (by
    rw [show UInt64.size = 18446744073709551616 from rfl]
    omega)
  have ordinary : @Float.Model.UnpackedFloat.isNaNBits .binary64 (UInt64.ofNat bits).toBitVec =
      false := by
    rw [Float.Model.UnpackedFloat.isNaNBits, decide_eq_false_iff_not]
    rintro ⟨field, fraction⟩
    apply fraction
    apply BitVec.eq_of_toNat_eq
    replace field := congrArg BitVec.toNat field
    rw [Float.Model.UnpackedFloat.unpackExponent_def, BitVec.extractLsb'_toNat] at field
    rw [Float.Model.UnpackedFloat.unpackMantissa_def, BitVec.extractLsb'_toNat]
    simp only [UInt64.toNat_toBitVec, word, Nat.shiftRight_eq_div_pow] at field ⊢
    norm_num at field ⊢
    omega
  have kept : (Float.ofBits (UInt64.ofNat bits)).toBits = UInt64.ofNat bits := by
    apply UInt64.toBitVec_inj.mp
    have round := @Float.Model.UnpackedFloat.pack_unpack .binary64 (UInt64.ofNat bits).toBitVec
    rw [ordinary] at round
    exact round
  rw [signed, if_neg Bool.false_ne_true, kept, word]

theorem isNonneg_signed (h : bits ≤ infinityBits) : IsNonneg (signed false bits) := by
  rw [IsNonneg, toBits_signed h]
  exact h

theorem IsNonneg.read_eq (h : IsNonneg x) :
    read x = if x.toBits.toNat = infinityBits then .infinite false
      else .finite false (quantaOfBits x.toBits.toNat) := by
  have bound : x.toBits.toNat ≤ infinityBits := h
  have negative : decide (signBit ≤ x.toBits.toNat) = false := by
    rw [decide_eq_false_iff_not]
    unfold infinityBits hiddenBit at bound
    unfold signBit
    omega
  split
  next greatest => simp only [read, greatest]; rfl
  next other =>
    have field : x.toBits.toNat / hiddenBit % 2048 = x.toBits.toNat / hiddenBit ∧
        x.toBits.toNat / hiddenBit ≠ 2047 := by
      unfold infinityBits hiddenBit at *
      omega
    simp only [read, negative, field.1, if_neg field.2, quantaOfBits]

/-- The number that a double stands for, where infinity is the power of two behind the greatest
double. -/
def value (x : Float) : ℚ :=
  ((rank? x).getD 0 : Int) / 2 ^ quantaLog

theorem IsNonneg.value_eq (h : IsNonneg x) :
    value x = (quantaOfBits x.toBits.toNat : ℚ) / 2 ^ quantaLog := by
  rw [value, rank?, h.read_eq]
  by_cases greatest : x.toBits.toNat = infinityBits
  · rw [if_pos greatest, greatest]
    rfl
  · rw [if_neg greatest]
    rfl

theorem IsNonneg.isFinite_iff (h : IsNonneg x) :
    isFinite x = true ↔ x.toBits.toNat ≠ infinityBits := by
  rw [isFinite, h.read_eq]
  by_cases greatest : x.toBits.toNat = infinityBits <;> simp [greatest]

theorem value_le_iff (hx : IsNonneg x) (hy : IsNonneg y) :
    value x ≤ value y ↔ x.toBits.toNat ≤ y.toBits.toNat := by
  rw [hx.value_eq, hy.value_eq, div_le_div_iff_of_pos_right (by positivity), Nat.cast_le,
    strictMono_quantaOfBits.le_iff_le]

theorem eq_of_value (hx : IsNonneg x) (hy : IsNonneg y) (h : value x = value y) : x = y :=
  eq_of_toBits (le_antisymm ((value_le_iff hx hy).mp h.le) ((value_le_iff hy hx).mp h.ge))

end Floats

end Audience.Binary64
