import Mathlib
import Audience.Proofs.Binary64.Signed

/-! # The order of doubles

Doubles are compared by their signs, exponents and significands, and that is the order of the
numbers they stand for. What is no number stands in no order.
-/

namespace Audience.Binary64

open Float.Model Float.Model.UnpackedFloat

section Unpacked

variable {u v : UnpackedFloat} {x : Float} {a b s t m n : Nat}

theorem unpack_mantissa_lt {b : BitVec 64} {sign : Sign} {e : Int} {pos : 0 < m}
    (h : UnpackedFloat.unpack .binary64 b = .finite sign m e pos) : m < 2 * hiddenBit := by
  have short := (@unpackMantissa .binary64 b).isLt
  have lead := toNat_append_one (@unpackMantissa .binary64 b)
  replace short : (@unpackMantissa .binary64 b).toNat < hiddenBit := short
  simp only [UnpackedFloat.unpack] at h
  split at h
  · split at h <;> cases h
  · split at h
    · split at h
      · cases h
      · cases h
        omega
    · cases h
      omega

inductive Unpacks : Nat → UnpackedFloat → Prop where
  | infinity : Unpacks infinityBits (.infinity .positive)
  | zero : Unpacks 0 (.zero .positive)
  | finite {s m : Nat} (significand : IsSignificand s m) (pos : 0 < m)
      (bound : s * hiddenBit + m < infinityBits) :
      Unpacks (s * hiddenBit + m) (.finite .positive m (s - 1074) pos)

theorem IsNonneg.unpacks (h : IsNonneg x) : Unpacks x.toBits.toNat x.toModel.unpack := by
  rcases Nat.lt_or_eq_of_le h with finite | infinite
  · rcases unpack_of_isNonneg h finite.ne with ⟨unpacked, quanta⟩ | ⟨m, e, pos, unpacked, low, full,
      quanta⟩
    · have bits : x.toBits.toNat = 0 := strictMono_quantaOfBits.injective quanta
      rw [unpacked, bits]
      exact .zero
    · obtain ⟨s, rfl⟩ : ∃ s : ℕ, e = s - 1074 := ⟨(e + 1074).toNat, by omega⟩
      have significand : IsSignificand s m := ⟨by omega, unpack_mantissa_lt unpacked⟩
      have bits : x.toBits.toNat = s * hiddenBit + m := by
        apply strictMono_quantaOfBits.injective
        rw [quanta, quantaOfBits_significand significand.1 significand.2.le, Int.sub_add_cancel,
          Int.toNat_natCast]
      rw [unpacked, bits]
      exact .finite significand pos (bits ▸ finite)
  · obtain rfl : x = signed false infinityBits :=
      eq_of_toBits (infinite.trans (toBits_signed le_rfl).symm)
    rw [unpack_infinity, infinite]
    exact .infinity

theorem compare_significands (hs : IsSignificand s m) (ht : IsSignificand t n) :
    (compare ((s : Int) - 1074) (t - 1074)).then (compare m n) =
      compare (s * hiddenBit + m) (t * hiddenBit + n) := by
  obtain ⟨full, short⟩ := hs
  obtain ⟨full', short'⟩ := ht
  rcases Nat.lt_trichotomy s t with less | rfl | more
  · have order : s * hiddenBit + m < t * hiddenBit + n := by
      unfold hiddenBit at *
      omega
    rw [Int.compare_eq_lt.mpr (by omega), Nat.compare_eq_lt.mpr order]
    rfl
  · have order : StrictMono (s * hiddenBit + ·) := fun _ _ less => Nat.add_lt_add_left less _
    rw [Int.compare_eq_eq.mpr rfl, Ordering.eq_then, ← cmp_eq_compare, ← cmp_eq_compare,
      order.cmp_map_eq]
  · have order : t * hiddenBit + n < s * hiddenBit + m := by
      unfold hiddenBit at *
      omega
    rw [Int.compare_eq_gt.mpr (by omega), Nat.compare_eq_gt.mpr order]
    rfl

theorem Unpacks.compare (hu : Unpacks a u) (hv : Unpacks b v) :
    UnpackedFloat.compare u v = some (Ord.compare a b) := by
  cases hu with
  | infinity =>
    cases hv with
    | infinity => rfl
    | zero => rfl
    | finite _ _ bound => rw [Nat.compare_eq_gt.mpr bound]; rfl
  | zero =>
    cases hv with
    | infinity => rfl
    | zero => rfl
    | finite _ pos _ => rw [Nat.compare_eq_lt.mpr (Nat.add_pos_right _ pos)]; rfl
  | finite significand pos bound =>
    cases hv with
    | infinity => rw [Nat.compare_eq_lt.mpr bound]; rfl
    | zero => rw [Nat.compare_eq_gt.mpr (Nat.add_pos_right _ pos)]; rfl
    | finite significand' => rw [← compare_significands significand significand']; rfl

theorem compare_neg_neg (u v : UnpackedFloat) :
    UnpackedFloat.compare u.neg v.neg = UnpackedFloat.compare v u := by
  have exponents (e e' : Int) (m m' : Nat) : (Ord.compare e e').then (Ord.compare m m') =
      ((Ord.compare e' e).then (Ord.compare m' m)).swap := by
    rw [Ordering.swap_then, Std.OrientedOrd.eq_swap (a := e), Std.OrientedOrd.eq_swap (a := m)]
  cases u with
  | notANumber => cases v <;> rfl
  | infinity s => cases v with
    | infinity t => cases s <;> cases t <;> rfl
    | notANumber => rfl
    | _ => cases s <;> rfl
  | zero s => cases v with
    | notANumber => rfl
    | zero t => rfl
    | infinity t => cases t <;> rfl
    | finite t n f pos => cases t <;> rfl
  | finite s m e pos => cases v with
    | notANumber => rfl
    | zero t => cases s <;> rfl
    | infinity t => cases t <;> cases s <;> rfl
    | finite t n f pos' =>
      cases s <;> cases t
      · exact congrArg some (exponents e f m n)
      · rfl
      · rfl
      · exact congrArg some (exponents f e n m).symm

theorem Unpacks.compare_neg (hu : Unpacks a u) (hv : Unpacks b v) :
    0 < a + b ∧ UnpackedFloat.compare u.neg v = some .lt ∧
        UnpackedFloat.compare v u.neg = some .gt ∨
      a = 0 ∧ b = 0 ∧ UnpackedFloat.compare u.neg v = some .eq ∧
        UnpackedFloat.compare v u.neg = some .eq := by
  have top : 0 < infinityBits := by decide
  cases hu <;> cases hv
  case zero.zero => exact .inr ⟨rfl, rfl, rfl, rfl⟩
  all_goals exact .inl ⟨by omega, rfl, rfl⟩

end Unpacked

section Order

variable {x y z : Float}

theorem value_lt_iff (hx : IsNonneg x) (hy : IsNonneg y) :
    value x < value y ↔ x.toBits.toNat < y.toBits.toNat :=
  lt_iff_lt_of_le_iff_le (value_le_iff hy hx)

theorem IsNonneg.compare_value (hx : IsNonneg x) (hy : IsNonneg y) :
    compare x.toBits.toNat y.toBits.toNat = compare (value x) (value y) := by
  rcases lt_trichotomy x.toBits.toNat y.toBits.toNat with less | same | more
  · rw [compare_lt_iff_lt.mpr less, compare_lt_iff_lt.mpr ((value_lt_iff hx hy).mpr less)]
  · rw [eq_of_toBits same, compare_eq_iff_eq.mpr rfl, compare_eq_iff_eq.mpr rfl]
  · rw [compare_gt_iff_gt.mpr more, compare_gt_iff_gt.mpr ((value_lt_iff hy hx).mpr more)]

theorem IsNonneg.value_pos (h : IsNonneg x) (pos : 0 < x.toBits.toNat) : 0 < value x :=
  value_zero ▸ (value_lt_iff isNonneg_zero h).mpr pos

theorem IsNonneg.compare_neg (hx : IsNonneg x) (hy : IsNonneg y) :
    UnpackedFloat.compare (-x).toModel.unpack y.toModel.unpack =
        some (compare (-value x) (value y)) ∧
      UnpackedFloat.compare y.toModel.unpack (-x).toModel.unpack =
        some (compare (value y) (-value x)) := by
  rw [hx.unpack_neg]
  rcases hx.unpacks.compare_neg hy.unpacks with ⟨some, less, more⟩ | ⟨none, none', same, same'⟩
  · have apart : -value x < value y := by
      have x0 := hx.value_nonneg
      have y0 := hy.value_nonneg
      rcases Nat.eq_zero_or_pos x.toBits.toNat with zero | pos
      · linarith [hy.value_pos (by omega)]
      · linarith [hx.value_pos pos]
    rw [less, more, compare_lt_iff_lt.mpr apart, compare_gt_iff_gt.mpr apart]
    exact ⟨rfl, rfl⟩
  · have zero {z : Float} (bits : z.toBits.toNat = 0) : z = 0 := eq_of_toBits bits
    rw [same, same', zero none, zero none', value_zero, neg_zero, compare_eq_iff_eq.mpr rfl]
    exact ⟨rfl, rfl⟩

/-- Doubles are compared by the numbers they stand for. -/
theorem compare_unpack (hx : read x ≠ .nan) (hy : read y ≠ .nan) :
    UnpackedFloat.compare x.toModel.unpack y.toModel.unpack =
      some (compare (value x) (value y)) := by
  obtain ⟨a, ha, rfl | rfl⟩ := exists_nonneg hx <;> obtain ⟨b, hb, rfl | rfl⟩ := exists_nonneg hy
  · rw [ha.unpacks.compare hb.unpacks, ha.compare_value hb]
  · rw [hb.value_neg]
    exact (hb.compare_neg ha).2
  · rw [ha.value_neg]
    exact (ha.compare_neg hb).1
  · have opposite : StrictAnti fun q : ℚ => -q := fun _ _ => neg_lt_neg
    rw [ha.unpack_neg, hb.unpack_neg, compare_neg_neg, hb.unpacks.compare ha.unpacks, ha.value_neg,
      hb.value_neg, hb.compare_value ha, ← cmp_eq_compare, ← cmp_eq_compare,
      opposite.cmp_map_eq]

theorem unpack_of_nan (h : read x = .nan) : x.toModel.unpack = .notANumber := by
  have field : (@unpackExponent .binary64 x.toModel.toBits.toBitVec).toNat =
      x.toBits.toNat / hiddenBit % 2048 := by
    have bits : x.toModel.toBits.toBitVec.toNat = x.toBits.toNat := rfl
    rw [unpackExponent_def, BitVec.extractLsb'_toNat, bits, Nat.shiftRight_eq_div_pow]
    rfl
  have fraction := toNat_unpackMantissa x
  simp only [read] at h
  split at h
  next top =>
    split at h
    · cases h
    next some =>
      rw [top] at field
      rw [Float.Model.unpack, UnpackedFloat.unpack, if_pos (BitVec.eq_of_toNat_eq field), if_neg]
      intro none
      rw [none] at fraction
      exact some fraction.symm
  next => cases h

theorem ne_nan_of_compare {o : Ordering}
    (h : UnpackedFloat.compare x.toModel.unpack y.toModel.unpack = some o) :
    read x ≠ .nan ∧ read y ≠ .nan := by
  constructor
  · intro nan
    rw [unpack_of_nan nan] at h
    cases h
  · intro nan
    rw [unpack_of_nan nan] at h
    cases hu : x.toModel.unpack <;> rw [hu] at h <;> cases h

theorem le_iff : x ≤ y ↔ read x ≠ .nan ∧ read y ≠ .nan ∧ value x ≤ value y := by
  have order : x ≤ y ↔
      (UnpackedFloat.compare x.toModel.unpack y.toModel.unpack).any (·.isLE) = true := by
    show decide _ = true ↔ _
    rw [decide_eq_true_iff]
    rfl
  rw [order]
  constructor
  · intro h
    obtain ⟨o, compared, -⟩ := (Option.any_eq_true _ _).mp h
    obtain ⟨hx, hy⟩ := ne_nan_of_compare compared
    rw [compare_unpack hx hy] at h
    exact ⟨hx, hy, compare_le_iff_le.mp (Ordering.isLE_iff_ne_gt.mp h)⟩
  · rintro ⟨hx, hy, le⟩
    rw [compare_unpack hx hy]
    exact Ordering.isLE_iff_ne_gt.mpr (compare_le_iff_le.mpr le)

theorem le_trans_double (h : x ≤ y) (h' : y ≤ z) : x ≤ z := by
  obtain ⟨number, -, order⟩ := le_iff.mp h
  obtain ⟨-, number', order'⟩ := le_iff.mp h'
  exact le_iff.mpr ⟨number, number', order.trans order'⟩

theorem lt_iff : x < y ↔ read x ≠ .nan ∧ read y ≠ .nan ∧ value x < value y := by
  have order : x < y ↔
      UnpackedFloat.compare x.toModel.unpack y.toModel.unpack = some .lt := by
    show decide _ = true ↔ _
    rw [decide_eq_true_iff]
    exact beq_iff_eq
  rw [order]
  constructor
  · intro h
    obtain ⟨hx, hy⟩ := ne_nan_of_compare h
    rw [compare_unpack hx hy, Option.some_inj] at h
    exact ⟨hx, hy, compare_lt_iff_lt.mp h⟩
  · rintro ⟨hx, hy, less⟩
    rw [compare_unpack hx hy, compare_lt_iff_lt.mpr less]

theorem lt_iff_not_le (hx : read x ≠ .nan) (hy : read y ≠ .nan) : x < y ↔ ¬ y ≤ x := by
  rw [lt_iff, le_iff, and_iff_right hx, and_iff_right hy, and_iff_right hy, and_iff_right hx,
    not_le]

end Order

end Audience.Binary64
