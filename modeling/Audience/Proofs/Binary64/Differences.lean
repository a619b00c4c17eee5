import Mathlib
import Audience.Proofs.Binary64.Midpoint

/-! # Differences

To subtract a double is to add its opposite, so differences are rounded as sums are. The difference
of two finite doubles is a whole number of quanta, and rounding does not bring a quantum down to
nothing: a difference is zero only between equal doubles. Zeros stay zeros when they are multiplied
or divided and change nothing when they are added.
-/

namespace Audience.Binary64

open Float.Model Float.Model.UnpackedFloat

section Opposites

variable {x y : Float} {q : ℚ}

theorem neg_unpacked_neg (u : UnpackedFloat) : u.neg.neg = u := by
  have twice (s : Sign) : - -s = s := by cases s <;> rfl
  cases u with
  | notANumber => rfl
  | infinity s => exact congrArg UnpackedFloat.infinity (twice s)
  | zero s => exact congrArg UnpackedFloat.zero (twice s)
  | finite s m e pos => simp only [UnpackedFloat.neg, twice]

theorem IsNonneg.neg_neg_double (h : IsNonneg x) : - -x = x := by
  show Float.ofModel (.pack (-x).toModel.unpack.neg) = x
  rw [h.unpack_neg, neg_unpacked_neg, ofModel_pack_unpack]

theorem IsNonneg.isFinite_neg (h : IsNonneg x) : isFinite (-x) = isFinite x := by
  rw [isFinite, isFinite, h.read_neg, h.read_eq]
  by_cases infinite : x.toBits.toNat = infinityBits
  · rw [if_pos infinite, if_pos infinite]
  · rw [if_neg infinite, if_neg infinite]

theorem unpack_neg (number : read x ≠ .nan) : (-x).toModel.unpack = x.toModel.unpack.neg := by
  obtain ⟨y, nonneg, rfl | rfl⟩ := exists_nonneg number
  · exact nonneg.unpack_neg
  · rw [nonneg.neg_neg_double, nonneg.unpack_neg, neg_unpacked_neg]

theorem value_neg (number : read x ≠ .nan) : value (-x) = -value x := by
  obtain ⟨y, nonneg, rfl | rfl⟩ := exists_nonneg number
  · exact nonneg.value_neg
  · rw [nonneg.neg_neg_double, nonneg.value_neg, neg_neg]

theorem isFinite_neg (number : read x ≠ .nan) : isFinite (-x) = isFinite x := by
  obtain ⟨y, nonneg, rfl | rfl⟩ := exists_nonneg number
  · exact nonneg.isFinite_neg
  · rw [nonneg.neg_neg_double, nonneg.isFinite_neg]

theorem IsRounded.exists_abs (h : IsRounded q x) : ∃ y, IsRounded |q| y ∧ value y = |value x| := by
  cases h with
  | above nonneg h =>
    rw [abs_of_nonneg nonneg, abs_of_nonneg h.nonneg.value_nonneg]
    exact ⟨x, .above nonneg h, rfl⟩
  | @below q y nonneg h =>
    rw [abs_neg, h.nonneg.value_neg, abs_neg, abs_of_nonneg nonneg,
      abs_of_nonneg h.nonneg.value_nonneg]
    exact ⟨y, .above nonneg h, rfl⟩

theorem IsRounded.abs_value_le {p : ℚ} (hx : IsRounded p x) (hy : IsRounded q y)
    (h : |p| ≤ |q|) : |value x| ≤ |value y| := by
  obtain ⟨x', rounded, distance⟩ := hx.exists_abs
  obtain ⟨y', rounded', distance'⟩ := hy.exists_abs
  rw [← distance, ← distance']
  exact rounded.value_le rounded' h

theorem isFinite_iff_abs_lt (number : read x ≠ .nan) :
    isFinite x = true ↔ |value x| < value (signed false infinityBits) := by
  obtain ⟨y, nonneg, side⟩ := exists_nonneg number
  have below : isFinite y = true ↔ |value y| < value (signed false infinityBits) := by
    rw [nonneg.isFinite_iff, abs_of_nonneg nonneg.value_nonneg,
      value_lt_iff nonneg (isNonneg_signed le_rfl), toBits_signed le_rfl]
    exact (Nat.lt_iff_le_and_ne.trans (and_iff_right nonneg)).symm
  rcases side with rfl | rfl
  · exact below
  · rw [nonneg.isFinite_neg, nonneg.value_neg, abs_neg, below]

end Opposites

section Differences

variable {x y : Float}

theorem sub_eq_add_neg_unpacked (u v : UnpackedFloat) :
    UnpackedFloat.sub .binary64 u v = UnpackedFloat.add .binary64 u v.neg := by
  cases u with
  | finite s m e pos => cases v with
    | finite t n f pos' =>
      have opposite (i : Int) : (-t).apply i = -t.apply i := by
        cases t
        · exact (neg_neg i).symm
        · rfl
      simp only [UnpackedFloat.sub, UnpackedFloat.add, UnpackedFloat.neg, opposite,
        sub_eq_add_neg]
    | _ => rfl
  | _ => cases v <;> rfl

theorem sub_eq_add_neg_double (number : read y ≠ .nan) : x - y = x + -y := by
  show Float.ofModel (.pack (UnpackedFloat.sub .binary64 x.toModel.unpack y.toModel.unpack)) =
    .ofModel (.pack (UnpackedFloat.add .binary64 x.toModel.unpack (-y).toModel.unpack))
  rw [unpack_neg number, sub_eq_add_neg_unpacked]

/-- A difference of finite doubles is rounded to nearest. -/
theorem isRounded_sub (hx : isFinite x = true) (hy : isFinite y = true) :
    IsRounded (value x - value y) (x - y) := by
  have number := ne_nan_of_isFinite hy
  have sum := isRounded_add hx ((isFinite_neg number).trans hy)
  rwa [value_neg number, ← sub_eq_add_neg, ← sub_eq_add_neg_double number] at sum

theorem beq_iff : (x == y) = true ↔ read x ≠ .nan ∧ read y ≠ .nan ∧ value x = value y := by
  have order : (x == y) = true ↔
      UnpackedFloat.compare x.toModel.unpack y.toModel.unpack = some .eq :=
    beq_iff_eq (a := UnpackedFloat.compare x.toModel.unpack y.toModel.unpack)
  rw [order]
  constructor
  · intro h
    obtain ⟨hx, hy⟩ := ne_nan_of_compare h
    rw [compare_unpack hx hy, Option.some_inj] at h
    exact ⟨hx, hy, compare_eq_iff_eq.mp h⟩
  · rintro ⟨hx, hy, same⟩
    rw [compare_unpack hx hy, compare_eq_iff_eq.mpr same]

theorem le_iff_lt_or_beq : x ≤ y ↔ x < y ∨ (x == y) = true := by
  rw [le_iff, lt_iff, beq_iff, le_iff_lt_or_eq]
  tauto

theorem bounds_of_beq {low high : Float} (order : low < high) (same : (x == high) = true) :
    (low ≤ x ∧ x ≤ high) ∧ ¬ x < high := by
  obtain ⟨number, -, above⟩ := lt_iff.mp order
  obtain ⟨number', -, equal⟩ := beq_iff.mp same
  refine ⟨⟨le_iff.mpr ⟨number, number', ?_⟩, le_iff_lt_or_beq.mpr (.inr same)⟩, fun below => ?_⟩
  · rw [equal]
    exact above.le
  · exact (lt_iff.mp below).2.2.ne equal

theorem isFinite_sub_of_abs_le {u v : Float} (hx : isFinite x = true) (hy : isFinite y = true)
    (hu : isFinite u = true) (hv : isFinite v = true) (finite : isFinite (u - v) = true)
    (h : |value x - value y| ≤ |value u - value v|) : isFinite (x - y) = true := by
  have rounded := isRounded_sub hx hy
  have rounded' := isRounded_sub hu hv
  rw [isFinite_iff_abs_lt rounded'.ne_nan] at finite
  rw [isFinite_iff_abs_lt rounded.ne_nan]
  exact (rounded.abs_value_le rounded' h).trans_lt finite

theorem IsRounded.value_ne_zero {r : Int} (h : IsRounded (r / 2 ^ quantaLog) x) (ne : r ≠ 0) :
    value x ≠ 0 := by
  have bits : 1 ≤ infinityBits := by decide
  have least : IsNonneg (signed false 1) := isNonneg_signed bits
  have quantum : value (signed false 1) = 1 / 2 ^ quantaLog := by
    rw [least.value_eq, toBits_signed bits, show quantaOfBits 1 = 1 from rfl, Nat.cast_one]
  have one : (1 : ℚ) ≤ |(r : ℚ)| := by exact_mod_cast Int.one_le_abs ne
  have le := (IsRounded.above least.value_nonneg (isNearest_value least)).abs_value_le h (by
    rw [quantum, abs_div, abs_div, abs_one]
    exact div_le_div_of_nonneg_right one (abs_nonneg _))
  have pos : 0 < |value (signed false 1)| := by
    rw [quantum]
    positivity
  exact abs_pos.mp (pos.trans_le le)

def IsSpecial : UnpackedFloat → Prop
  | .notANumber | .infinity _ => True
  | _ => False

theorem isSpecial_unpack (h : isFinite x = false) : IsSpecial x.toModel.unpack := by
  by_cases nan : read x = .nan
  · rw [unpack_of_nan nan]
    trivial
  · obtain ⟨y, nonneg, side⟩ := exists_nonneg nan
    have infinite : isFinite y = false := by
      rcases side with rfl | rfl
      · exact h
      · rwa [nonneg.isFinite_neg] at h
    obtain rfl : y = signed false infinityBits := by
      by_contra other
      refine Bool.false_ne_true (infinite.symm.trans (nonneg.isFinite_iff.mpr fun bits => other ?_))
      exact eq_of_toBits (bits.trans (toBits_signed le_rfl).symm)
    rcases side with rfl | rfl
    · rw [unpack_infinity]
      trivial
    · rw [nonneg.unpack_neg, unpack_infinity]
      trivial

theorem isSpecial_sub {u v : UnpackedFloat} (h : IsSpecial u ∨ IsSpecial v) :
    IsSpecial (UnpackedFloat.sub .binary64 u v) := by
  cases u <;> cases v
  case infinity.infinity s t =>
    simp only [UnpackedFloat.sub]
    split <;> trivial
  case' zero.zero | zero.finite | finite.zero | finite.finite =>
    exact absurd h (by simp [IsSpecial])
  all_goals trivial

theorem not_beq_zero_of_isSpecial {u : UnpackedFloat} (h : IsSpecial u) :
    (Float.ofModel (.pack u) == 0) = false := by
  cases u with
  | notANumber => decide
  | infinity s => cases s <;> decide
  | zero | finite => exact h.elim

/-- A difference is zero only between numbers that are equal. -/
theorem value_eq_of_sub_eq_zero (h : (x - y == 0) = true) :
    read x ≠ .nan ∧ read y ≠ .nan ∧ value x = value y := by
  have finite : isFinite x = true ∧ isFinite y = true := by
    by_contra infinite
    have special : IsSpecial x.toModel.unpack ∨ IsSpecial y.toModel.unpack := by
      rw [not_and_or, Bool.not_eq_true, Bool.not_eq_true] at infinite
      exact infinite.imp isSpecial_unpack isSpecial_unpack
    exact Bool.false_ne_true ((not_beq_zero_of_isSpecial (isSpecial_sub special)).symm.trans h)
  have hx := ne_nan_of_isFinite finite.1
  have hy := ne_nan_of_isFinite finite.2
  refine ⟨hx, hy, ?_⟩
  obtain ⟨r, -, quanta⟩ := exists_rank hx
  obtain ⟨t, -, quanta'⟩ := exists_rank hy
  have rounded := isRounded_sub finite.1 finite.2
  rw [quanta, quanta', ← sub_div, ← Int.cast_sub] at rounded
  by_contra apart
  refine rounded.value_ne_zero (fun same => apart ?_) ((beq_iff.mp h).2.2.trans value_zero)
  rw [quanta, quanta', sub_eq_zero.mp same]

end Differences

section Zeros

variable {x y z : Float}

def IsZero (x : Float) : Prop :=
  ∃ s, x.toModel.unpack = .zero s

theorem isZero_zero (s : Sign) : IsZero (.ofModel (.pack (.zero s))) :=
  ⟨s, by cases s <;> rfl⟩

theorem isZero_sub_self (finite : isFinite x = true) : IsZero (x - x) := by
  have rounded := isRounded_sub finite finite
  rw [sub_self] at rounded
  have none : value (x - x) = 0 := rounded.value_eq (y := 0) (by decide) value_zero
  have small : |value (x - x)| ≤ 2 ^ 64 := by
    rw [none, abs_zero]
    positivity
  rcases unpack_of_isFinite (isFinite_of_abs_le rounded.ne_nan small) with
    ⟨s, unpacked, -⟩ | ⟨s, a, m, pos, -, -, amount⟩
  · exact ⟨s, unpacked⟩
  · rw [none, eq_comm, mul_eq_zero_iff_right (zpow_ne_zero _ two_ne_zero),
      Int.cast_eq_zero] at amount
    cases s <;> simp only [Sign.apply, neg_eq_zero, Int.natCast_eq_zero] at amount <;> omega

theorem IsZero.mul (hz : IsZero z) (hx : isFinite x = true) : IsZero (z * x) := by
  obtain ⟨s, zero⟩ := hz
  show IsZero (.ofModel (.pack (UnpackedFloat.mul .binary64 z.toModel.unpack x.toModel.unpack)))
  rw [zero]
  rcases unpack_of_isFinite hx with ⟨t, unpacked, -⟩ | ⟨t, a, m, pos, -, unpacked, -⟩ <;>
    · rw [unpacked]
      exact isZero_zero _

theorem IsZero.div (hz : IsZero z) (hx : isFinite x = true) (ne : value x ≠ 0) :
    IsZero (z / x) := by
  obtain ⟨s, zero⟩ := hz
  show IsZero (.ofModel (.pack (UnpackedFloat.div .binary64 z.toModel.unpack x.toModel.unpack)))
  rw [zero]
  rcases unpack_of_isFinite hx with ⟨t, -, none⟩ | ⟨t, a, m, pos, -, unpacked, -⟩
  · exact absurd none ne
  · rw [unpacked]
    exact isZero_zero _

theorem IsZero.value_eq (hz : IsZero z) : read z ≠ .nan ∧ value z = 0 := by
  obtain ⟨s, zero⟩ := hz
  rw [← ofModel_pack_unpack z, zero]
  cases s <;> exact ⟨by decide +kernel, by decide +kernel⟩

theorem IsZero.value_add (hz : IsZero z) (hx : isFinite x = true) :
    read (z + x) ≠ .nan ∧ value (z + x) = value x := by
  obtain ⟨s, zero⟩ := hz
  have sum : z + x =
      .ofModel (.pack (UnpackedFloat.add .binary64 z.toModel.unpack x.toModel.unpack)) := rfl
  rcases unpack_of_isFinite hx with ⟨t, unpacked, none⟩ | ⟨t, a, m, pos, -, unpacked, -⟩
  · have still : IsZero (z + x) := by
      rw [sum, zero, unpacked, UnpackedFloat.add]
      split <;> exact isZero_zero _
    exact ⟨still.value_eq.1, still.value_eq.2.trans none.symm⟩
  · have same : UnpackedFloat.add .binary64 (.zero s) x.toModel.unpack = x.toModel.unpack := by
      rw [unpacked]
      rfl
    rw [sum, zero, same, ofModel_pack_unpack]
    exact ⟨ne_nan_of_isFinite hx, rfl⟩

end Zeros

end Audience.Binary64
