import Audience.Json.Comparison
import Audience.Proofs.Binary64.Midpoint

/-! # The order of numbers

Two whole numbers compare as they are, and other pairs after a whole number among them is rounded
to a double. Rounding may take the difference of two numbers away but never turns their order
around, and it leaves whole numbers of up to 53 bits as they are.
-/

namespace Audience

namespace Number

def value : Number → ℚ
  | .integer i => i
  | .float x => Binary64.value x

def isFinite : Number → Bool
  | .integer _ => true
  | .float x => Binary64.isFinite x

/-- Every double fits, and so do the whole numbers up to where doubles begin to leave some out. -/
def FitsDouble : Number → Prop
  | .integer i => i.natAbs ≤ 2 ^ 53
  | .float _ => True

/-- Pairs of numbers that compare by what they stand for. -/
inductive ComparesExactly : Number → Number → Prop where
  | integers (i j : Int) : ComparesExactly (.integer i) (.integer j)
  | doubles {a b} (ha : a.FitsDouble) (hb : b.FitsDouble) : ComparesExactly a b

variable {a b n : Number}

theorem isRounded_toFloat (h : n.isFinite = true) : Binary64.IsRounded n.value n.toFloat := by
  cases n with
  | integer i => exact Binary64.isRounded_ofInt i
  | float x => exact Binary64.isRounded_value (Binary64.ne_nan_of_isFinite h)

theorem FitsDouble.value_toFloat (h : n.FitsDouble) : Binary64.value n.toFloat = n.value := by
  cases n with
  | integer i => exact Binary64.value_ofInt h
  | float x => rfl

/-- An answer on the order of two numbers that does not contradict it. -/
structure Respects (o : Ordering) (a b : Number) : Prop where
  isLE : a.value ≤ b.value → o.isLE = true
  isGE : b.value ≤ a.value → o.isGE = true

theorem respects_compare (a b : Number) : Respects (compare a.value b.value) a b where
  isLE h := Ordering.isLE_iff_ne_gt.mpr (compare_le_iff_le.mpr h)
  isGE h := Ordering.isGE_iff_ne_lt.mpr (compare_ge_iff_ge.mpr h)

theorem compare?_integers (i j : Int) : compare? (.integer i) (.integer j) =
    some (compare (value (.integer i)) (value (.integer j))) := by
  have order := (Int.cast_strictMono (R := ℚ)).cmp_map_eq i j
  rw [cmp_eq_compare, cmp_eq_compare] at order
  exact congrArg some order.symm

section Doubles

variable (ha : a.isFinite = true) (hb : b.isFinite = true)
include ha hb

theorem compare?_toFloat : Binary64.compare? a.toFloat b.toFloat =
    some (compare (Binary64.value a.toFloat) (Binary64.value b.toFloat)) :=
  Binary64.compare?_eq (isRounded_toFloat ha).ne_nan (isRounded_toFloat hb).ne_nan

/-- Rounding keeps the order of two numbers or makes them equal. -/
theorem respects_compare_toFloat :
    Respects (compare (Binary64.value a.toFloat) (Binary64.value b.toFloat)) a b where
  isLE h := Ordering.isLE_iff_ne_gt.mpr
    (compare_le_iff_le.mpr ((isRounded_toFloat ha).value_le (isRounded_toFloat hb) h))
  isGE h := Ordering.isGE_iff_ne_lt.mpr
    (compare_ge_iff_ge.mpr ((isRounded_toFloat hb).value_le (isRounded_toFloat ha) h))

end Doubles

theorem compare?_of_not_integers (h : ¬ ∃ i j, a = .integer i ∧ b = .integer j) :
    a.compare? b = Binary64.compare? a.toFloat b.toFloat := by
  cases a with
  | float x => rfl
  | integer i =>
    cases b with
    | float y => rfl
    | integer j => exact absurd ⟨i, j, rfl, rfl⟩ h

end Number

open Number

/-- Any two finite numbers compare, and never against their order. They compare in their very order
if both are whole, and if each of them is a double or a whole number of up to 53 bits. -/
theorem compare?_respects_order (a b : Number) (ha : a.isFinite = true) (hb : b.isFinite = true) :
    ∃ o, a.compare? b = some o ∧ Respects o a b ∧
      (ComparesExactly a b → o = compare a.value b.value) := by
  by_cases integers : ∃ i j, a = .integer i ∧ b = .integer j
  · obtain ⟨i, j, rfl, rfl⟩ := integers
    exact ⟨_, compare?_integers i j, respects_compare _ _, fun _ => rfl⟩
  · have order := compare?_of_not_integers integers
    refine ⟨_, order.trans (compare?_toFloat ha hb), respects_compare_toFloat ha hb,
      fun exactly => ?_⟩
    cases exactly with
    | integers i j => exact absurd ⟨i, j, rfl, rfl⟩ integers
    | doubles fits fits' => rw [fits.value_toFloat, fits'.value_toFloat]

/-- The first whole number that no double stands for is taken for the one before it. -/
theorem compare?_respects_order_54bits :
    compare? (.integer 9007199254740993) (.float 9007199254740992) = some .eq ∧
      Respects .eq (.integer 9007199254740993) (.float 9007199254740992) ∧
      value (.float 9007199254740992) < value (.integer 9007199254740993) := by
  have same : compare? (.integer 9007199254740993) (.float 9007199254740992) = some .eq := by
    decide +kernel
  obtain ⟨o, order, respects, -⟩ := compare?_respects_order (.integer 9007199254740993)
    (.float 9007199254740992) rfl (by decide +kernel)
  obtain rfl : o = .eq := Option.some.inj (order.symm.trans same)
  exact ⟨same, respects, by decide +kernel⟩

end Audience
