import Mathlib
import Audience.Proofs.Binary64.Whole

/-! # Counting with doubles

Whole doubles are added and multiplied without rounding as long as the result has at most 53 bits. A
fraction of a whole number is less than that number, even where the product is rounded.
-/

namespace Audience.Binary64

structure IsFraction (x : Float) : Prop where
  nonneg : IsNonneg x
  less : value x < 1

def lastFraction : Float := 0.9999999999999999

/-- A double without a fraction. -/
def IsWhole (x : Float) : Prop :=
  ∃ n : ℕ, value x = n

section Products

variable {x y c : Float} {n : Nat}

theorem finite_of_value_le {x y : Float} (hx : IsNonneg x) (hy : IsNonneg y)
    (finite : y.toBits.toNat ≠ infinityBits) (le : value x ≤ value y) :
    x.toBits.toNat ≠ infinityBits := by
  have bits := (value_le_iff hx hy).mp le
  have bound : y.toBits.toNat ≤ infinityBits := hy
  omega

theorem finite_of_le (h : IsNonneg x) (small : n ≤ 2 ^ 53) (le : value x ≤ n) :
    x.toBits.toNat ≠ infinityBits :=
  ne_infinity_of_lt h (isNonneg_signed le_rfl)
    (le.trans_lt (lt_infinity (small.trans (by decide))))

theorem IsFraction.finite (h : IsFraction c) : c.toBits.toNat ≠ infinityBits :=
  finite_of_le h.nonneg (n := 1) (by decide) (by rw [Nat.cast_one]; exact h.less.le)

theorem finite_ofNat (h : n < 2 ^ 53) : (ofNat n).toBits.toNat ≠ infinityBits :=
  finite_of_le (isNearest_ofNat n).nonneg h.le (value_ofNat h.le).le

theorem isNearest_mul_ofNat (h : IsNonneg x) (finite : x.toBits.toNat ≠ infinityBits)
    (small : n < 2 ^ 53) : IsNearest (value x * n) (x * ofNat n) := by
  have product := isNearest_mul h (isNearest_ofNat n).nonneg finite (finite_ofNat small)
  rwa [value_ofNat small.le] at product

theorem isNearest_truncate_mul (h : IsNonneg x) (finite : x.toBits.toNat ≠ infinityBits)
    (small : n < 2 ^ 53) : IsNearest (⌊value x⌋ * n) (truncate x * ofNat n) := by
  have bits := (truncate_le h finite).2
  have bound : x.toBits.toNat ≤ infinityBits := h
  have product := isNearest_mul_ofNat h.truncate (by omega) small
  rwa [h.value_truncate] at product

theorem IsFraction.value_mul_le (h : IsFraction c) (small : n < 2 ^ 53) :
    value (c * ofNat n) ≤ n := by
  have product := isNearest_mul_ofNat h.nonneg h.finite small
  have order := product.value_le (isNearest_ofNat n) (mul_le_of_le_one_left n.cast_nonneg h.less.le)
  rwa [value_ofNat small.le] at order

theorem isFraction_lastFraction : IsFraction lastFraction where
  nonneg := by
    unfold IsNonneg
    decide +kernel
  less := by decide +kernel

theorem IsFraction.le_lastFraction (h : IsFraction c) : value c ≤ value lastFraction := by
  have one : value (ofNat 1) = 1 := by
    rw [value_ofNat (by decide), Nat.cast_one]
  have less : ¬ value (ofNat 1) ≤ value c := by
    rw [one, not_le]
    exact h.less
  have next : (ofNat 1).toBits.toNat = lastFraction.toBits.toNat + 1 := by decide +kernel
  rw [value_le_iff (isNearest_ofNat 1).nonneg h.nonneg] at less
  rw [value_le_iff h.nonneg isFraction_lastFraction.nonneg]
  omega

/-- No fraction of a whole number is rounded up to it if the greatest one is not. -/
theorem IsFraction.value_mul_lt (h : IsFraction c) (small : n < 2 ^ 53)
    (last : value (lastFraction * ofNat n) < n) : value (c * ofNat n) < n := by
  have product := isNearest_mul_ofNat h.nonneg h.finite small
  have last' := isFraction_lastFraction
  have most := isNearest_mul_ofNat last'.nonneg last'.finite small
  exact (product.value_le most
    (mul_le_mul_of_nonneg_right h.le_lastFraction n.cast_nonneg)).trans_lt last

end Products

/-- Whether a double stands for a whole number. Only beyond 53 bits it may be a rounded one. -/
structure Counts (x : Float) (n : Int) : Prop where
  nonneg : IsNonneg x
  least : 0 ≤ n
  exactly : value x < (2 ^ 53 : ℕ) ∨ n < (2 ^ 53 : ℕ) → value x = n

section Sums

variable {x y : Float} {m n : Int}

theorem counts_of_isNearest (h : IsNearest n x) (least : 0 ≤ n) : Counts x n where
  nonneg := h.nonneg
  least := least
  exactly := by
    lift n to ℕ using least
    rintro (small | small)
    · apply h.value_natCast
      by_contra! more
      have order := (isNearest_ofNat (2 ^ 53)).value_le h (Nat.cast_le.mpr more.le)
      rw [value_ofNat le_rfl] at order
      exact small.not_ge order
    · exact h.value_natCast (by omega)

theorem Counts.add (hx : Counts x m) (hy : Counts y n) : Counts (x + y) (m + n) where
  nonneg := (isNearest_add hx.nonneg hy.nonneg).nonneg
  least := add_nonneg hx.least hy.least
  exactly := by
    have sum := isNearest_add hx.nonneg hy.nonneg
    have x0 := hx.nonneg.value_nonneg
    have y0 := hy.nonneg.value_nonneg
    have left := (isNearest_value hx.nonneg).value_le sum (by linarith)
    have right := (isNearest_value hy.nonneg).value_le sum (by linarith)
    have m0 := hx.least
    have n0 := hy.least
    intro small
    have both : value x = m ∧ value y = n := by
      rcases small with small | small
      · exact ⟨hx.exactly (.inl (left.trans_lt small)), hy.exactly (.inl (right.trans_lt small))⟩
      · exact ⟨hx.exactly (.inr (by omega)), hy.exactly (.inr (by omega))⟩
    rw [both.1, both.2, ← Int.cast_add] at sum
    exact (counts_of_isNearest sum (add_nonneg m0 n0)).exactly small

theorem counts_truncate_mul (h : IsNonneg x) (finite : x.toBits.toNat ≠ infinityBits) {n : Nat}
    (small : n < 2 ^ 53) : Counts (truncate x * ofNat n) (⌊value x⌋ * n) := by
  have product := isNearest_truncate_mul h finite small
  exact counts_of_isNearest (by push_cast; exact product)
    (mul_nonneg (Int.floor_nonneg.mpr h.value_nonneg) n.cast_nonneg)

end Sums

theorem round_le_round {p q : ℚ} (h : p ≤ q) : round p ≤ round q := by
  rw [round_eq, round_eq]
  exact Int.floor_le_floor (by linarith)

theorem round_nonneg {p : ℚ} (h : 0 ≤ p) : 0 ≤ round p := by
  have order := round_le_round h
  rwa [round_zero] at order

end Audience.Binary64
