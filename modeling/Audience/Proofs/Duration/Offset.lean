import Mathlib
import Audience.Duration.Basic
import Audience.Proofs.Binary64.Rounding
import Audience.Proofs.Calendar.Months

/-! # Milliseconds of durations

Where whole months leave no fraction, a duration adds the same milliseconds whatever month it
reaches. They are counted without a minus sign if its parts have none.
-/

namespace Audience.Duration

open Binary64

section Moves

variable {α : Type}

theorem sign_eq (d : Duration α) : d.sign = 1 ∨ d.sign = -1 := by
  cases h : d.positive <;> simp [sign, h]

/-- Milliseconds without a minus sign do not stop before they are added. -/
theorem applyTo_of_nonneg [Quantity α] {d : Duration α} {t : Int64} {millis : Int}
    (range : Calendar.inRange t.toInt = true)
    (counted : (Quantity.toInt64 (offset d.parts
      (Calendar.monthLengthAt (d.monthReached t.toInt)))).toInt = millis) (nonneg : 0 ≤ millis) :
    d.applyTo t = Int64.ofIntClamp (d.monthReached t.toInt + d.sign * millis) := by
  have most : millis ≤ Int64.maxValue.toInt := counted ▸ Int64.toInt_le _
  have bounds : Int64.minValue.toInt = -Int64.maxValue.toInt - 1 := by decide
  have held : (Int64.ofIntClamp (d.sign * millis)).toInt = d.sign * millis := by
    rcases d.sign_eq with sign | sign
    · rw [sign, Int.one_mul]
      exact Int64.toInt_ofIntClamp (by omega) most
    · rw [sign, Int.neg_one_mul]
      exact Int64.toInt_ofIntClamp (by omega) (by omega)
  simp only [applyTo, if_pos range, counted, held]

/-- With a minus sign they can, and then lead one millisecond less far. -/
example : applyTo ⟨false, ⟨0, 0, 0, -1e300, 0, 0, (0 : Float)⟩⟩ (-1) = Int64.maxValue - 1 := by
  decide +kernel

end Moves

/-- The milliseconds of the parts from weeks down. -/
def fixedMillis (p : Parts Float) : Int :=
  (toInt64 (offset { p with years := 0, months := 0 } 0)).toInt

section Cascade

variable {p : Parts Float} {d : Duration Float} {t : Int64} {length : Nat}

theorem zero_mul_ofNat (h : length ≤ 31) : (0 : Float) * Binary64.ofNat length = 0 := by
  have lengths : ∀ n : Fin 32, (0 : Float) * Binary64.ofNat n = 0 := by decide +kernel
  exact lengths ⟨length, Nat.lt_succ_of_le h⟩

theorem offset_of_whole (whole : fraction (monthsTotal p) = 0) (h : length ≤ 31) :
    offset p length = offset { p with years := 0, months := 0 } 0 := by
  have none : fraction (monthsTotal { p with years := (0 : Float), months := 0 }) = 0 := by
    show fraction ((0 : Float) + fraction 0 * Binary64.ofNat 12) = 0
    decide +kernel
  have vanishes {n : Nat} (short : n ≤ 31) : (0 : Float) * Quantity.ofNat n = 0 :=
    zero_mul_ofNat short
  simp only [offset, whole, none, vanishes h, vanishes (Nat.zero_le 31)]

section Signs

variable {x y : Float}

theorem isUnsigned_fraction (h : IsUnsigned x) : IsUnsigned (fraction x) :=
  h.sub_truncate

theorem isUnsigned_ofNat (n : Nat) : IsUnsigned (Quantity.ofNat n) :=
  (isNearest_ofNat n).nonneg.isUnsigned

theorem isUnsigned_cascade (hx : IsUnsigned x) (hy : IsUnsigned y) (n : Nat) :
    IsUnsigned (x + fraction y * Quantity.ofNat n) :=
  hx.add ((isUnsigned_fraction hy).mul (isUnsigned_ofNat n))

theorem isUnsigned_whole (h : IsUnsigned x) (n : Nat) :
    IsUnsigned (Quantity.truncate x * Quantity.ofNat n) :=
  h.truncate.mul (isUnsigned_ofNat n)

end Signs

theorem isUnsigned_offset (h : ∀ x ∈ p.toList, IsUnsigned x) (length : Nat) :
    IsUnsigned (offset p length) := by
  simp only [Parts.toList, List.forall_mem_cons] at h
  obtain ⟨years, months, weeks, days, hours, minutes, seconds, -⟩ := h
  have total := isUnsigned_cascade months years 12
  have days := isUnsigned_cascade (days.add (weeks.mul (isUnsigned_ofNat 7))) total length
  have hours := isUnsigned_cascade hours days 24
  have minutes := isUnsigned_cascade minutes hours 60
  have seconds := isUnsigned_cascade seconds minutes 60
  have millis : IsUnsigned (Quantity.roundAway _) :=
    ((isUnsigned_fraction seconds).mul (isUnsigned_ofNat 1000)).roundAway
  exact ((((isUnsigned_whole days 86400000).add (isUnsigned_whole hours 3600000)).add
    (isUnsigned_whole minutes 60000)).add (isUnsigned_whole seconds 1000)).add millis

theorem fixedMillis_nonneg (h : ∀ x ∈ p.toList, IsUnsigned x) : 0 ≤ fixedMillis p := by
  have zero : IsUnsigned 0 := isNonneg_zero.isUnsigned
  apply IsUnsigned.toInt64_nonneg
  apply isUnsigned_offset
  simp only [Parts.toList, List.forall_mem_cons] at h ⊢
  exact ⟨zero, zero, h.2.2⟩

theorem applyTo_of_whole (range : Calendar.inRange t.toInt = true)
    (whole : fraction (monthsTotal d.parts) = 0) (nonneg : 0 ≤ fixedMillis d.parts) :
    d.applyTo t = Int64.ofIntClamp (d.monthReached t.toInt + d.sign * fixedMillis d.parts) := by
  have short := Calendar.monthLengthAt_le (d.monthReached t.toInt)
  refine applyTo_of_nonneg range ?_ nonneg
  rw [offset_of_whole whole short]
  rfl

end Cascade

end Audience.Duration
