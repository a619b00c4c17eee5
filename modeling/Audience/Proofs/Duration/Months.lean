import Mathlib
import Audience.Proofs.Binary64.Whole
import Audience.Proofs.Duration.Fixed

/-! # Whole years and months

A duration of whole years and months first moves by its years and then by its months, and each time
the day is clamped to the month reached. Its negation leads back to the month, and to the day as far
as no month on the way was too short for it.
-/

namespace Audience

/-- Whole years and months and nothing else. -/
def Parts.ofMonths (years months : Nat) : Parts Float :=
  ⟨Binary64.ofNat years, Binary64.ofNat months, 0, 0, 0, 0, 0⟩

namespace Duration

open Calendar

section Whole

variable {n years months : Nat} {d : Duration Float}

theorem fraction_ofNat (h : n < 2 ^ 53) : fraction (Binary64.ofNat n) = 0 := by
  have whole : Quantity.truncate (Binary64.ofNat n) = Binary64.ofNat n := Binary64.truncate_ofNat h
  rw [fraction, whole]
  exact Binary64.ofNat_sub_self h

theorem monthsTotal_ofMonths (hy : years < 2 ^ 53) (months : Nat) :
    monthsTotal (.ofMonths years months) = Binary64.ofNat months := by
  have none : (0 : Float) * Quantity.ofNat 12 = 0 := by decide +kernel
  have left : fraction (Parts.ofMonths years months).years = 0 := fraction_ofNat hy
  rw [monthsTotal, left, none]
  exact (Binary64.isNearest_ofNat months).nonneg.isUnsigned.add_zero

theorem fixedMillis_ofMonths (years months : Nat) : fixedMillis (.ofMonths years months) = 0 := by
  show (Binary64.toInt64 (offset ⟨0, 0, 0, 0, 0, 0, 0⟩ 0)).toInt = 0
  decide +kernel

end Whole

section Shifts

variable {d : Duration Float} {years months : Nat} {t : Int64} {date : Date} {millis : Int}

theorem monthReached_ofMonths (whole : d.parts = .ofMonths years months) (hy : years < 2 ^ 53)
    (hm : months < 2 ^ 53) (t : Int) :
    d.monthReached t = shiftMonths (shiftMonths t (d.sign * (12 * years))) (d.sign * months) := by
  have y : (Quantity.toInt64 (Parts.ofMonths years months).years).toInt = years :=
    Binary64.toInt64_ofNat hy
  have m : (Quantity.toInt64 (Binary64.ofNat months)).toInt = months := Binary64.toInt64_ofNat hm
  rw [monthReached, whole, monthsTotal_ofMonths hy, y, m]

theorem lt_of_hasMonth (d : Duration Float) {index : Int} {n : Nat} (start : HasMonth index)
    (stop : HasMonth (index + d.sign * n)) : n < 2 ^ 53 := by
  simp only [HasMonth, firstYear, lastYear] at start stop
  rcases d.sign_eq with sign | sign <;> rw [sign] at stop <;> omega

/-- The years are shifted first and the months after them. -/
theorem fallsOn_applyTo (whole : d.parts = .ofMonths years months)
    (falls : FallsOn t.toInt date millis) (start : HasMonth date.monthIndex)
    (middle : HasMonth (date.monthIndex + d.sign * (12 * years)))
    (stop : HasMonth (date.monthIndex + d.sign * (12 * years) + d.sign * months)) :
    FallsOn (d.applyTo t).toInt
      (.inMonth (date.monthIndex + d.sign * (12 * years) + d.sign * months)
        (min date.day (monthLength (date.monthIndex + d.sign * (12 * years))))) millis := by
  have hy : 12 * years < 2 ^ 53 := lt_of_hasMonth d start (by push_cast; exact middle)
  have hm : months < 2 ^ 53 := lt_of_hasMonth d middle stop
  have reached := falls.shiftMonths middle
  have final := reached.shiftMonths (by rw [Date.monthIndex_inMonth]; exact stop)
  rw [Date.monthIndex_inMonth, ← monthReached_ofMonths whole (by omega) hm] at final
  have inside : inRange (d.monthReached t.toInt) = true := by
    rw [final.inRange_iff, Date.monthIndex_inMonth]
    exact stop
  have left : fraction (monthsTotal d.parts) = 0 := by
    rw [whole, monthsTotal_ofMonths (by omega), fraction_ofNat hm]
  have none : fixedMillis d.parts = 0 := by rw [whole, fixedMillis_ofMonths]
  rw [applyTo_of_whole (falls.inRange_iff.mpr start) left none.ge, none, Int.mul_zero,
    Int.add_zero, toInt_ofIntClamp_of_inRange inside]
  exact final

end Shifts

/-- Whole years and months are shifts along the calendar that clamp the day, and the negation takes
them back but for what was clamped. -/
theorem applyTo_ofMonths {d : Duration Float} {years months : Nat} {t : Int64} {date : Date}
    {millis : Int} (whole : d.parts = .ofMonths years months)
    (falls : FallsOn t.toInt date millis) (range : inRange t.toInt = true)
    (middle : HasMonth (date.monthIndex + d.sign * (12 * years)))
    (stop : HasMonth (date.monthIndex + d.sign * (12 * years + months))) :
    (∃ r : Date, FallsOn (d.applyTo t).toInt r millis ∧
      r.monthIndex = date.monthIndex + d.sign * (12 * years + months) ∧
      r.day = min (min date.day (monthLength (date.monthIndex + d.sign * (12 * years))))
        (monthLength (date.monthIndex + d.sign * (12 * years + months)))) ∧
    (date.day ≤ 28 → d.negate.applyTo (d.applyTo t) = t) ∧
    (28 < date.day → ∃ r : Date, FallsOn (d.negate.applyTo (d.applyTo t)).toInt r millis ∧
      r.year = date.year ∧ r.month = date.month ∧ 28 ≤ r.day ∧ r.day ≤ date.day) := by
  have valid := falls.isValid
  have start := falls.inRange_iff.mp range
  have same := Date.inMonth_monthIndex valid
  have year : date.monthIndex / 12 = date.year := congrArg Date.year same
  have month : (date.monthIndex % 12).toNat + 1 = date.month := congrArg Date.month same
  have fits : min date.day (monthLength date.monthIndex) = date.day := congrArg Date.day same
  have sum : date.monthIndex + d.sign * (12 * years) + d.sign * months =
      date.monthIndex + d.sign * (12 * years + months) := by ring
  have moved := fallsOn_applyTo whole falls start middle (by rw [sum]; exact stop)
  rw [sum] at moved
  generalize hi : date.monthIndex + d.sign * (12 * years + months) = index at *
  -- On the way back the years come first again, so that another month is passed.
  have ends : index + d.negate.sign * (12 * years) + d.negate.sign * months = date.monthIndex := by
    rw [← hi, sign_negate]
    ring
  have between : HasMonth (index + d.negate.sign * (12 * years)) := by
    rw [sign_negate]
    simp only [HasMonth] at start stop ⊢
    rcases d.sign_eq with sign | sign <;> rw [sign] at hi ⊢ <;> omega
  have back := @fallsOn_applyTo d.negate years months _ _ _ whole moved (by simpa using stop)
    (by simpa using between) (by simpa [ends] using start)
  rw [Date.monthIndex_inMonth, ends] at back
  have passed := (monthLength_bounds (date.monthIndex + d.sign * (12 * years))).1
  have reached := (monthLength_bounds index).1
  have returned := (monthLength_bounds (index + d.negate.sign * (12 * years))).1
  refine ⟨⟨_, moved, Date.monthIndex_inMonth _ _, rfl⟩, ?early, ?late⟩
  case early =>
    intro early
    have day : min (Date.inMonth index (min date.day
        (monthLength (date.monthIndex + d.sign * (12 * years))))).day
        (monthLength (index + d.negate.sign * (12 * years))) = date.day := by
      simp only [Date.inMonth]
      omega
    rw [day, same] at back
    exact Int64.toInt_inj.mp (back.unique falls)
  case late =>
    intro late
    refine ⟨_, back, year, month, ?_⟩
    simp only [Date.inMonth]
    omega

/-- A year and a month after noon of 29 February 2020 it is 28 March. -/
theorem applyTo_ofMonths_leapDay :
    FallsOn (1582977600000 : Int64).toInt ⟨2020, 2, 29⟩ 43200000 ∧
      (∃ r : Date, FallsOn (applyTo ⟨true, .ofMonths 1 1⟩ 1582977600000).toInt r 43200000 ∧
        r.monthIndex = 12 * 2021 + 2 ∧ r.day = 28) ∧
      ∃ r : Date, FallsOn (applyTo ⟨false, .ofMonths 1 1⟩
          (applyTo ⟨true, .ofMonths 1 1⟩ 1582977600000)).toInt r 43200000 ∧
        r.year = 2020 ∧ r.month = 2 ∧ 28 ≤ r.day ∧ r.day ≤ 29 := by
  have falls : FallsOn (1582977600000 : Int64).toInt ⟨2020, 2, 29⟩ 43200000 :=
    fallsOn_iff.mpr (by decide)
  have range : inRange (1582977600000 : Int64).toInt = true := by decide
  have middle : HasMonth (Date.monthIndex ⟨2020, 2, 29⟩ + 1 * (12 * (1 : ℕ))) :=
    ⟨by decide, by decide⟩
  have stop : HasMonth (Date.monthIndex ⟨2020, 2, 29⟩ + 1 * (12 * (1 : ℕ) + (1 : ℕ))) :=
    ⟨by decide, by decide⟩
  obtain ⟨⟨r, moved, month, day⟩, -, back⟩ :=
    @applyTo_ofMonths ⟨true, .ofMonths 1 1⟩ 1 1 _ _ _ rfl falls range middle stop
  exact ⟨falls, ⟨r, moved, month.trans (by decide), day.trans (by decide)⟩, back (by decide)⟩

end Duration

end Audience
