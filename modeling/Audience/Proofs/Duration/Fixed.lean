import Mathlib
import Audience.Proofs.Duration.Offset
import Audience.Proofs.Duration.Rendering

/-! # Durations of fixed length

A duration without years and months moves every instant of the calendar by the same number of
milliseconds, forward or backward, so that its negation takes it back.
-/

namespace Audience.Duration

open Calendar

section Signs

variable {α : Type}

theorem sign_negate (d : Duration α) : d.negate.sign = -d.sign := by
  cases h : d.positive <;> simp [negate, sign, h]

theorem applyTo_of_not_inRange [Quantity α] {d : Duration α} {t : Int64}
    (h : inRange t.toInt = false) : d.applyTo t = t := by
  rw [applyTo, h]
  rfl

end Signs

section Translations

variable {d : Duration Float} {t : Int64}

theorem applyTo_translates (years : d.parts.years = 0) (months : d.parts.months = 0)
    (nonneg : 0 ≤ fixedMillis d.parts) (range : inRange t.toInt = true) :
    d.applyTo t = Int64.ofIntClamp (t.toInt + d.sign * fixedMillis d.parts) := by
  have total : monthsTotal d.parts = 0 := by
    rw [monthsTotal, years, months]
    decide +kernel
  have whole : fraction (monthsTotal d.parts) = 0 := by
    rw [total]
    decide +kernel
  have none : (Quantity.toInt64 (0 : Float)).toInt = 0 := by decide +kernel
  have stays : d.monthReached t.toInt = t.toInt := by
    rw [monthReached, years, total, none]
    simp only [Int.mul_zero, shiftMonths_zero range]
  rw [applyTo_of_whole range whole nonneg, stays]

theorem toInt_ofIntClamp_of_inRange {i : Int} (h : inRange i = true) :
    (Int64.ofIntClamp i).toInt = i := by
  rw [inRange, Bool.and_eq_true, decide_eq_true_eq, decide_eq_true_eq] at h
  have low : Int64.minValue.toInt ≤ earliest := by decide
  have high : latest ≤ Int64.maxValue.toInt := by decide
  exact Int64.toInt_ofIntClamp (low.trans h.1) (h.2.trans high)

end Translations

/-- A duration without years and months moves every instant of the calendar as far as any other, and
its negation moves it as far the other way. -/
theorem applyTo_fixed {text : String} {d : Duration Float}
    (h : Grammar.writtenDuration text = .ok d) (years : d.parts.years = 0)
    (months : d.parts.months = 0) :
    ∃ k : Int, 0 ≤ k ∧
      (∀ t : Int64, inRange t.toInt = true →
        d.applyTo t = Int64.ofIntClamp (t.toInt + d.sign * k) ∧
          d.negate.applyTo t = Int64.ofIntClamp (t.toInt - d.sign * k)) ∧
      (∀ t : Int64, inRange t.toInt = true → inRange (t.toInt - k) = true →
        inRange (t.toInt + k) = true →
          d.applyTo (d.negate.applyTo t) = t ∧ d.negate.applyTo (d.applyTo t) = t) ∧
      ∀ t : Int64, inRange t.toInt = false → d.applyTo t = t ∧ d.negate.applyTo t = t := by
  obtain ⟨x, denotes⟩ := exists_denotes h
  have nonneg : 0 ≤ fixedMillis d.parts :=
    fixedMillis_nonneg fun y part => (denotes.nonneg y part).isUnsigned
  have forward {t : Int64} (range : inRange t.toInt = true) :=
    applyTo_translates years months nonneg range
  have backward {t : Int64} (range : inRange t.toInt = true) :
      d.negate.applyTo t = Int64.ofIntClamp (t.toInt - d.sign * fixedMillis d.parts) := by
    have moved := @applyTo_translates d.negate t years months nonneg range
    rwa [sign_negate, Int.neg_mul, ← Int.sub_eq_add_neg] at moved
  refine ⟨fixedMillis d.parts, nonneg, fun t range => ⟨forward range, backward range⟩,
    fun t range before after => ?_,
    fun t outside => ⟨applyTo_of_not_inRange outside, applyTo_of_not_inRange outside⟩⟩
  generalize fixedMillis d.parts = k at *
  have sides : inRange (t.toInt - d.sign * k) = true ∧ inRange (t.toInt + d.sign * k) = true := by
    rcases d.sign_eq with positive | negative
    · rw [positive, Int.one_mul]
      exact ⟨before, after⟩
    · rw [negative, Int.neg_one_mul, Int.sub_neg, ← Int.sub_eq_add_neg]
      exact ⟨after, before⟩
  have earlier := toInt_ofIntClamp_of_inRange sides.1
  have later := toInt_ofIntClamp_of_inRange sides.2
  constructor
  · rw [backward range, forward (by rw [earlier]; exact sides.1), earlier, Int.sub_add_cancel,
      Int64.ofIntClamp_toInt]
  · rw [forward range, backward (by rw [later]; exact sides.2), later, Int.add_sub_cancel,
      Int64.ofIntClamp_toInt]

theorem applyTo_fixed_halfWeeksBack :
    Grammar.writtenDuration "-P1W0,5D" = .ok halfWeeksBack.duration ∧
      halfWeeksBack.duration.parts.years = 0 ∧ halfWeeksBack.duration.parts.months = 0 ∧
      halfWeeksBack.duration.applyTo 0 = -648000000 ∧
      halfWeeksBack.duration.applyTo (halfWeeksBack.duration.negate.applyTo 0) = 0 ∧
      halfWeeksBack.duration.applyTo Int64.maxValue = Int64.maxValue := by
  have read := halfWeeksBack.writtenDuration_text
  rw [show halfWeeksBack.text = "-P1W0,5D" by decide] at read
  have years : halfWeeksBack.duration.parts.years = 0 := by decide +kernel
  have months : halfWeeksBack.duration.parts.months = 0 := by decide +kernel
  have moved : halfWeeksBack.duration.applyTo 0 = -648000000 := by decide +kernel
  obtain ⟨k, -, moves, back, stays⟩ := applyTo_fixed read years months
  have measured := (moves 0 (by decide)).1.symm.trans moved
  have length : k = 648000000 := by
    rw [show halfWeeksBack.duration.sign = -1 by decide, Int64.ofIntClamp] at measured
    have value : (-648000000 : Int64).toInt = -648000000 := by decide
    have origin : (0 : Int64).toInt = 0 := by decide
    split at measured
    · split at measured
      · have distance := congrArg Int64.toInt measured
        rw [Int64.toInt_ofIntLE, value] at distance
        omega
      · exact absurd measured (by decide)
    · exact absurd measured (by decide)
  subst length
  exact ⟨read, years, months, moved, (back 0 (by decide) (by decide) (by decide)).1,
    (stays Int64.maxValue (by decide)).1⟩

end Audience.Duration
