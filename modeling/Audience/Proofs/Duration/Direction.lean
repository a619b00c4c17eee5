import Mathlib
import Audience.Evaluation
import Audience.Proofs.Calendar.Order
import Audience.Proofs.Duration.Fixed
import Audience.Proofs.Language.Literals

/-! # The direction of durations

A duration leads forward in time, or backward if it has a minus sign, and never the other way. Its
years and months stay within the calendar, and what its other parts add stops at the bounds of 64
bits. This does not depend on how its parts were rounded, or whether they are numbers at all.
-/

namespace Audience.Duration

open Calendar Quantity

section Bounds

variable {s a b k l : Int}

theorem ofIntClamp_along (hs : s = 1 ∨ s = -1) (h : s * a ≤ s * b) (hk : k ≤ l) :
    s * (Int64.ofIntClamp (a + s * k)).toInt ≤ s * (Int64.ofIntClamp (b + s * l)).toInt := by
  rw [Binary64.toInt_ofIntClamp_eq, Binary64.toInt_ofIntClamp_eq]
  rcases hs with rfl | rfl <;> omega

theorem toInt_inRange {i : Int} (h : inRange i = true) :
    Int64.minValue.toInt ≤ i ∧ i ≤ Int64.maxValue.toInt := by
  have low : Int64.minValue.toInt ≤ earliest := by decide
  have high : latest ≤ Int64.maxValue.toInt := by decide
  obtain ⟨first, last⟩ := inRange_iff.mp h
  exact ⟨low.trans first, last.trans high⟩

end Bounds

section Shifts

variable {α : Type} [Quantity α] {d e : Duration α} {s t y m y' m' : Int}

/-- In the direction of a sign, longer years and months lead no nearer. -/
theorem shiftMonths_along (hs : s = 1 ∨ s = -1) (range : inRange t = true) (y0 : 0 ≤ y)
    (m0 : 0 ≤ m) (hy : y ≤ y') (hm : m ≤ m') :
    s * shiftMonths (shiftMonths t (s * (12 * y))) (s * m) ≤
      s * shiftMonths (shiftMonths t (s * (12 * y'))) (s * m') := by
  rcases hs with rfl | rfl
  · simp only [Int.one_mul]
    exact shiftMonths_forward range (by omega) m0 (by omega) hm
  · simp only [Int.neg_one_mul, Int.neg_le_neg_iff]
    exact shiftMonths_backward range (by omega) (by omega) (by omega) (by omega)

theorem monthReached_along (range : inRange t = true) (years : 0 ≤ (toInt64 d.parts.years).toInt)
    (months : 0 ≤ (toInt64 (monthsTotal d.parts)).toInt) :
    d.sign * t ≤ d.sign * d.monthReached t := by
  have moved := shiftMonths_along d.sign_eq range le_rfl le_rfl years months
  rwa [Int.mul_zero, Int.mul_zero, shiftMonths_zero range, shiftMonths_zero range] at moved

/-- The instants on the way of a duration: where it starts, and where its years and then its months
lead. -/
def stops (d : Duration α) (t : Int) : List Int :=
  [t, shiftMonths t (d.sign * (12 * (toInt64 d.parts.years).toInt)), d.monthReached t]

theorem inRange_of_mem_stops (range : inRange t = true) : ∀ u ∈ d.stops t, inRange u = true := by
  simp only [stops, List.forall_mem_cons, List.not_mem_nil, false_implies, implies_true, and_true]
  exact ⟨range, inRange_shiftMonths _ _, inRange_shiftMonths _ _⟩

theorem year_bounds (range : inRange t = true) :
    firstYear ≤ (Date.ofMillis t).year ∧ (Date.ofMillis t).year ≤ lastYear := by
  have falls := fallsOn_ofMillis t
  have month := falls.inRange_iff.mp range
  rwa [HasMonth, Date.monthIndex_div falls.isValid] at month

end Shifts

/-- Whether numbers of the machine hold an instant of the calendar, its year and the next one. -/
def IsHeld (u : Int) : Prop :=
  inRange u = true ∧ (Int64.minValue.toInt ≤ u ∧ u ≤ Int64.maxValue.toInt) ∧
    Int32.minValue.toInt ≤ (Date.ofMillis u).year ∧
      (Date.ofMillis u).year + 1 ≤ Int32.maxValue.toInt

theorem isHeld_of_inRange {u : Int} (h : inRange u = true) : IsHeld u := by
  have low : Int32.minValue.toInt ≤ firstYear := by decide
  have high : lastYear + 1 ≤ Int32.maxValue.toInt := by decide
  have year := year_bounds h
  exact ⟨h, toInt_inRange h, by omega, by omega⟩

theorem calendarDuration_of_writtenDuration {text : String} {d : Duration Float}
    (h : Grammar.writtenDuration text = .ok d) (key : String) :
    Grammar.readDuration key (.string text) = .ok (.calendarDuration d) := by
  have announced : isAnnounced text = true := by
    apply isAnnounced_of_parse?
    rw [Grammar.writtenDuration] at h
    split at h
    next read => rw [read, Option.isSome_some]
    next => cases h
  rw [Grammar.readDuration, if_pos announced, h]
  rfl

/-- A duration that is read never leads against its sign, from whatever instant and with whatever
numbers. Its way stays in the calendar, the sum stops at the bounds of 64 bits, and as a literal it
stands for a number of milliseconds with its sign. -/
theorem applyTo_along {text : String} {d : Duration Float}
    (h : Grammar.writtenDuration text = .ok d) (t : Int64) :
    (inRange t.toInt = true → (∀ u ∈ d.stops t.toInt, IsHeld u) ∧
      (d.applyTo t).toInt = max Int64.minValue.toInt (min Int64.maxValue.toInt
        (d.monthReached t.toInt + d.sign * (toInt64 (offset d.parts
          (monthLengthAt (d.monthReached t.toInt)))).toInt))) ∧
    (inRange t.toInt = false → d.applyTo t = t) ∧
    (d.positive = true → t ≤ d.applyTo t) ∧ (d.positive = false → d.applyTo t ≤ t) ∧
    ∀ key, Grammar.readDuration key (.string text) = .ok (.calendarDuration d) ∧
      ∃ v : Int64, (Literal.calendarDuration d).resolve? t = some (.ofInt64 v) ∧
        (d.positive = true → 0 ≤ v) ∧ (d.positive = false → v ≤ 0) := by
  obtain ⟨x, denotes⟩ := exists_denotes h
  have unsigned : ∀ y ∈ d.parts.toList, Binary64.IsUnsigned y := fun y part =>
    (denotes.nonneg y part).isUnsigned
  have millis :
      0 ≤ (toInt64 (offset d.parts (monthLengthAt (d.monthReached t.toInt)))).toInt :=
    (isUnsigned_offset unsigned _).toInt64_nonneg
  have direction : d.sign * t.toInt ≤ d.sign * (d.applyTo t).toInt := by
    cases range : inRange t.toInt with
    | false => rw [applyTo_of_not_inRange range]
    | true =>
      have parts := unsigned
      simp only [Parts.toList, List.forall_mem_cons] at parts
      have total := isUnsigned_cascade parts.2.1 parts.1 12
      have reached := monthReached_along (d := d) range parts.1.toInt64_nonneg
        (Binary64.IsUnsigned.toInt64_nonneg total)
      have sum := ofIntClamp_along d.sign_eq reached millis
      rw [Int.mul_zero, Int.add_zero, Int64.ofIntClamp_toInt] at sum
      rw [applyTo_of_nonneg range rfl millis]
      exact sum
  refine ⟨fun range => ⟨fun u stop => isHeld_of_inRange (inRange_of_mem_stops range u stop), ?sum⟩,
    applyTo_of_not_inRange, ?forward, ?backward, fun key =>
    ⟨calendarDuration_of_writtenDuration h key, _, rfl, ?later, ?earlier⟩⟩
  case sum =>
    rw [applyTo_of_nonneg range rfl millis, Binary64.toInt_ofIntClamp_eq]
  case forward =>
    intro positive
    rw [sign, if_pos positive, Int.one_mul, Int.one_mul] at direction
    exact Int64.le_iff_toInt_le.mpr direction
  case backward =>
    intro negative
    rw [sign, if_neg (by rw [negative]; exact Bool.false_ne_true)] at direction
    exact Int64.le_iff_toInt_le.mpr (by omega)
  case later =>
    intro positive
    rw [sign, if_pos positive, Int.one_mul, Int.one_mul] at direction
    rw [Int64.le_iff_toInt_le, Binary64.toInt_ofIntClamp_eq]
    have zero : (0 : Int64).toInt = 0 := by decide
    have high : 0 ≤ Int64.maxValue.toInt := by decide
    omega
  case earlier =>
    intro negative
    rw [sign, if_neg (by rw [negative]; exact Bool.false_ne_true)] at direction
    rw [Int64.le_iff_toInt_le, Binary64.toInt_ofIntClamp_eq]
    have zero : (0 : Int64).toInt = 0 := by decide
    have low : Int64.minValue.toInt ≤ 0 := by decide
    omega

/-- More years than a double counts lead to the end of the calendar. -/
theorem applyTo_along_endless :
    Grammar.writtenDuration endless.text = .ok endless.duration ∧
      endless.duration.applyTo 0 = 8210266876799999 ∧
      (∀ u ∈ endless.duration.stops 0, IsHeld u) ∧ 0 ≤ endless.duration.applyTo 0 ∧
      endless.duration.applyTo Int64.minValue = Int64.minValue ∧
      ∃ v : Int64, (Literal.calendarDuration endless.duration).resolve? 0 = some (.ofInt64 v) ∧
        0 ≤ v := by
  have read := endless.writtenDuration_text
  have positive : endless.duration.positive = true := by decide
  obtain ⟨held, -, forward, -, literal⟩ := applyTo_along read 0
  obtain ⟨-, v, value, later, -⟩ := literal "duration"
  exact ⟨read, by decide +kernel, (held (by decide)).1, forward positive,
    (applyTo_along read Int64.minValue).2.1 (by decide), v, value, later positive⟩

end Audience.Duration
