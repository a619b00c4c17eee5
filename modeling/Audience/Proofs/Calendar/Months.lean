import Mathlib
import Audience.Proofs.Calendar.Days

/-! # Shifts by months

Months are counted from the start of year 0. A shift by months lands in the month that it counts to,
on the same day if that month has it and else on its last day, at the same time of day.
-/

namespace Audience.Calendar

def monthLength (index : Int) : Nat :=
  daysInMonth (index / 12) ((index % 12).toNat + 1)

/-- Whether a month is in the calendar. -/
def HasMonth (index : Int) : Prop :=
  firstYear ≤ index / 12 ∧ index / 12 ≤ lastYear

/-- A day of a month, or the last one if the month is shorter. -/
def Date.inMonth (index : Int) (day : Nat) : Date :=
  ⟨index / 12, (index % 12).toNat + 1, min day (monthLength index)⟩

/-- Whether an instant lies on a date, so many milliseconds after the start of the day. -/
def FallsOn (t : Int) (date : Date) (millis : Int) : Prop :=
  DaysFromEpoch (t / dayMillis) date ∧ t % dayMillis = millis

section Dates

variable {d : Date} {index : Int} {day : Nat}

theorem monthLength_bounds (index : Int) : 28 ≤ monthLength index ∧ monthLength index ≤ 31 := by
  refine ⟨?_, daysInMonth_le _ _⟩
  rw [monthLength]
  have month : (index % 12).toNat < 12 := by omega
  interval_cases (index % 12).toNat <;> simp [daysInMonth, monthLengths]
  split <;> decide

@[simp] theorem Date.monthIndex_inMonth (index : Int) (day : Nat) :
    (Date.inMonth index day).monthIndex = index := by
  simp only [monthIndex, inMonth]
  omega

theorem Date.isValid_inMonth (index : Int) (h : 1 ≤ day) :
    (Date.inMonth index day).isValid = true := by
  have some := (monthLength_bounds index).1
  rw [isValid_iff]
  refine ⟨⟨?_, ?_⟩, ?_, Nat.min_le_right _ _⟩
  · exact Nat.le_add_left _ _
  · show (index % 12).toNat + 1 ≤ 12
    omega
  · show 1 ≤ min day (monthLength index)
    omega

theorem Date.monthIndex_div (h : d.isValid = true) : d.monthIndex / 12 = d.year := by
  obtain ⟨⟨m1, m12⟩, -⟩ := isValid_iff.mp h
  rw [monthIndex]
  omega

theorem Date.inMonth_monthIndex (h : d.isValid = true) : Date.inMonth d.monthIndex d.day = d := by
  obtain ⟨⟨m1, m12⟩, d1, dn⟩ := isValid_iff.mp h
  have month : (d.monthIndex % 12).toNat + 1 = d.month := by
    rw [monthIndex]
    omega
  rw [inMonth, monthLength, monthIndex_div h, month, Nat.min_eq_left dn]

theorem Date.addMonths?_of_hasMonth {months : Int} (h : HasMonth (d.monthIndex + months)) :
    d.addMonths? months = some (.inMonth (d.monthIndex + months) d.day) :=
  if_pos h

theorem Date.toDays_bounds (h : d.isValid = true) :
    daysBeforeYear d.year ≤ d.toDays + epochDays ∧
      d.toDays + epochDays < daysBeforeYear (d.year + 1) := by
  have year : yearOfDays (d.toDays + epochDays) = d.year := congrArg Date.year (ofDays_toDays h)
  rw [← year]
  exact yearOfDays_bounds _

theorem Date.toDays_nextMonth (h : d.isValid = true) :
    d.nextMonth.toDays = toDays { d with day := 1 } + daysInMonth d.year d.month := by
  obtain ⟨⟨m1, m12⟩, d1, dn⟩ := isValid_iff.mp h
  have last : Date.isValid { d with day := daysInMonth d.year d.month } = true :=
    isValid_iff.mpr ⟨⟨m1, m12⟩, d1.trans dn, le_rfl⟩
  have behind : Date.next { d with day := daysInMonth d.year d.month } = d.nextMonth := by
    rw [next, nextMonth, if_neg (lt_irrefl _)]
    rcases m12.lt_or_eq with less | last
    · rw [if_pos less, if_neg less.ne]
    · rw [if_neg last.not_lt, if_pos last]
  rw [← behind, toDays_next last]
  simp only [toDays]
  omega

end Dates

section Instants

variable {t u millis : Int} {d : Date}

theorem fallsOn_ofMillis (t : Int) : FallsOn t (.ofMillis t) (t % dayMillis) :=
  ⟨daysFromEpoch_ofDays _, rfl⟩

theorem FallsOn.isValid (h : FallsOn t d millis) : d.isValid = true :=
  (daysFromEpoch_iff.mp h.1).1

theorem FallsOn.ofMillis_eq (h : FallsOn t d millis) : Date.ofMillis t = d := by
  obtain ⟨valid, days⟩ := daysFromEpoch_iff.mp h.1
  rw [Date.ofMillis, ← days, Date.ofDays_toDays valid]

theorem fallsOn_iff : FallsOn t d millis ↔
    d.isValid = true ∧ 0 ≤ millis ∧ millis < dayMillis ∧ t = d.toDays * dayMillis + millis := by
  rw [FallsOn, daysFromEpoch_iff]
  have day : dayMillis = 86400000 := rfl
  rw [day]
  constructor
  · rintro ⟨⟨valid, days⟩, rest⟩
    exact ⟨valid, by omega, by omega, by omega⟩
  · rintro ⟨valid, low, high, rfl⟩
    exact ⟨⟨valid, by omega⟩, by omega⟩

theorem FallsOn.unique (ht : FallsOn t d millis) (hu : FallsOn u d millis) : t = u := by
  rw [(fallsOn_iff.mp ht).2.2.2, (fallsOn_iff.mp hu).2.2.2]

theorem FallsOn.inRange_iff (h : FallsOn t d millis) :
    inRange t = true ↔ HasMonth d.monthIndex := by
  obtain ⟨valid, low, high, rfl⟩ := fallsOn_iff.mp h
  obtain ⟨first, last⟩ := Date.toDays_bounds valid
  have start (y : Int) : Date.toDays ⟨y, 1, 1⟩ = daysBeforeYear y - epochDays := by
    simp [Date.toDays, daysOfMonths]
  rw [HasMonth, Date.monthIndex_div valid, inRange, Bool.and_eq_true, decide_eq_true_eq,
    decide_eq_true_eq, earliest, latest, start, start]
  have day : dayMillis = 86400000 := rfl
  rw [day] at high ⊢
  constructor
  · rintro ⟨after, before⟩
    constructor
    · by_contra! earlier
      have order := daysBeforeYear_le (show d.year + 1 ≤ firstYear from earlier)
      omega
    · by_contra! later
      have order := daysBeforeYear_le (show lastYear + 1 ≤ d.year from later)
      omega
  · rintro ⟨after, before⟩
    have start := daysBeforeYear_le after
    have stop := daysBeforeYear_le (show d.year + 1 ≤ lastYear + 1 by omega)
    constructor <;> omega

theorem monthLengthAt_le (t : Int) : monthLengthAt t ≤ 31 := by
  rw [monthLengthAt]
  split
  · have length := daysInMonth_le (Date.ofMillis t).year (Date.ofMillis t).month
    rw [Date.toDays_nextMonth (fallsOn_ofMillis t).isValid, add_sub_cancel_left,
      Int.toNat_natCast]
    exact length
  · exact le_rfl

/-- The months of the calendar have their lengths, the last one included. -/
theorem FallsOn.monthLengthAt_eq (h : FallsOn t d millis) (range : inRange t = true) :
    monthLengthAt t = daysInMonth d.year d.month := by
  have valid := h.isValid
  obtain ⟨first, last⟩ := h.inRange_iff.mp range
  rw [Date.monthIndex_div valid] at first last
  rw [monthLengthAt, h.ofMillis_eq]
  split
  · rw [Date.toDays_nextMonth valid, add_sub_cancel_left, Int.toNat_natCast]
  next ends =>
    have december : d.month = 12 := by
      by_contra! other
      rw [Date.nextMonth, if_neg other] at ends
      exact ends ⟨first, last⟩
    rw [december]
    rfl

theorem FallsOn.shiftMonths {months : Int} (h : FallsOn t d millis)
    (range : HasMonth (d.monthIndex + months)) :
    FallsOn (shiftMonths t months) (.inMonth (d.monthIndex + months) d.day) millis := by
  obtain ⟨valid, low, high, -⟩ := fallsOn_iff.mp h
  have day := (Date.isValid_iff.mp valid).2.1
  have moved : Calendar.shiftMonths t months =
      (Date.inMonth (d.monthIndex + months) d.day).toDays * dayMillis + t % dayMillis := by
    have found := Date.addMonths?_of_hasMonth range
    unfold Calendar.shiftMonths
    rw [h.ofMillis_eq, found]
  rw [h.2] at moved
  exact fallsOn_iff.mpr ⟨Date.isValid_inMonth _ day, low, high, moved⟩

theorem shiftMonths_zero (h : inRange t = true) : shiftMonths t 0 = t := by
  have falls := fallsOn_ofMillis t
  have range : HasMonth ((Date.ofMillis t).monthIndex + 0) := by
    rw [Int.add_zero]
    exact falls.inRange_iff.mp h
  have shifted := falls.shiftMonths range
  rw [Int.add_zero, Date.inMonth_monthIndex falls.isValid] at shifted
  exact shifted.unique falls

end Instants

end Audience.Calendar
