import Mathlib
import Audience.Proofs.Calendar.Months

/-! # The order of shifted instants

Every shift by months ends in the calendar. A shift by more months ends no earlier, and neither do
two shifts in a row, as long as they go the same way.
-/

namespace Audience.Calendar

section Instants

variable {t u millis millis' : Int} {d e : Date}

theorem inRange_iff : inRange t = true ↔ earliest ≤ t ∧ t ≤ latest := by
  rw [inRange, Bool.and_eq_true, decide_eq_true_eq, decide_eq_true_eq]

def Date.first (index : Int) : Date :=
  ⟨index / 12, (index % 12).toNat + 1, 1⟩

theorem Date.isValid_first (index : Int) : (Date.first index).isValid = true := by
  have some := (monthLength_bounds index).1
  rw [monthLength] at some
  refine isValid_iff.mpr ⟨⟨Nat.le_add_left 1 _, ?_⟩, le_rfl, ?_⟩ <;> simp only [first] <;> omega

theorem Date.nextMonth_first (index : Int) :
    (Date.first index).nextMonth = Date.first (index + 1) := by
  rw [nextMonth]
  by_cases december : (Date.first index).month = 12
  · rw [if_pos december]
    simp only [first, mk.injEq, and_true] at december ⊢
    omega
  · rw [if_neg december]
    simp only [first, mk.injEq, and_true] at december ⊢
    omega

def monthStart (index : Int) : Int :=
  (Date.first index).toDays

theorem monthStart_succ (index : Int) :
    monthStart (index + 1) = monthStart index + monthLength index := by
  rw [monthStart, ← Date.nextMonth_first]
  exact Date.toDays_nextMonth (Date.isValid_first index)

theorem strictMono_monthStart : StrictMono monthStart := by
  refine strictMono_int_of_lt_succ fun index => ?_
  have some := (monthLength_bounds index).1
  rw [monthStart_succ]
  omega

theorem Date.toDays_eq (h : d.isValid = true) :
    d.toDays = monthStart d.monthIndex + (d.day - 1) := by
  have day := (isValid_iff.mp h).2.1
  have same := inMonth_monthIndex h
  rw [inMonth, Date.mk.injEq] at same
  have start : Date.first d.monthIndex = { d with day := 1 } := by
    rw [first, same.1, same.2.1]
  rw [monthStart, start]
  simp only [toDays]
  omega

theorem FallsOn.lt_of_monthIndex_lt (ht : FallsOn t d millis) (hu : FallsOn u e millis')
    (h : d.monthIndex < e.monthIndex) : t < u := by
  obtain ⟨valid, -, high, rfl⟩ := fallsOn_iff.mp ht
  obtain ⟨valid', low, -, rfl⟩ := fallsOn_iff.mp hu
  have fits : d.day ≤ monthLength d.monthIndex := by
    have day : min d.day (monthLength d.monthIndex) = d.day :=
      congrArg Date.day (Date.inMonth_monthIndex valid)
    omega
  have some := (Date.isValid_iff.mp valid').2.1
  have months := strictMono_monthStart.monotone (Int.add_one_le_of_lt h)
  rw [monthStart_succ] at months
  have days : d.toDays + 1 ≤ e.toDays := by
    rw [Date.toDays_eq valid, Date.toDays_eq valid']
    omega
  have day : dayMillis = 86400000 := rfl
  rw [day] at high ⊢
  omega

end Instants

section Shifts

variable {t a b a' b' : Int}

def monthAt (t : Int) : Int :=
  (Date.ofMillis t).monthIndex

theorem hasMonth_monthAt (h : inRange t = true) : HasMonth (monthAt t) :=
  (fallsOn_ofMillis t).inRange_iff.mp h

theorem fallsOn_shiftMonths (h : HasMonth (monthAt t + a)) :
    FallsOn (shiftMonths t a) (.inMonth (monthAt t + a) (Date.ofMillis t).day) (t % dayMillis) :=
  (fallsOn_ofMillis t).shiftMonths h

theorem monthAt_shiftMonths (h : HasMonth (monthAt t + a)) :
    monthAt (shiftMonths t a) = monthAt t + a := by
  rw [monthAt, (fallsOn_shiftMonths h).ofMillis_eq, Date.monthIndex_inMonth]

theorem Date.addMonths?_of_not_hasMonth {d : Date} (h : ¬ HasMonth (d.monthIndex + a)) :
    d.addMonths? a = none :=
  if_neg h

theorem shiftMonths_of_not_hasMonth (h : ¬ HasMonth (monthAt t + a)) :
    shiftMonths t a = if 0 ≤ a then latest else earliest := by
  have out : (Date.ofMillis t).addMonths? a = none := Date.addMonths?_of_not_hasMonth h
  unfold shiftMonths
  rw [out]

theorem inRange_shiftMonths (t a : Int) : inRange (shiftMonths t a) = true := by
  by_cases h : HasMonth (monthAt t + a)
  · rw [(fallsOn_shiftMonths h).inRange_iff, Date.monthIndex_inMonth]
    exact h
  · rw [shiftMonths_of_not_hasMonth h]
    split <;> decide

theorem shiftMonths_le_of_monthAt_lt (ht : HasMonth (monthAt t + a))
    {u : Int} (hu : HasMonth (monthAt u + b)) (h : monthAt t + a < monthAt u + b) :
    shiftMonths t a ≤ shiftMonths u b := by
  refine ((fallsOn_shiftMonths ht).lt_of_monthIndex_lt (fallsOn_shiftMonths hu) ?_).le
  rwa [Date.monthIndex_inMonth, Date.monthIndex_inMonth]

theorem shiftMonths_latest (h : 0 ≤ a) : shiftMonths latest a = latest := by
  have last : monthAt latest = 12 * lastYear + 11 := by decide +kernel
  rcases h.eq_or_lt with rfl | more
  · exact shiftMonths_zero (by decide)
  · rw [shiftMonths_of_not_hasMonth, if_pos h]
    rw [last, HasMonth]
    omega

theorem shiftMonths_earliest (h : a ≤ 0) : shiftMonths earliest a = earliest := by
  have first : monthAt earliest = 12 * firstYear := by decide +kernel
  rcases h.eq_or_lt with rfl | less
  · exact shiftMonths_zero (by decide)
  · rw [shiftMonths_of_not_hasMonth, if_neg less.not_ge]
    rw [first, HasMonth]
    omega

/-- Of two shifts forward, the longer ones end no earlier. -/
theorem shiftMonths_forward (range : inRange t = true) (ha : 0 ≤ a) (hb : 0 ≤ b) (haa : a ≤ a')
    (hbb : b ≤ b') : shiftMonths (shiftMonths t a) b ≤ shiftMonths (shiftMonths t a') b' := by
  have start := hasMonth_monthAt range
  have bound := (inRange_iff.mp (inRange_shiftMonths (shiftMonths t a) b)).2
  by_cases middle : HasMonth (monthAt t + a')
  · have moved := monthAt_shiftMonths middle
    by_cases stop : HasMonth (monthAt (shiftMonths t a') + b')
    · rw [moved] at stop
      have middle' : HasMonth (monthAt t + a) := by
        rw [HasMonth] at *
        omega
      have moved' := monthAt_shiftMonths middle'
      have stop' : HasMonth (monthAt t + a + b) := by
        rw [HasMonth] at *
        omega
      rcases (show monthAt t + a + b ≤ monthAt t + a' + b' by omega).eq_or_lt with same | less
      · obtain ⟨rfl, rfl⟩ : a = a' ∧ b = b' := by omega
        exact le_rfl
      · rw [← moved] at stop less
        rw [← moved'] at stop' less
        exact shiftMonths_le_of_monthAt_lt stop' stop less
    · rwa [shiftMonths_of_not_hasMonth stop, if_pos (hb.trans hbb)]
  · rwa [shiftMonths_of_not_hasMonth middle, if_pos (ha.trans haa),
      shiftMonths_latest (hb.trans hbb)]

theorem shiftMonths_backward (range : inRange t = true) (ha : a ≤ 0) (hb : b ≤ 0) (haa : a' ≤ a)
    (hbb : b' ≤ b) : shiftMonths (shiftMonths t a') b' ≤ shiftMonths (shiftMonths t a) b := by
  have start := hasMonth_monthAt range
  have bound := (inRange_iff.mp (inRange_shiftMonths (shiftMonths t a) b)).1
  by_cases middle : HasMonth (monthAt t + a')
  · have moved := monthAt_shiftMonths middle
    by_cases stop : HasMonth (monthAt (shiftMonths t a') + b')
    · rw [moved] at stop
      have middle' : HasMonth (monthAt t + a) := by
        rw [HasMonth] at *
        omega
      have moved' := monthAt_shiftMonths middle'
      have stop' : HasMonth (monthAt t + a + b) := by
        rw [HasMonth] at *
        omega
      rcases (show monthAt t + a' + b' ≤ monthAt t + a + b by omega).eq_or_lt with same | less
      · obtain ⟨rfl, rfl⟩ : a = a' ∧ b = b' := by omega
        exact le_rfl
      · rw [← moved] at stop less
        rw [← moved'] at stop' less
        exact shiftMonths_le_of_monthAt_lt stop stop' less
    · have less : b' < 0 := by
        by_contra! none
        obtain rfl : b' = 0 := by omega
        rw [moved, add_zero] at stop
        exact stop middle
      rwa [shiftMonths_of_not_hasMonth stop, if_neg less.not_ge]
  · have less : a' < 0 := by
      by_contra! none
      obtain rfl : a' = 0 := by omega
      rw [add_zero] at middle
      exact middle start
    rwa [shiftMonths_of_not_hasMonth middle, if_neg less.not_ge,
      shiftMonths_earliest (hbb.trans hb)]

end Shifts

end Audience.Calendar
