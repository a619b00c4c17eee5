import Mathlib
import Audience.Calendar

/-! # Counting days

Going through the calendar day by day from 1970-01-01, forward and backward, every day is counted
once. The number of a day is this count, and the day of a number is found from it alone.
-/

namespace Audience.Calendar

theorem length_monthLengths (y : Int) : (monthLengths y).length = 12 := rfl

theorem daysOfMonths_succ (lengths : List Nat) {months : Nat} (h : months < lengths.length) :
    daysOfMonths lengths (months + 1) =
      daysOfMonths lengths months + lengths[months]?.getD 0 := by
  induction lengths generalizing months with
  | nil => cases h
  | cons length rest ih =>
    cases months with
    | zero => simp [daysOfMonths]
    | succ months =>
      have shorter : months < rest.length := by simpa using h
      simp only [daysOfMonths, List.getElem?_cons_succ] at ih ⊢
      rw [ih shorter, Nat.add_assoc]

theorem daysOfMonths_le (lengths : List Nat) {a b : Nat} (h : a ≤ b) :
    daysOfMonths lengths a ≤ daysOfMonths lengths b := by
  induction lengths generalizing a b with
  | nil => simp [daysOfMonths]
  | cons length rest ih =>
    cases a with
    | zero => simp [daysOfMonths]
    | succ a =>
      obtain ⟨b, rfl⟩ := Nat.exists_eq_add_of_le' (Nat.lt_of_lt_of_le (Nat.succ_pos a) h)
      have tail := ih (Nat.le_of_succ_le_succ h)
      simp only [daysOfMonths]
      omega

theorem daysInMonth_pos (y : Int) {m : Nat} (m1 : 1 ≤ m) (m12 : m ≤ 12) :
    1 ≤ daysInMonth y m := by
  interval_cases m <;> simp [daysInMonth, monthLengths]
  split <;> decide

theorem daysInMonth_le (y : Int) (m : Nat) : daysInMonth y m ≤ 31 := by
  have short : ∀ length ∈ monthLengths y, length ≤ 31 := by
    simp only [monthLengths]
    split <;> decide
  rw [daysInMonth]
  cases h : (monthLengths y)[m - 1]? with
  | none => exact Nat.zero_le 31
  | some length => exact short length (List.mem_of_getElem? h)

theorem daysBeforeYear_le {y z : Int} (h : y ≤ z) : daysBeforeYear y ≤ daysBeforeYear z := by
  rcases Int.lt_or_eq_of_le h with less | rfl
  · simp only [daysBeforeYear]
    omega
  · exact le_rfl

theorem yearOfDays_eq {y n : Int} (first : daysBeforeYear y ≤ n)
    (last : n < daysBeforeYear (y + 1)) : yearOfDays n = y := by
  obtain ⟨start, stop⟩ := yearOfDays_bounds n
  rcases lt_trichotomy (yearOfDays n) y with less | same | more
  · have := daysBeforeYear_le (show yearOfDays n + 1 ≤ y from less)
    omega
  · exact same
  · have := daysBeforeYear_le (show y + 1 ≤ yearOfDays n from more)
    omega

theorem findMonth_daysOfMonths {lengths : List Nat} {months day : Nat}
    (h : months < lengths.length) (hd : day < lengths[months]?.getD 0) :
    findMonth lengths (daysOfMonths lengths months + day) = (months, day) := by
  induction lengths generalizing months with
  | nil => cases h
  | cons length rest ih =>
    cases months with
    | zero =>
      have short : day < length := by simpa using hd
      simp [findMonth, daysOfMonths, short]
    | succ months =>
      have later : findMonth rest (daysOfMonths rest months + day) = (months, day) :=
        ih (by simpa using h) (by simpa using hd)
      have beyond : ¬ length + daysOfMonths rest months + day < length := by omega
      have left : length + daysOfMonths rest months + day - length =
          daysOfMonths rest months + day := by omega
      simp only [findMonth, daysOfMonths, beyond, if_false, left, later]

namespace Date

theorem isValid_iff {d : Date} : d.isValid = true ↔
    (1 ≤ d.month ∧ d.month ≤ 12) ∧ 1 ≤ d.day ∧ d.day ≤ daysInMonth d.year d.month := by
  simp [isValid, and_assoc]

def next (d : Date) : Date :=
  if d.day < daysInMonth d.year d.month then { d with day := d.day + 1 }
  else if d.month < 12 then { d with month := d.month + 1, day := 1 }
  else ⟨d.year + 1, 1, 1⟩

theorem daysOfMonths_month {d : Date} (h : d.isValid = true) :
    daysOfMonths (monthLengths d.year) d.month =
      daysOfMonths (monthLengths d.year) (d.month - 1) + daysInMonth d.year d.month := by
  obtain ⟨⟨m1, m12⟩, -⟩ := isValid_iff.mp h
  have inYear : d.month - 1 < (monthLengths d.year).length := by
    rw [length_monthLengths]
    omega
  have step := daysOfMonths_succ (monthLengths d.year) inYear
  rwa [Nat.sub_add_cancel m1] at step

theorem toDays_next {d : Date} (h : d.isValid = true) : d.next.toDays = d.toDays + 1 := by
  obtain ⟨⟨m1, m12⟩, d1, dn⟩ := isValid_iff.mp h
  have months := daysOfMonths_month h
  unfold next
  split
  · simp only [toDays]
    omega
  · split
    · simp only [toDays, Nat.add_sub_cancel, months]
      omega
    · have last : d.month = 12 := by omega
      have year := daysOfMonths_monthLengths d.year
      have start : daysOfMonths (monthLengths (d.year + 1)) 0 = 0 := by simp [daysOfMonths]
      rw [← last, months] at year
      simp only [toDays, daysBeforeYear_succ, Nat.sub_self, start]
      split at year <;> simp_all <;> omega

theorem isValid_next {d : Date} (h : d.isValid = true) : d.next.isValid = true := by
  obtain ⟨⟨m1, m12⟩, d1, dn⟩ := isValid_iff.mp h
  unfold next
  rw [isValid_iff]
  split
  next inMonth => exact ⟨⟨m1, m12⟩, Nat.le_add_left 1 d.day, inMonth⟩
  next =>
    split
    next inYear =>
      exact ⟨⟨Nat.le_add_left 1 d.month, inYear⟩, le_rfl, daysInMonth_pos _ (by simp) inYear⟩
    next => exact ⟨⟨le_rfl, by simp⟩, le_rfl, daysInMonth_pos _ le_rfl (by simp)⟩

theorem isValid_ofDays (n : Int) : (ofDays n).isValid = true := by
  obtain ⟨first, last⟩ := yearOfDays_bounds (n + epochDays)
  obtain ⟨month, -, day⟩ := findMonth_monthLengths first last
  refine isValid_iff.mpr ⟨⟨?_, ?_⟩, ?_, ?_⟩ <;>
    simp only [ofDays, daysInMonth, Nat.add_sub_cancel] <;> omega

theorem ofDays_toDays {d : Date} (h : d.isValid = true) : ofDays d.toDays = d := by
  obtain ⟨⟨m1, m12⟩, d1, dn⟩ := isValid_iff.mp h
  have inYear : d.month - 1 < (monthLengths d.year).length := by
    rw [length_monthLengths]
    omega
  have months := daysOfMonths_month h
  have year : daysOfMonths (monthLengths d.year) d.month ≤ if isLeap d.year then 366 else 365 := by
    rw [← daysOfMonths_monthLengths]
    exact daysOfMonths_le _ m12
  have found : yearOfDays (d.toDays + epochDays) = d.year := by
    apply yearOfDays_eq
    · simp only [toDays]
      omega
    · rw [daysBeforeYear_succ]
      simp only [toDays]
      split at year <;> simp_all <;> omega
  have inMonth : findMonth (monthLengths d.year)
      (d.toDays + epochDays - daysBeforeYear d.year).toNat = (d.month - 1, d.day - 1) := by
    rw [← findMonth_daysOfMonths inYear (show d.day - 1 < _ by unfold daysInMonth at dn; omega)]
    congr 1
    simp only [toDays]
    omega
  simp only [ofDays, found, inMonth]
  rw [Nat.sub_add_cancel m1, Nat.sub_add_cancel d1]

theorem next_ofDays (n : Int) : (ofDays n).next = ofDays (n + 1) := by
  have number : (ofDays n).next.toDays = n + 1 := by
    rw [toDays_next (isValid_ofDays n), toDays_ofDays]
  rw [← number, ofDays_toDays (isValid_next (isValid_ofDays n))]

end Date

/-- The number of days from 1970-01-01 to a day, told by going from day to day. -/
inductive DaysFromEpoch : Int → Date → Prop where
  | epoch : DaysFromEpoch 0 ⟨1970, 1, 1⟩
  | next {n d} (h : DaysFromEpoch n d) : DaysFromEpoch (n + 1) d.next
  | previous {n d} (valid : d.isValid = true) (h : DaysFromEpoch (n + 1) d.next) :
      DaysFromEpoch n d

theorem daysFromEpoch_ofDays (n : Int) : DaysFromEpoch n (.ofDays n) := by
  induction n using Int.induction_on with
  | zero =>
    have first : Date.ofDays 0 = ⟨1970, 1, 1⟩ := by decide
    rw [first]
    exact .epoch
  | succ n ih =>
    rw [← Date.next_ofDays]
    exact .next ih
  | pred n ih =>
    refine .previous (Date.isValid_ofDays _) ?_
    rwa [Date.next_ofDays, Int.sub_add_cancel]

/-- The number of a day counts the days from 1970-01-01. -/
theorem daysFromEpoch_iff {n : Int} {d : Date} :
    DaysFromEpoch n d ↔ d.isValid = true ∧ d.toDays = n := by
  constructor
  · intro h
    induction h with
    | epoch => exact ⟨by decide, by decide⟩
    | next _ ih => exact ⟨Date.isValid_next ih.1, by rw [Date.toDays_next ih.1, ih.2]⟩
    | previous valid _ ih =>
      have number := ih.2
      rw [Date.toDays_next valid] at number
      exact ⟨valid, by omega⟩
  · rintro ⟨valid, rfl⟩
    have counted := daysFromEpoch_ofDays d.toDays
    rwa [Date.ofDays_toDays valid] at counted

end Audience.Calendar
