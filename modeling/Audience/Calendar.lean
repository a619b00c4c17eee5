/-! # The proleptic Gregorian calendar

Days are counted from 1970-01-01 and instants in milliseconds from its start, in UTC. A shift
by months keeps the time of day and clamps the day to the length of the month reached.
-/

namespace Audience.Calendar

structure Date where
  year : Int
  month : Nat
  day : Nat
  deriving DecidableEq, Repr

def dayMillis : Int := 86400000

def isLeap (year : Int) : Bool :=
  year % 4 = 0 && (year % 100 ≠ 0 || year % 400 = 0)

def monthLengths (year : Int) : List Nat :=
  [31, if isLeap year then 29 else 28, 31, 30, 31, 30, 31, 31, 30, 31, 30, 31]

def daysInMonth (year : Int) (month : Nat) : Nat :=
  (monthLengths year)[month - 1]?.getD 0

/-- The days of the years 1 to `year - 1`. -/
def daysBeforeYear (year : Int) : Int :=
  let y := year - 1
  365 * y + y / 4 - y / 100 + y / 400

theorem daysBeforeYear_succ (y : Int) :
    daysBeforeYear (y + 1) = daysBeforeYear y + (if isLeap y then 366 else 365) := by
  simp only [daysBeforeYear, isLeap, Bool.and_eq_true, Bool.or_eq_true, decide_eq_true_eq, ne_eq]
  split <;> omega

/-- The days from 0001-01-01 to 1970-01-01. -/
def epochDays : Int := 719162

def daysOfMonths : List Nat → Nat → Nat
  | length :: rest, months + 1 => length + daysOfMonths rest months
  | _, _ => 0

theorem daysOfMonths_monthLengths (y : Int) :
    daysOfMonths (monthLengths y) 12 = if isLeap y then 366 else 365 := by
  simp only [monthLengths]
  split <;> rfl

def Date.toDays (d : Date) : Int :=
  daysBeforeYear d.year + daysOfMonths (monthLengths d.year) (d.month - 1) + (d.day - 1) -
    epochDays

def Date.isValid (d : Date) : Bool :=
  1 ≤ d.month && d.month ≤ 12 && 1 ≤ d.day && d.day ≤ daysInMonth d.year d.month

/-- The year of a day counted from 0001-01-01. The mean length of years gives it up to one. -/
def yearOfDays (days : Int) : Int :=
  let guess := 400 * days / 146097 + 1
  if days < daysBeforeYear guess then guess - 1
  else if daysBeforeYear (guess + 1) ≤ days then guess + 1
  else guess

theorem yearOfDays_bounds (n : Int) :
    daysBeforeYear (yearOfDays n) ≤ n ∧ n < daysBeforeYear (yearOfDays n + 1) := by
  simp only [yearOfDays]
  split
  · simp only [daysBeforeYear] at *
    omega
  · split <;> simp only [daysBeforeYear] at * <;> omega

/-- Finds the month that holds a day of the year, both counted from zero. -/
def findMonth : List Nat → Nat → Nat × Nat
  | [], day => (0, day)
  | length :: rest, day =>
    if day < length then (0, day)
    else
      let (month, day) := findMonth rest (day - length)
      (month + 1, day)

theorem findMonth_bounds (lengths : List Nat) (day : Nat)
    (h : day < daysOfMonths lengths lengths.length) :
    (findMonth lengths day).1 < lengths.length ∧
      daysOfMonths lengths (findMonth lengths day).1 + (findMonth lengths day).2 = day ∧
      (findMonth lengths day).2 < lengths[(findMonth lengths day).1]?.getD 0 := by
  induction lengths generalizing day with
  | nil => simp [daysOfMonths] at h
  | cons length rest ih =>
    simp only [findMonth]
    split
    · simp [daysOfMonths, *]
    · have := ih (day - length) (by simp only [daysOfMonths, List.length_cons] at h; omega)
      simp only [daysOfMonths, List.length_cons, List.getElem?_cons_succ]
      omega

def Date.ofDays (days : Int) : Date :=
  let fromStart := days + epochDays
  let year := yearOfDays fromStart
  let (month, day) := findMonth (monthLengths year) (fromStart - daysBeforeYear year).toNat
  ⟨year, month + 1, day + 1⟩

theorem findMonth_monthLengths {year n : Int} (first : daysBeforeYear year ≤ n)
    (last : n < daysBeforeYear (year + 1)) :
    (findMonth (monthLengths year) (n - daysBeforeYear year).toNat).1 < 12 ∧
      daysBeforeYear year +
        daysOfMonths (monthLengths year)
          (findMonth (monthLengths year) (n - daysBeforeYear year).toNat).1 +
        (findMonth (monthLengths year) (n - daysBeforeYear year).toNat).2 = n ∧
      (findMonth (monthLengths year) (n - daysBeforeYear year).toNat).2 <
        (monthLengths year)[(findMonth (monthLengths year)
          (n - daysBeforeYear year).toNat).1]?.getD 0 := by
  have length := daysOfMonths_monthLengths year
  rw [daysBeforeYear_succ] at last
  have month := findMonth_bounds (monthLengths year) (n - daysBeforeYear year).toNat (by
    change _ < daysOfMonths _ 12
    rw [length]
    split <;> simp_all <;> omega)
  refine ⟨month.1, ?_, month.2.2⟩
  omega

theorem toDays_ofDays (n : Int) : (Date.ofDays n).toDays = n := by
  obtain ⟨first, last⟩ := yearOfDays_bounds (n + epochDays)
  have month := (findMonth_monthLengths first last).2.1
  simp only [Date.ofDays, Date.toDays, Nat.add_sub_cancel]
  omega

def Date.ofMillis (t : Int) : Date :=
  .ofDays (t / dayMillis)

def firstYear : Int := -262143

def lastYear : Int := 262142

def earliest : Int :=
  Date.toDays ⟨firstYear, 1, 1⟩ * dayMillis

def latest : Int :=
  Date.toDays ⟨lastYear + 1, 1, 1⟩ * dayMillis - 1

def inRange (t : Int) : Bool :=
  earliest ≤ t && t ≤ latest

/-- The months since the start of year 0. -/
def Date.monthIndex (d : Date) : Int :=
  12 * d.year + (d.month - 1)

/-- The date so many months later, its day clamped, if its year is in the calendar. -/
def Date.addMonths? (d : Date) (months : Int) : Option Date :=
  let index := d.monthIndex + months
  let year := index / 12
  let month := (index % 12).toNat + 1
  if firstYear ≤ year ∧ year ≤ lastYear then
    some ⟨year, month, min d.day (daysInMonth year month)⟩
  else none

/-- The instant so many months later. A shift out of the calendar stops at its end. -/
def shiftMonths (t : Int) (months : Int) : Int :=
  match (Date.ofMillis t).addMonths? months with
  | some d => d.toDays * dayMillis + t % dayMillis
  | none => if 0 ≤ months then latest else earliest

def Date.nextMonth (d : Date) : Date :=
  if d.month = 12 then ⟨d.year + 1, 1, 1⟩ else ⟨d.year, d.month + 1, 1⟩

/-- The length of the month an instant lies in, counted to the first day of the next one. Where the
calendar ends there is no next one, and the month is a December. -/
def monthLengthAt (t : Int) : Nat :=
  let d := Date.ofMillis t
  if firstYear ≤ d.year ∧ d.nextMonth.year ≤ lastYear then
    (d.nextMonth.toDays - Date.toDays { d with day := 1 }).toNat
  else 31

end Audience.Calendar
