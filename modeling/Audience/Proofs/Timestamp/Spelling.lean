import Mathlib
import Audience.Timestamp
import Audience.Proofs.Decimal.Digits

/-! # Spellings of instants

An instant is spelled by a date, perhaps a time, and perhaps an offset from UTC, each of which may
stop early. One text can be a spelling in several ways: `2020-05-03` may be a date, or a month with
an offset of three hours to the west.
-/

namespace Audience.Timestamp

inductive DateText where
  | year (year : Fin 10000)
  | month (year : Fin 10000) (month : Fin 100)
  | day (year : Fin 10000) (month day : Fin 100)

inductive TimeText where
  | hour (hour : Fin 100)
  | minute (hour minute : Fin 100)
  | second (hour minute second : Fin 100)
  | milli (hour minute second : Fin 100) (milli : Fin 1000)

/-- An offset from UTC, to the east or to the west, as far as it is written. -/
inductive OffsetText where
  | utc
  | hour (east : Bool) (hour : Fin 100)
  | minute (east : Bool) (hour minute : Fin 100)

structure Spelling where
  date : DateText
  time : Option TimeText
  offset : Option OffsetText

def DateText.chars : DateText → List Char
  | .year y => padded 4 y
  | .month y m => padded 4 y ++ '-' :: padded 2 m
  | .day y m d => padded 4 y ++ '-' :: (padded 2 m ++ '-' :: padded 2 d)

def TimeText.chars : TimeText → List Char
  | .hour h => 'T' :: padded 2 h
  | .minute h m => 'T' :: (padded 2 h ++ ':' :: padded 2 m)
  | .second h m s => 'T' :: (padded 2 h ++ ':' :: (padded 2 m ++ ':' :: padded 2 s))
  | .milli h m s f =>
    'T' :: (padded 2 h ++ ':' :: (padded 2 m ++ ':' :: (padded 2 s ++ '.' :: padded 3 f)))

def OffsetText.sign (east : Bool) : Char :=
  if east then '+' else '-'

def OffsetText.chars : OffsetText → List Char
  | .utc => ['Z']
  | .hour east h => sign east :: padded 2 h
  | .minute east h m => sign east :: (padded 2 h ++ ':' :: padded 2 m)

namespace Spelling

def tail (x : Spelling) : List Char :=
  x.time.elim [] TimeText.chars ++ x.offset.elim [] OffsetText.chars

def chars (x : Spelling) : List Char :=
  x.date.chars ++ x.tail

def text (x : Spelling) : String :=
  String.ofList x.chars

theorem text_eq_iff {x : Spelling} {text : String} : x.text = text ↔ x.chars = text.toList := by
  rw [Spelling.text, ← String.toList_inj, String.toList_ofList]

theorem chars_eq_of_text_eq {x y : Spelling} (h : x.text = y.text) : x.chars = y.chars :=
  String.ofList_injective h

/-- No other spelling with the same text has a longer date. -/
def HasLongestDate (x : Spelling) : Prop :=
  ∀ y : Spelling, y.text = x.text → y.date.chars.length ≤ x.date.chars.length

end Spelling

/-- The first of January, where month and day are missing. -/
def DateText.date : DateText → Calendar.Date
  | .year y => ⟨y, 1, 1⟩
  | .month y m => ⟨y, m, 1⟩
  | .day y m d => ⟨y, m, d⟩

def TimeText.time : TimeText → Time
  | .hour h => ⟨h, 0, 0, 0⟩
  | .minute h m => ⟨h, m, 0, 0⟩
  | .second h m s => ⟨h, m, s, 0⟩
  | .milli h m s f => ⟨h, m, s, f⟩

def OffsetText.parts : OffsetText → Bool × Nat × Nat
  | .utc => (true, 0, 0)
  | .hour east h => (east, h, 0)
  | .minute east h m => (east, h, m)

/-- The fields of a spelling, those that are missing at their defaults. -/
def Spelling.fields (x : Spelling) : Fields :=
  let t := x.time.elim ⟨0, 0, 0, 0⟩ TimeText.time
  let o := x.offset.elim (true, 0, 0) OffsetText.parts
  { date := x.date.date
    hour := t.hour
    minute := t.minute
    second := t.second
    milli := t.milli
    east := o.1
    offsetHour := o.2.1
    offsetMinute := o.2.2 }

/-- Fields of a day that the calendar has and of a time of that day, where the last minute of a
day may have a second more. -/
structure Fields.InRange (f : Fields) : Prop where
  month : 1 ≤ f.date.month ∧ f.date.month ≤ 12
  day : 1 ≤ f.date.day ∧ f.date.day ≤ Calendar.daysInMonth f.date.year f.date.month
  hour : f.hour ≤ 23
  minute : f.minute ≤ 59
  second : f.second ≤ 60
  offsetHour : f.offsetHour ≤ 23
  offsetMinute : f.offsetMinute ≤ 59

theorem Fields.isValid_iff (f : Fields) : f.isValid = true ↔ f.InRange := by
  simp only [Fields.isValid, Calendar.Date.isValid, Bool.and_eq_true, decide_eq_true_eq]
  constructor
  · rintro ⟨⟨⟨⟨⟨⟨⟨⟨m1, m12⟩, d1⟩, dn⟩, h⟩, mi⟩, s⟩, oh⟩, om⟩
    exact ⟨⟨m1, m12⟩, ⟨d1, dn⟩, h, mi, s, oh, om⟩
  · rintro ⟨⟨m1, m12⟩, ⟨d1, dn⟩, h, mi, s, oh, om⟩
    exact ⟨⟨⟨⟨⟨⟨⟨⟨m1, m12⟩, d1⟩, dn⟩, h⟩, mi⟩, s⟩, oh⟩, om⟩

end Audience.Timestamp
