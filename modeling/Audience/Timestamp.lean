import Audience.Calendar
import Audience.Decimal.Numeral

/-! # Absolute dates

A date may stop after its year, month or day, a time after its hour, minute, second or
millisecond, and either may be followed by an offset from UTC. What is missing is the first
of January, midnight, and no offset. Where a text can be split in several ways the longest
date wins.
-/

namespace Audience.Timestamp

/-- The fields of a date as written, before their ranges are checked. -/
structure Fields where
  date : Calendar.Date
  hour : Nat
  minute : Nat
  second : Nat
  milli : Nat
  /-- Whether the offset leads east of UTC. -/
  east : Bool
  offsetHour : Nat
  offsetMinute : Nat
  deriving DecidableEq, Repr

def digits? (count : Nat) (s : List Char) : Option (Nat × List Char) :=
  let front := s.take count
  if front.length = count ∧ front.all Char.isDigit then some (digitsValue front, s.drop count)
  else none

def marked? (mark : Char) (count : Nat) : List Char → Option (Nat × List Char)
  | c :: rest => if c = mark then digits? count rest else none
  | [] => none

/-- The dates that a text can begin with, longest first. -/
def dates (s : List Char) : List (Calendar.Date × List Char) :=
  match digits? 4 s with
  | none => []
  | some (year, afterYear) =>
    let onlyYear := [(⟨year, 1, 1⟩, afterYear)]
    match marked? '-' 2 afterYear with
    | none => onlyYear
    | some (month, afterMonth) =>
      let toMonth := (⟨year, month, 1⟩, afterMonth) :: onlyYear
      match marked? '-' 2 afterMonth with
      | none => toMonth
      | some (day, afterDay) => (⟨year, month, day⟩, afterDay) :: toMonth

/-- The hour, minute, second and millisecond of a time, as far as they are written. -/
structure Time where
  hour : Nat
  minute : Nat
  second : Nat
  milli : Nat

def time (s : List Char) : Time × List Char :=
  match marked? 'T' 2 s with
  | none => (⟨0, 0, 0, 0⟩, s)
  | some (hour, s) =>
    match marked? ':' 2 s with
    | none => (⟨hour, 0, 0, 0⟩, s)
    | some (minute, s) =>
      match marked? ':' 2 s with
      | none => (⟨hour, minute, 0, 0⟩, s)
      | some (second, s) =>
        match marked? '.' 3 s with
        | none => (⟨hour, minute, second, 0⟩, s)
        | some (milli, s) => (⟨hour, minute, second, milli⟩, s)

/-- Reads an offset that ends the text: whether it leads east, its hours and its minutes. -/
def offset? : List Char → Option (Bool × Nat × Nat)
  | [] | ['Z'] => some (true, 0, 0)
  | sign :: rest =>
    if sign = '+' ∨ sign = '-' then
      match digits? 2 rest with
      | some (hour, []) => some (sign = '+', hour, 0)
      | some (hour, rest) =>
        match marked? ':' 2 rest with
        | some (minute, []) => some (sign = '+', hour, minute)
        | _ => none
      | none => none
    else none

def fieldsAfter? (date : Calendar.Date) (rest : List Char) : Option Fields :=
  let (t, rest) := time rest
  match offset? rest with
  | some (east, offsetHour, offsetMinute) =>
    some { date, hour := t.hour, minute := t.minute, second := t.second, milli := t.milli,
           east, offsetHour, offsetMinute }
  | none => none

def fields? (text : String) : Option Fields :=
  (dates text.toList).findSome? fun (date, rest) => fieldsAfter? date rest

/-- A second may be the sixtieth. -/
def Fields.isValid (f : Fields) : Bool :=
  f.date.isValid && f.hour ≤ 23 && f.minute ≤ 59 && f.second ≤ 60 &&
    f.offsetHour ≤ 23 && f.offsetMinute ≤ 59

def Fields.offsetMillis (f : Fields) : Int :=
  let millis : Int := (60 * f.offsetHour + f.offsetMinute) * 60000
  if f.east then millis else -millis

def Fields.millis (f : Fields) : Int :=
  f.date.toDays * Calendar.dayMillis +
    (f.hour * 3600000 + f.minute * 60000 + f.second * 1000 + f.milli : Nat) - f.offsetMillis

/-- The instant that a text writes. -/
def parse? (text : String) : Option Int :=
  (fields? text).bind fun f => if f.isValid then some f.millis else none

end Audience.Timestamp
