import Audience.Decimal.Layout
import Audience.Duration.Basic

/-! # Written durations

The form is `P`, with an optional sign before it, numbers marked Y, M, W and D, and after a
`T` numbers marked H, M and S, each at most once and in this order. A number has digits and
may have a point or comma with more digits. Display writes all seven parts.
-/

namespace Audience.Duration

def number? (s : List Char) : Option (Numeral × List Char) :=
  match s.takeWhile Char.isDigit, s.dropWhile Char.isDigit with
  | [], _ => none
  | whole, c :: rest =>
    if c = '.' ∨ c = ',' then
      some (.ofDigits whole (rest.takeWhile Char.isDigit), rest.dropWhile Char.isDigit)
    else some (.ofDigits whole [], c :: rest)
  | whole, [] => some (.ofDigits whole [], [])

/-- Reads a number that a given mark follows; without it the part is zero. -/
def part (mark : Char) (s : List Char) : Numeral × List Char :=
  match number? s with
  | some (n, c :: rest) => if c = mark then (n, rest) else (⟨0, 0⟩, s)
  | _ => (⟨0, 0⟩, s)

def parts? (s : List Char) : Option (Parts Numeral) :=
  let (years, s) := part 'Y' s
  let (months, s) := part 'M' s
  let (weeks, s) := part 'W' s
  let (days, s) := part 'D' s
  let (hours, minutes, seconds, s) :=
    match s with
    | 'T' :: s =>
      let (hours, s) := part 'H' s
      let (minutes, s) := part 'M' s
      let (seconds, s) := part 'S' s
      (hours, minutes, seconds, s)
    | s => (⟨0, 0⟩, ⟨0, 0⟩, ⟨0, 0⟩, s)
  if s.isEmpty then some { years, months, weeks, days, hours, minutes, seconds } else none

/-- Splits off an optional sign: whether it is not a minus, and the rest. -/
def splitSign : List Char → Bool × List Char
  | '+' :: rest => (true, rest)
  | '-' :: rest => (false, rest)
  | s => (true, s)

/-- Whether a text announces a calendar duration: a `P` after an optional sign. -/
def isAnnounced (text : String) : Bool :=
  (splitSign text.toList).2.head? = some 'P'

/-- The duration a text writes, its numbers exact. -/
def ofText? (text : String) : Option (Duration Numeral) :=
  match splitSign text.toList with
  | (positive, 'P' :: rest) => (⟨positive, ·⟩) <$> parts? rest
  | _ => none

def parse? (text : String) : Option (Duration Float) :=
  (map Numeral.toFloat) <$> ofText? text

def text (d : Duration Float) : String :=
  let sign := if d.positive then "+" else "-"
  let number := Decimal.Layout.plain.text
  let p := d.parts
  sign ++ "P" ++ number p.years ++ "Y" ++ number p.months ++ "M" ++ number p.weeks ++ "W" ++
    number p.days ++ "DT" ++ number p.hours ++ "H" ++ number p.minutes ++ "M" ++
    number p.seconds ++ "S"

end Audience.Duration
