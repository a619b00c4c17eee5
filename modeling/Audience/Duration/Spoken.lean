import Audience.Decimal.Numeral
import Audience.Text.Blank

/-! # Spoken durations

An amount and a unit, such as `1.5 hours`, give a number of milliseconds. A text can fail in
three ways, checked in this order: it does not have the shape of an amount and a word, the
amount is not a number, or the word is not a unit.
-/

namespace Audience.Spoken

inductive Fault where
  | shape (text : String)
  | amount (text : String)
  | unit (text : String)
  deriving DecidableEq, Repr

/-- The parts of a text that has the shape of a spoken duration. -/
structure Shape where
  sign : List Char
  mantissa : List Char
  /-- The exponent with its letter and sign, or nothing. -/
  exponent : List Char
  unit : List Char

def isMantissa (c : Char) : Bool :=
  c.isDigit || c = '.'

def splitSign : List Char → List Char × List Char
  | '+' :: rest => (['+'], rest)
  | '-' :: rest => (['-'], rest)
  | s => ([], s)

/-- Splits off an exponent. A letter without digits after it belongs to the unit. -/
def splitExponent (s : List Char) : List Char × List Char :=
  match s with
  | [] => ([], [])
  | e :: rest =>
    let (sign, rest) := splitSign rest
    let digits := rest.takeWhile Char.isDigit
    if (e = 'e' ∨ e = 'E') ∧ digits ≠ [] then
      (e :: sign ++ digits, rest.dropWhile Char.isDigit)
    else ([], s)

def Shape.ofChars? (s : List Char) : Option Shape :=
  let (sign, s) := splitSign (s.dropWhile Text.isBlank)
  let mantissa := s.takeWhile isMantissa
  let (exponent, s) := splitExponent (s.dropWhile isMantissa)
  let s := s.dropWhile Text.isBlank
  let unit := s.takeWhile Char.isAlpha
  let rest := (s.dropWhile Char.isAlpha).dropWhile Text.isBlank
  if mantissa ≠ [] ∧ rest = [] then some { sign, mantissa, exponent, unit } else none

def Shape.amountText (s : Shape) : String :=
  String.ofList (s.sign ++ s.mantissa ++ s.exponent)

def Shape.amount? (s : Shape) : Option Float :=
  (fun n => if s.sign = ['-'] then -n.toFloat else n.toFloat) <$>
    Numeral.ofChars? (s.mantissa ++ s.exponent)

def unitMillis? (unit : String) : Option Float :=
  if unit ∈ ["nanoseconds", "nanosecond", "nanos", "ns"] then some 1e-6
  else if unit ∈ ["microseconds", "microsecond", "micros", "us"] then some 1e-3
  else if unit ∈ ["milliseconds", "millisecond", "millis", "ms"] then some 1
  else if unit ∈ ["seconds", "second", "secs", "sec", "s"] then some 1000
  else if unit ∈ ["minutes", "minute", "min", "m"] then some 60000
  else if unit ∈ ["hours", "hour", "hr", "h"] then some 3600000
  else if unit ∈ ["days", "day", "d"] then some 86400000
  else if unit ∈ ["weeks", "week", "w"] then some 604800000
  else none

/-- The milliseconds that a text speaks of. -/
def millis (text : String) : Except Fault Float := do
  let some shape := Shape.ofChars? text.toList | throw (.shape text)
  let some amount := shape.amount? | throw (.amount shape.amountText)
  let some unit := unitMillis? (String.ofList shape.unit)
    | throw (.unit (String.ofList shape.unit))
  return amount * unit

end Audience.Spoken
