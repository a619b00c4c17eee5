import Audience.Binary64
import Audience.Calendar

/-! # Calendar durations

A duration holds seven parts as they were written. It is applied to an instant part by part:
whole years and months move along the calendar, fractions cascade into the next smaller part,
and everything from days down is a fixed number of milliseconds. The cascade is the same over
every kind of number that can drop a fraction and round.
-/

namespace Audience

structure Parts (α : Type) where
  years : α
  months : α
  weeks : α
  days : α
  hours : α
  minutes : α
  seconds : α
  deriving BEq

/-- A duration forward in time, or backward when it is not positive. -/
structure Duration (α : Type) where
  positive : Bool
  parts : Parts α
  deriving BEq

/-- Numbers that a duration can be computed with. -/
class Quantity (α : Type) extends Add α, Sub α, Mul α where
  ofNat : Nat → α
  truncate : α → α
  /-- The nearest whole number, a half going away from zero. -/
  roundAway : α → α
  /-- The whole part, saturating at 64 bits. -/
  toInt64 : α → Int64

instance : Quantity Float where
  ofNat := Binary64.ofNat
  truncate := Binary64.truncate
  roundAway := Binary64.roundAway
  toInt64 := Binary64.toInt64

def Parts.map {α β : Type} (f : α → β) (p : Parts α) : Parts β where
  years := f p.years
  months := f p.months
  weeks := f p.weeks
  days := f p.days
  hours := f p.hours
  minutes := f p.minutes
  seconds := f p.seconds

def Parts.toList {α : Type} (p : Parts α) : List α :=
  [p.years, p.months, p.weeks, p.days, p.hours, p.minutes, p.seconds]

namespace Duration

variable {α β : Type}

def map (f : α → β) (d : Duration α) : Duration β :=
  { d with parts := d.parts.map f }

/-- The same duration the other way in time. -/
def negate (d : Duration α) : Duration α :=
  { d with positive := !d.positive }

def sign (d : Duration α) : Int :=
  if d.positive then 1 else -1

variable [Quantity α]

open Quantity

/-- What is left of a number without its whole part. -/
def fraction (x : α) : α :=
  x - truncate x

/-- The months of a duration with the fraction of its years. -/
def monthsTotal (p : Parts α) : α :=
  p.months + fraction p.years * ofNat 12

/-- The milliseconds from days down, when the month reached has so many days. -/
def offset (p : Parts α) (monthLength : Nat) : α :=
  let days := p.days + p.weeks * ofNat 7 + fraction (monthsTotal p) * ofNat monthLength
  let hours := p.hours + fraction days * ofNat 24
  let minutes := p.minutes + fraction hours * ofNat 60
  let seconds := p.seconds + fraction minutes * ofNat 60
  let millis := roundAway (fraction seconds * ofNat 1000)
  truncate days * ofNat 86400000 + truncate hours * ofNat 3600000 +
    truncate minutes * ofNat 60000 + truncate seconds * ofNat 1000 + millis

/-- The instant after the whole years and months of a duration. -/
def monthReached (d : Duration α) (t : Int) : Int :=
  -- A count of months that stopped at 64 bits would lead out of the calendar as well.
  let years := Calendar.shiftMonths t (d.sign * (12 * (toInt64 d.parts.years).toInt))
  Calendar.shiftMonths years (d.sign * (toInt64 (monthsTotal d.parts)).toInt)

/-- The instant that lies a duration away. An instant outside the calendar stays. -/
def applyTo (d : Duration α) (t : Int64) : Int64 :=
  if Calendar.inRange t.toInt then
    let reached := d.monthReached t.toInt
    let millis := toInt64 (offset d.parts (Calendar.monthLengthAt reached))
    -- The least number of 64 bits has no opposite, so that the milliseconds can stop by themselves.
    let moved := Int64.ofIntClamp (d.sign * millis.toInt)
    Int64.ofIntClamp (reached + moved.toInt)
  else t

end Duration

end Audience
