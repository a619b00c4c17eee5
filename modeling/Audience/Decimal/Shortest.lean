import Audience.Decimal.Numeral

/-! # Shortest decimals

The decimal of a positive double is the one with the fewest digits that reads back as the
same double, and of those the nearest to it; where two are equally near, a tie rule decides.
The search runs over decimal grids from coarse
to fine; on each grid only the two neighbours of the double can win.
-/

namespace Audience.Decimal

/-- Where a value halfway between two decimals goes. -/
inductive Tie where
  | toEven
  | up
  deriving DecidableEq, Repr

def Tie.choose (tie : Tie) (below : Nat) : Nat :=
  match tie with
  | .toEven => below + below % 2
  | .up => below + 1

/-- The doubles' rounding interval around a magnitude, counted in quarters of a quantum. -/
structure Interval where
  low : Nat
  value : Nat
  high : Nat
  /-- Whether the ends belong to the interval: a half goes to the even significand. -/
  closed : Bool

/-- Below a power of two doubles lie twice as close. -/
def Interval.around (quanta : Nat) : Interval :=
  let s := Binary64.spare quanta
  let significand := quanta >>> s
  let half := 2 <<< s
  { low := 4 * quanta - (if significand = Binary64.hiddenBit ∧ 0 < s then half / 2 else half)
    value := 4 * quanta
    high := 4 * quanta + half
    closed := significand % 2 = 0 }

/-- A decimal grid, as the ratio of its step to a quarter of a quantum. -/
structure Grid where
  num : Nat
  den : Nat

def Grid.ofExponent (exponent : Int) : Grid :=
  let quarters := 1 <<< (Binary64.quantaLog + 2)
  if 0 ≤ exponent then ⟨quarters * tenTo exponent.toNat, 1⟩
  else ⟨quarters, tenTo (-exponent).toNat⟩

def Interval.contains (i : Interval) (g : Grid) (step : Nat) : Bool :=
  let x := step * g.num
  if i.closed then i.low * g.den ≤ x && x ≤ i.high * g.den
  else i.low * g.den < x && x < i.high * g.den

/-- The neighbour of the value on the grid that lies in the interval, the nearer of two. -/
def Interval.onGrid? (i : Interval) (tie : Tie) (g : Grid) : Option Nat :=
  let target := i.value * g.den
  let below := target / g.num
  match i.contains g below, i.contains g (below + 1) with
  | true, true =>
    match compare (2 * (target % g.num)) g.num with
    | .lt => some below
    | .gt => some (below + 1)
    | .eq => some (tie.choose below)
  | true, false => some below
  | false, true => some (below + 1)
  | false, false => none

/-- The exponent of a grid too coarse to hold the magnitude, within two of the first to try. -/
def coarsest (quanta : Nat) : Int :=
  ((quanta.log2 : Int) - Binary64.quantaLog) * 30103 / 100000 + 2

/-- The shortest decimal of a positive number of quanta. -/
def shortest (tie : Tie) (quanta : Nat) : Numeral :=
  let i := Interval.around quanta
  let attempt (k : Nat) : Option Numeral :=
    let exponent := coarsest quanta - k
    (i.onGrid? tie (Grid.ofExponent exponent)).map (⟨·, exponent⟩)
  ((List.range 24).findSome? attempt).getD ⟨0, 0⟩

end Audience.Decimal
