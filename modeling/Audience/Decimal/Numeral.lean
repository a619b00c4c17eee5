import Audience.Binary64

/-! # Decimal numerals

A numeral is a whole coefficient times a power of ten. It reads as the nearest double;
numerals far outside the range of doubles are settled by their size alone.
-/

namespace Audience

def digitsValue (digits : List Char) : Nat :=
  digits.foldl (fun n c => 10 * n + (c.toNat - '0'.toNat)) 0

def digits? (s : List Char) : Option Nat :=
  if s ≠ [] ∧ s.all Char.isDigit then some (digitsValue s) else none

def signedDigits? : List Char → Option Int
  | '-' :: rest => (fun n : Nat => -(n : Int)) <$> digits? rest
  | '+' :: rest => Int.ofNat <$> digits? rest
  | s => Int.ofNat <$> digits? s

/-- A whole number of sixty-four bits. -/
def fitInt64? (i : Int) : Option Int64 :=
  if Int64.minValue.toInt ≤ i ∧ i ≤ Int64.maxValue.toInt then some (Int64.ofIntClamp i) else none

def tenTo (n : Nat) : Nat :=
  Nat.pow 10 n

structure Numeral where
  coefficient : Nat
  exponent : Int
  deriving DecidableEq, Repr

namespace Numeral

/-- The numeral written as whole digits, a point and decimals. -/
def ofDigits (whole decimals : List Char) : Numeral where
  coefficient := digitsValue (whole ++ decimals)
  exponent := -(decimals.length : Int)

def scale (n : Numeral) (exponent : Int) : Numeral :=
  { n with exponent := n.exponent + exponent }

/-- The number of digits before the point. -/
def magnitude (n : Numeral) : Int :=
  (Nat.toDigits 10 n.coefficient).length + n.exponent

def toFloat (n : Numeral) : Float :=
  if n.coefficient = 0 ∨ n.magnitude < -330 then 0
  else if 310 < n.magnitude then Binary64.signed false Binary64.infinityBits
  else if 0 ≤ n.exponent then Binary64.ofNat (n.coefficient * tenTo n.exponent.toNat)
  else Binary64.ofRatio n.coefficient (tenTo (-n.exponent).toNat)

/-- A numeral without a sign: digits with at most one point and at least one digit, and an
optional exponent. -/
def ofChars? (s : List Char) : Option Numeral :=
  let whole := s.takeWhile Char.isDigit
  let (decimals, rest) := match s.dropWhile Char.isDigit with
    | '.' :: rest => (rest.takeWhile Char.isDigit, rest.dropWhile Char.isDigit)
    | rest => ([], rest)
  if whole = [] ∧ decimals = [] then none
  else match rest with
    | [] => some (ofDigits whole decimals)
    | e :: rest =>
      if e = 'e' ∨ e = 'E' then (ofDigits whole decimals).scale <$> signedDigits? rest
      else none

end Numeral

end Audience
