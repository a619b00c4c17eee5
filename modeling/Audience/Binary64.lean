/-! # Doubles as exact quantities

Every finite double is a whole multiple of the least positive one, its quantum. Reading a
double as such a multiple turns order, truncation and rounding into arithmetic on naturals;
rounding a quotient to the nearest double goes the other way.
-/

namespace Audience.Binary64

/-- The binary logarithm of the number of quanta in one. -/
def quantaLog : Nat := 1074

/-- The number of fractions, and the bit that stands before each of them. -/
def hiddenBit : Nat := 0x10000000000000

def signBit : Nat := 0x8000000000000000

def infinityBits : Nat := 2047 * hiddenBit

inductive Reading where
  | nan
  | infinite (negative : Bool)
  /-- A magnitude counted in quanta, with the sign that a zero keeps. -/
  | finite (negative : Bool) (quanta : Nat)
  deriving DecidableEq

/-- The multiple of the quantum with the given exponent field and fraction. -/
def quantaOf (field fraction : Nat) : Nat :=
  if field = 0 then fraction else (hiddenBit + fraction) <<< (field - 1)

def read (x : Float) : Reading :=
  let bits := x.toBits.toNat
  let negative := decide (signBit ≤ bits)
  let field := bits / hiddenBit % 2048
  let fraction := bits % hiddenBit
  if field = 2047 then
    if fraction = 0 then .infinite negative else .nan
  else
    .finite negative (quantaOf field fraction)

def isFinite (x : Float) : Bool :=
  match read x with
  | .finite .. => true
  | _ => false

/-- The quotient rounded to the nearest natural; a half goes to the even neighbour. -/
def divNearest (num den : Nat) : Nat :=
  let q := num / den
  let r := num % den
  if 2 * r < den then q
  else if den < 2 * r then q + 1
  else q + q % 2

theorem divNearest_bounds (num : Nat) {den : Nat} (h : 0 < den) :
    2 * (den * divNearest num den) ≤ 2 * num + den ∧
      2 * num ≤ 2 * (den * divNearest num den) + den := by
  have sum := Nat.div_add_mod num den
  have small := Nat.mod_lt num h
  simp only [divNearest]
  split
  · omega
  · split
    · rw [Nat.mul_add]
      omega
    · rcases Nat.mod_two_eq_zero_or_one (num / den) with even | odd
      · rw [even, Nat.add_zero]
        omega
      · rw [odd, Nat.mul_add]
        omega

/-- How many low bits a magnitude of so many quanta loses: a double keeps 53. -/
def spare (quanta : Nat) : Nat :=
  quanta.log2 - 52

/-- The bits of the double nearest to a quotient. The spare bits count up the exponent
field, and a significand that rounds up to the next power of two carries into it. -/
def bitsOfRatio (num den : Nat) : Nat :=
  let n := num <<< quantaLog
  let s := spare (n / den)
  min infinityBits (s * hiddenBit + divNearest n (den <<< s))

def signed (negative : Bool) (bits : Nat) : Float :=
  Float.ofBits (UInt64.ofNat (if negative then bits + signBit else bits))

/-- The double nearest to a quotient of naturals, infinity when it is out of range. -/
def ofRatio (num den : Nat) : Float :=
  signed false (bitsOfRatio num den)

def ofNat (n : Nat) : Float :=
  ofRatio n 1

def ofInt (i : Int) : Float :=
  if i = 0 then 0 else signed (i < 0) (bitsOfRatio i.natAbs 1)

/-- Drops the fraction, keeping the sign. -/
def truncate (x : Float) : Float :=
  match read x with
  | .finite negative n => signed negative (bitsOfRatio (n >>> quantaLog) 1)
  | _ => x

/-- The nearest whole number, a half going away from zero. -/
def roundAway (x : Float) : Float :=
  match read x with
  | .finite negative n =>
    signed negative (bitsOfRatio ((2 * n + (1 <<< quantaLog)) >>> (quantaLog + 1)) 1)
  | _ => x

/-- The whole part as a 64-bit integer: out of range it saturates, and NaN counts as zero. -/
def toInt64 (x : Float) : Int64 :=
  match read x with
  | .nan => 0
  | .infinite negative => if negative then Int64.minValue else Int64.maxValue
  | .finite negative n =>
    let whole : Int := (n >>> quantaLog : Nat)
    Int64.ofIntClamp (if negative then -whole else whole)

/-- The place of a double among all others: its signed number of quanta, with the infinities
beyond every finite one. NaN has none. -/
def rank? (x : Float) : Option Int :=
  let signedRank (negative : Bool) (n : Nat) : Int := if negative then -n else n
  match read x with
  | .nan => none
  | .infinite negative => some (signedRank negative (quantaOf 2047 0))
  | .finite negative n => some (signedRank negative n)

/-- The order of two doubles, undefined when one is NaN. Zeros of either sign are equal. -/
def compare? (x y : Float) : Option Ordering :=
  return compare (← rank? x) (← rank? y)

end Audience.Binary64
