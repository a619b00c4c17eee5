import Audience.Decimal.Shortest

/-! # Layouts of decimals

A layout says how the shortest digits of a double are set out: which exponents are written
positionally, whether a whole number shows its fraction, and where ties go.
-/

namespace Audience.Decimal

structure Layout where
  /-- Whether a number `d.ddd × 10 ^ e` is written without an exponent. -/
  positional : Int → Bool
  /-- Whether a whole number ends in `.0`. -/
  pointed : Bool
  tie : Tie

/-- Every digit in its place and no more than that. -/
def Layout.plain : Layout where
  positional _ := true
  pointed := false
  tie := .up

def setPoint (digits : List Char) (decimals : Nat) : List Char :=
  let padded := List.replicate (decimals + 1 - digits.length) '0' ++ digits
  let whole := padded.length - decimals
  padded.take whole ++ '.' :: padded.drop whole

def positionalText (pointed : Bool) (digits : List Char) (exponent : Int) : List Char :=
  if 0 ≤ exponent then
    digits ++ List.replicate exponent.toNat '0' ++ (if pointed then ['.', '0'] else [])
  else
    setPoint digits (-exponent).toNat

def scientificText (digits : List Char) (exponent : Int) : List Char :=
  let fraction := match digits.tail with
    | [] => []
    | rest => '.' :: rest
  let sign := if exponent < 0 then '-' else '+'
  digits.take 1 ++ fraction ++ 'e' :: sign :: Nat.toDigits 10 exponent.natAbs

def Layout.ofNumeral (layout : Layout) (n : Numeral) : List Char :=
  let digits := Nat.toDigits 10 n.coefficient
  let scientific := n.exponent + digits.length - 1
  if layout.positional scientific then positionalText layout.pointed digits n.exponent
  else scientificText digits scientific

def Layout.text (layout : Layout) (x : Float) : String :=
  let sign (negative : Bool) (rest : List Char) : String :=
    String.ofList (if negative then '-' :: rest else rest)
  match Binary64.read x with
  | .nan => "NaN"
  | .infinite negative => sign negative ['i', 'n', 'f']
  | .finite negative 0 => sign negative (layout.ofNumeral ⟨0, 0⟩)
  | .finite negative n => sign negative (layout.ofNumeral (shortest layout.tie n))

end Audience.Decimal
