import Audience.Geo.Basic
import Audience.Text.Lowercase

/-! # Geohashes

A geohash names a cell of the globe. Its characters stand for five bits each, and every bit
keeps one half of the cell so far, cutting longitude and latitude in turn. Cells are computed
over any kind of number that has midpoints.
-/

namespace Audience.Geo

/-- Numbers whose ranges can be halved. -/
class Bisectable (α : Type) extends LE α where
  ofInt : Int → α
  midpoint : α → α → α

instance : Bisectable Float where
  ofInt := Float.ofInt
  midpoint low high := (high + low) / 2

structure Range (α : Type) where
  low : α
  high : α
  deriving DecidableEq, Repr

structure Cell (α : Type) where
  lat : Range α
  lon : Range α
  deriving DecidableEq, Repr

variable {α : Type}

def Cell.box (c : Cell α) : Box α :=
  ⟨c.lat.high, c.lon.high, c.lat.low, c.lon.low⟩

def Cell.topLeft (c : Cell α) : Point α :=
  ⟨c.lat.high, c.lon.low⟩

def Cell.bottomRight (c : Cell α) : Point α :=
  ⟨c.lat.low, c.lon.high⟩

section Bisection

variable [Bisectable α]

def Range.middle (r : Range α) : α :=
  Bisectable.midpoint r.low r.high

def Range.half (r : Range α) (upper : Bool) : Range α :=
  if upper then ⟨r.middle, r.high⟩ else ⟨r.low, r.middle⟩

def Cell.globe : Cell α where
  lat := ⟨Bisectable.ofInt (-90), Bisectable.ofInt 90⟩
  lon := ⟨Bisectable.ofInt (-180), Bisectable.ofInt 180⟩

def Cell.center (c : Cell α) : Point α :=
  ⟨c.lat.middle, c.lon.middle⟩

/-- Keeps one half of a cell, cut in longitude or in latitude. -/
def Cell.half (c : Cell α) (cutLon upper : Bool) : Cell α :=
  if cutLon then { c with lon := c.lon.half upper } else { c with lat := c.lat.half upper }

/-- The part of a cell that a run of bits leads to, the first of them cutting longitude if
`cutLon` holds. -/
def Cell.follow (c : Cell α) (cutLon : Bool) : List Bool → Cell α
  | [] => c
  | upper :: rest => (c.half cutLon upper).follow (!cutLon) rest

/-- The bits that lead so many steps towards a point. -/
def Cell.towards [DecidableLE α] (c : Cell α) (cutLon : Bool) (p : Point α) : Nat → List Bool
  | 0 => []
  | n + 1 =>
    let upper := if cutLon then decide (c.lon.middle ≤ p.lon) else decide (c.lat.middle ≤ p.lat)
    upper :: (c.half cutLon upper).towards (!cutLon) p n

end Bisection

def alphabet : List Char :=
  "0123456789bcdefghjkmnpqrstuvwxyz".toList

/-- The five bits of a value, the highest first. -/
def bitsOfValue (n : Nat) : List Bool :=
  [n.testBit 4, n.testBit 3, n.testBit 2, n.testBit 1, n.testBit 0]

def valueOfBits (bits : List Bool) : Nat :=
  bits.foldl (fun n bit => 2 * n + bit.toNat) 0

def charOfValue (n : Nat) : Char :=
  alphabet[n]?.getD '0'

/-- The bits of lower-case text, or its first character that has none. -/
def bitsOfText : List Char → Except Char (List Bool)
  | [] => .ok []
  | c :: rest =>
    match alphabet.idxOf? c with
    | none => .error c
    | some n => (bitsOfValue n ++ ·) <$> bitsOfText rest

def textOfBits : List Bool → List Char
  | a :: b :: c :: d :: e :: rest => charOfValue (valueOfBits [a, b, c, d, e]) :: textOfBits rest
  | _ => []

/-- A cell with its name. -/
structure Geohash (α : Type) where
  text : String
  cell : Cell α
  deriving DecidableEq, Repr

namespace Geohash

variable [Bisectable α]

/-- The cell that a text names, in any letter case, or the first character that cannot stand
in a geohash. -/
def parse (text : String) : Except Char (Geohash α) :=
  let lowered := Text.lowercase text.toList
  (⟨String.ofList lowered, Cell.globe.follow true ·⟩) <$> bitsOfText lowered

/-- The cell with a name of so many characters that contains a point. -/
def encode [DecidableLE α] (p : Point α) (precision : Nat) : Geohash α :=
  let bits := (Cell.globe (α := α)).towards true p (5 * precision)
  ⟨String.ofList (textOfBits bits), Cell.globe.follow true bits⟩

end Geohash

end Audience.Geo
