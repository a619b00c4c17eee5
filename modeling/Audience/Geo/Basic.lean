/-! # Points, boxes and rings

Places are given by latitude and longitude in degrees, over any kind of number with an order.
A box may wrap across the antimeridian, and a ring of points encloses what a ray meets an odd
number of its edges from.
-/

namespace Audience.Geo

structure Point (α : Type) where
  lat : α
  lon : α
  deriving DecidableEq, Repr

structure Box (α : Type) where
  top : α
  right : α
  bottom : α
  left : α
  deriving DecidableEq, Repr

namespace Box

variable {α : Type}

def ofTopLeft (topLeft bottomRight : Point α) : Box α :=
  ⟨topLeft.lat, bottomRight.lon, bottomRight.lat, topLeft.lon⟩

def ofTopRight (topRight bottomLeft : Point α) : Box α :=
  ⟨topRight.lat, topRight.lon, bottomLeft.lat, bottomLeft.lon⟩

variable [LT α] [LE α] [DecidableLT α] [DecidableLE α]

/-- Edges belong to the box. A left edge east of the right one wraps across the antimeridian. -/
def contains (b : Box α) (p : Point α) : Bool :=
  if p.lat < b.bottom ∨ b.top < p.lat then false
  else if b.left ≤ b.right then b.left ≤ p.lon && p.lon ≤ b.right
  else b.left ≤ p.lon || p.lon ≤ b.right

end Box

/-- The directed edges of a ring, the closing one first. -/
def edges {β : Type} (ring : List β) : List (β × β) :=
  match ring.getLast? with
  | none => []
  | some last => (last :: ring).zip ring

section Ring

variable {α : Type} [Add α] [Sub α] [Mul α] [Div α] [LT α] [DecidableLT α]

/-- Whether an edge passes east of a point, at the point's latitude. -/
def crosses (p : Point α) (edge : Point α × Point α) : Bool :=
  let (a, b) := edge
  decide (p.lat < b.lat) != decide (p.lat < a.lat) &&
    p.lon < (a.lon - b.lon) * (p.lat - b.lat) / (a.lat - b.lat) + b.lon

/-- Even-odd rule, with longitude as abscissa. Fewer than three points enclose nothing. -/
def encloses (ring : List (Point α)) (p : Point α) : Bool :=
  3 ≤ ring.length && (edges ring).countP (crosses p) % 2 = 1

end Ring

end Audience.Geo
