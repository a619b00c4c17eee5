import Audience.Geo.Basic

/-! # Areas

A segment can ask whether a point lies in a box, in a circle on the globe or in a polygon.
-/

namespace Audience.Geo

/-- The mean radius of the Earth in meters. -/
def earthRadius : Float := 6371008.8

def radians (degrees : Float) : Float :=
  degrees * (3.141592653589793 / 180)

/-- The great-circle distance in meters, by the haversine formula. Rounding may carry the sine
of half the angle past one, so it is cut off there. -/
def distance (p q : Point Float) : Float :=
  let square (x : Float) : Float := x * x
  let lat₁ := radians p.lat
  let lat₂ := radians q.lat
  let dLat := lat₂ - lat₁
  let dLon := radians (q.lon - p.lon)
  let a := square (dLat / 2).sin + lat₁.cos * lat₂.cos * square (dLon / 2).sin
  let s := a.sqrt
  2 * earthRadius * (if s < 1 then s else 1).asin

structure Circle where
  center : Point Float
  radius : Float

def Circle.contains (c : Circle) (p : Point Float) : Bool :=
  distance c.center p ≤ c.radius

inductive Area where
  | box (box : Box Float)
  | circle (circle : Circle)
  | polygon (ring : List (Point Float))

def Area.contains (area : Area) (p : Point Float) : Bool :=
  match area with
  | .box b => b.contains p
  | .circle c => c.contains p
  | .polygon ring => encloses ring p

end Audience.Geo
