import Audience.Duration.Written
import Audience.Geo.Geohash
import Audience.Registry
import Audience.Timestamp

/-! # Rules for literals

Dates and durations are written as numbers or texts, points as geohashes or coordinates, and
areas as boxes, circles or polygons.
-/

namespace Audience.Grammar

open Geo

def writtenDuration (text : String) : Outcome (Duration Float) :=
  match Duration.parse? text with
  | some d => .ok d
  | none => fault (.writtenDuration text)

def spokenDuration (text : String) : Outcome Number :=
  match Spoken.millis text with
  | .error f => fault (.spokenDuration f)
  | .ok x => if Binary64.isFinite x then .ok (.float x) else fault .durationRange

def readDate (key : String) : Json → Outcome Literal
  | .number n => .ok (.date n)
  | .string text =>
    if Duration.isAnnounced text then .relativeDate <$> writtenDuration text
    else match Timestamp.parse? text with
      | some t => .ok (.date (.integer t))
      | none => fault (.expects key (.date text))
  | _ => fault (.expects key .numberOrString)

def readDuration (key : String) : Json → Outcome Literal
  | .number n => .ok (.duration n)
  | .string text =>
    if Duration.isAnnounced text then .calendarDuration <$> writtenDuration text
    else .duration <$> spokenDuration text
  | _ => fault (.expects key .numberOrString)

def geohash (text : String) : Outcome (Geohash Float) :=
  match Geohash.parse text with
  | .ok h => .ok h
  | .error c => fault (.geohash c)

def numeric (key : String) (members : Members) (field : String) : Outcome Float :=
  match (members.get? field).bind Json.asFloat? with
  | some x => .ok x
  | none => fault (.expects key (.numeric field))

/-- A point, wherever it stands, goes by the name of its own literal in faults. -/
def readPoint : Json → Outcome (Point Float)
  | .string text => (·.cell.center) <$> geohash text
  | .object members =>
    return ⟨← numeric "geolocation" members "lat", ← numeric "geolocation" members "lon"⟩
  | _ => fault (.expects "geolocation" .point)

/-- A box given by two opposite corners or by its four sides, in this order of preference. -/
def readSides (key : String) (members : Members) : Outcome (Box Float) :=
  match members.get? "topLeft", members.get? "bottomRight" with
  | some topLeft, some bottomRight =>
    return .ofTopLeft (← readPoint topLeft) (← readPoint bottomRight)
  | _, _ =>
    match members.get? "topRight", members.get? "bottomLeft" with
    | some topRight, some bottomLeft =>
      return .ofTopRight (← readPoint topRight) (← readPoint bottomLeft)
    | _, _ =>
      if ["top", "right", "bottom", "left"].all fun side => (members.get? side).isSome then
        return ⟨← numeric key members "top", ← numeric key members "right",
          ← numeric key members "bottom", ← numeric key members "left"⟩
      else fault (.expects key .corners)

def readBox (key : String) : Json → Outcome (Box Float)
  | .string text => (·.cell.box) <$> geohash text
  | .object members => readSides key members
  | _ => fault (.expects key .geohashOrObject)

def readCircle (key : String) : Json → Outcome Geo.Circle
  | .object members => do
    let radius ← numeric key members "radius"
    match Members.get? members "center" with
    | some center => return ⟨← readPoint center, radius⟩
    | none => fault (.expects key .center)
  | _ => fault (.expects key .object)

def readRing (key : String) : Json → Outcome (List (Point Float))
  | .array items =>
    if items.length < 3 then fault (.expects key (.threePoints items.length))
    else items.mapM readPoint
  | _ => fault (.expects key .array)

def literalRule (read : String → Json → Outcome Literal) : Rule Literal :=
  fun _ key value _ => some <$> read key value

def builtinLiterals : Registry Literal where
  exact := [
    ("date", literalRule readDate),
    ("duration", literalRule readDuration),
    ("geolocation", literalRule fun _ value => .point <$> readPoint value),
    ("geobox", literalRule fun key value => (.area ∘ .box) <$> readBox key value),
    ("geocircle", literalRule fun key value => (.area ∘ .circle) <$> readCircle key value),
    ("geopolygon", literalRule fun key value => (.area ∘ .polygon) <$> readRing key value)]
  dynamic := []
  conflict := .literalRuleExists

end Audience.Grammar
