import Audience.Json.Basic

/-! # Profiles

A profile is everything that a segment can look at for one installation.
-/

namespace Audience

/-- The times between which the installation counts as present, in milliseconds. -/
structure Presence where
  fromDate : Int64
  untilDate : Int64
  elapsedTime : Int64
  deriving DecidableEq

structure Profile where
  installation : Json := .emptyObject
  user : Option Json := none
  events : List Json := []
  presence : Option Presence := none
  lastOpened : Int64 := 0

def Presence.toJson (p : Presence) : Json :=
  .object [
    ("fromDate", .ofInt64 p.fromDate),
    ("untilDate", .ofInt64 p.untilDate),
    ("elapsedTime", .ofInt64 p.elapsedTime)]

namespace Profile

def addEvent (p : Profile) (event : Json) : Profile :=
  { p with events := p.events ++ [event] }

def toJson (p : Profile) : Json :=
  .object [
    ("installation", p.installation),
    ("user", p.user.getD .null),
    ("events", .array p.events),
    ("presenceInfo", (p.presence.map Presence.toJson).getD .null),
    ("lastAppOpenDate", .ofInt64 p.lastOpened)]

/-- The user's record. A profile without a user reads as one with an empty record. -/
def userRecord (p : Profile) : Json :=
  p.user.getD .emptyObject

end Profile

end Audience
