import Audience.Grammar.Criteria
import Audience.Json.Fields

/-! # Settings

Settings say how lenient the grammar is, what is logged, and how far the clock is off. They
are read from a document in which every one of them may be left out.
-/

namespace Audience

structure Settings where
  keepUnknownCriteria : Bool := true
  keepUnknownLiterals : Bool := true
  logFilter : String := "campaign_segmenter=info,campaign_segmentation=info"
  /-- Milliseconds to add to the system clock. -/
  clockOffset : Int64 := 0

namespace Settings

def grammar (s : Settings) : Grammar :=
  .builtin s.keepUnknownCriteria s.keepUnknownLiterals

/-- How a document is read: its records by the names of their fields, and their values. -/
structure Manner where
  fields? : List String → Json → Option (List (Option Json))
  bool? : Json → Option Bool
  int64? : Json → Option Int64
  string? : Json → Option String

def Manner.strict : Manner where
  fields? names := Json.fields? (names.map fun name => [name])
  bool? := Json.asBool?
  int64? := Json.asInt64?
  string? := Json.asString?

namespace Manner

variable (m : Manner)

def flags? (v : Json) : Option (Bool × Bool) := do
  let [criteria, literals] ← m.fields? ["accept_unknown_criteria", "accept_unknown_values"] v
    | none
  return (← Json.orElse true m.bool? criteria, ← Json.orElse true m.bool? literals)

def settings? (v : Json) : Option Settings := do
  let [parser, logFilter, clockOffset] ←
      m.fields? ["parser", "log_filter", "clock_offset_ms"] v
    | none
  let defaults : Settings := {}
  let (keepUnknownCriteria, keepUnknownLiterals) ←
    Json.orElse (defaults.keepUnknownCriteria, defaults.keepUnknownLiterals) m.flags? parser
  return {
    keepUnknownCriteria, keepUnknownLiterals
    logFilter := ← Json.orElse defaults.logFilter m.string? logFilter
    clockOffset := ← Json.orElse defaults.clockOffset m.int64? clockOffset }

end Manner

def decode? (v : Json) : Option Settings :=
  Manner.strict.settings? v

end Settings

end Audience
