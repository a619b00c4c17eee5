import Audience.Duration.Spoken
import Audience.Json.Writer
import Audience.Source

/-! # Errors of reading a segment

A fault tells what is wrong with a document. Besides faults there are keys that no rule
knows, where those are not tolerated, and rules for a key that already has one.
-/

namespace Audience

inductive Expectation where
  | object
  | array
  | string
  | numberOrString
  | presentFlag
  | area
  | point
  | geohashOrObject
  | corners
  | center
  | numeric (field : String)
  | threePoints (count : Nat)
  | date (text : String)

def Expectation.text : Expectation → String
  | .object => "an object"
  | .array => "an array"
  | .string => "a string"
  | .numberOrString => "a number or a string"
  | .presentFlag => "a boolean \"present\""
  | .area => "a geobox, a geocircle or a geopolygon"
  | .point => "a geohash or an object with \"lat\" and \"lon\""
  | .geohashOrObject => "a geohash or an object"
  | .corners => "topLeft/bottomRight, topRight/bottomLeft or top/right/bottom/left"
  | .center => "a \"center\""
  | .numeric field => s!"a numeric \"{field}\""
  | .threePoints count => s!"at least 3 points, got {count}"
  | .date text => s!"a valid ISO 8601 date, got \"{text}\""

inductive Fault where
  | notAnObject
  | missingCriterion (source : Source)
  | emptyCriterionKey
  | emptyLiteralKey
  | arrayLiteral
  | literalKeys (count : Nat)
  | expects (key : String) (what : Expectation)
  /-- A criterion about values stands on a record. -/
  | needsField (key : String) (source : Source)
  | needsInstallation (key : String) (source : Source)
  | subscription (text : String)
  | writtenDuration (text : String)
  | spokenDuration (fault : Spoken.Fault)
  | durationRange
  | geohash (c : Char)
  /-- A fault of a registered rule's own. -/
  | custom (detail : String)

def Spoken.Fault.message : Spoken.Fault → String
  | .shape text => s!"\"duration\" cannot parse \"{text}\""
  | .amount text => s!"\"duration\" expects a valid number, got \"{text}\""
  | .unit text => s!"\"duration\" expects a valid unit, got \"{text}\""

def Fault.message : Fault → String
  | .notAnObject => "A segment must be a JSON object"
  | .missingCriterion source => s!"Missing data criterion for \"{source.name}\""
  | .emptyCriterionKey => "Criterion keys cannot be empty"
  | .emptyLiteralKey => "Value keys cannot be empty"
  | .arrayLiteral => "Arrays are not valid values"
  | .literalKeys count => s!"Object values must have exactly one key, got {count}"
  | .expects key what => s!"\"{key}\" expects {what.text}"
  | .needsField key source => s!"\"{key}\" cannot be used directly on \"{source.name}\""
  | .needsInstallation key source =>
    s!"\"{key}\" is only available on installations, not on \"{source.name}\""
  | .subscription text =>
    "\"subscriptionStatus\" expects one of \"optIn\", \"optOut\" or \"softOptOut\", " ++
      s!"got \"{text}\""
  | .writtenDuration text => s!"invalid ISO 8601 duration \"{text}\""
  | .spokenDuration fault => fault.message
  | .durationRange => "\"duration\" is out of range"
  | .geohash c => s!"character \"{c}\" is not valid in a geohash"
  | .custom detail => detail

inductive Error where
  | badInput (fault : Fault)
  | unknownCriterion (key : String) (value : Json)
  | unknownLiteral (key : String) (value : Json)
  | criterionRuleExists (key : String)
  | literalRuleExists (key : String)

def Error.message : Error → String
  | .badInput fault => s!"Bad input: {fault.message}"
  | .unknownCriterion key value => s!"Unknown criterion \"{key}\" with value {value.compact}"
  | .unknownLiteral key value => s!"Unknown value \"{key}\" with value {value.compact}"
  | .criterionRuleExists key => s!"A criterion parser already exists for key \"{key}\""
  | .literalRuleExists key => s!"A value parser already exists for key \"{key}\""

/-- What reading gives: a result or an error. -/
abbrev Outcome := Except Error

def fault {α : Type} (f : Fault) : Outcome α :=
  .error (.badInput f)

end Audience
