import Audience.Catalog
import Audience.Profile.Decode
import Audience.Settings.Environment

/-! # Commands

A command checks a segment, evaluates one for a profile, or lists the segments of a file that
a profile belongs to. It reads its inputs in turn and stops at the first that fails.
-/

namespace Audience.Command

/-- A named file and its text, if there is such a file. -/
structure Input where
  name : String
  text : Option String

inductive Action where
  | check (segment : Input)
  | evaluate (segment data : Input)
  | catalog (segments data : Input)

structure Request where
  /-- Refuse unknown keys whatever the settings say. -/
  strict : Bool
  /-- The text of the instant to evaluate at. -/
  now : Option String
  action : Action

inductive Failure where
  | reading (file : String)
  | decodingData
  | notSegments
  | segment (error : Error)
  | namedSegment (name : String) (error : Error)

def Failure.message : Failure → String
  | .reading file => s!"reading {file}"
  | .decodingData => "decoding installation data"
  | .notSegments => "the segments file must map segment names to documents"
  | .segment error => s!"Segmentation error: {error.message}"
  | .namedSegment name _ => s!"parsing segment \"{name}\""

/-- How a command ends. -/
inductive Result where
  | report (text : String)
  | failure (failure : Failure)
  /-- The command line itself is wrong. -/
  | usage

def Input.read (i : Input) : Except Failure Json :=
  match i.text.bind Json.parse? with
  | some v => .ok v
  | none => .error (.reading i.name)

def readProfile (i : Input) : Except Failure Profile := do
  match Profile.decode? (← i.read) with
  | some p => return p
  | none => throw (.decodingData)

def readSegment (g : Grammar) (document : Json) : Except Failure Criterion :=
  (g.read .installation document).mapError .segment

def checkReport (segment : Criterion) : Json :=
  .object [
    ("valid", .bool true),
    ("criterion", .string segment.label),
    ("dataSource", .string segment.context.source.name)]

def evaluateReport (answer : Bool) : Json :=
  .object [("matches", .bool answer)]

section Catalog

variable {ι : Type} [BEq ι] [Hashable ι]

def catalogReport (c : Catalog ι) (p : Profile) (now : Int64) : Json :=
  let segments := (c.matching p fun _ => now).filterMap c.get?
  .object [
    ("registered", .number (.integer c.size)),
    ("matching", .array (segments.map fun s => .string s.name))]

/-- Registers the segments of a file in their order, under the identifiers that are drawn. -/
def registerAll (draw : Nat → ι) (c : Catalog ι) : Members → Except Failure (Catalog ι)
  | [] => .ok c
  | (name, document) :: rest =>
    match c.register (draw c.next) name document with
    | (.ok _, c) => registerAll draw c rest
    | (.error e, _) => .error (.namedSegment name e)

def Action.report (draw : Nat → ι) (g : Grammar) (now : Int64) : Action → Except Failure Json
  | .check segment => do
    return checkReport (← readSegment g (← segment.read))
  | .evaluate segment data => do
    let document ← segment.read
    let p ← readProfile data
    return evaluateReport (p.belongsTo now (← readSegment g document))
  | .catalog segments data => do
    let .object members ← segments.read | throw (.notSegments)
    let p ← readProfile data
    return catalogReport (← registerAll draw (.empty g) members) p now

end Catalog

/-- The instant that a command is told to evaluate at; checking a segment takes none. -/
def Request.nowText (r : Request) (environment : List (String × String)) : Option String :=
  match r.action with
  | .check _ => none
  | _ => r.now <|> environment.lookup "CAMPAIGN_SEGMENTER__NOW"

/-- Runs a command under an environment, with the reading of the system clock and a supply of
identifiers. -/
def Request.run {ι : Type} [BEq ι] [Hashable ι] (r : Request)
    (environment : List (String × String)) (clock : Int64) (draw : Nat → ι) : Result :=
  let settings := Settings.ofEnvironment environment
  let g := if r.strict then Grammar.strict else settings.grammar
  let now := match r.nowText environment with
    | none => some (Int64.ofIntClamp (clock.toInt + settings.clockOffset.toInt))
    | some text => (signedDigits? text.toList).bind fitInt64?
  match r.action, r.now, now with
  | .check _, some _, _ => .usage
  | _, _, none => .usage
  | action, _, some now =>
    match action.report draw g now with
    | .ok report => .report (report.pretty ++ "\n")
    | .error failure => .failure failure

end Audience.Command
