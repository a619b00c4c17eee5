import Audience.Command.Arguments
import Std.Time.DateTime.Timestamp

/-! # The command line program

Reads the files that the command line names, runs the command, and prints its report.
-/

namespace Audience

/-- The names of the variables that a command looks at, in capitals. -/
def variableNames : List String :=
  ["CAMPAIGN_SEGMENTER__NOW",
    "CAMPAIGN_SEGMENTER__PARSER",
    "CAMPAIGN_SEGMENTER__PARSER__ACCEPT_UNKNOWN_CRITERIA",
    "CAMPAIGN_SEGMENTER__PARSER__ACCEPT_UNKNOWN_VALUES",
    "CAMPAIGN_SEGMENTER__LOG_FILTER",
    "CAMPAIGN_SEGMENTER__CLOCK_OFFSET_MS"]

def environment : IO (List (String × String)) :=
  (variableNames ++ variableNames.map String.toLower).filterMapM fun name => do
    return (← IO.getEnv name).map (name, ·)

def readInput (path : String) : IO Command.Input := do
  try
    let text ←
      if path = "-" then (← IO.getStdin).readToEnd
      else IO.FS.readFile path
    return ⟨path, some text⟩
  catch _ => return ⟨path, none⟩

/-- Milliseconds since 1970-01-01. -/
def systemClock : IO Int64 := do
  let sinceEpoch ← Std.Time.Timestamp.now
  return Int64.ofIntClamp sinceEpoch.toMillisecondsSinceUnixEpoch.val

def usage : IO UInt32 := do
  IO.eprintln "usage: [--strict] parse --segment FILE"
  IO.eprintln "       [--strict] match --segment FILE --data FILE [--now MILLISECONDS]"
  IO.eprintln "       [--strict] catalog --segments FILE --data FILE [--now MILLISECONDS]"
  return 2

def finish : Command.Result → IO UInt32
  | .report text => do
    IO.print text
    return 0
  | .failure failure => do
    IO.eprintln s!"Error: {failure.message}"
    return 1
  | .usage => usage

def runProgram (words : List String) : IO UInt32 := do
  let some arguments := Command.Arguments.empty.read? words | usage
  let some paths := arguments.paths? | usage
  let some request := arguments.request? (← paths.mapM readInput) | usage
  -- Only one catalog is made, so that counting gives identifiers enough.
  finish (request.run (← environment) (← systemClock) (id : Nat → Nat))

end Audience

def main (words : List String) : IO UInt32 :=
  Audience.runProgram words
