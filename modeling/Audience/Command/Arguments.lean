import Audience.Command.Basic

/-! # Command lines

A command line names a command and gives its options, each as `--name value` or as
`--name=value` and each at most once; `--strict` may stand anywhere. A value on its own
cannot begin with a hyphen, except the lone hyphen that stands for standard input.
-/

namespace Audience.Command

/-- The words of a command line, sorted out. -/
structure Arguments where
  strict : Bool
  command : Option String
  options : List (String × String)

def Arguments.empty : Arguments :=
  ⟨false, none, []⟩

def optionNames : List String :=
  ["segment", "segments", "data", "now"]

/-- An option that a word names, and its value where the word holds one. -/
def option? (word : String) : Option (String × Option String) :=
  match word.toList with
  | '-' :: '-' :: rest =>
    let name := String.ofList (rest.takeWhile (· ≠ '='))
    let value := match rest.dropWhile (· ≠ '=') with
      | [] => none
      | _ :: value => some (String.ofList value)
    if optionNames.contains name then some (name, value) else none
  | _ => none

def isValue (word : String) : Bool :=
  word = "-" || word.toList.head? ≠ some '-'

def Arguments.addOption? (a : Arguments) (name value : String) : Option Arguments :=
  if (a.options.lookup name).isSome then none
  else some { a with options := (name, value) :: a.options }

def Arguments.read? (a : Arguments) : List String → Option Arguments
  | [] => some a
  | word :: rest =>
    if word = "--strict" then
      if a.strict then none else read? { a with strict := true } rest
    else match option? word, rest with
      | some (name, some value), rest => (a.addOption? name value).bind (·.read? rest)
      | some (name, none), value :: rest =>
        if isValue value then (a.addOption? name value).bind (·.read? rest) else none
      | some (_, none), [] => none
      | none, rest =>
        if a.command.isNone then read? { a with command := some word } rest else none

/-- The files that a command reads, in their order, under the names of their options. -/
def filesOf? : String → Option (List String)
  | "parse" => some ["segment"]
  | "match" => some ["segment", "data"]
  | "catalog" => some ["segments", "data"]
  | _ => none

def Arguments.paths? (a : Arguments) : Option (List String) := do
  let files ← filesOf? (← a.command)
  guard (a.options.all fun (name, _) => name = "now" || files.contains name)
  files.mapM fun name => a.options.lookup name

/-- The request that a command line makes, once its files have been read. -/
def Arguments.request? (a : Arguments) (inputs : List Input) : Option Request := do
  let action ← match a.command, inputs with
    | some "parse", [segment] => some (Action.check segment)
    | some "match", [segment, data] => some (.evaluate segment data)
    | some "catalog", [segments, data] => some (.catalog segments data)
    | _, _ => none
  return { strict := a.strict, now := a.options.lookup "now", action }

end Audience.Command
