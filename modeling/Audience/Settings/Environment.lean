import Audience.Decimal.Layout
import Audience.Settings.Basic
import Audience.Text.Lowercase

/-! # Settings from the environment

Variables write a document of settings. The name of a variable spells a path, in any letter
case: after the name of the program come keys, divided by dots or double underscores, and
positions in brackets. The document is read loosely, so that truth values, numbers and words
stand for each other; if it cannot be read all settings have their defaults.
-/

namespace Audience.Settings

/-- One step into a document. -/
inductive Step where
  | key (name : String)
  | position (index : Nat)
  deriving DecidableEq, Repr

/-- Puts a value at a position of a list, which is filled up with nulls if it is too short. -/
def setItem (items : List Json) (index : Nat) (value : Json) : List Json :=
  (items ++ List.replicate (index + 1 - items.length) Json.null).set index value

/-- Puts a value at the end of a path. What stands in the way gives room to an object or a
list. -/
def place (value : Json) : List Step → Json → Json
  | [], _ => value
  | .key name :: rest, document =>
    let members := match document with
      | .object members => members
      | _ => []
    let inner := (Members.get? members name).getD .null
    .object (Members.put name (place value rest inner) members)
  | .position index :: rest, document =>
    let items := match document with
      | .array items => items
      | _ => []
    .array (setItem items index (place value rest (items[index]?.getD .null)))

def isKeyChar (c : Char) : Bool :=
  c.isAlphanum || c = ' ' || c = '_' || c = '-'

def isGap (c : Char) : Bool :=
  c = ' ' || c = '\t'

def position? (s : List Char) : Option Nat :=
  let s := s.dropWhile isGap
  if (s.dropWhile Char.isDigit).all isGap then
    (digits? (s.takeWhile Char.isDigit)).filter fun index => (fitInt64? index).isSome
  else none

def steps? (s : List Char) : Option (List Step) :=
  match s with
  | [] => some []
  | '.' :: s =>
    let name := s.takeWhile isKeyChar
    if name = [] then none
    else (.key (String.ofList name) :: ·) <$> steps? (s.dropWhile isKeyChar)
  | '[' :: s =>
    let closing := s.dropWhile (· ≠ ']')
    if closing = [] then none
    else do
      let index ← position? (s.takeWhile (· ≠ ']'))
      return .position index :: (← steps? closing.tail)
  | _ => none
termination_by s.length
decreasing_by
  · have := (List.dropWhile_sublist isKeyChar (l := s)).length_le
    simp only [List.length_cons]
    omega
  · have := (List.dropWhile_sublist (· ≠ ']') (l := s)).length_le
    simp only [List.length_tail, List.length_cons]
    omega

def dotted : List Char → List Char
  | '_' :: '_' :: rest => '.' :: dotted rest
  | c :: rest => c :: dotted rest
  | [] => []

def programName : List Char :=
  "campaign_segmenter__".toList

/-- The path that the name of a variable spells, if it is one of the program's. A name that is
not well formed is a key as a whole. -/
def path? (name : String) : Option (List Step) :=
  let lowered := Text.lowercase name.toList
  if programName.isPrefixOf lowered then
    let rest := dotted (lowered.drop programName.length)
    some ((steps? ('.' :: rest)).getD [.key (String.ofList rest)])
  else none

/-- The doubles that a variable can write, infinities and NaN by name included. -/
def float? (text : String) : Option Float :=
  let (negative, s) := match text.toList with
    | '-' :: rest => (true, rest)
    | '+' :: rest => (false, rest)
    | s => (false, s)
  let name := String.ofList (s.map Char.toLower)
  let magnitude :=
    if name = "inf" ∨ name = "infinity" then some (Binary64.signed false Binary64.infinityBits)
    else if name = "nan" then some (0 / 0)
    else Numeral.toFloat <$> Numeral.ofChars? s
  (fun x => if negative then -x else x) <$> magnitude

/-- The value that a variable writes: a truth value, a number or else its text. -/
def scalar (text : String) : Json :=
  let lowered := String.ofList (Text.lowercase text.toList)
  if lowered = "true" then .bool true
  else if lowered = "false" then .bool false
  else match (signedDigits? text.toList).bind fitInt64?, float? text with
    | some n, _ => .ofInt64 n
    | none, some x => .number (.float x)
    | none, none => .string text

/-- The document that variables write. Later ones go over earlier ones. -/
def document (environment : List (String × String)) : Json :=
  environment.foldl (fun d (name, text) =>
    match path? name with
    | some path => place (scalar text) path d
    | none => d) .emptyObject

def word? (text : String) : Option Bool :=
  let lowered := String.ofList (Text.lowercase text.toList)
  if lowered ∈ ["true", "on", "yes"] then some true
  else if lowered ∈ ["false", "off", "no"] then some false
  else none

/-- Every number but zero is true. -/
def truth? : Json → Option Bool
  | .bool b => some b
  | .number (.integer n) => some (n != 0)
  | .number (.float x) => some (x != 0)
  | .string text => word? text
  | _ => none

/-- Words count as one and zero, and fractions are rounded. -/
def whole? : Json → Option Int64
  | .bool b => some (if b then 1 else 0)
  | .number (.integer n) => fitInt64? n
  | .number (.float x) => some (Binary64.toInt64 (Binary64.roundAway x))
  | .string text => (fun b => if b then 1 else 0) <$> word? text
  | _ => none

def text? : Json → Option String
  | .bool b => some (if b then "true" else "false")
  | .number (.integer n) => some (toString n)
  | .number (.float x) => some (Decimal.Layout.plain.text x)
  | .string text => some text
  | _ => none

/-- The fields of a record, by their names in an object and by their order in a list, which may
go on after them. -/
def looseFields? (names : List String) : Json → Option (List (Option Json))
  | .object members => some (names.map (Members.get? members))
  | .array items => some ((List.range names.length).map (items[·]?))
  | _ => none

def Manner.loose : Manner where
  fields? := looseFields?
  bool? := truth?
  int64? := whole?
  string? := text?

def ofEnvironment (environment : List (String × String)) : Settings :=
  (Manner.loose.settings? (document environment)).getD {}

end Audience.Settings
