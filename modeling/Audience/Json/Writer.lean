import Audience.Decimal.Layout
import Audience.Json.Basic

/-! # Writing JSON

The compact form has no spaces; the indented form has one entry to a line. Both keep the
order of members, escape only what must be escaped, and write a double so that it reads back
as a double.
-/

namespace Audience.Json

/-- Doubles always show a point or an exponent. -/
def numberLayout : Decimal.Layout where
  positional e := -5 ≤ e && e < 16
  pointed := true
  tie := .toEven

def numberText : Number → String
  | .integer i => toString i
  | .float x => numberLayout.text x

def escape (c : Char) : List Char :=
  match c with
  | '"' => ['\\', '"']
  | '\\' => ['\\', '\\']
  | '\x08' => ['\\', 'b']
  | '\x0c' => ['\\', 'f']
  | '\n' => ['\\', 'n']
  | '\r' => ['\\', 'r']
  | '\t' => ['\\', 't']
  | c =>
    if c.toNat < 0x20 then
      ['\\', 'u', '0', '0', Nat.digitChar (c.toNat / 16), Nat.digitChar (c.toNat % 16)]
    else [c]

def quote (s : String) : String :=
  String.ofList ('"' :: s.toList.flatMap escape ++ ['"'])

def scalarText : Json → String
  | .bool true => "true"
  | .bool false => "false"
  | .number n => numberText n
  | .string s => quote s
  | _ => "null"

mutual

def compact : Json → String
  | .array items => "[" ++ ",".intercalate (compactItems items) ++ "]"
  | .object members => "\x7b" ++ ",".intercalate (compactMembers members) ++ "\x7d"
  | scalar => scalarText scalar

def compactItems : List Json → List String
  | [] => []
  | v :: rest => compact v :: compactItems rest

def compactMembers : List (String × Json) → List String
  | [] => []
  | (key, v) :: rest => (quote key ++ ":" ++ compact v) :: compactMembers rest

end

/-- A bracketed block with one entry to a line, at the given depth. -/
def block (opening closing : String) (depth : Nat) (entries : List String) : String :=
  let margin (n : Nat) : String := String.ofList ('\n' :: List.replicate (2 * n) ' ')
  if entries.isEmpty then opening ++ closing
  else
    opening ++ margin (depth + 1) ++ ("," ++ margin (depth + 1)).intercalate entries ++
      margin depth ++ closing

mutual

def indented (depth : Nat) : Json → String
  | .array items => block "[" "]" depth (indentedItems (depth + 1) items)
  | .object members => block "\x7b" "\x7d" depth (indentedMembers (depth + 1) members)
  | scalar => scalarText scalar

def indentedItems (depth : Nat) : List Json → List String
  | [] => []
  | v :: rest => indented depth v :: indentedItems depth rest

def indentedMembers (depth : Nat) : List (String × Json) → List String
  | [] => []
  | (key, v) :: rest => (quote key ++ ": " ++ indented depth v) :: indentedMembers depth rest

end

def pretty (v : Json) : String :=
  indented 0 v

end Audience.Json
