import Audience.Json.Token

/-! # JSON documents as written

A document keeps all that its text says: every member of an object, repeated keys included,
and numbers and strings as written. Its value exists when every string spells characters,
every number lies among the doubles and nothing is nested too deeply; of members with one key
the last gives the value and the first the place.
-/

namespace Audience.Json

inductive Document where
  | null
  | bool (value : Bool)
  | number (text : NumberText)
  | string (pieces : List Piece)
  | array (items : List Document)
  | object (members : List (List Piece × Document))

namespace Document

/-- An array or object that is still open, with the entries read so far in reverse. -/
inductive Frame where
  | array (reversed : List Document)
  | object (reversed : List (List Piece × Document)) (key : List Piece)

/-- What the next token must be. -/
inductive Phase where
  | value
  | firstItem
  | firstKey
  | key (reversed : List (List Piece × Document))
  | colon (reversed : List (List Piece × Document)) (key : List Piece)
  | complete (document : Document)

structure Builder where
  stack : List Frame
  phase : Phase

def Builder.start : Builder :=
  ⟨[], .value⟩

def Builder.onValue? (stack : List Frame) : Token → Option Builder
  | .null => some ⟨stack, .complete .null⟩
  | .bool b => some ⟨stack, .complete (.bool b)⟩
  | .number t => some ⟨stack, .complete (.number t)⟩
  | .string s => some ⟨stack, .complete (.string s)⟩
  | .openArray => some ⟨stack, .firstItem⟩
  | .openObject => some ⟨stack, .firstKey⟩
  | _ => none

/-- Reads the token after a complete value, which continues or closes what holds the value. -/
def Builder.onComplete? (stack : List Frame) (d : Document) : Token → Option Builder
  | .comma => match stack with
    | .array reversed :: stack => some ⟨.array (d :: reversed) :: stack, .value⟩
    | .object reversed key :: stack => some ⟨stack, .key ((key, d) :: reversed)⟩
    | [] => none
  | .closeArray => match stack with
    | .array reversed :: stack => some ⟨stack, .complete (.array (d :: reversed).reverse)⟩
    | _ => none
  | .closeObject => match stack with
    | .object reversed key :: stack =>
      some ⟨stack, .complete (.object ((key, d) :: reversed).reverse)⟩
    | _ => none
  | _ => none

def Builder.step? (b : Builder) (t : Token) : Option Builder :=
  match b.phase, t with
  | .value, t => onValue? b.stack t
  | .firstItem, .closeArray => some ⟨b.stack, .complete (.array [])⟩
  | .firstItem, t => onValue? (.array [] :: b.stack) t
  | .firstKey, .closeObject => some ⟨b.stack, .complete (.object [])⟩
  | .firstKey, .string key => some ⟨b.stack, .colon [] key⟩
  | .key reversed, .string key => some ⟨b.stack, .colon reversed key⟩
  | .colon reversed key, .colon => some ⟨.object reversed key :: b.stack, .value⟩
  | .complete d, t => onComplete? b.stack d t
  | _, _ => none

def ofTokens? (tokens : List Token) : Option Document :=
  match tokens.foldlM Builder.step? .start with
  | some ⟨[], .complete d⟩ => some d
  | _ => none

def parse? (text : String) : Option Document :=
  (Token.ofChars? text.toList).bind ofTokens?

def text? (pieces : List Piece) : Option String :=
  String.ofList <$> Piece.decode? pieces

mutual

/-- The value of a document in which arrays and objects nest at most `depth` levels. -/
def value? (depth : Nat) : Document → Option Json
  | .null => some .null
  | .bool b => some (.bool b)
  | .number t => .number <$> t.value?
  | .string s => .string <$> text? s
  | .array items => do
    guard (0 < depth)
    return .array (← items?  (depth - 1) items)
  | .object entries => do
    guard (0 < depth)
    return .object (← members? (depth - 1) entries [])

def items? (depth : Nat) : List Document → Option (List Json)
  | [] => some []
  | d :: rest => return (← value? depth d) :: (← items? depth rest)

def members? (depth : Nat) : List (List Piece × Document) → Members → Option Members
  | [], members => some members
  | (key, d) :: rest, members => do
    members? depth rest (members.put (← text? key) (← value? depth d))

end

/-- How deeply arrays and objects may nest. -/
def depthLimit : Nat := 127

end Document

def parse? (text : String) : Option Json :=
  (Document.parse? text).bind (Document.value? Document.depthLimit)

end Audience.Json
