import Audience.Json.Basic

/-! # JSON tokens

A text is cut into tokens by a machine that reads one character at a time. A string token
keeps its escaped units apart, and a number token its digits, because what they mean is
decided later: not every token of a text is read as a value.
-/

namespace Audience.Json

/-- A part of a string as written: a character or an escaped UTF-16 unit. -/
inductive Piece where
  | char (c : Char)
  | unit (value : Nat)

/-- The characters that pieces spell. Escaped surrogates must come in pairs. -/
def Piece.decode? : List Piece → Option (List Char)
  | [] => some []
  | .char c :: rest => (c :: ·) <$> decode? rest
  | .unit high :: .unit low :: rest =>
    if 0xd800 ≤ high ∧ high < 0xdc00 then
      if 0xdc00 ≤ low ∧ low < 0xe000 then
        (Char.ofNat (0x10000 + (high - 0xd800) * 0x400 + (low - 0xdc00)) :: ·) <$> decode? rest
      else none
    else if 0xdc00 ≤ high ∧ high < 0xe000 then none
    else (Char.ofNat high :: ·) <$> decode? (.unit low :: rest)
  | .unit value :: rest =>
    if 0xd800 ≤ value ∧ value < 0xe000 then none else (Char.ofNat value :: ·) <$> decode? rest

/-- A number as written: sign, digits before and after the point, exponent. -/
structure NumberText where
  negative : Bool
  whole : List Char
  decimals : List Char
  exponent : Int
  /-- Neither a point nor an exponent was written. -/
  integral : Bool

namespace NumberText

def splitDigits? (s : List Char) : Option (List Char × List Char) :=
  match s.takeWhile Char.isDigit with
  | [] => none
  | digits => some (digits, s.dropWhile Char.isDigit)

def tail? (negative : Bool) (whole rest : List Char) : Option NumberText := do
  let (decimals, rest) ← match rest with
    | '.' :: fraction => splitDigits? fraction
    | _ => some ([], rest)
  match rest with
  | [] => return { negative, whole, decimals, exponent := 0, integral := decimals.isEmpty }
  | c :: rest =>
    guard (c = 'e' || c = 'E')
    return { negative, whole, decimals, exponent := ← signedDigits? rest, integral := false }

/-- A number has no superfluous leading zero. -/
def ofChars? (s : List Char) : Option NumberText := do
  let (negative, s) := match s with
    | '-' :: rest => (true, rest)
    | _ => (false, s)
  let (whole, rest) ← splitDigits? s
  guard (whole.length = 1 || whole.head? != some '0')
  tail? negative whole rest

/-- Whole numbers of sixty-four bits are exact, all others are doubles. A number beyond the
doubles has no value, and neither does minus zero among the whole numbers. -/
def value? (t : NumberText) : Option Number :=
  let n := digitsValue t.whole
  if t.integral && !t.negative && n < UInt64.size then some (.integer n)
  else if t.integral && t.negative && 0 < n && Int64.minValue.toInt ≤ -n then some (.integer (-n))
  else
    let x := ((Numeral.ofDigits t.whole t.decimals).scale t.exponent).toFloat
    if Binary64.isFinite x then some (.float (if t.negative then -x else x)) else none

end NumberText

inductive Token where
  | openArray
  | closeArray
  | openObject
  | closeObject
  | colon
  | comma
  | null
  | bool (value : Bool)
  | number (text : NumberText)
  | string (pieces : List Piece)

namespace Token

/-- The token being read. Parts that grow are kept in reverse. -/
inductive Pending where
  | nothing
  | word (reversed : List Char)
  | number (reversed : List Char)
  | string (reversed : List Piece)
  | escape (reversed : List Piece)
  | unit (reversed : List Piece) (digits value : Nat)

structure Scan where
  reversed : List Token
  pending : Pending

def Scan.start : Scan :=
  ⟨[], .nothing⟩

def Scan.push (s : Scan) (t : Token) : Scan :=
  ⟨t :: s.reversed, .nothing⟩

def ofWord? (word : List Char) : Option Token :=
  if word = ['n', 'u', 'l', 'l'] then some .null
  else if word = ['t', 'r', 'u', 'e'] then some (.bool true)
  else if word = ['f', 'a', 'l', 's', 'e'] then some (.bool false)
  else none

def ofMark? (c : Char) : Option Token :=
  match c with
  | '[' => some .openArray
  | ']' => some .closeArray
  | '\x7b' => some .openObject
  | '\x7d' => some .closeObject
  | ':' => some .colon
  | ',' => some .comma
  | _ => none

def isSpace (c : Char) : Bool :=
  c = ' ' || c = '\t' || c = '\n' || c = '\r'

def isNumberPart (c : Char) : Bool :=
  c.isDigit || c = '-' || c = '+' || c = '.' || c = 'e' || c = 'E'

def isWordPart (c : Char) : Bool :=
  c.isAlphanum

def Scan.begin? (s : Scan) (c : Char) : Option Scan :=
  if isSpace c then some { s with pending := .nothing }
  else if c = '"' then some { s with pending := .string [] }
  else if c.isDigit || c = '-' then some { s with pending := .number [c] }
  else if c.isAlpha then some { s with pending := .word [c] }
  else s.push <$> ofMark? c

/-- Completes a word or number that the next character, or the end, cuts off. -/
def Scan.finish? (s : Scan) : Option Scan :=
  match s.pending with
  | .nothing => some s
  | .word reversed => s.push <$> ofWord? reversed.reverse
  | .number reversed => (s.push ∘ Token.number) <$> NumberText.ofChars? reversed.reverse
  | _ => none

def ofEscape? (c : Char) : Option Char :=
  match c with
  | '"' => some '"'
  | '\\' => some '\\'
  | '/' => some '/'
  | 'b' => some '\x08'
  | 'f' => some '\x0c'
  | 'n' => some '\n'
  | 'r' => some '\r'
  | 't' => some '\t'
  | _ => none

def hexDigit? (c : Char) : Option Nat :=
  if c.isDigit then some (c.toNat - '0'.toNat)
  else if 'a' ≤ c ∧ c ≤ 'f' then some (c.toNat - 'a'.toNat + 10)
  else if 'A' ≤ c ∧ c ≤ 'F' then some (c.toNat - 'A'.toNat + 10)
  else none

/-- Reads one character. Control characters cannot stand in a string. -/
def Scan.step? (s : Scan) (c : Char) : Option Scan :=
  match s.pending with
  | .nothing => s.begin? c
  | .word reversed =>
    if isWordPart c then some { s with pending := .word (c :: reversed) }
    else s.finish?.bind (·.begin? c)
  | .number reversed =>
    if isNumberPart c then some { s with pending := .number (c :: reversed) }
    else s.finish?.bind (·.begin? c)
  | .string reversed =>
    if c = '"' then some (s.push (.string reversed.reverse))
    else if c = '\\' then some { s with pending := .escape reversed }
    else if c.toNat < 0x20 then none
    else some { s with pending := .string (.char c :: reversed) }
  | .escape reversed =>
    if c = 'u' then some { s with pending := .unit reversed 0 0 }
    else (fun e => { s with pending := .string (.char e :: reversed) }) <$> ofEscape? c
  | .unit reversed digits value => do
    let value := 16 * value + (← hexDigit? c)
    if digits = 3 then return { s with pending := .string (.unit value :: reversed) }
    else return { s with pending := .unit reversed (digits + 1) value }

def ofChars? (text : List Char) : Option (List Token) := do
  let s ← (← text.foldlM Scan.step? .start).finish?
  return s.reversed.reverse

end Token

end Audience.Json
