import Audience.Decimal.Numeral

/-! # JSON values

Objects keep the order of their members. A number is a whole number, exact, or a double;
the two never mix, so `1` and `1.0` are different values that compare as equal.
-/

namespace Audience

inductive Number where
  | integer (value : Int)
  | float (value : Float)
  deriving DecidableEq

def Number.toFloat : Number → Float
  | .integer i => Binary64.ofInt i
  | .float x => x

def Number.toInt64? : Number → Option Int64
  | .integer i => fitInt64? i
  | .float _ => none

inductive Json where
  | null
  | bool (value : Bool)
  | number (value : Number)
  | string (value : String)
  | array (items : List Json)
  | object (members : List (String × Json))

/-- The members of an object, in the order they were written. -/
abbrev Members := List (String × Json)

/-- Gives a key its value: in place where the key is present, at the end where it is new. -/
def Members.put (key : String) (value : Json) : Members → Members
  | [] => [(key, value)]
  | (k, v) :: rest => if k = key then (k, value) :: rest else (k, v) :: Members.put key value rest

def Members.get? (members : Members) (key : String) : Option Json :=
  match members with
  | [] => none
  | (k, v) :: rest => if k = key then some v else Members.get? rest key

theorem Members.get?_put (members : Members) (key : String) (value : Json) :
    (members.put key value).get? key = some value := by
  induction members with
  | nil => simp [put, get?]
  | cons m rest ih =>
    simp only [put]
    split <;> simp_all [get?]

theorem Members.get?_put_of_ne (members : Members) {key other : String} (value : Json)
    (h : other ≠ key) : (members.put key value).get? other = members.get? other := by
  induction members with
  | nil => simp [put, get?, h.symm]
  | cons m rest ih =>
    simp only [put]
    split <;> simp_all [get?, h.symm]

namespace Json

def ofInt64 (n : Int64) : Json :=
  .number (.integer n.toInt)

def emptyObject : Json :=
  .object []

def get? (key : String) : Json → Option Json
  | .object members => Members.get? members key
  | _ => none

def asString? : Json → Option String
  | .string s => some s
  | _ => none

def asBool? : Json → Option Bool
  | .bool b => some b
  | _ => none

def asFloat? : Json → Option Float
  | .number n => some n.toFloat
  | _ => none

def asInt64? : Json → Option Int64
  | .number n => n.toInt64?
  | _ => none

def isNull : Json → Bool
  | .null => true
  | _ => false

end Json

end Audience
