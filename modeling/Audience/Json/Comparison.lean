import Audience.Json.Basic
import Audience.Text.Units

/-! # Comparing JSON values

Numbers compare by value: exactly when both are whole, as doubles otherwise. Order is defined
between booleans, between numbers and between strings; null stands for the zero value of the
other side.
-/

namespace Audience

def Number.compare? : Number → Number → Option Ordering
  | .integer a, .integer b => some (compare a b)
  | a, b => Binary64.compare? a.toFloat b.toFloat

/-- Equal numbers of one kind. -/
def Number.same : Number → Number → Bool
  | .integer a, .integer b => a = b
  | .float a, .float b => Binary64.compare? a b = some .eq
  | _, _ => false

namespace Json

mutual

/-- Whether two values have one shape. Members may come in any order, and a whole number is
never the same as a double. -/
def same : Json → Json → Bool
  | .null, .null => true
  | .bool a, .bool b => a = b
  | .number a, .number b => a.same b
  | .string a, .string b => a = b
  | .array as, .array bs => sameItems as bs
  | .object as, .object bs => as.length = bs.length && sameMembers as bs
  | _, _ => false

def sameItems : List Json → List Json → Bool
  | [], [] => true
  | a :: as, b :: bs => same a b && sameItems as bs
  | _, _ => false

/-- Whether the second object has every member of the first. -/
def sameMembers : List (String × Json) → Members → Bool
  | [], _ => true
  | (key, a) :: rest, bs =>
    (match bs.get? key with
      | some b => same a b
      | none => false) && sameMembers rest bs

end

/-- Equality of values, with numbers compared by value at the top. -/
def equal : Json → Json → Bool
  | .number a, .number b => a.compare? b = some .eq
  | a, b => same a b

/-- The order of a value against the zero value of its kind. -/
def compareZero? : Json → Option Ordering
  | .null => some .eq
  | .bool b => some (compare b false)
  | .number n => n.compare? (.integer 0)
  | .string s => some (Text.compareUnits s "")
  | _ => none

def compare? : Json → Json → Option Ordering
  | .bool a, .bool b => some (compare a b)
  | .number a, .number b => a.compare? b
  | .string a, .string b => some (Text.compareUnits a b)
  | a, .null => a.compareZero?
  | .null, b => Ordering.swap <$> b.compareZero?
  | _, _ => none

end Json

end Audience
