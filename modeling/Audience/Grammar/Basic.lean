import Audience.Registry

/-! # Grammars of segments

A grammar has rules for literals and for criteria, and says whether keys that no rule knows
are kept or refused. An object of criteria with several members is their conjunction, in the
order they are written; an empty one stands for everything, and only on a record.
-/

namespace Audience

structure Grammar where
  literals : Registry Literal
  criteria : Registry Criterion
  keepUnknownCriteria : Bool
  keepUnknownLiterals : Bool

namespace Grammar

variable (g : Grammar)

mutual

/-- The criterion that an object of criteria writes. -/
def readMembers (c : Context) (members : Members) : Outcome Criterion :=
  match members with
  | [] => if c.source.isRoot then .ok (.matchAll c) else fault (.missingCriterion c.source)
  | [(key, value)] => readMember c key value
  | members => .and c <$> readAll c members
termination_by 3 * sizeOf members + 2

def readAll (c : Context) (members : Members) : Outcome (List Criterion) :=
  match members with
  | [] => .ok []
  | (key, value) :: rest => return (← readMember c key value) :: (← readAll c rest)
termination_by 3 * sizeOf members + 1

def readMember (c : Context) (key : String) (value : Json) : Outcome Criterion :=
  if key = "" then fault .emptyCriterionKey
  else
    let scope : Scope (sizeOf value) :=
      { members := fun c members _ => readMembers c members
        literal := fun c value _ => readLiteral c value }
    match g.criteria.read c key value scope with
    | .error e => .error e
    | .ok (some criterion) => .ok criterion
    | .ok none =>
      if g.keepUnknownCriteria then .ok (.unknown c key value)
      else .error (.unknownCriterion key value)
termination_by 3 * sizeOf value + 1

/-- The literal that a value writes: itself where it is a scalar, and what the rule for its
only key makes of it where it is an object. -/
def readLiteral (c : Context) (value : Json) : Outcome Literal :=
  match value with
  | .null => .ok .null
  | .bool b => .ok (.bool b)
  | .number n => .ok (.number n)
  | .string s => .ok (.string s)
  | .array _ => fault .arrayLiteral
  | .object [(key, value)] =>
    if key = "" then fault .emptyLiteralKey
    else
      let scope : Scope (sizeOf value) :=
        { members := fun c members _ => readMembers c members
          literal := fun c value _ => readLiteral c value }
      match g.literals.read c key value scope with
      | .error e => .error e
      | .ok (some literal) => .ok literal
      | .ok none =>
        if g.keepUnknownLiterals then .ok (.unknown key value)
        else .error (.unknownLiteral key value)
  | .object members => fault (.literalKeys members.length)
termination_by 3 * sizeOf value

end

/-- The grammar as its own rules see it. -/
def scope (size : Nat) : Scope size where
  members c members _ := g.readMembers c members
  literal c value _ := g.readLiteral c value

/-- The criterion that a segment document writes about one kind of record. -/
def read (root : Root) : Json → Outcome Criterion
  | .object members => g.readMembers (.root root) members
  | _ => fault .notAnObject

end Grammar

end Audience
