import Audience.Criterion
import Audience.Error

/-! # Registries of rules

A rule reads the value of a key, or declines it. A registry asks the rule for exactly that
key first and then its dynamic rules in order, until one answers or fails. While a rule reads
a value it may have parts of that value read in turn, so that reading ends with every rule.
-/

namespace Audience

/-- What a rule may have read: members smaller than a size and literals up to it. -/
structure Scope (size : Nat) where
  members (c : Context) (members : Members) (smaller : sizeOf members < size) : Outcome Criterion
  literal (c : Context) (value : Json) (within : sizeOf value ≤ size) : Outcome Literal

/-- Reads the value of a key in a context, or declines the key. -/
abbrev Rule (α : Type) :=
  (c : Context) → (key : String) → (value : Json) → Scope (sizeOf value) → Outcome (Option α)

/-- The first answer or error of some rules, if not all of them decline. -/
def Rule.first {α : Type} (rules : List (Rule α)) : Rule α := fun c key value scope =>
  match rules with
  | [] => .ok none
  | rule :: rest =>
    match rule c key value scope with
    | .ok none => Rule.first rest c key value scope
    | answer => answer

structure Registry (α : Type) where
  exact : List (String × Rule α)
  dynamic : List (Rule α)
  /-- The error for a second rule of one key. -/
  conflict : String → Error

namespace Registry

variable {α : Type}

def hasExact (r : Registry α) (key : String) : Bool :=
  (r.exact.lookup key).isSome

/-- Adds a rule for exactly one key, which can be claimed once. A second rule of that key leaves
the registry as it is. -/
def addExact (r : Registry α) (key : String) (rule : Rule α) : Outcome Unit × Registry α :=
  if r.hasExact key then (.error (r.conflict key), r)
  else (.ok (), { r with exact := r.exact ++ [(key, rule)] })

def addDynamic (r : Registry α) (rule : Rule α) : Registry α :=
  { r with dynamic := r.dynamic ++ [rule] }

def size (r : Registry α) : Nat :=
  r.exact.length + r.dynamic.length

def isEmpty (r : Registry α) : Bool :=
  r.size = 0

/-- The rules that are asked for a key, in order. -/
def rulesFor (r : Registry α) (key : String) : List (Rule α) :=
  (r.exact.lookup key).toList ++ r.dynamic

def read (r : Registry α) : Rule α := fun c key value scope =>
  Rule.first (r.rulesFor key) c key value scope

end Registry

def Registry.emptyLiterals : Registry Literal :=
  ⟨[], [], .literalRuleExists⟩

def Registry.emptyCriteria : Registry Criterion :=
  ⟨[], [], .criterionRuleExists⟩

end Audience
