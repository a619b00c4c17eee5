import Audience.Duration.Basic
import Audience.Geo.Area
import Audience.Json.Basic
import Audience.Source

/-! # Literals and criteria

A segment is a tree of criteria. Every criterion keeps the context it was written in, and
criteria about values hold literals. Keys that no rule knows are kept with their values.
-/

namespace Audience

inductive Literal where
  | null
  | bool (value : Bool)
  | number (value : Number)
  | string (value : String)
  /-- Milliseconds since 1970-01-01. -/
  | date (value : Number)
  /-- A date told by its distance from now. -/
  | relativeDate (distance : Duration Float)
  /-- Milliseconds. -/
  | duration (value : Number)
  /-- As long as the duration lasts when it starts now. -/
  | calendarDuration (length : Duration Float)
  | point (point : Geo.Point Float)
  | area (area : Geo.Area)
  | unknown (key : String) (value : Json)

def Literal.asArea? : Literal → Option Geo.Area
  | .area a => some a
  | _ => none

def Literal.asString? : Literal → Option String
  | .string s => some s
  | _ => none

inductive Comparator where
  | gt
  | gte
  | lt
  | lte
  deriving DecidableEq, Repr

namespace Comparator

def all : List Comparator :=
  [.gt, .gte, .lt, .lte]

def name : Comparator → String
  | .gt => "gt"
  | .gte => "gte"
  | .lt => "lt"
  | .lte => "lte"

def ofName? (name : String) : Option Comparator :=
  all.find? (·.name = name)

/-- Whether a comparator accepts how the value stands to the literal. -/
def accepts (c : Comparator) (o : Ordering) : Bool :=
  match c with
  | .gt => o = .gt
  | .gte => o ≠ .lt
  | .lt => o = .lt
  | .lte => o ≠ .gt

end Comparator

/-- Whether an installation takes push messages. A soft opt-out keeps its push token. -/
inductive Subscription where
  | optIn
  | optOut
  | softOptOut
  deriving DecidableEq, Repr

namespace Subscription

def all : List Subscription :=
  [.optIn, .optOut, .softOptOut]

def name : Subscription → String
  | .optIn => "optIn"
  | .optOut => "optOut"
  | .softOptOut => "softOptOut"

def ofName? (name : String) : Option Subscription :=
  all.find? (·.name = name)

end Subscription

inductive Criterion where
  | matchAll (c : Context)
  | equals (c : Context) (value : Literal)
  | compares (c : Context) (comparator : Comparator) (value : Literal)
  | startsWith (c : Context) (value : Literal)
  | all (c : Context) (values : List Literal)
  | any (c : Context) (values : List Literal)
  | not (c : Context) (child : Criterion)
  | and (c : Context) (children : List Criterion)
  | or (c : Context) (children : List Criterion)
  | inside (c : Context) (area : Geo.Area)
  | geo (c : Context) (location date : Option Criterion)
  /-- Without a comparison, any activity at all. -/
  | lastActivity (c : Context) (comparison : Option Criterion)
  | presence (c : Context) (present : Bool) (since elapsed : Option Criterion)
  | subscription (c : Context) (status : Subscription)
  /-- The child holds of a record of the kind that the context names. -/
  | join (c : Context) (child : Criterion)
  | unknown (c : Context) (key : String) (value : Json)

namespace Criterion

def context : Criterion → Context
  | matchAll c | equals c _ | compares c _ _ | startsWith c _ | all c _ | any c _ | not c _
  | and c _ | or c _ | inside c _ | geo c _ _ | lastActivity c _ | presence c _ _ _
  | subscription c _ | join c _ | unknown c _ _ => c

def label : Criterion → String
  | matchAll _ => "matchAll"
  | equals _ _ => "eq"
  | compares _ comparator _ => comparator.name
  | startsWith _ _ => "prefix"
  | all _ _ => "all"
  | any _ _ => "any"
  | not _ _ => "not"
  | and _ _ => "and"
  | or _ _ => "or"
  | inside _ _ => "inside"
  | geo _ _ _ => "geo"
  | lastActivity _ _ => "lastActivityDate"
  | presence _ _ _ _ => "presence"
  | subscription _ _ => "subscriptionStatus"
  | join _ _ => "join"
  | unknown _ _ _ => "unknown"

end Criterion

end Audience
