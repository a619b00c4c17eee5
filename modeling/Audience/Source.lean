/-! # Sources of values

A criterion reads values from a source: one of three kinds of record, a field inside another
source, or a figure derived from an installation. A source is wrapped around its parent, and
the innermost source is a record.
-/

namespace Audience

/-- The keys that lead to a value inside a record. -/
abbrev Path := List String

def splitDots : List Char → List (List Char)
  | [] => [[]]
  | c :: rest =>
    if c = '.' then [] :: splitDots rest
    else match splitDots rest with
      | [] => [[c]]
      | piece :: pieces => (c :: piece) :: pieces

theorem splitDots_ne_nil (s : List Char) : splitDots s ≠ [] := by
  cases s with
  | nil => simp [splitDots]
  | cons c rest =>
    simp only [splitDots]
    split
    · simp
    · split <;> simp

theorem splitDots_append_dot (p q : List Char) :
    splitDots (p ++ '.' :: q) = splitDots p ++ splitDots q := by
  induction p with
  | nil => simp [splitDots]
  | cons c rest ih =>
    by_cases h : c = '.'
    · simp [splitDots, h, ih]
    · simp only [List.cons_append, splitDots, h, if_false, ih]
      cases pieces : splitDots rest with
      | nil => exact absurd pieces (splitDots_ne_nil rest)
      | cons piece pieces => rfl

def Path.ofDotted (text : String) : Path :=
  (splitDots text.toList).map String.ofList

def Path.text (path : Path) : String :=
  ".".intercalate path

/-- The kinds of record. -/
inductive Root where
  | installation
  | user
  | event
  deriving DecidableEq, Repr

def Root.name : Root → String
  | .installation => "installation"
  | .user => "user"
  | .event => "event"

inductive Source where
  | root (root : Root)
  | field (parent : Source) (path : Path)
  | lastActivity (parent : Source)
  | sinceDate (parent : Source) (present : Bool)
  | elapsedTime (parent : Source) (present : Bool)
  | geoLocation (parent : Source)
  | geoDate (parent : Source)
  deriving DecidableEq, Repr

namespace Source

/-- The field of a source. A field of a field extends its path instead of wrapping it. -/
def project (parent : Source) (path : Path) : Source :=
  match parent with
  | .field grandparent front => .field grandparent (front ++ path)
  | _ => .field parent path

def parent? : Source → Option Source
  | .root _ => none
  | .field parent _ | .lastActivity parent | .sinceDate parent _ | .elapsedTime parent _
  | .geoLocation parent | .geoDate parent => some parent

def isRoot (s : Source) : Bool :=
  s.parent?.isNone

/-- The record at the bottom of a source. -/
def record : Source → Root
  | .root r => r
  | .field parent _ | .lastActivity parent | .sinceDate parent _ | .elapsedTime parent _
  | .geoLocation parent | .geoDate parent => parent.record

@[simp] theorem isRoot_project (s : Source) (path : Path) : (s.project path).isRoot = false := by
  cases s <;> rfl

@[simp] theorem record_project (s : Source) (path : Path) :
    (s.project path).record = s.record := by
  cases s <;> rfl

/-- The name of a source. A derived source is named without its parent. -/
def name : Source → String
  | .root r => r.name
  | .field parent path => parent.name ++ "." ++ Path.text path
  | .lastActivity _ => "lastActivityDate"
  | .sinceDate _ _ => "presence.sinceDate"
  | .elapsedTime _ _ => "presence.elapsedTime"
  | .geoLocation _ => "geo.location"
  | .geoDate _ => "geo.date"

/-- The path of a field with the paths of the fields it lies in; a derived source cuts it. -/
def fullPath : Source → Path
  | .field parent path => parent.fullPath ++ path
  | _ => []

@[simp] theorem fullPath_project (s : Source) (path : Path) :
    (s.project path).fullPath = s.fullPath ++ path := by
  cases s <;> simp [project, fullPath]

end Source

/-- Where a criterion stands: its source and the sources around it, nearest first. -/
structure Context where
  source : Source
  ancestors : List Source
  deriving DecidableEq, Repr

namespace Context

def root (r : Root) : Context :=
  ⟨.root r, []⟩

def child (c : Context) (s : Source) : Context :=
  ⟨s, c.source :: c.ancestors⟩

def depth (c : Context) : Nat :=
  c.ancestors.length

@[simp] theorem depth_child (c : Context) (s : Source) : (c.child s).depth = c.depth + 1 := rfl

end Context

end Audience
