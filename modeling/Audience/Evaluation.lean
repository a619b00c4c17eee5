import Audience.Criterion
import Audience.Geo.Geohash
import Audience.Json.Comparison
import Audience.Profile.Basic
import Audience.Timestamp

/-! # Evaluation

A criterion holds of a profile at one reading of the clock. Fields are read from the record
at hand, which joins change; a field that holds a list counts as all its values. Evaluation
always gives an answer: what cannot be resolved does not match.
-/

namespace Audience

def Path.index? (key : String) : Option Nat :=
  let index := digits? <| match key.toList with
    | '+' :: rest => rest
    | s => s
  index.filter (· < UInt64.size)

def Json.step? (v : Json) (key : String) : Option Json :=
  match v with
  | .object members => Members.get? members key
  | .array items => (Path.index? key).bind (items[·]?)
  | _ => none

def Json.at? (v : Json) (path : Path) : Option Json :=
  path.foldlM Json.step? v

/-- Whether a path leads to a date that a record may keep as text. -/
def Path.isCustomDate (path : Path) : Bool :=
  2 ≤ path.length && path.head? = some "custom" &&
    (path.getLast?.any fun key => "date_".toList.isPrefixOf key.toList)

/-- A text that writes a date as the number of its milliseconds. -/
def Json.dated (v : Json) : Json :=
  match v.asString?.bind Timestamp.parse? with
  | some t => .number (.integer t)
  | none => v

/-- The values that stand for a field: the items of a list but for nulls, nothing where the
field is missing or null, and the value itself otherwise. -/
def Json.values : Option Json → List Json
  | none | some .null => []
  | some (.array items) => items.filter (!·.isNull)
  | some v => [v]

def Json.valuesAt (record : Json) (path : Path) : List Json :=
  let values := Json.values (record.at? path)
  if path.isCustomDate then values.map Json.dated else values

/-- A point as records keep it: a geohash stands for the center of its cell. -/
def Geo.Point.ofJson? : Json → Option (Geo.Point Float)
  | .string text => match Geo.Geohash.parse text with
    | .ok h => some h.cell.center
    | .error _ => none
  | .object members => do
    return ⟨← (Members.get? members "lat").bind Json.asFloat?,
      ← (Members.get? members "lon").bind Json.asFloat?⟩
  | _ => none

def Presence.isAt (p : Presence) (now : Int64) : Bool :=
  p.fromDate ≤ now && now ≤ p.untilDate

namespace Profile

variable (p : Profile) (now : Int64)

/-- Without a word on presence the installation is present. -/
def isPresent : Bool :=
  match p.presence with
  | none => true
  | some presence => presence.isAt now

/-- Since when the installation is present, or absent. -/
def sinceDate (present : Bool) : Int64 :=
  match p.presence with
  | none => if present then now else Int64.maxValue
  | some presence => if present then presence.fromDate else presence.untilDate

def elapsedTime (present : Bool) : Int64 :=
  match p.presence with
  | none => 0
  | some presence =>
    if present then Int64.ofIntClamp (max 0 (now.toInt - presence.fromDate.toInt))
    else presence.elapsedTime

/-- Push messages need a token; with one, the installation may still have opted out. -/
def subscription : Subscription :=
  let token := (p.installation.get? "pushToken").bind (·.get? "data") |>.bind Json.asString?
  let preference :=
    (p.installation.get? "preferences").bind (·.get? "subscriptionStatus")
      |>.bind Json.asString?
  if token.getD "" = "" then .optOut
  else if preference = some Subscription.optOut.name then .softOptOut
  else .optIn

/-- The values of a source, where the record at hand is the given one. -/
def valuesOf (record : Json) (s : Source) : List Json :=
  match s with
  | .root _ => []
  | .field _ _ => record.valuesAt s.fullPath
  | .lastActivity _ => [.ofInt64 p.lastOpened]
  | .sinceDate _ present => [.ofInt64 (p.sinceDate now present)]
  | .elapsedTime _ present => [.ofInt64 (p.elapsedTime now present)]
  | .geoLocation _ => p.installation.valuesAt ["geo", "location"]
  | .geoDate _ => p.installation.valuesAt ["geo", "date"]

end Profile

namespace Literal

/-- The value that a literal stands for at some time. Geographic and unknown literals have
none. -/
def resolve? (now : Int64) : Literal → Option Json
  | .null => some .null
  | .bool b => some (.bool b)
  | .number n | .date n | .duration n => some (.number n)
  | .string s => some (.string s)
  | .relativeDate d => some (.ofInt64 (d.applyTo now))
  | .calendarDuration d =>
    some (.ofInt64 (Int64.ofIntClamp ((d.applyTo now).toInt - now.toInt)))
  | .point _ | .area _ | .unknown _ _ => none

/-- Whether a literal is among some values. Null stands for no value at all. -/
def isAmong (now : Int64) (values : List Json) (literal : Literal) : Bool :=
  match literal.resolve? now with
  | none => false
  | some .null => values.isEmpty
  | some expected => values.any fun actual => expected.equal actual

def isAccepted (now : Int64) (values : List Json) (comparator : Comparator)
    (literal : Literal) : Bool :=
  match literal.resolve? now with
  | none => false
  | some expected => values.any fun actual =>
    (actual.compare? expected).any fun o => comparator.accepts o

def isInitial (values : List Json) (literal : Literal) : Bool :=
  match literal.asString? with
  | none => false
  | some initial => values.any fun actual =>
    actual.asString?.any fun s => initial.toList.isPrefixOf s.toList

end Literal

namespace Criterion

variable (p : Profile) (now : Int64)

mutual

/-- Whether a criterion holds, where the record at hand is the given one. -/
def holds (record : Json) : Criterion → Bool
  | .matchAll _ => true
  | .equals c literal => literal.isAmong now (p.valuesOf now record c.source)
  | .compares c comparator literal =>
    literal.isAccepted now (p.valuesOf now record c.source) comparator
  | .startsWith c literal => literal.isInitial (p.valuesOf now record c.source)
  | .all c literals =>
    literals.all fun literal => literal.isAmong now (p.valuesOf now record c.source)
  | .any c literals =>
    literals.any fun literal => literal.isAmong now (p.valuesOf now record c.source)
  | .not _ child => !holds record child
  | .and _ children => holdAll record children
  | .or _ children => holdAny record children
  | .inside c area =>
    ((p.valuesOf now record c.source).filterMap Geo.Point.ofJson?).any area.contains
  | .geo _ location date => holdsIfGiven record location && holdsIfGiven record date
  | .lastActivity _ none => 0 < p.lastOpened
  | .lastActivity _ (some comparison) => holds record comparison
  | .presence _ present since elapsed =>
    p.isPresent now = present && holdsIfGiven record elapsed && holdsIfGiven record since
  | .subscription _ status => p.subscription = status
  | .join c child =>
    match c.source with
    | .root .installation => holds p.installation child
    | .root .user => holds p.userRecord child
    | .root .event => p.events.any fun event => holds event child
    | _ => false
  | .unknown _ _ _ => false

def holdAll (record : Json) : List Criterion → Bool
  | [] => true
  | child :: rest => holds record child && holdAll record rest

def holdAny (record : Json) : List Criterion → Bool
  | [] => false
  | child :: rest => holds record child || holdAny record rest

def holdsIfGiven (record : Json) : Option Criterion → Bool
  | none => true
  | some child => holds record child

end

variable {p now}

theorem holdAll_eq_all (record : Json) (as : List Criterion) :
    holdAll p now record as = (as.map (holds p now record)).all id := by
  induction as with
  | nil => rfl
  | cons a as ih => simp [holdAll, ih]

theorem holdAny_eq_any (record : Json) (as : List Criterion) :
    holdAny p now record as = (as.map (holds p now record)).any id := by
  induction as with
  | nil => rfl
  | cons a as ih => simp [holdAny, ih]

theorem holds_and (c : Context) (record : Json) (as : List Criterion) :
    (Criterion.and c as).holds p now record = (as.map (holds p now record)).all id := by
  rw [holds, holdAll_eq_all]

theorem holds_or (c : Context) (record : Json) (as : List Criterion) :
    (Criterion.or c as).holds p now record = (as.map (holds p now record)).any id := by
  rw [holds, holdAny_eq_any]

end Criterion

/-- Whether the installation of a profile belongs to a segment. -/
def Profile.belongsTo (p : Profile) (now : Int64) (segment : Criterion) : Bool :=
  segment.holds p now p.installation

end Audience
