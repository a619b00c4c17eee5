import Audience.Grammar.Basic
import Audience.Grammar.Literals

/-! # Rules for criteria

Criteria about values stand on a field or a derived source, criteria about the installation
on the installation itself, and connectives anywhere. Moving to another kind of record takes
a join; an installation lies between a user and an event, so going from one of these to the
other takes two.
-/

namespace Audience

theorem Members.sizeOf_get? {members : Members} {key : String} {value : Json}
    (h : members.get? key = some value) : sizeOf value < sizeOf members := by
  induction members with
  | nil => simp [Members.get?] at h
  | cons m rest ih =>
    obtain ⟨k, v⟩ := m
    simp only [Members.get?] at h
    split at h
    · obtain rfl := Option.some.inj h
      simp only [List.cons.sizeOf_spec, Prod.mk.sizeOf_spec]
      omega
    · have := ih h
      simp only [List.cons.sizeOf_spec]
      omega

namespace Scope

variable {size : Nat} (scope : Scope size)

def child (c : Context) (key : String) (value : Json) (within : sizeOf value ≤ size) :
    Outcome Criterion :=
  match value with
  | .object members => scope.members c members (by
      simp only [Json.object.sizeOf_spec] at within; omega)
  | _ => fault (.expects key .object)

def children (c : Context) (key : String) (values : List Json) (within : sizeOf values ≤ size) :
    Outcome (List Criterion) :=
  match values with
  | [] => .ok []
  | value :: rest => do
    have h : sizeOf value + sizeOf rest ≤ size := by
      simp only [List.cons.sizeOf_spec] at within; omega
    return (← scope.child c key value (by omega)) :: (← children c key rest (by omega))

def literals (c : Context) (values : List Json) (within : sizeOf values ≤ size) :
    Outcome (List Literal) :=
  match values with
  | [] => .ok []
  | value :: rest => do
    have h : sizeOf value + sizeOf rest ≤ size := by
      simp only [List.cons.sizeOf_spec] at within; omega
    return (← scope.literal c value (by omega)) :: (← literals c rest (by omega))

def optional (c : Context) (s : Source) (members : Members) (key : String)
    (within : sizeOf members ≤ size) : Outcome (Option Criterion) :=
  match h : members.get? key with
  | none => .ok none
  | some value =>
    some <$> scope.child (c.child s) key value
      (Nat.le_trans (Nat.le_of_lt (Members.sizeOf_get? h)) within)

end Scope

namespace Grammar

def requireField (c : Context) (key : String) : Outcome Unit :=
  if c.source.isRoot then fault (.needsField key c.source) else .ok ()

def requireInstallation (c : Context) (key : String) : Outcome Unit :=
  if c.source = .root .installation then .ok () else fault (.needsInstallation key c.source)

/-- A key that starts with a dot reads a field of the source. -/
def fieldRule : Rule Criterion := fun c key value scope =>
  match key.toList with
  | '.' :: path =>
    let s := c.source.project (Path.ofDotted (String.ofList path))
    some <$> scope.child (c.child s) key value (Nat.le_refl _)
  | _ => .ok none

/-- A list of criteria put together by a connective. -/
def listRule (connect : Context → List Criterion → Criterion) : Rule Criterion :=
  fun c key value scope =>
    match value, scope with
    | .array items, scope => (some ∘ connect c) <$> scope.children c key items (by
        simp only [Json.array.sizeOf_spec]; omega)
    | _, _ => fault (.expects key .array)

def notRule : Rule Criterion := fun c key value scope =>
  (some ∘ .not c) <$> scope.child c key value (Nat.le_refl _)

def literalCriterion (build : String → Context → Literal → Outcome Criterion) :
    Rule Criterion := fun c key value scope => do
  requireField c key
  some <$> build key c (← scope.literal c value (Nat.le_refl _))

def literalsRule (build : Context → List Literal → Criterion) : Rule Criterion :=
  fun c key value scope => do
    requireField c key
    match value, scope with
    | .array items, scope => (some ∘ build c) <$> scope.literals c items (by
        simp only [Json.array.sizeOf_spec]; omega)
    | _, _ => fault (.expects key .array)

def equalsRule : Rule Criterion :=
  literalCriterion fun _ c literal => .ok (.equals c literal)

def comparesRule (comparator : Comparator) : Rule Criterion :=
  literalCriterion fun _ c literal => .ok (.compares c comparator literal)

def startsWithRule : Rule Criterion :=
  literalCriterion fun key c literal =>
    match literal.asString? with
    | some _ => .ok (.startsWith c literal)
    | none => fault (.expects key .string)

def insideRule : Rule Criterion :=
  literalCriterion fun key c literal =>
    match literal.asArea? with
    | some area => .ok (.inside c area)
    | none => fault (.expects key .area)

/-- Where the installation is and when that was recorded. -/
def geoRule : Rule Criterion := fun c key value scope => do
  requireInstallation c key
  match value, scope with
  | .object members, scope =>
    have within : sizeOf members ≤ sizeOf (Json.object members) := by
      simp only [Json.object.sizeOf_spec]; omega
    let location ← scope.optional c (.geoLocation c.source) members "location" within
    let date ← scope.optional c (.geoDate c.source) members "date" within
    return some (.geo c location date)
  | _, _ => fault (.expects key .object)

def lastActivityRule : Rule Criterion := fun c key value scope => do
  requireInstallation c key
  let comparison ← scope.child (c.child (.lastActivity c.source)) key value (Nat.le_refl _)
  return some (.lastActivity c (some comparison))

/-- Whether the installation is present, since when and for how long. -/
def presenceRule : Rule Criterion := fun c key value scope => do
  requireInstallation c key
  match value, scope with
  | .object members, scope =>
    have within : sizeOf members ≤ sizeOf (Json.object members) := by
      simp only [Json.object.sizeOf_spec]; omega
    match (Members.get? members "present").bind Json.asBool? with
    | none => fault (.expects key .presentFlag)
    | some present =>
      let since ← scope.optional c (.sinceDate c.source present) members "sinceDate" within
      let elapsed ←
        scope.optional c (.elapsedTime c.source present) members "elapsedTime" within
      return some (.presence c present since elapsed)
  | _, _ => fault (.expects key .object)

def readSubscription (text : String) : Outcome Subscription :=
  match Subscription.ofName? text with
  | some status => .ok status
  | none => fault (.subscription text)

def subscriptionRule : Rule Criterion := fun c key value _ => do
  requireInstallation c key
  match value with
  | .string text => (some ∘ .subscription c) <$> readSubscription text
  | _ => fault (.expects key .string)

/-- Criteria about records of one kind, joined to the record at hand where it is of another. -/
def recordRule (target : Root) : Rule Criterion := fun c key value scope =>
  let current := c.source.record
  let there := c.child (.root target)
  if current = target then
    some <$> scope.child there key value (Nat.le_refl _)
  else if current = .installation ∨ target = .installation then
    (some ∘ .join there) <$> scope.child there key value (Nat.le_refl _)
  else
    let hub := c.child (.root .installation)
    let there := hub.child (.root target)
    (fun child => some (.join hub (.join there child))) <$>
      scope.child there key value (Nat.le_refl _)

def builtinCriteria : Registry Criterion where
  exact := [
    ("and", listRule .and),
    ("or", listRule .or),
    ("not", notRule),
    ("eq", equalsRule),
    ("any", literalsRule .any),
    ("all", literalsRule .all),
    ("gt", comparesRule .gt),
    ("gte", comparesRule .gte),
    ("lt", comparesRule .lt),
    ("lte", comparesRule .lte),
    ("prefix", startsWithRule),
    ("inside", insideRule),
    ("geo", geoRule),
    ("lastActivityDate", lastActivityRule),
    ("presence", presenceRule),
    ("subscriptionStatus", subscriptionRule),
    ("user", recordRule .user),
    ("installation", recordRule .installation),
    ("event", recordRule .event)]
  dynamic := [fieldRule]
  conflict := .criterionRuleExists

/-- The built-in rules with the two flags of leniency. -/
def builtin (keepUnknownCriteria keepUnknownLiterals : Bool) : Grammar where
  literals := builtinLiterals
  criteria := builtinCriteria
  keepUnknownCriteria
  keepUnknownLiterals

def lenient : Grammar :=
  builtin true true

def strict : Grammar :=
  builtin false false

end Grammar

end Audience
