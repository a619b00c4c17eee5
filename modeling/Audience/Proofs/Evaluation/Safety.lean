import Mathlib
import Audience.Evaluation
import Audience.Proofs.Reading.WellFormed

/-! # Evaluation without fallbacks

Evaluation answers every criterion, also where a record is read as a value, a text is compared
with no text, an activity has nothing to be compared with, or a join leads to no record. Guarded
evaluation gives up there, whatever the rest of the tree says. It never does on a segment that
was read.
-/

namespace Audience

namespace Criterion

variable (p : Profile) (now : Int64)

def valuesOf? (record : Json) (s : Source) : Option (List Json) :=
  if s.isRoot then none else some (p.valuesOf now record s)

mutual

/-- Whether a criterion holds, unless some part of it has no answer of its own. -/
def holds? (record : Json) : Criterion → Option Bool
  | .matchAll _ => some true
  | .equals c literal =>
    (fun values => literal.isAmong now values) <$> valuesOf? p now record c.source
  | .compares c comparator literal =>
    (fun values => literal.isAccepted now values comparator) <$> valuesOf? p now record c.source
  | .startsWith c literal =>
    match literal.asString? with
    | some _ => literal.isInitial <$> valuesOf? p now record c.source
    | none => none
  | .all c literals =>
    (fun values => literals.all (·.isAmong now values)) <$> valuesOf? p now record c.source
  | .any c literals =>
    (fun values => literals.any (·.isAmong now values)) <$> valuesOf? p now record c.source
  | .not _ child => (!·) <$> holds? record child
  | .and _ children => (·.all id) <$> holdEach? record children
  | .or _ children => (·.any id) <$> holdEach? record children
  | .inside c area =>
    (fun values => (values.filterMap Geo.Point.ofJson?).any area.contains) <$>
      valuesOf? p now record c.source
  | .geo _ location date =>
    return (← holdsIfGiven? record location) && (← holdsIfGiven? record date)
  | .lastActivity _ none => none
  | .lastActivity _ (some comparison) => holds? record comparison
  | .presence _ present since elapsed =>
    return p.isPresent now = present && (← holdsIfGiven? record elapsed) &&
      (← holdsIfGiven? record since)
  | .subscription _ status => some (p.subscription = status)
  | .join c child =>
    match c.source with
    | .root .installation => holds? p.installation child
    | .root .user => holds? p.userRecord child
    | .root .event => (·.any id) <$> p.events.mapM fun event => holds? event child
    | _ => none
  | .unknown _ _ _ => some false

def holdEach? (record : Json) : List Criterion → Option (List Bool)
  | [] => some []
  | child :: rest => return (← holds? record child) :: (← holdEach? record rest)

def holdsIfGiven? (record : Json) : Option Criterion → Option Bool
  | none => some true
  | some child => holds? record child

end

variable {p now}

theorem valuesOf?_eq_some {record : Json} {s : Source} (h : s.isRoot = false) :
    valuesOf? p now record s = some (p.valuesOf now record s) := by
  simp [valuesOf?, h]

theorem holdEach?_eq_some {record : Json} {as : List Criterion}
    (h : ∀ a ∈ as, holds? p now record a = some (holds p now record a)) :
    holdEach? p now record as = some (as.map (holds p now record)) := by
  induction as with
  | nil => rfl
  | cons a as ih =>
    rw [List.forall_mem_cons] at h
    simp [holdEach?, h.1, ih h.2]

theorem holdsIfGiven?_eq_some {record : Json} {o : Option Criterion}
    (h : ∀ a ∈ o, holds? p now record a = some (holds p now record a)) :
    holdsIfGiven? p now record o = some (holdsIfGiven p now record o) := by
  cases o with
  | none => rfl
  | some a => exact h a rfl

end Criterion

theorem Written.holds?_eq_some {p : Profile} {now : Int64} {c : Context} {a : Criterion}
    (h : Written c a) : ∀ record, a.holds? p now record = some (a.holds p now record) := by
  induction h with
  | matchAll | subscription | unknown => intro; rfl
  | equals field | compares field | startsWith field | inside field | any field | all field =>
    intro record
    simp [Criterion.holds?, Criterion.holds, Criterion.valuesOf?_eq_some field, Literal.asString?]
  | not _ ih =>
    intro record
    simp [Criterion.holds?, Criterion.holds, ih]
  | and _ ih =>
    intro record
    rw [Criterion.holds?, Criterion.holds, Criterion.holdEach?_eq_some fun a ha => ih a ha record,
      Criterion.holdAll_eq_all]
    rfl
  | or _ ih =>
    intro record
    rw [Criterion.holds?, Criterion.holds, Criterion.holdEach?_eq_some fun a ha => ih a ha record,
      Criterion.holdAny_eq_any]
    rfl
  | geo _ _ _ ihl ihd =>
    intro record
    simp only [Criterion.holds?, Criterion.holds]
    rw [Criterion.holdsIfGiven?_eq_some fun a ha => ihl a ha record,
      Criterion.holdsIfGiven?_eq_some fun a ha => ihd a ha record]
    rfl
  | lastActivity _ _ ih => exact ih
  | presence _ _ _ ihs ihe =>
    intro record
    simp only [Criterion.holds?, Criterion.holds]
    rw [Criterion.holdsIfGiven?_eq_some fun a ha => ihs a ha record,
      Criterion.holdsIfGiven?_eq_some fun a ha => ihe a ha record]
    rfl
  | field _ _ ih | stay _ ih => exact ih
  | @join c target a _ _ _ ih =>
    intro record
    cases target with
    | installation => exact ih _
    | user => exact ih _
    | event =>
      simp only [Criterion.holds?, Criterion.holds, Context.child, ih]
      have each : p.events.mapM (fun event => some (a.holds p now event)) =
          some (p.events.map (a.holds p now)) := List.mapM_pure
      simp [each]

namespace Grammar

/-- Every segment that is read is well-formed, and evaluating it, on whatever record, never
falls back on an answer for something that has none. -/
theorem read_wellFormed {kc kl : Bool} {r : Root} {document : Json} {a : Criterion}
    (h : (builtin kc kl).read r document = .ok a) :
    a.WellFormed r ∧ ∀ p now record, a.holds? p now record = some (a.holds p now record) :=
  have written := read_written h
  ⟨Criterion.Stands.wellFormed ⟨_, written, .root r⟩, fun _ _ => written.holds?_eq_some⟩

def goneDocument : Json :=
  .object [
    ("presence", .object [
      ("present", .bool false),
      ("elapsedTime", .object [("gt", .number (.integer 1000))])]),
    ("not", .object [(".home", .object [(".city", .object [("prefix", .string "Ber")])])])]

def gone : Criterion :=
  let here := Context.root .installation
  let elapsed := here.child (.elapsedTime (.root .installation) false)
  let home := here.child (.field (.root .installation) ["home"])
  .and here [
    .presence here false none
      (some (.compares elapsed .gt (.number (.integer 1000)))),
    .not here (.startsWith (home.child (.field (.root .installation) ["home", "city"]))
      (.string "Ber"))]

theorem read_wellFormed_gone :
    strict.read .installation goneDocument = .ok gone ∧ gone.WellFormed .installation ∧
      ∀ p now record, gone.holds? p now record = some (gone.holds p now record) := by
  have read : strict.read .installation goneDocument = .ok gone := by cbv
  exact ⟨read, read_wellFormed read⟩

end Grammar

end Audience
