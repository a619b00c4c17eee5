import Audience.Proofs.Evaluation.Inputs
import Audience.Proofs.Json.Absence

/-! # Absent values in records

How a record puts it that an object inside of it has no value at a key is lost on evaluation: a
missing member, null, and a list of nulls all stand for no values at all, and an object or a list
around them is a value that no literal equals and none is compared with.
-/

namespace Audience

namespace Json

theorem Respelled.alike {v w : Json} (h : Respelled v w) : v.Alike w := by
  have lat := (h.get?_meets "lat").asFloat?_eq
  have lon := (h.get?_meets "lon").asFloat?_eq
  cases h with
  | here | member => exact alike_object lat lon
  | item => exact alike_array _ _

theorem values_absent (x : Absence) : values x.value? = [] := by
  cases x <;> simp [Absence.value?, values, isNull]

namespace Meets

theorem values {o o' : Option Json} (h : Meets o o') :
    List.Forall₂ Alike (Json.values o) (Json.values o') := by
  cases h with
  | same => exact Alike.refl_list _
  | absent x y =>
    rw [values_absent, values_absent]
    exact .nil
  | inside h =>
    have alike := h.alike
    cases h with
    | here | member => exact .cons alike .nil
    | item h => exact values_item_alike h.alike h.isNull_eq

theorem fieldsAlike {v w : Json} (h : Meets (some v) (some w)) : v.FieldsAlike w :=
  fieldsAlike_of_values fun path => (h.at? path).values

end Meets

end Json

/-- Profiles that differ in how an object inside of one record has no value at a key. -/
inductive Profile.Respelled : Profile → Profile → Prop where
  | installation {p : Profile} {v w : Json} (h : v.Respelled w) :
      Respelled { p with installation := v } { p with installation := w }
  | user {p : Profile} {v w : Json} (h : v.Respelled w) :
      Respelled { p with user := some v } { p with user := some w }
  | event {p : Profile} {front back : List Json} {v w : Json} (h : v.Respelled w) :
      Respelled { p with events := front ++ v :: back } { p with events := front ++ w :: back }

namespace Profile.Respelled

open Json (Meets)

variable {p q : Profile} (h : p.Respelled q)
include h

theorem differsIn : p.DiffersIn (fun v w => Meets (some v) (some w)) q := by
  cases h with
  | installation h => exact .installation (.inside h)
  | user h => exact .user (.inside h)
  | event h => exact .event (.inside h)

theorem meets_installation : Meets (some p.installation) (some q.installation) :=
  h.differsIn.related fun _ => .same

theorem subscription_eq : p.subscription = q.subscription := by
  have text (key inner : String) :=
    ((h.meets_installation.get? key).get? inner).asString?_eq
  simp only [Option.bind_some] at text
  simp only [Profile.subscription, text]

theorem alike : p.Alike q where
  installation := h.meets_installation.fieldsAlike
  subscription := h.subscription_eq
  presence := h.differsIn.presence_eq
  lastOpened := h.differsIn.lastOpened_eq

theorem reached (s : Source) :
    EachRelated (fun v w => Meets (some v) (some w)) (p.reached s) (q.reached s) :=
  h.differsIn.reached (fun _ => .same) s

end Profile.Respelled

/-- A missing member, a null, and a list of nulls at the same place of a record are one to every
segment. -/
theorem belongsTo_respelled {p q : Profile} (h : p.Respelled q) (now : Int64) (a : Criterion) :
    p.belongsTo now a = q.belongsTo now a := by
  refine Criterion.holds_eq (R := fun v w => Json.Meets (some v) (some w))
    (fun b _ v w record => ?_) (fun c b _ => h.reached c.source) h.meets_installation
  exact Criterion.test_alike h.alike record.fieldsAlike

def unsettled : Criterion :=
  let here := Context.root .installation
  .equals (here.child (.field (.root .installation) ["address", "city"])) .null

def unsettledRecord (x : Absence) : Json :=
  .object [
    ("tags", .array []),
    ("address", .object (Members.leave "city" x [("zip", .string "10115")]))]

def unsettledProfile (x : Absence) : Profile where
  installation := unsettledRecord x

theorem belongsTo_respelled_unsettled :
    (∀ x, (unsettledProfile .missing).Respelled (unsettledProfile x)) ∧
      ∀ x, (unsettledProfile x).belongsTo 0 unsettled = true := by
  have record (x : Absence) : (unsettledRecord .missing).Respelled (unsettledRecord x) :=
    @Json.Respelled.member [("tags", .array [])] [] "address" _ _ .here
  have respelled (x : Absence) : (unsettledProfile .missing).Respelled (unsettledProfile x) :=
    @Profile.Respelled.installation {} _ _ (record x)
  have belongs : (unsettledProfile .missing).belongsTo 0 unsettled = true := by cbv
  refine ⟨respelled, fun x => ?_⟩
  rw [← belongsTo_respelled (respelled x) 0 unsettled, belongs]

end Audience
