import Audience.Proofs.Evaluation.Inputs
import Audience.Proofs.Json.Absence

/-! # Dates kept as text

Below its custom member a record may keep a date, at a key that says so, as a text or as the number
of its milliseconds. Evaluation turns the text into the number when it reads a path to it. Every
path to the text is one of those, and whoever comes to a value around it cannot tell what it is, so
that a record may just as well keep the number from the beginning.
-/

namespace Audience

/-- Whether a key is one of dates that may be kept as text. -/
def isDateKey (key : String) : Bool :=
  "date_".toList.isPrefixOf key.toList

theorem Path.isCustomDate_custom {path : Path} (date : path.getLast?.any isDateKey = true) :
    Path.isCustomDate ("custom" :: path) = true := by
  cases path with
  | nil => cases date
  | cons key path =>
    have last : (("custom" :: key :: path).getLast?.any isDateKey) = true := by
      rwa [List.getLast?_cons_cons]
    exact last

namespace Json

/-- Values that differ in one date inside of them, of which the second has the number. -/
inductive Redated : Json → Json → Prop where
  | here {front back : Members} {key text : String} {t : Int} (date : isDateKey key = true)
      (written : Timestamp.parse? text = some t) :
      Redated (.object (front ++ (key, .string text) :: back))
        (.object (front ++ (key, .number (.integer t)) :: back))
  | member {front back : Members} {key : String} {v w : Json} (h : Redated v w) :
      Redated (.object (front ++ (key, v) :: back)) (.object (front ++ (key, w) :: back))
  | item {front back : List Json} {v w : Json} (h : Redated v w) :
      Redated (.array (front ++ v :: back)) (.array (front ++ w :: back))

/-- Records that are the same but for one date below the custom member. -/
inductive RedatedRecord : Json → Json → Prop where
  | same {v} : RedatedRecord v v
  | custom {front back : Members} {v w : Json} (h : Redated v w) :
      RedatedRecord (.object (front ++ ("custom", v) :: back))
        (.object (front ++ ("custom", w) :: back))

/-- What a reader comes to in such values. It is the date itself only where some condition holds. -/
inductive Finds (P : Prop) : Option Json → Option Json → Prop where
  | same {o} : Finds P o o
  | inside {v w} (h : Redated v w) : Finds P (some v) (some w)
  | date {text t} (h : P) (written : Timestamp.parse? text = some t) :
      Finds P (some (.string text)) (some (.number (.integer t)))

namespace Finds

variable {P Q : Prop} {o o' : Option Json}

theorem imp (hPQ : P → Q) (h : Finds P o o') : Finds Q o o' := by
  cases h with
  | same => exact .same
  | inside h => exact .inside h
  | date h written => exact .date (hPQ h) written

theorem asFloat?_eq (no : ¬ P) (h : Finds P o o') :
    o.bind Json.asFloat? = o'.bind Json.asFloat? := by
  cases h with
  | same => rfl
  | inside h => cases h <;> rfl
  | date h => exact absurd h no

end Finds

namespace Redated

variable {v w : Json} (h : Redated v w)
include h

theorem step?_finds (key : String) :
    Finds (isDateKey key = true) (v.step? key) (w.step? key) := by
  cases h with
  | here date written =>
    exact Members.get?_of_member (fun _ => .same) fun same => .date (same ▸ date) written
  | member h => exact Members.get?_of_member (fun _ => .same) fun _ => .inside h
  | item h =>
    simp only [step?]
    cases Path.index? key with
    | none => exact .same
    | some i => exact getElem?_of_item (fun _ => .same) (.inside h) i

theorem isNull_eq : v.isNull = w.isNull := by
  cases h <;> rfl

theorem alike : v.Alike w := by
  have lat := (h.step?_finds "lat").asFloat?_eq (by decide)
  have lon := (h.step?_finds "lon").asFloat?_eq (by decide)
  cases h with
  | here | member => exact alike_object lat lon
  | item => exact alike_array _ _

theorem values_alike : List.Forall₂ Alike (values (some v)) (values (some w)) := by
  have alike := h.alike
  cases h with
  | here | member => exact .cons alike .nil
  | item h => exact values_item_alike h.alike h.isNull_eq

end Redated

/-- A path comes to the date only where its last key is one of dates. -/
theorem Redated.at?_finds {v w : Json} (h : Redated v w) (path : Path) :
    Finds (path.getLast?.any isDateKey = true) (v.at? path) (w.at? path) := by
  induction path generalizing v w with
  | nil => exact .inside h
  | cons key path ih =>
    rw [at?_cons, at?_cons]
    generalize v.step? key = o, w.step? key = o', h.step?_finds key = found
    cases found with
    | same => exact .same
    | inside h =>
      refine (ih h).imp fun date => ?_
      cases path with
      | nil => cases date
      | cons => rwa [List.getLast?_cons_cons]
    | date date written =>
      -- Nothing lies below a text, nor below a number.
      cases path with
      | nil => exact .date date written
      | cons => exact .same

namespace RedatedRecord

variable {v w : Json} (h : RedatedRecord v w)
include h

theorem at?_finds (path : Path) :
    Finds (path.isCustomDate = true) (v.at? path) (w.at? path) := by
  cases h with
  | same => exact .same
  | custom h =>
    cases path with
    | nil => exact .inside (.member h)
    | cons key path =>
      refine Members.get?_of_member (R := fun o o' => Finds _ (o.bind (·.at? path))
        (o'.bind (·.at? path))) (fun _ => .same) ?_
      rintro rfl
      exact (h.at?_finds path).imp Path.isCustomDate_custom

theorem fieldsAlike : v.FieldsAlike w := by
  intro path
  have found := h.at?_finds path
  unfold valuesAt
  generalize v.at? path = o, w.at? path = o' at found
  cases found with
  | same => exact Alike.refl_list _
  | inside h =>
    split
    · exact List.rel_map (fun _ _ alike => alike.dated) h.values_alike
    · exact h.values_alike
  | date custom written =>
    rw [if_pos custom, if_pos custom]
    simp only [values, List.map_cons, List.map_nil, dated, asString?, Option.bind_some, written]
    exact Alike.refl_list _

theorem get?_eq {key : String} (ne : "custom" ≠ key) : v.get? key = w.get? key := by
  cases h with
  | same => rfl
  | custom => exact Members.get?_of_member (fun _ => rfl) fun same => absurd same ne

end RedatedRecord

end Json

theorem Profile.alike_of_redated {p q : Profile} (h : p.DiffersIn Json.RedatedRecord q) :
    p.Alike q := by
  have installation := h.related fun _ => .same
  have token : p.installation.get? "pushToken" = q.installation.get? "pushToken" :=
    installation.get?_eq (by decide)
  have preferences : p.installation.get? "preferences" = q.installation.get? "preferences" :=
    installation.get?_eq (by decide)
  refine ⟨installation.fieldsAlike, ?_, h.presence_eq, h.lastOpened_eq⟩
  simp only [Profile.subscription, token, preferences]

/-- Turning dates into numbers when they are read is keeping the numbers: no segment sees which of
the two a record has, in the installation, the user or any event. -/
theorem belongsTo_redated {p q : Profile} (h : p.DiffersIn Json.RedatedRecord q) (now : Int64)
    (a : Criterion) : p.belongsTo now a = q.belongsTo now a := by
  refine Criterion.holds_eq (R := Json.RedatedRecord) (fun b _ v w record => ?_)
    (fun c b _ => h.reached (fun _ => .same) c.source) (h.related fun _ => .same)
  exact Criterion.test_alike (Profile.alike_of_redated h) record.fieldsAlike

def dueOrders : Criterion :=
  let event := (Context.root .installation).child (.root .event)
  let due := event.child (.field (.root .event) ["custom", "orders", "0", "date_due"])
  .join event (.compares due .gt (.date (.integer 1609459200000)))

def orderer (due : Json) : Profile where
  events := [
    .object [("kind", .string "visit")],
    .object [
      ("kind", .string "order"),
      ("custom", .object [("orders", .array [.object [("date_due", due)]])])]]

theorem belongsTo_redated_dueOrders :
    let text := orderer (.string "2021-03")
    let number := orderer (.number (.integer 1614556800000))
    text.DiffersIn Json.RedatedRecord number ∧ text.belongsTo 0 dueOrders = true ∧
      number.belongsTo 0 dueOrders = true := by
  intro text number
  have written : Timestamp.parse? "2021-03" = some 1614556800000 := by decide +kernel
  have inner := @Json.Redated.here [] [] "date_due" _ _ (by decide) written
  have orders := @Json.Redated.member [] [] "orders" _ _ (@Json.Redated.item [] [] _ _ inner)
  have record := @Json.RedatedRecord.custom [("kind", .string "order")] [] _ _ orders
  have redated : text.DiffersIn Json.RedatedRecord number :=
    @Profile.DiffersIn.event _ {} [.object [("kind", .string "visit")]] [] _ _ record
  have belongs : text.belongsTo 0 dueOrders = true := by cbv
  refine ⟨redated, belongs, ?_⟩
  rw [← belongsTo_redated redated, belongs]

end Audience
