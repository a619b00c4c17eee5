import Mathlib.Data.List.Forall2
import Audience.Evaluation
import Audience.Proofs.Json.Order

/-! # Values that are alike

A criterion asks of a value whether it equals what a literal stands for, how the two compare, which
text it is and which point it gives. Values with the same answers are alike, and no criterion tells
apart lists of values that are alike one by one. Profiles whose installations have such values at
every path, and that agree otherwise, give such values for every source.
-/

namespace Audience

namespace Json

/-- Values that no criterion tells apart. -/
structure Alike (v w : Json) : Prop where
  equal {l : Literal} {now : Int64} {expected : Json} (h : l.resolve? now = some expected) :
    expected.equal v = expected.equal w
  compare? (expected : Json) : v.compare? expected = w.compare? expected
  asString? : v.asString? = w.asString?
  point : Geo.Point.ofJson? v = Geo.Point.ofJson? w

namespace Alike

theorem refl (v : Json) : v.Alike v :=
  ⟨fun _ => rfl, fun _ => rfl, rfl, rfl⟩

theorem refl_list (vs : List Json) : List.Forall₂ Alike vs vs :=
  List.forall₂_same.mpr fun v _ => refl v

theorem dated {v w : Json} (h : v.Alike w) : v.dated.Alike w.dated := by
  unfold Json.dated
  rw [h.asString?]
  split
  · exact refl _
  · exact h

end Alike

/-- No literal equals an object and none is compared with it, but it may be a point. -/
theorem alike_object {members members' : Members}
    (lat : (members.get? "lat").bind asFloat? = (members'.get? "lat").bind asFloat?)
    (lon : (members.get? "lon").bind asFloat? = (members'.get? "lon").bind asFloat?) :
    (object members).Alike (object members') where
  equal {l _ _} resolved := by cases l <;> cases resolved <;> rfl
  compare? expected := by cases expected <;> rfl
  asString? := rfl
  point := by simp only [Geo.Point.ofJson?, lat, lon]

theorem alike_array (items items' : List Json) : (array items).Alike (array items') where
  equal {l _ _} resolved := by cases l <;> cases resolved <;> rfl
  compare? expected := by cases expected <;> rfl
  asString? := rfl
  point := rfl

theorem values_array_alike {items items' : List Json}
    (h : List.Forall₂ (fun v w => v.Alike w ∧ v.isNull = w.isNull) items items') :
    List.Forall₂ Alike (values (some (.array items))) (values (some (.array items'))) := by
  have kept := List.rel_filter (p := (!·.isNull)) (q := (!·.isNull))
    (fun v w both => by simp only [both.2]) h
  exact kept.imp fun _ _ both => both.1

theorem values_item_alike {front back : List Json} {v w : Json} (alike : v.Alike w)
    (null : v.isNull = w.isNull) :
    List.Forall₂ Alike (values (some (.array (front ++ v :: back))))
      (values (some (.array (front ++ w :: back)))) := by
  have same (items : List Json) :
      List.Forall₂ (fun v w => v.Alike w ∧ v.isNull = w.isNull) items items :=
    List.forall₂_same.mpr fun v _ => ⟨.refl v, rfl⟩
  exact values_array_alike (List.rel_append (same front) (.cons ⟨alike, null⟩ (same back)))

def FieldsAlike (v w : Json) : Prop :=
  ∀ path, List.Forall₂ Alike (v.valuesAt path) (w.valuesAt path)

theorem FieldsAlike.refl (v : Json) : v.FieldsAlike v :=
  fun _ => Alike.refl_list _

theorem fieldsAlike_of_values {v w : Json}
    (h : ∀ path, List.Forall₂ Alike (values (v.at? path)) (values (w.at? path))) :
    v.FieldsAlike w := by
  intro path
  unfold valuesAt
  split
  · exact List.rel_map (fun _ _ alike => alike.dated) (h path)
  · exact h path

end Json

section Lists

variable {vs ws : List Json} (values : List.Forall₂ Json.Alike vs ws)
include values

namespace Literal

variable {l m : Literal} {now now' : Int64}

theorem isAmong_eq (resolved : l.resolve? now = m.resolve? now') :
    l.isAmong now vs = m.isAmong now' ws := by
  unfold isAmong
  rw [resolved]
  split
  · rfl
  · cases values <;> rfl
  next expected => exact any_eq_of_forall₂ values fun alike => alike.equal expected

theorem isAccepted_eq (resolved : l.resolve? now = m.resolve? now') (comparator : Comparator) :
    l.isAccepted now vs comparator = m.isAccepted now' ws comparator := by
  unfold isAccepted
  rw [resolved]
  split
  · rfl
  next => exact any_eq_of_forall₂ values fun alike => by rw [alike.compare?]

theorem isInitial_eq (text : l.asString? = m.asString?) : l.isInitial vs = m.isInitial ws := by
  unfold isInitial
  rw [text]
  split
  · rfl
  next => exact any_eq_of_forall₂ values fun alike => by rw [alike.asString?]

end Literal

theorem any_point_eq (f : Geo.Point Float → Bool) :
    (vs.filterMap Geo.Point.ofJson?).any f = (ws.filterMap Geo.Point.ofJson?).any f := by
  rw [List.any_filterMap, List.any_filterMap]
  exact any_eq_of_forall₂ values fun alike => by rw [alike.point]

end Lists

/-- Profiles that no criterion on an installation tells apart. -/
structure Profile.Alike (p q : Profile) : Prop where
  installation : p.installation.FieldsAlike q.installation
  subscription : p.subscription = q.subscription
  presence : p.presence = q.presence
  lastOpened : p.lastOpened = q.lastOpened

namespace Profile.Alike

variable {p q : Profile} (h : p.Alike q)
include h

theorem isPresent (now : Int64) : p.isPresent now = q.isPresent now := by
  simp only [Profile.isPresent, h.presence]

theorem valuesOf (now : Int64) {v w : Json} (record : v.FieldsAlike w) (s : Source) :
    List.Forall₂ Json.Alike (p.valuesOf now v s) (q.valuesOf now w s) := by
  cases s with
  | root => exact .nil
  | field => exact record _
  | geoLocation => exact h.installation ["geo", "location"]
  | geoDate => exact h.installation ["geo", "date"]
  | lastActivity =>
    simp only [Profile.valuesOf, h.lastOpened]
    exact Json.Alike.refl_list _
  | sinceDate =>
    simp only [Profile.valuesOf, Profile.sinceDate, h.presence]
    exact Json.Alike.refl_list _
  | elapsedTime =>
    simp only [Profile.valuesOf, Profile.elapsedTime, h.presence]
    exact Json.Alike.refl_list _

end Profile.Alike

end Audience
