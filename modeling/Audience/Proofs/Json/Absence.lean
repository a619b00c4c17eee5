import Audience.Evaluation
import Audience.Proofs.Json.Order

/-! # Absent members

An object has no value at a key where the key is missing, where it holds null, and where it holds a
list of nulls, which may be empty. However this is put somewhere inside of a value, whoever follows
keys into the value comes to the same: to no value in both, or to values that are put differently
inside.
-/

namespace Audience

/-- The ways in which an object has no value at a key. -/
inductive Absence where
  | missing
  | null
  | nulls (count : Nat)
  deriving DecidableEq, Repr

def Absence.value? : Absence → Option Json
  | missing => none
  | null => some .null
  | nulls count => some (.array (List.replicate count .null))

namespace Members

def without (key : String) (members : Members) : Members :=
  members.filter (·.1 ≠ key)

def leave (key : String) (x : Absence) (members : Members) : Members :=
  match x.value? with
  | none => members.without key
  | some v => members.put key v

theorem get?_without_self (members : Members) (key : String) :
    (members.without key).get? key = none := by
  induction members with
  | nil => rfl
  | cons m rest ih =>
    by_cases hm : m.1 = key
    · simpa [without, hm] using ih
    · simpa [without, hm, get?] using ih

theorem get?_without_of_ne (members : Members) {key other : String} (h : other ≠ key) :
    (members.without key).get? other = members.get? other := by
  induction members with
  | nil => rfl
  | cons m rest ih =>
    by_cases hm : m.1 = key
    · simpa [without, hm, get?, h.symm] using ih
    · by_cases ho : m.1 = other
      · simp [without, get?, ho, h]
      · simpa [without, hm, get?, ho] using ih

theorem get?_leave (members : Members) (key : String) (x : Absence) :
    (members.leave key x).get? key = x.value? := by
  unfold leave
  split
  next h => rw [h, get?_without_self]
  next h => rw [h, get?_put]

theorem get?_leave_of_ne (members : Members) {key other : String} (x : Absence) (h : other ≠ key) :
    (members.leave key x).get? other = members.get? other := by
  unfold leave
  split
  · exact get?_without_of_ne members h
  · exact get?_put_of_ne members _ h

section Replaced

variable {R : Option Json → Option Json → Prop} (same : ∀ o, R o o)
include same

theorem get?_of_member {front back : Members} {k key : String} {v w : Json}
    (member : k = key → R (some v) (some w)) :
    R ((front ++ (k, v) :: back).get? key) ((front ++ (k, w) :: back).get? key) := by
  induction front with
  | nil =>
    by_cases hk : k = key
    · simpa [get?, hk] using member hk
    · simpa [get?, hk] using same _
  | cons m front ih =>
    by_cases hm : m.1 = key
    · simpa [get?, hm] using same _
    · simpa [get?, hm] using ih

end Replaced

end Members

theorem getElem?_of_item {α : Type} {R : Option α → Option α → Prop} (same : ∀ o, R o o)
    {front back : List α} {v w : α} (item : R (some v) (some w)) (i : Nat) :
    R (front ++ v :: back)[i]? (front ++ w :: back)[i]? := by
  induction front generalizing i with
  | nil =>
    cases i with
    | zero => exact item
    | succ i => exact same _
  | cons _ front ih =>
    cases i with
    | zero => exact same _
    | succ i => exact ih i

namespace Json

theorem at?_cons (v : Json) (key : String) (path : Path) :
    v.at? (key :: path) = (v.step? key).bind (·.at? path) := rfl

/-- Values that differ in how one object inside of them has no value at a key. -/
inductive Respelled : Json → Json → Prop where
  | here {members : Members} {key : String} {x y : Absence} :
      Respelled (.object (members.leave key x)) (.object (members.leave key y))
  | member {front back : Members} {key : String} {v w : Json} (h : Respelled v w) :
      Respelled (.object (front ++ (key, v) :: back)) (.object (front ++ (key, w) :: back))
  | item {front back : List Json} {v w : Json} (h : Respelled v w) :
      Respelled (.array (front ++ v :: back)) (.array (front ++ w :: back))

/-- What a reader comes to in values that differ in such a way. -/
inductive Meets : Option Json → Option Json → Prop where
  | absent (x y : Absence) : Meets x.value? y.value?
  | same {o} : Meets o o
  | inside {v w} (h : Respelled v w) : Meets (some v) (some w)

namespace Meets

variable {o o' : Option Json}

theorem bind {f : Json → Option Json} (inside : ∀ {v w}, Respelled v w → Meets (f v) (f w))
    (absent : ∀ x : Absence, ∃ y : Absence, x.value?.bind f = y.value?) (h : Meets o o') :
    Meets (o.bind f) (o'.bind f) := by
  cases h with
  | same => exact .same
  | inside h => exact inside h
  | absent x y =>
    obtain ⟨x', hx⟩ := absent x
    obtain ⟨y', hy⟩ := absent y
    rw [hx, hy]
    exact .absent x' y'

theorem bind_eq {β : Type} {f : Json → Option β} (inside : ∀ {v w}, Respelled v w → f v = f w)
    (absent : ∀ x : Absence, x.value?.bind f = none) (h : Meets o o') : o.bind f = o'.bind f := by
  cases h with
  | same => rfl
  | inside h => exact inside h
  | absent x y => rw [absent x, absent y]

end Meets

theorem get?_meets_of_member {front back : Members} {k : String} {v w : Json}
    (h : Respelled v w) (key : String) :
    Meets ((front ++ (k, v) :: back).get? key) ((front ++ (k, w) :: back).get? key) :=
  Members.get?_of_member (fun _ => .same) fun _ => .inside h

theorem getElem?_meets_of_item {front back : List Json} {v w : Json} (h : Respelled v w) (i : Nat) :
    Meets (front ++ v :: back)[i]? (front ++ w :: back)[i]? :=
  getElem?_of_item (fun _ => .same) (.inside h) i

namespace Respelled

variable {v w : Json} (h : Respelled v w)
include h

theorem get?_meets (key : String) : Meets (v.get? key) (w.get? key) := by
  cases h with
  | @here members k x y =>
    by_cases hk : key = k
    · subst hk
      simpa only [get?, Members.get?_leave] using .absent x y
    · simpa only [get?, Members.get?_leave_of_ne _ _ hk] using .same
  | member h => exact get?_meets_of_member h key
  | item => exact .same

theorem step?_meets (key : String) : Meets (v.step? key) (w.step? key) := by
  have objects := get?_meets h key
  cases h with
  | here | member => exact objects
  | item h =>
    simp only [step?]
    cases Path.index? key with
    | none => exact .same
    | some i => exact getElem?_meets_of_item h i

theorem asString?_eq : v.asString? = w.asString? := by
  cases h <;> rfl

theorem asFloat?_eq : v.asFloat? = w.asFloat? := by
  cases h <;> rfl

theorem isNull_eq : v.isNull = w.isNull := by
  cases h <;> rfl

end Respelled

namespace Meets

variable {o o' : Option Json} (h : Meets o o')
include h

theorem get? (key : String) : Meets (o.bind (·.get? key)) (o'.bind (·.get? key)) := by
  refine h.bind (fun h => h.get?_meets key) fun x => ⟨.missing, ?_⟩
  cases x <;> rfl

theorem step? (key : String) : Meets (o.bind (·.step? key)) (o'.bind (·.step? key)) := by
  refine h.bind (fun h => h.step?_meets key) fun x => ?_
  cases x with
  | missing | null => exact ⟨.missing, rfl⟩
  | nulls count =>
    simp only [Absence.value?, Option.bind_some, Json.step?]
    cases Path.index? key with
    | none => exact ⟨.missing, rfl⟩
    | some i =>
      simp only [Option.bind_some, List.getElem?_replicate]
      split
      · exact ⟨.null, rfl⟩
      · exact ⟨.missing, rfl⟩

theorem at? (path : Path) : Meets (o.bind (·.at? path)) (o'.bind (·.at? path)) := by
  induction path generalizing o o' with
  | nil => simpa [Json.at?] using h
  | cons key path ih =>
    simp only [Json.at?_cons, ← Option.bind_assoc]
    exact ih (h.step? key)

theorem asString?_eq : o.bind Json.asString? = o'.bind Json.asString? := by
  refine h.bind_eq (fun h => h.asString?_eq) fun x => ?_
  cases x <;> rfl

theorem asFloat?_eq : o.bind Json.asFloat? = o'.bind Json.asFloat? := by
  refine h.bind_eq (fun h => h.asFloat?_eq) fun x => ?_
  cases x <;> rfl

end Meets

end Json

end Audience
