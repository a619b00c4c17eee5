import Mathlib
import Audience.Evaluation
import Audience.Proofs.Json.Absence

/-! # Lists as fields

A field that holds a list has the values of its items. Most criteria on a field ask for some value
of it, and so they hold of a list where they hold of one of its items, if that were all the field
holds. What is left out are criteria that can tell a field without values from one with values.
-/

namespace Audience

namespace Json

def putStep (v : Json) (key : String) (new : Json) : Json :=
  match v with
  | .object members => .object (Members.put key new members)
  | .array items => match Path.index? key with
    | some i => .array (items.set i new)
    | none => v
  | _ => v

/-- Replaces what a path leads to. Where it leads to nothing, all is left as it is. -/
def replaceAt (v : Json) (path : Path) (new : Json) : Json :=
  match path with
  | [] => new
  | key :: path => match v.step? key with
    | some inner => v.putStep key (inner.replaceAt path new)
    | none => v

theorem step?_putStep {v old : Json} {key : String} (h : v.step? key = some old) (new : Json) :
    (v.putStep key new).step? key = some new := by
  cases v with
  | object members => exact Members.get?_put members key new
  | array items =>
    obtain ⟨i, hi, held⟩ := Option.bind_eq_some_iff.mp h
    obtain ⟨bound, -⟩ := List.getElem?_eq_some_iff.mp held
    simp [putStep, step?, hi, bound]
  | _ => cases h

theorem at?_replaceAt {v old : Json} {path : Path} (h : v.at? path = some old) (new : Json) :
    (v.replaceAt path new).at? path = some new := by
  induction path generalizing v with
  | nil => rfl
  | cons key path ih =>
    obtain ⟨inner, stepped, held⟩ := Option.bind_eq_some_iff.mp h
    simp only [replaceAt, stepped]
    rw [at?_cons, step?_putStep stepped]
    exact ih held

/-- Without lists inside of it, a list has the values that its items have by themselves. -/
theorem values_array {items : List Json} (flat : ∀ inner, Json.array inner ∉ items) :
    values (some (.array items)) = items.flatMap fun item => values (some item) := by
  induction items with
  | nil => rfl
  | cons item items ih =>
    have rest := ih fun inner h => flat inner (List.mem_cons_of_mem _ h)
    rw [List.flatMap_cons, ← rest]
    cases item with
    | array inner => exact absurd List.mem_cons_self (flat inner)
    | _ => rfl

theorem valuesAt_array {record : Json} {path : Path} {items : List Json}
    (held : record.at? path = some (.array items)) (flat : ∀ inner, Json.array inner ∉ items) :
    record.valuesAt path = items.flatMap fun item => (record.replaceAt path item).valuesAt path := by
  simp only [valuesAt, at?_replaceAt held, held, values_array flat]
  split
  · exact List.map_flatMap
  · rfl

theorem valuesAt_replaceAt_null {record old : Json} {path : Path}
    (held : record.at? path = some old) : (record.replaceAt path .null).valuesAt path = [] := by
  simp only [valuesAt, at?_replaceAt held, values, List.map_nil, ite_self]

end Json

namespace Literal

variable (l : Literal) (now : Int64) (vs : List Json)

theorem isAmong_eq_any (ne : l ≠ .null) :
    l.isAmong now vs = vs.any fun v => l.isAmong now [v] := by
  cases l with
  | null => exact absurd rfl ne
  | _ => simp [isAmong, resolve?, Json.ofInt64]

theorem isAccepted_eq_any (comparator : Comparator) :
    l.isAccepted now vs comparator = vs.any fun v => l.isAccepted now [v] comparator := by
  unfold isAccepted
  split <;> simp

theorem isInitial_eq_any : l.isInitial vs = vs.any fun v => l.isInitial [v] := by
  unfold isInitial
  split <;> simp

end Literal

namespace Criterion

/-- The criteria that ask for some value of their source. -/
inductive AsksForSome : Criterion → Prop where
  | equals {c l} (ne : l ≠ .null) : AsksForSome (.equals c l)
  | compares {c comparator l} : AsksForSome (.compares c comparator l)
  | startsWith {c l} : AsksForSome (.startsWith c l)
  | inside {c area} : AsksForSome (.inside c area)
  | any {c ls} (ne : ∀ l ∈ ls, l ≠ .null) : AsksForSome (.any c ls)

/-- Such a criterion has a test for single values, and looks at nothing else. -/
theorem AsksForSome.exists_any {a : Criterion} (asks : a.AsksForSome) (now : Int64) :
    ∃ accepts : Json → Bool, ∀ (p : Profile) (record : Json),
      a.holds p now record = (p.valuesOf now record a.context.source).any accepts := by
  cases asks with
  | @equals c l ne =>
    refine ⟨fun v => l.isAmong now [v], fun p record => ?_⟩
    rw [holds, l.isAmong_eq_any now _ ne, context]
  | @compares c comparator l =>
    refine ⟨fun v => l.isAccepted now [v] comparator, fun p record => ?_⟩
    rw [holds, l.isAccepted_eq_any, context]
  | @startsWith c l =>
    refine ⟨fun v => l.isInitial [v], fun p record => ?_⟩
    rw [holds, l.isInitial_eq_any, context]
  | @inside c area =>
    refine ⟨fun v => (Geo.Point.ofJson? v).any area.contains, fun p record => ?_⟩
    rw [holds, List.any_filterMap, context]
    rfl
  | @any c ls ne =>
    refine ⟨fun v => ls.any fun l => l.isAmong now [v], fun p record => ?_⟩
    rw [holds, context, Bool.eq_iff_iff, List.any_eq_true, List.any_eq_true]
    -- Each literal is held against all the values, or each value against all the literals.
    constructor
    · rintro ⟨l, hl, among⟩
      rw [l.isAmong_eq_any now _ (ne l hl), List.any_eq_true] at among
      obtain ⟨v, hv, among⟩ := among
      exact ⟨v, hv, List.any_eq_true.mpr ⟨l, hl, among⟩⟩
    · rintro ⟨v, hv, among⟩
      obtain ⟨l, hl, among⟩ := List.any_eq_true.mp among
      refine ⟨l, hl, ?_⟩
      rw [l.isAmong_eq_any now _ (ne l hl), List.any_eq_true]
      exact ⟨v, hv, among⟩

/-- On a field that holds a list, such a criterion holds where it holds of one of the items in
place of the list. Nulls among the items therefore do not matter, nor does anything besides the
record. -/
theorem holds_iff_some_item {a : Criterion} (asks : a.AsksForSome) {parent : Source} {path : Path}
    (field : a.context.source = .field parent path) {record : Json} {items : List Json}
    (held : record.at? a.context.source.fullPath = some (.array items))
    (flat : ∀ inner, Json.array inner ∉ items) (p : Profile) (now : Int64) :
    let alone (item : Json) := record.replaceAt a.context.source.fullPath item
    (a.holds p now record = true ↔ ∃ item ∈ items, a.holds p now (alone item) = true) ∧
      a.holds p now (alone .null) = false ∧
      ∀ q other, a.holds q now other = a.holds p now other := by
  intro alone
  obtain ⟨accepts, same⟩ := asks.exists_any now
  have read (q : Profile) (other : Json) : a.holds q now other =
      (other.valuesAt a.context.source.fullPath).any accepts := by
    rw [same, field]
    rfl
  refine ⟨?list, ?null, fun q other => ?profile⟩
  case list =>
    rw [read, Json.valuesAt_array held flat, List.any_flatMap, List.any_eq_true]
    simp only [read, alone]
  case null => rw [read, Json.valuesAt_replaceAt_null held, List.any_nil]
  case profile => rw [read, read]

def renewed : Criterion :=
  let renewals := Source.field (.root .installation) ["custom", "date_renewals"]
  .compares ((Context.root .installation).child renewals) .gt (.date (.integer 1609459200000))

theorem holds_iff_some_item_renewed :
    let renewals (v : Json) := Json.object [("custom", .object [("date_renewals", v)])]
    let items := [Json.null, .string "2021-03", .bool true]
    renewed.AsksForSome ∧
      (renewals (.array items)).at? renewed.context.source.fullPath = some (.array items) ∧
      (∀ inner, Json.array inner ∉ items) ∧
      renewed.holds {} 0 (renewals (.array items)) = true ∧
      ∃ item ∈ items, renewed.holds {} 0 (renewals item) = true := by
  intro renewals items
  have asks : renewed.AsksForSome := .compares
  have held : (renewals (.array items)).at? renewed.context.source.fullPath =
      some (.array items) := rfl
  have flat : ∀ inner, Json.array inner ∉ items := by simp [items]
  have holds : renewed.holds {} 0 (renewals (.array items)) = true := by cbv
  exact ⟨asks, held, flat, holds, (holds_iff_some_item asks rfl held flat {} 0).1.mp holds⟩

end Criterion

end Audience
