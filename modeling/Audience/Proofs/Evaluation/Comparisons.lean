import Audience.Evaluation
import Audience.Proofs.Json.Comparison

/-! # Equality and order of single values

Where a source has one value, a comparison asks how the value stands to what a literal stands for.
No source has null among its values, so being equal to a boolean, number or text is to be neither
below nor above it, and of two values with an order each comparison excludes the opposite one.
-/

namespace Audience

namespace Comparator

theorem eq_iff_accepts (o : Ordering) :
    o = .eq ↔ gte.accepts o = true ∧ lte.accepts o = true := by
  cases o <;> decide

theorem accepts_gt (o : Ordering) : gt.accepts o = !lte.accepts o := by
  cases o <;> rfl

theorem accepts_lt (o : Ordering) : lt.accepts o = !gte.accepts o := by
  cases o <;> rfl

end Comparator

section Values

theorem Json.ne_null_of_mem_values {v : Json} {o : Option Json} (h : v ∈ Json.values o) :
    v ≠ .null := by
  rintro rfl
  cases o with
  | none => cases h
  | some w =>
    cases w with
    | array items => simp [values, isNull] at h
    | _ => simp [values] at h

theorem Json.dated_ne_null {v : Json} (h : v ≠ .null) : v.dated ≠ .null := by
  unfold dated
  split
  · exact nofun
  · exact h

theorem Json.ne_null_of_mem_valuesAt {v record : Json} {path : Path}
    (h : v ∈ record.valuesAt path) : v ≠ .null := by
  unfold valuesAt at h
  split at h
  · obtain ⟨w, hw, rfl⟩ := List.mem_map.mp h
    exact dated_ne_null (ne_null_of_mem_values hw)
  · exact ne_null_of_mem_values h

theorem Profile.ne_null_of_mem_valuesOf {p : Profile} {now : Int64} {record v : Json} {s : Source}
    (h : v ∈ p.valuesOf now record s) : v ≠ .null := by
  cases s with
  | root => cases h
  | field | geoLocation | geoDate =>
    rw [valuesOf] at h
    exact Json.ne_null_of_mem_valuesAt h
  | lastActivity | sinceDate | elapsedTime =>
    obtain rfl := List.mem_singleton.mp h
    exact nofun

end Values

namespace Literal

variable {now : Int64} {literal : Literal} {actual expected : Json}
  (resolved : literal.resolve? now = some expected)
include resolved

theorem isAccepted_singleton (comparator : Comparator) :
    literal.isAccepted now [actual] comparator =
      (actual.compare? expected).any comparator.accepts := by
  simp only [isAccepted, resolved, List.any_cons, List.any_nil, Bool.or_false]

theorem isAmong_singleton (scalar : expected.IsScalar) :
    literal.isAmong now [actual] = expected.equal actual := by
  cases scalar <;> simp only [isAmong, resolved, List.any_cons, List.any_nil, Bool.or_false]

/-- Equality of a single value is what neither of the two comparisons excludes. -/
theorem isAmong_iff_isAccepted (scalar : expected.IsScalar) (ne_null : actual ≠ .null) :
    literal.isAmong now [actual] = true ↔
      literal.isAccepted now [actual] .gte = true ∧
        literal.isAccepted now [actual] .lte = true := by
  rw [isAmong_singleton resolved scalar, scalar.equal_iff ne_null, isAccepted_singleton resolved,
    isAccepted_singleton resolved, Json.compare?_swap]
  cases actual.compare? expected with
  | none => simp
  | some o =>
    rw [Option.any_some, Option.any_some, ← Comparator.eq_iff_accepts]
    cases o <;> decide

theorem isAccepted_opposite (comparable : (actual.compare? expected).isSome = true) :
    literal.isAccepted now [actual] .gt = !literal.isAccepted now [actual] .lte ∧
      literal.isAccepted now [actual] .lt = !literal.isAccepted now [actual] .gte := by
  obtain ⟨o, order⟩ := Option.isSome_iff_exists.mp comparable
  simp only [isAccepted_singleton resolved, order, Option.any_some]
  exact ⟨Comparator.accepts_gt o, Comparator.accepts_lt o⟩

end Literal

/-- Order and equality are the same from either side, and values of a kind with an order are equal
when the order says so. So where a source has a single value, equality to what a literal stands for
holds when neither comparison that includes it fails, and a comparison with it holds when the
opposite one fails. -/
theorem equal_agrees_with_compare? :
    (∀ a b : Json, b.compare? a = (a.compare? b).map Ordering.swap) ∧
    (∀ a b : Json, a.IsKeyed → b.IsKeyed → a.equal b = b.equal a) ∧
    (∀ a b : Json, a.IsScalar → b.IsScalar → (a.equal b = true ↔ a.compare? b = some .eq)) ∧
    ∀ (p : Profile) (now : Int64) (record : Json) (c : Context) (literal : Literal)
      (actual expected : Json), p.valuesOf now record c.source = [actual] →
      literal.resolve? now = some expected → expected.IsScalar →
      ((Criterion.equals c literal).holds p now record = true ↔
        (Criterion.compares c .gte literal).holds p now record = true ∧
          (Criterion.compares c .lte literal).holds p now record = true) ∧
      ((actual.compare? expected).isSome = true →
        (Criterion.compares c .gt literal).holds p now record =
            !(Criterion.compares c .lte literal).holds p now record ∧
          (Criterion.compares c .lt literal).holds p now record =
            !(Criterion.compares c .gte literal).holds p now record) := by
  refine ⟨Json.compare?_swap, fun a b ha hb => ?symmetric, fun a b ha hb => ?order, ?single⟩
  case symmetric =>
    exact Bool.eq_iff_iff.mpr ⟨Json.equal_symm ha hb, Json.equal_symm hb ha⟩
  case order =>
    exact ha.equal_iff (by cases hb <;> exact nofun)
  case single =>
    intro p now record c literal actual expected single resolved scalar
    have ne_null : actual ≠ .null :=
      Profile.ne_null_of_mem_valuesOf (single ▸ List.mem_singleton_self actual)
    simp only [Criterion.holds, single]
    exact ⟨Literal.isAmong_iff_isAccepted resolved scalar ne_null,
      Literal.isAccepted_opposite resolved⟩

def threeVisits : Profile where
  installation := .object [("visits", .number (.integer 3))]

def visits : Context :=
  (Context.root .installation).child (.field (.root .installation) ["visits"])

theorem equal_agrees_with_compare?_threeVisits :
    let front := Json.object [("open", .bool true), ("count", .null)]
    let back := Json.object [("count", .null), ("open", .bool true)]
    let three := Literal.number (.float 3)
    let holds (a : Criterion) := a.holds threeVisits 0 threeVisits.installation
    front.equal back = back.equal front ∧
      holds (.equals visits three) = true ∧
      (holds (.compares visits .gte three) = true ∧ holds (.compares visits .lte three) = true) ∧
      holds (.compares visits .gt three) = !holds (.compares visits .lte three) ∧
      holds (.compares visits .lt three) = !holds (.compares visits .gte three) := by
  intro front back three holds
  have keyed : front.IsKeyed :=
    Json.reordered_object (by decide) (by simp [Json.Reordered.bool, Json.Reordered.null])
  have keyed' : back.IsKeyed :=
    Json.reordered_object (by decide) (by simp [Json.Reordered.bool, Json.Reordered.null])
  obtain ⟨-, symmetric, -, single⟩ := equal_agrees_with_compare?
  have values : threeVisits.valuesOf 0 threeVisits.installation visits.source =
      [.number (.integer 3)] := by cbv
  have equal : holds (.equals visits three) = true := by decide +kernel
  obtain ⟨agree, opposite⟩ := single threeVisits 0 threeVisits.installation visits three _ _
    values rfl (.number _)
  exact ⟨symmetric _ _ keyed keyed', equal, agree.mp equal, opposite (by decide +kernel)⟩

end Audience
