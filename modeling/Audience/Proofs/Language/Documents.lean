import Audience.Proofs.Language.Literals
import Audience.Proofs.Reading.Keywords

/-! # The language of segments

Which documents write a segment depends on the source that they are about: fields have values to
compare, installations have a location, an activity, presence and a subscription, and a record
leads back to a root from everywhere. Strict reading accepts exactly these documents.
-/

namespace Audience

mutual

/-- The objects that write a criterion about a source. -/
inductive IsObject : Source → Json → Prop where
  | empty {s : Source} (root : s.isRoot = true) : IsObject s (.object [])
  | entries {s : Source} {members : Members} (ne : members ≠ [])
      (h : ∀ entry ∈ members, IsEntry s entry.1 entry.2) : IsObject s (.object members)

/-- The keys with values that such an object may have. -/
inductive IsEntry : Source → String → Json → Prop where
  | field {s : Source} {path : String} {value : Json}
      (h : IsObject (s.project (.ofDotted path)) value) : IsEntry s ("." ++ path) value
  | keyword {s : Source} {k : Keyword} {value : Json} (h : IsClause s k value) :
      IsEntry s k.name value

/-- The values that a keyword takes. -/
inductive IsClause : Source → Keyword → Json → Prop where
  | and {s : Source} {items : List Json} (h : ∀ item ∈ items, IsObject s item) :
      IsClause s .and (.array items)
  | or {s : Source} {items : List Json} (h : ∀ item ∈ items, IsObject s item) :
      IsClause s .or (.array items)
  | not {s : Source} {value : Json} (h : IsObject s value) : IsClause s .not value
  | equals {s : Source} {value : Json} (field : s.isRoot = false) (h : IsLiteral value) :
      IsClause s .equals value
  | compares {s : Source} {comparator : Comparator} {value : Json} (field : s.isRoot = false)
      (h : IsLiteral value) : IsClause s (.compares comparator) value
  | any {s : Source} {items : List Json} (field : s.isRoot = false)
      (h : ∀ item ∈ items, IsLiteral item) : IsClause s .any (.array items)
  | all {s : Source} {items : List Json} (field : s.isRoot = false)
      (h : ∀ item ∈ items, IsLiteral item) : IsClause s .all (.array items)
  | startsWith {s : Source} {text : String} (field : s.isRoot = false) :
      IsClause s .startsWith (.string text)
  | inside {s : Source} {value : Json} (field : s.isRoot = false) (h : IsArea value) :
      IsClause s .inside value
  | geo {s : Source} {members : Members} (installation : s = .root .installation)
      (location : ∀ value, members.get? "location" = some value →
        IsObject (.geoLocation s) value)
      (date : ∀ value, members.get? "date" = some value → IsObject (.geoDate s) value) :
      IsClause s .geo (.object members)
  | lastActivity {s : Source} {value : Json} (installation : s = .root .installation)
      (h : IsObject (.lastActivity s) value) : IsClause s .lastActivity value
  | presence {s : Source} {members : Members} {present : Bool}
      (installation : s = .root .installation)
      (flag : members.get? "present" = some (.bool present))
      (since : ∀ value, members.get? "sinceDate" = some value →
        IsObject (.sinceDate s present) value)
      (elapsed : ∀ value, members.get? "elapsedTime" = some value →
        IsObject (.elapsedTime s present) value) : IsClause s .presence (.object members)
  | subscription {s : Source} (installation : s = .root .installation)
      (status : Subscription) : IsClause s .subscription (.string status.name)
  | record {s : Source} {r : Root} {value : Json} (h : IsObject (.root r) value) :
      IsClause s (.record r) value

end

theorem Keyword.name_inj {k k' : Keyword} (h : k.name = k'.name) : k = k' := by
  have inj : ∀ k ∈ list, ∀ k' ∈ list, k.name = k'.name → k = k' := by decide
  exact inj k (mem_list k) k' (mem_list k') h

theorem isEntry_name_iff {s : Source} {k : Keyword} {value : Json} :
    IsEntry s k.name value ↔ IsClause s k value := by
  refine ⟨fun h => ?_, .keyword⟩
  generalize hk : k.name = key at h
  cases h with
  | field => exact absurd hk (k.name_ne_dot _)
  | keyword h => exact Keyword.name_inj hk ▸ h

theorem isEntry_field_iff {s : Source} {path : String} {value : Json} :
    IsEntry s ("." ++ path) value ↔ IsObject (s.project (.ofDotted path)) value := by
  refine ⟨fun h => ?_, .field⟩
  generalize hk : "." ++ path = key at h
  cases h with
  | @field _ path' _ h =>
    obtain rfl : path = path' := by simpa using hk
    exact h
  | @keyword _ k _ _ => exact absurd hk.symm (k.name_ne_dot _)

theorem IsEntry.form {s : Source} {key : String} {value : Json} (h : IsEntry s key value) :
    (∃ path : String, key = "." ++ path) ∨ ∃ k : Keyword, key = k.name := by
  cases h with
  | field => exact .inl ⟨_, rfl⟩
  | keyword => exact .inr ⟨_, rfl⟩

theorem isObject_object_iff {s : Source} {members : Members} :
    IsObject s (.object members) ↔
      if members = [] then s.isRoot = true else ∀ entry ∈ members, IsEntry s entry.1 entry.2 := by
  constructor
  · intro h
    cases h with
    | empty root => simpa using root
    | entries ne h => simpa only [ne, if_false] using h
  · intro h
    split at h
    case isTrue empty =>
      subst empty
      exact .empty h
    case isFalse ne => exact .entries ne h

namespace Grammar

open Outcome

section Checks

variable {α : Type} {c : Context} {key : String} {value : Json} {members : Members}

theorem succeeds_requireField {f : Unit → Outcome α} :
    Succeeds (requireField c key >>= f) ↔ c.source.isRoot = false ∧ Succeeds (f ()) := by
  unfold requireField
  split
  case isTrue root => simp [root]
  case isFalse field => simp [field]

theorem succeeds_requireInstallation {f : Unit → Outcome α} :
    Succeeds (requireInstallation c key >>= f) ↔
      c.source = .root .installation ∧ Succeeds (f ()) := by
  unfold requireInstallation
  split
  case isTrue installation => simp [installation]
  case isFalse other => simp [other]

theorem succeeds_readFlag {f : Bool → Outcome α} :
    Succeeds (readFlag key members >>= f) ↔
      ∃ present, members.get? "present" = some (.bool present) ∧ Succeeds (f present) := by
  unfold readFlag
  cases members.get? "present" with
  | none => simp
  | some value => cases value <;> simp [Json.asBool?]

theorem succeeds_readSubscription {text : String} :
    Succeeds (readSubscription text) ↔ ∃ status : Subscription, status.name = text := by
  unfold readSubscription
  cases h : Subscription.ofName? text with
  | none =>
    refine iff_of_false (not_succeeds_fault _) ?_
    rintro ⟨status, rfl⟩
    cases status <;> cases h
  | some status =>
    have named : status.name = text := by simpa using List.find?_some h
    exact iff_of_true ⟨status, rfl⟩ ⟨status, named⟩

theorem succeeds_readAgainst {build : Literal → Outcome Criterion} {p : Literal → Prop}
    (hp : ∀ l, Succeeds (build l) ↔ p l) :
    Succeeds (strict.readAgainst c key value build) ↔
      c.source.isRoot = false ∧ ∃ l, strict.readLiteral c value = .ok l ∧ p l := by
  rw [readAgainst, succeeds_requireField, succeeds_bind]
  simp only [hp]

theorem succeeds_readAgainst_any {build : Literal → Criterion} :
    Succeeds (strict.readAgainst c key value fun l => .ok (build l)) ↔
      c.source.isRoot = false ∧ IsLiteral value := by
  rw [readAgainst, succeeds_requireField, succeeds_bind, ← succeeds_readLiteral (c := c)]
  simp [Succeeds]

theorem succeeds_readLiterals :
    Succeeds (strict.readLiterals c key value) ↔
      ∃ items, value = .array items ∧ ∀ item ∈ items, IsLiteral item := by
  cases value with
  | array items => simp [readLiterals, succeeds_mapM, succeeds_readLiteral]
  | _ => simp [readLiterals]

end Checks

/-- Strict reading accepts an object exactly where it writes a criterion. -/
def Accepts (members : Members) : Prop :=
  ∀ c, Succeeds (strict.readMembers c members) ↔ IsObject c.source (.object members)

section Value

variable {c : Context} {key : String} {value : Json}
  (ih : ∀ inner : Members, sizeOf inner < sizeOf value → Accepts inner)
include ih

theorem succeeds_readObject :
    Succeeds (strict.readObject c key value) ↔ IsObject c.source value := by
  cases value with
  | object members => exact ih members (by simp) c
  | _ => exact iff_of_false (not_succeeds_fault _) (by rintro ⟨⟩)

theorem succeeds_readObjects :
    Succeeds (strict.readObjects c key value) ↔
      ∃ items, value = .array items ∧ ∀ item ∈ items, IsObject c.source item := by
  cases value with
  | array items =>
    have each : ∀ item ∈ items,
        (Succeeds (strict.readObject c key item) ↔ IsObject c.source item) := by
      intro item hitem
      exact succeeds_readObject fun inner hinner =>
        ih inner (Nat.lt_trans hinner (Json.sizeOf_of_mem_array hitem))
    rw [readObjects, succeeds_mapM, forall₂_congr each]
    simp
  | _ => simp [readObjects]

theorem succeeds_readRecord {target : Root} :
    Succeeds ((Keyword.record target).read strict c value) ↔ IsObject (.root target) value := by
  simp only [Keyword.read]
  split
  · exact succeeds_readObject ih
  · split <;> exact succeeds_map.trans (succeeds_readObject ih)

end Value

theorem succeeds_readPart {c : Context} {s : Source} {members : Members} {key : String}
    (ih : ∀ inner : Members, sizeOf inner < sizeOf (Json.object members) → Accepts inner) :
    Succeeds (strict.readPart c s members key) ↔
      ∀ value, members.get? key = some value → IsObject s value := by
  unfold readPart
  split
  case h_1 none => simp [none]
  case h_2 value hvalue =>
    rw [succeeds_map, succeeds_readObject fun inner hinner =>
      ih inner (Nat.lt_trans hinner (Json.sizeOf_of_get? hvalue))]
    simp [hvalue, Context.child]

/-- A keyword takes a value exactly where strict reading does, if that is so inside of it. -/
theorem succeeds_keyword {c : Context} {value : Json} {k : Keyword}
    (ih : ∀ inner : Members, sizeOf inner < sizeOf value → Accepts inner) :
    Succeeds (k.read strict c value) ↔ IsClause c.source k value := by
  cases k with
  | and =>
    rw [Keyword.read, succeeds_map, succeeds_readObjects ih]
    constructor
    · rintro ⟨items, rfl, h⟩
      exact .and h
    · intro h
      cases h with
      | and h => exact ⟨_, rfl, h⟩
  | or =>
    rw [Keyword.read, succeeds_map, succeeds_readObjects ih]
    constructor
    · rintro ⟨items, rfl, h⟩
      exact .or h
    · intro h
      cases h with
      | or h => exact ⟨_, rfl, h⟩
  | not =>
    rw [Keyword.read, succeeds_map, succeeds_readObject ih]
    constructor
    · exact .not
    · intro h
      cases h with
      | not h => exact h
  | equals =>
    rw [Keyword.read, succeeds_readAgainst_any]
    constructor
    · rintro ⟨field, h⟩
      exact .equals field h
    · intro h
      cases h with
      | equals field h => exact ⟨field, h⟩
  | compares comparator =>
    rw [Keyword.read, succeeds_readAgainst_any]
    constructor
    · rintro ⟨field, h⟩
      exact .compares field h
    · intro h
      cases h with
      | compares field h => exact ⟨field, h⟩
  | any =>
    rw [Keyword.read, succeeds_requireField, succeeds_map, succeeds_readLiterals]
    constructor
    · rintro ⟨field, items, rfl, h⟩
      exact .any field h
    · intro h
      cases h with
      | any field h => exact ⟨field, _, rfl, h⟩
  | all =>
    rw [Keyword.read, succeeds_requireField, succeeds_map, succeeds_readLiterals]
    constructor
    · rintro ⟨field, items, rfl, h⟩
      exact .all field h
    · intro h
      cases h with
      | all field h => exact ⟨field, _, rfl, h⟩
  | startsWith =>
    rw [Keyword.read, succeeds_readAgainst (p := fun l => l.asString?.isSome = true),
      exists_string_iff]
    · constructor
      · rintro ⟨field, text, rfl⟩
        exact .startsWith field
      · intro h
        cases h with
        | startsWith field => exact ⟨field, _, rfl⟩
    · intro l
      cases l.asString? <;> simp
  | inside =>
    rw [Keyword.read, succeeds_readAgainst (p := fun l => l.asArea?.isSome = true),
      exists_area_iff]
    · constructor
      · rintro ⟨field, h⟩
        exact .inside field h
      · intro h
        cases h with
        | inside field h => exact ⟨field, h⟩
    · intro l
      cases l.asArea? <;> simp
  | geo =>
    rw [Keyword.read, succeeds_requireInstallation]
    cases value with
    | object members =>
      rw [readInner, ok_bind, succeeds_both, succeeds_readPart ih, succeeds_readPart ih]
      constructor
      · rintro ⟨installation, location, date⟩
        exact .geo installation location date
      · intro h
        cases h with
        | geo installation location date => exact ⟨installation, location, date⟩
    | _ => exact iff_of_false (fun h => not_succeeds_fault _ h.2) (by rintro ⟨⟩)
  | lastActivity =>
    have comparison {o : Outcome Criterion} : Succeeds (do
        let a ← o
        return Criterion.lastActivity c (some a)) ↔ Succeeds o := succeeds_map
    rw [Keyword.read, succeeds_requireInstallation, comparison, succeeds_readObject ih]
    constructor
    · rintro ⟨installation, h⟩
      exact .lastActivity installation h
    · intro h
      cases h with
      | lastActivity installation h => exact ⟨installation, h⟩
  | presence =>
    rw [Keyword.read, succeeds_requireInstallation]
    cases value with
    | object members =>
      rw [readInner, ok_bind, succeeds_readFlag]
      simp only [succeeds_both, succeeds_readPart ih]
      constructor
      · rintro ⟨installation, present, flag, since, elapsed⟩
        exact .presence installation flag since elapsed
      · intro h
        cases h with
        | presence installation flag since elapsed =>
          exact ⟨installation, _, flag, since, elapsed⟩
    | _ => exact iff_of_false (fun h => not_succeeds_fault _ h.2) (by rintro ⟨⟩)
  | subscription =>
    cases value with
    | string text =>
      rw [Keyword.read, succeeds_requireInstallation, succeeds_map, succeeds_readSubscription]
      constructor
      · rintro ⟨installation, status, rfl⟩
        exact .subscription installation status
      · intro h
        cases h with
        | subscription installation status => exact ⟨installation, status, rfl⟩
    | _ =>
      rw [Keyword.read, succeeds_requireInstallation]
      · exact iff_of_false (fun h => not_succeeds_fault _ h.2) (by rintro ⟨⟩)
      · simp
  | record target =>
    rw [succeeds_readRecord ih]
    constructor
    · exact .record
    · intro h
      cases h with
      | record h => exact h

theorem succeeds_readMember {c : Context} {key : String} {value : Json}
    (ih : ∀ inner : Members, sizeOf inner < sizeOf value → Accepts inner) :
    Succeeds (strict.readMember c key value) ↔ IsEntry c.source key value := by
  have impossible (hf : ∀ path : String, key ≠ "." ++ path) (hn : ∀ k : Keyword, key ≠ k.name) :
      ¬ IsEntry c.source key value := fun h =>
    h.form.elim (fun ⟨path, hp⟩ => hf path hp) fun ⟨k, hk⟩ => hn k hk
  cases keyForm key with
  | empty =>
    rw [readMember_empty]
    exact iff_of_false (not_succeeds_fault _)
      (impossible (by simp) fun k hk => k.name_ne_empty hk.symm)
  | keyword k => rw [strict, readMember_name, isEntry_name_iff, ← strict, succeeds_keyword ih]
  | field path =>
    rw [strict, readMember_field, isEntry_field_iff, ← strict, succeeds_readObject ih]
    rfl
  | unknown hk =>
    rw [strict, readMember_unknown _ _ hk]
    exact iff_of_false (not_succeeds_error _) (impossible hk.ne_field hk.ne_name)

theorem accepts (members : Members) : Accepts members := by
  -- Over all contexts at once, since the source changes from an object to those inside of it.
  induction members using Members.sizeInduction with
  | step members ih =>
    intro c
    rw [isObject_object_iff]
    match members with
    | [] =>
      rw [readMembers_nil]
      cases c.source.isRoot <;> simp
    | [entry] =>
      rw [readMembers_one, succeeds_readMember (ih entry (by simp))]
      simp
    | first :: second :: rest =>
      rw [readMembers_many, succeeds_map, succeeds_mapM,
        forall₂_congr fun entry hentry => succeeds_readMember (ih entry hentry)]
      simp

/-- Strict reading succeeds exactly on the objects that write a criterion about the record. -/
theorem strict_read_iff (r : Root) (document : Json) :
    (∃ a, strict.read r document = .ok a) ↔ IsObject (.root r) document := by
  cases document with
  | object members => exact accepts members (.root r)
  | _ => exact iff_of_false (not_succeeds_fault _) (by rintro ⟨⟩)

end Grammar

end Audience
