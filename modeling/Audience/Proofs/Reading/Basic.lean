import Audience.Grammar.Criteria

/-! # Reading without scopes

A grammar reads objects, lists and parts of an object by itself once it has its rules. The
scope that a grammar hands to its rules reads the same, and reading an object comes down to
reading its members.
-/

namespace Audience

theorem Members.sizeInduction {P : Members → Prop}
    (step : ∀ members : Members,
      (∀ entry ∈ members, ∀ inner : Members, sizeOf inner < sizeOf entry.2 → P inner) → P members)
    (members : Members) : P members := by
  induction hn : sizeOf members using Nat.strongRecOn generalizing members with
  | ind n ih =>
    apply step
    intro entry hentry inner hinner
    refine ih _ ?_ inner rfl
    have hle := List.sizeOf_lt_of_mem hentry
    obtain ⟨key, value⟩ := entry
    simp only [Prod.mk.sizeOf_spec] at hle hinner
    omega

theorem Json.sizeOf_of_mem_array {items : List Json} {item : Json} (h : item ∈ items) :
    sizeOf item < sizeOf (Json.array items) := by
  have hlt := List.sizeOf_lt_of_mem h
  simp only [Json.array.sizeOf_spec]
  omega

theorem Json.sizeOf_of_get? {members : Members} {key : String} {value : Json}
    (h : members.get? key = some value) : sizeOf value < sizeOf (Json.object members) := by
  have hlt := Members.sizeOf_get? h
  simp only [Json.object.sizeOf_spec]
  omega

theorem Rule.first_of_answer {α : Type} {rule : Rule α} {rest : List (Rule α)} {c : Context}
    {key : String} {value : Json} {scope : Scope (sizeOf value)} {o : Outcome α}
    (h : rule c key value scope = some <$> o) :
    Rule.first (rule :: rest) c key value scope = some <$> o := by
  simp only [Rule.first, h]
  cases o <;> rfl

namespace Grammar

variable (g : Grammar)

def readObject (c : Context) (key : String) : Json → Outcome Criterion
  | .object members => g.readMembers c members
  | _ => fault (.expects key .object)

def readObjects (c : Context) (key : String) : Json → Outcome (List Criterion)
  | .array items => items.mapM (g.readObject c key)
  | _ => fault (.expects key .array)

def readLiterals (c : Context) (key : String) : Json → Outcome (List Literal)
  | .array items => items.mapM (g.readLiteral c)
  | _ => fault (.expects key .array)

/-- Reads one part of an object about the installation, which has a source of its own. -/
def readPart (c : Context) (s : Source) (members : Members) (key : String) :
    Outcome (Option Criterion) :=
  match members.get? key with
  | none => .ok none
  | some value => some <$> g.readObject (c.child s) key value

theorem requireField_eq_ok {c : Context} {key : String} (field : c.source.isRoot = false) :
    requireField c key = .ok () := by
  simp [requireField, field]

variable {g} in
theorem readPart_of_absent {c : Context} {s : Source} {members : Members} {key : String}
    (h : members.get? key = none) : g.readPart c s members key = .ok none := by
  rw [readPart, h]

variable {g} in
theorem readPart_of_present {c : Context} {s : Source} {members : Members} {key : String}
    {value : Json} (h : members.get? key = some value) :
    g.readPart c s members key = some <$> g.readObject (c.child s) key value := by
  rw [readPart, h]

variable {size : Nat}

theorem child_scope (c : Context) (key : String) (value : Json) (within : sizeOf value ≤ size) :
    (g.scope size).child c key value within = g.readObject c key value := by
  cases value <;> rfl

theorem children_scope (c : Context) (key : String) (values : List Json)
    (within : sizeOf values ≤ size) :
    (g.scope size).children c key values within = values.mapM (g.readObject c key) := by
  induction values with
  | nil => rfl
  | cons value rest ih => simp only [Scope.children, List.mapM_cons, child_scope, ih]

theorem literals_scope (c : Context) (values : List Json) (within : sizeOf values ≤ size) :
    (g.scope size).literals c values within = values.mapM (g.readLiteral c) := by
  induction values with
  | nil => rfl
  | cons value rest ih =>
    simp only [Scope.literals, List.mapM_cons, ih]
    rfl

theorem optional_scope (c : Context) (s : Source) (members : Members) (key : String)
    (within : sizeOf members ≤ size) :
    (g.scope size).optional c s members key within = g.readPart c s members key := by
  unfold Scope.optional readPart
  split <;> simp_all [child_scope]

theorem readAll_eq_mapM (c : Context) (members : Members) :
    g.readAll c members = members.mapM fun entry => g.readMember c entry.1 entry.2 := by
  induction members with
  | nil => rw [readAll]; rfl
  | cons entry rest ih => rw [readAll, List.mapM_cons, ih]

theorem readMembers_nil (c : Context) :
    g.readMembers c [] =
      if c.source.isRoot then .ok (.matchAll c) else fault (.missingCriterion c.source) := by
  rw [readMembers]

theorem readMembers_one (c : Context) (entry : String × Json) :
    g.readMembers c [entry] = g.readMember c entry.1 entry.2 := by
  rw [readMembers]

theorem readMembers_many (c : Context) (first second : String × Json) (rest : Members) :
    g.readMembers c (first :: second :: rest) =
      .and c <$> (first :: second :: rest).mapM fun entry => g.readMember c entry.1 entry.2 := by
  rw [readMembers, readAll_eq_mapM] <;> simp

theorem readMember_empty (c : Context) (value : Json) :
    g.readMember c "" value = fault .emptyCriterionKey := by
  rw [readMember, if_pos rfl]

theorem readMember_of_ne (c : Context) {key : String} (value : Json) (h : key ≠ "") :
    g.readMember c key value =
      match g.criteria.read c key value (g.scope (sizeOf value)) with
      | .error e => .error e
      | .ok (some criterion) => .ok criterion
      | .ok none =>
        if g.keepUnknownCriteria then .ok (.unknown c key value)
        else .error (.unknownCriterion key value) := by
  rw [readMember, if_neg h]
  rfl

end Grammar

end Audience
