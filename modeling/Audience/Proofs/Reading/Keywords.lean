import Audience.Proofs.Outcome
import Audience.Proofs.Reading.Basic

/-! # Keywords

A key of a criterion is a keyword, a field after a dot, empty, or unknown to the built-in rules.
For each of these reading a member is one step, given how the objects inside of it are read.
-/

namespace Audience

/-- The names that the built-in rules know. -/
inductive Keyword where
  | and
  | or
  | not
  | equals
  | any
  | all
  | compares (comparator : Comparator)
  | startsWith
  | inside
  | geo
  | lastActivity
  | presence
  | subscription
  | record (root : Root)
  deriving DecidableEq, Repr

namespace Keyword

def list : List Keyword :=
  [.and, .or, .not, .equals, .any, .all, .compares .gt, .compares .gte, .compares .lt,
    .compares .lte, .startsWith, .inside, .geo, .lastActivity, .presence, .subscription,
    .record .user, .record .installation, .record .event]

def name : Keyword → String
  | and => "and"
  | or => "or"
  | not => "not"
  | equals => "eq"
  | any => "any"
  | all => "all"
  | compares comparator => comparator.name
  | startsWith => "prefix"
  | inside => "inside"
  | geo => "geo"
  | lastActivity => "lastActivityDate"
  | presence => "presence"
  | subscription => "subscriptionStatus"
  | record root => root.name

open Grammar in
def rule : Keyword → Rule Criterion
  | and => listRule .and
  | or => listRule .or
  | not => notRule
  | equals => equalsRule
  | any => literalsRule .any
  | all => literalsRule .all
  | compares comparator => comparesRule comparator
  | startsWith => startsWithRule
  | inside => insideRule
  | geo => geoRule
  | lastActivity => lastActivityRule
  | presence => presenceRule
  | subscription => subscriptionRule
  | record root => recordRule root

theorem mem_list (k : Keyword) : k ∈ list := by
  cases k with
  | compares comparator => cases comparator <;> decide
  | record root => cases root <;> decide
  | _ => decide

theorem builtinCriteria_exact :
    Grammar.builtinCriteria.exact = list.map fun k => (k.name, k.rule) := rfl

theorem name_ne_empty (k : Keyword) : k.name ≠ "" := by
  have h : ∀ k ∈ list, k.name ≠ "" := by decide
  exact h k (mem_list k)

theorem name_ne_dot (k : Keyword) (path : String) : k.name ≠ "." ++ path := by
  have h : ∀ k ∈ list, k.name.toList.head? ≠ some '.' := by decide
  intro he
  exact h k (mem_list k) (by simp [he])

theorem lookup_name (k : Keyword) :
    Grammar.builtinCriteria.exact.lookup k.name = some k.rule := by
  cases k with
  | compares comparator => cases comparator <;> rfl
  | record root => cases root <;> rfl
  | _ => rfl

theorem lookup_eq_none {key : String} (h : ∀ k : Keyword, key ≠ k.name) :
    Grammar.builtinCriteria.exact.lookup key = none := by
  simp [builtinCriteria_exact, List.lookup_eq_none_iff, h]

end Keyword

/-- A key that neither a built-in rule nor the check for empty keys answers. -/
structure IsUnknownKey (key : String) : Prop where
  ne_empty : key ≠ ""
  ne_name : ∀ k : Keyword, key ≠ k.name
  ne_field : ∀ path : String, key ≠ "." ++ path

inductive KeyForm : String → Prop where
  | empty : KeyForm ""
  | keyword (k : Keyword) : KeyForm k.name
  | field (path : String) : KeyForm ("." ++ path)
  | unknown {key : String} (h : IsUnknownKey key) : KeyForm key

theorem keyForm (key : String) : KeyForm key := by
  by_cases he : key = ""
  · exact he ▸ .empty
  by_cases hn : ∃ k : Keyword, key = k.name
  · obtain ⟨k, rfl⟩ := hn
    exact .keyword k
  by_cases hf : ∃ path : String, key = "." ++ path
  · obtain ⟨path, rfl⟩ := hf
    exact .field path
  exact .unknown ⟨he, fun k hk => hn ⟨k, hk⟩, fun path hp => hf ⟨path, hp⟩⟩

namespace Grammar

variable (g : Grammar)

def readAgainst (c : Context) (key : String) (value : Json)
    (build : Literal → Outcome Criterion) : Outcome Criterion := do
  requireField c key
  build (← g.readLiteral c value)

def readInner (key : String) : Json → Outcome Members
  | .object members => .ok members
  | _ => fault (.expects key .object)

def readFlag (key : String) (members : Members) : Outcome Bool :=
  match (members.get? "present").bind Json.asBool? with
  | some present => .ok present
  | none => fault (.expects key .presentFlag)

end Grammar

open Grammar

/-- What a keyword makes of the value it holds. -/
def Keyword.read (g : Grammar) (c : Context) (value : Json) (k : Keyword) : Outcome Criterion :=
  match k with
  | and => .and c <$> g.readObjects c k.name value
  | or => .or c <$> g.readObjects c k.name value
  | not => .not c <$> g.readObject c k.name value
  | equals => g.readAgainst c k.name value fun literal => .ok (.equals c literal)
  | compares comparator =>
    g.readAgainst c k.name value fun literal => .ok (.compares c comparator literal)
  | startsWith => g.readAgainst c k.name value fun literal =>
    match literal.asString? with
    | some _ => .ok (.startsWith c literal)
    | none => fault (.expects k.name .string)
  | inside => g.readAgainst c k.name value fun literal =>
    match literal.asArea? with
    | some area => .ok (.inside c area)
    | none => fault (.expects k.name .area)
  | any => do
    requireField c k.name
    .any c <$> g.readLiterals c k.name value
  | all => do
    requireField c k.name
    .all c <$> g.readLiterals c k.name value
  | geo => do
    requireInstallation c k.name
    let members ← readInner k.name value
    let location ← g.readPart c (.geoLocation c.source) members "location"
    let date ← g.readPart c (.geoDate c.source) members "date"
    return .geo c location date
  | lastActivity => do
    requireInstallation c k.name
    let comparison ← g.readObject (c.child (.lastActivity c.source)) k.name value
    return .lastActivity c (some comparison)
  | presence => do
    requireInstallation c k.name
    let members ← readInner k.name value
    let present ← readFlag k.name members
    let since ← g.readPart c (.sinceDate c.source present) members "sinceDate"
    let elapsed ← g.readPart c (.elapsedTime c.source present) members "elapsedTime"
    return .presence c present since elapsed
  | subscription => do
    requireInstallation c k.name
    match value with
    | .string text => .subscription c <$> readSubscription text
    | _ => fault (.expects k.name .string)
  | record target =>
    let there := c.child (.root target)
    if c.source.record = target then g.readObject there k.name value
    else if c.source.record = .installation ∨ target = .installation then
      .join there <$> g.readObject there k.name value
    else
      let hub := c.child (.root .installation)
      let there := hub.child (.root target)
      (fun child => .join hub (.join there child)) <$> g.readObject there k.name value

/-- The rule of a keyword never declines, and reads what the keyword says. -/
theorem Keyword.rule_eq (g : Grammar) (c : Context) (value : Json) (k : Keyword) :
    k.rule c k.name value (g.scope (sizeOf value)) = some <$> k.read g c value := by
  cases k with
  | and | or =>
    cases value with
    | array items =>
      simp [rule, listRule, read, readObjects, children_scope, Function.comp_def]
    | _ => rfl
  | not => simp [rule, notRule, read, child_scope, Function.comp_def]
  | equals => simp [rule, equalsRule, literalCriterion, read, readAgainst, scope]
  | compares => simp [rule, comparesRule, literalCriterion, read, readAgainst, scope]
  | startsWith | inside =>
    simp only [rule, startsWithRule, insideRule, literalCriterion, read, readAgainst, map_bind]
    rfl
  | any | all =>
    cases value with
    | array items =>
      simp [rule, literalsRule, read, readLiterals, literals_scope, Function.comp_def]
    | _ => simp [rule, literalsRule, read, readLiterals]
  | geo =>
    cases value <;> simp [rule, geoRule, read, readInner, optional_scope]
  | lastActivity => simp [rule, lastActivityRule, read, child_scope]
  | presence =>
    cases value with
    | object members =>
      simp only [rule, presenceRule, read, readInner, readFlag, optional_scope, Outcome.ok_bind]
      cases (Members.get? members "present").bind Json.asBool? <;> simp
    | _ => simp [rule, presenceRule, read, readInner]
  | subscription =>
    cases value <;> simp [rule, subscriptionRule, read, Function.comp_def]
  | record target =>
    simp only [rule, recordRule, read, child_scope]
    split
    · rfl
    · split <;> simp [Function.comp_def]

namespace Grammar

variable {kc kl : Bool} (c : Context) (value : Json)

theorem builtinCriteria_read_name (g : Grammar) (k : Keyword) :
    builtinCriteria.read c k.name value (g.scope (sizeOf value)) = some <$> k.read g c value := by
  rw [Registry.read, Registry.rulesFor, Keyword.lookup_name]
  exact Rule.first_of_answer (k.rule_eq g c value)

theorem readMember_of_answer {g : Grammar} {key : String} {o : Outcome Criterion} (ne : key ≠ "")
    (h : g.criteria.read c key value (g.scope (sizeOf value)) = some <$> o) :
    g.readMember c key value = o := by
  rw [readMember_of_ne g c value ne, h]
  cases o <;> rfl

theorem readMember_name (k : Keyword) :
    (builtin kc kl).readMember c k.name value = k.read (builtin kc kl) c value :=
  readMember_of_answer c value k.name_ne_empty (builtinCriteria_read_name c value _ k)

theorem readMembers_keyword (k : Keyword) :
    (builtin kc kl).readMembers c [(k.name, value)] = k.read (builtin kc kl) c value := by
  rw [readMembers_one, readMember_name]

theorem rulesFor_of_ne_name {key : String} (h : ∀ k : Keyword, key ≠ k.name) :
    builtinCriteria.rulesFor key = [fieldRule] := by
  rw [Registry.rulesFor, Keyword.lookup_eq_none h]
  rfl

theorem fieldRule_of_ne {key : String} (scope : Scope (sizeOf value))
    (h : ∀ path : String, key ≠ "." ++ path) : fieldRule c key value scope = .ok none := by
  unfold fieldRule
  split
  case h_1 path hp =>
    refine absurd (String.toList_inj.mp ?_) (h (String.ofList path))
    simp [hp]
  case h_2 => rfl

theorem builtinCriteria_read_field (g : Grammar) (path : String) :
    builtinCriteria.read c ("." ++ path) value (g.scope (sizeOf value)) =
      some <$> g.readObject (c.child (c.source.project (.ofDotted path))) ("." ++ path) value := by
  rw [Registry.read, rulesFor_of_ne_name fun k hk => k.name_ne_dot path hk.symm]
  apply Rule.first_of_answer
  simp [fieldRule, child_scope]

theorem readMember_field (path : String) :
    (builtin kc kl).readMember c ("." ++ path) value =
      (builtin kc kl).readObject (c.child (c.source.project (.ofDotted path)))
        ("." ++ path) value :=
  readMember_of_answer c value (by simp) (builtinCriteria_read_field c value _ path)

theorem readMembers_field (path : String) (body : Members) :
    (builtin kc kl).readMembers c [("." ++ path, .object body)] =
      (builtin kc kl).readMembers (c.child (c.source.project (.ofDotted path))) body := by
  rw [readMembers_one, readMember_field]
  rfl

theorem readMember_unknown {key : String} (h : IsUnknownKey key) :
    (builtin kc kl).readMember c key value =
      if kc then .ok (.unknown c key value) else .error (.unknownCriterion key value) := by
  rw [readMember_of_ne _ _ _ h.ne_empty]
  have hr : (builtin kc kl).criteria.read c key value ((builtin kc kl).scope _) = .ok none := by
    simp only [builtin, Registry.read, rulesFor_of_ne_name h.ne_name, Rule.first,
      fieldRule_of_ne _ _ _ h.ne_field]
  rw [hr]
  rfl

end Grammar

end Audience
