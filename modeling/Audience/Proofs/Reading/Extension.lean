import Mathlib
import Audience.Proofs.Reading.Keywords
import Audience.Proofs.Reading.Literals
import Audience.Proofs.Registry.History

/-! # Extensions of the grammar

Rules that are registered after the built-in ones are asked after them, and so never for a key
that a built-in rule owns. Strict reading accepts a document only where all of its keys are owned
in this way. Every extension of the built-in grammar, lenient or not, therefore reads it to the
same tree.
-/

namespace Audience

namespace Grammar

/-- A grammar in which the built-in rules answer for the keys that they own. -/
structure Extends (g : Grammar) : Prop where
  keyword (k : Keyword) (c : Context) (value : Json) :
    g.criteria.read c k.name value (g.scope (sizeOf value)) = some <$> k.read g c value
  field (path : String) (c : Context) (value : Json) :
    g.criteria.read c ("." ++ path) value (g.scope (sizeOf value)) =
      some <$> g.readObject (c.child (c.source.project (.ofDotted path))) ("." ++ path) value
  word (w : LiteralWord) (c : Context) (value : Json) :
    g.literals.read c w.name value (g.scope (sizeOf value)) = some <$> w.read value

/-- What strict reading makes of an object is what a grammar makes of it, in every context. -/
def Retains (g : Grammar) (members : Members) : Prop :=
  ∀ c, (strict.readMembers c members).KeptBy (g.readMembers c members)

namespace Extends

variable {g : Grammar} (hg : g.Extends) {c : Context} {key : String} {value : Json}
include hg

theorem keeps_readLiteral_object :
    (strict.readLiteral c (.object [(key, value)])).KeptBy
      (g.readLiteral c (.object [(key, value)])) := by
  unfold strict
  cases wordForm key with
  | empty =>
    rw [readLiteral_empty]
    exact .of_fault _ _
  | word w =>
    rw [readLiteral_word, readLiteral_of_answer c value w.name_ne_empty (hg.word w c value)]
    exact .refl _
  | unknown hk =>
    rw [readLiteral_unknown c value hk]
    exact .of_error _ _

theorem keeps_readLiteral : (strict.readLiteral c value).KeptBy (g.readLiteral c value) := by
  cases value with
  | null | bool | number | string | array => simpa using .refl _
  | object members =>
    by_cases one : members.length = 1
    · obtain ⟨⟨key, value⟩, rfl⟩ := List.length_eq_one_iff.mp one
      exact hg.keeps_readLiteral_object
    · rw [readLiteral_object c one]
      exact .of_fault _ _

theorem keeps_readLiterals :
    (strict.readLiterals c key value).KeptBy (g.readLiterals c key value) := by
  cases value with
  | array items => exact .mapM fun _ _ => hg.keeps_readLiteral
  | _ => exact .refl _

theorem keeps_readAgainst {build : Literal → Outcome Criterion} :
    (strict.readAgainst c key value build).KeptBy (g.readAgainst c key value build) :=
  .bind (.refl _) fun _ => hg.keeps_readLiteral.bind fun _ => .refl _

end Extends

section Value

variable {g : Grammar} {c : Context} {key : String} {value : Json}
  (ih : ∀ inner : Members, sizeOf inner < sizeOf value → g.Retains inner)
include ih

theorem keeps_readObject : (strict.readObject c key value).KeptBy (g.readObject c key value) := by
  cases value with
  | object members => exact ih members (by simp) c
  | _ => exact .refl _

theorem keeps_readObjects :
    (strict.readObjects c key value).KeptBy (g.readObjects c key value) := by
  cases value with
  | array items =>
    refine .mapM fun item hitem => keeps_readObject fun inner hinner => ?_
    exact ih inner (Nat.lt_trans hinner (Json.sizeOf_of_mem_array hitem))
  | _ => exact .refl _

theorem keeps_readRecord {target : Root} :
    ((Keyword.record target).read strict c value).KeptBy
      ((Keyword.record target).read g c value) := by
  simp only [Keyword.read]
  split
  · exact keeps_readObject ih
  · split <;> exact (keeps_readObject ih).map _

end Value

theorem keeps_readPart {g : Grammar} {c : Context} {s : Source} {members : Members} {key : String}
    (ih : ∀ inner : Members, sizeOf inner < sizeOf (Json.object members) → g.Retains inner) :
    (strict.readPart c s members key).KeptBy (g.readPart c s members key) := by
  unfold readPart
  split
  · exact .refl _
  next value hvalue =>
    refine .map (keeps_readObject fun inner hinner => ?_) some
    exact ih inner (Nat.lt_trans hinner (Json.sizeOf_of_get? hvalue))

namespace Extends

variable {g : Grammar} (hg : g.Extends)
include hg

theorem keeps_readKeyword {c : Context} {value : Json} (k : Keyword)
    (ih : ∀ inner : Members, sizeOf inner < sizeOf value → g.Retains inner) :
    (k.read strict c value).KeptBy (k.read g c value) := by
  cases k with
  | and | or => exact (keeps_readObjects ih).map _
  | not => exact (keeps_readObject ih).map _
  | equals | compares | startsWith | inside => exact hg.keeps_readAgainst
  | any | all => exact .bind (.refl _) fun _ => hg.keeps_readLiterals.map _
  | geo =>
    refine .bind (.refl _) fun _ => ?_
    cases value with
    | object members =>
      exact (keeps_readPart ih).bind fun _ => (keeps_readPart ih).bind fun _ => .refl _
    | _ => exact .refl _
  | lastActivity => exact .bind (.refl _) fun _ => (keeps_readObject ih).map _
  | presence =>
    refine .bind (.refl _) fun _ => ?_
    cases value with
    | object members =>
      simp only [readInner, Outcome.ok_bind]
      refine .bind (.refl _) fun present => ?_
      exact (keeps_readPart ih).bind fun _ => (keeps_readPart ih).bind fun _ => .refl _
    | _ => exact .refl _
  | subscription => exact .refl _
  | record target => exact keeps_readRecord ih

theorem keeps_readMember {c : Context} {key : String} {value : Json}
    (ih : ∀ inner : Members, sizeOf inner < sizeOf value → g.Retains inner) :
    (strict.readMember c key value).KeptBy (g.readMember c key value) := by
  cases keyForm key with
  | empty =>
    rw [readMember_empty]
    exact .of_fault _ _
  | keyword k =>
    rw [strict, readMember_name,
      readMember_of_answer c value k.name_ne_empty (hg.keyword k c value)]
    exact hg.keeps_readKeyword k ih
  | field path =>
    rw [strict, readMember_field, readMember_of_answer c value (by simp) (hg.field path c value)]
    exact keeps_readObject ih
  | unknown hk =>
    rw [strict, readMember_unknown c value hk]
    exact .of_error _ _

theorem retains (members : Members) : g.Retains members := by
  induction members using Members.sizeInduction with
  | step members ih =>
    intro c
    match members with
    | [] =>
      rw [readMembers_nil, readMembers_nil]
      exact .refl _
    | [entry] =>
      rw [readMembers_one, readMembers_one]
      exact hg.keeps_readMember (ih entry List.mem_cons_self)
    | first :: second :: rest =>
      rw [readMembers_many, readMembers_many]
      exact .map (.mapM fun entry hentry => hg.keeps_readMember (ih entry hentry)) _

end Extends

open Registry (Registration after accepted)

def extended (criteria : List (Registration Criterion)) (literals : List (Registration Literal))
    (keepUnknownCriteria keepUnknownLiterals : Bool) : Grammar where
  literals := after builtinLiterals literals
  criteria := after builtinCriteria criteria
  keepUnknownCriteria
  keepUnknownLiterals

theorem extends_extended {criteria : List (Registration Criterion)}
    (plain : ∀ key rule, .exact key rule ∈ accepted builtinCriteria criteria →
      key.toList.head? ≠ some '.') (literals : List (Registration Literal)) (kc kl : Bool) :
    (extended criteria literals kc kl).Extends where
  keyword k c value := by
    have builtin := builtinCriteria_read_name c value (extended criteria literals kc kl) k
    have owned : builtinCriteria.hasExact k.name = true := by
      rw [Registry.hasExact, k.lookup_name, Option.isSome_some]
    rw [← builtin]
    exact Registry.read_after (builtin ▸ Outcome.isDecided_map_some _)
      (Registry.exact_notMem_accepted owned criteria)
  field path c value := by
    have builtin := builtinCriteria_read_field c value (extended criteria literals kc kl) path
    rw [← builtin]
    refine Registry.read_after (builtin ▸ Outcome.isDecided_map_some _) fun rule added => ?_
    exact plain _ rule added (by simp)
  word w c value := by
    have builtin := w.builtinLiterals_read c value ((extended criteria literals kc kl).scope _)
    have owned : builtinLiterals.hasExact w.name = true := by
      cases w <;> rfl
    rw [← builtin]
    exact Registry.read_after (builtin ▸ Outcome.isDecided_map_some _)
      (Registry.exact_notMem_accepted owned literals)

/-- Whatever rules are added to the built-in ones, and whatever is tolerated, a document that is
read strictly by the built-in rules alone is read to the same tree. Added exact rules for criteria
may take any key but that of a field. -/
theorem extended_read {criteria : List (Registration Criterion)}
    (plain : ∀ key rule, .exact key rule ∈ accepted builtinCriteria criteria →
      key.toList.head? ≠ some '.') (literals : List (Registration Literal)) (kc kl : Bool)
    {r : Root} {document : Json} {a : Criterion} (h : strict.read r document = .ok a) :
    (extended criteria literals kc kl).read r document = .ok a := by
  cases document with
  | object members => exact (extends_extended plain literals kc kl).retains members _ a h
  | _ => cases h

def keepingRule : Rule Criterion := fun c key value _ => .ok (some (.unknown c key value))

/-- Registrations of rules that would change every tree, if they were ever asked. -/
def meddling : List (Registration Criterion) :=
  [.dynamic keepingRule, .exact "plan" keepingRule, .exact "eq" keepingRule]

def settledDocument : Json :=
  .object [(".since", .object [("gt", .object [("date", .number (.integer 0))])])]

def settled : Criterion :=
  let here := Context.root .installation
  .compares (here.child (.field (.root .installation) ["since"])) .gt (.date (.integer 0))

theorem extended_read_settled :
    accepted builtinCriteria meddling = [.dynamic keepingRule, .exact "plan" keepingRule] ∧
      strict.read .installation settledDocument = .ok settled ∧
      (extended meddling [.dynamic Registry.echoRule] true true).read .installation
        settledDocument = .ok settled := by
  have accepts : accepted builtinCriteria meddling =
      [.dynamic keepingRule, .exact "plan" keepingRule] := rfl
  have read : strict.read .installation settledDocument = .ok settled := by cbv
  refine ⟨accepts, read, extended_read ?_ _ true true read⟩
  intro key rule added
  obtain rfl : key = "plan" := by simp_all
  decide

end Grammar

end Audience
