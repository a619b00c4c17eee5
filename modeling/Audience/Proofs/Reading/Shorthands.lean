import Audience.Proofs.Evaluation.Parts

/-! # Shorthands

Several members of one object stand for their conjunction, and are read to the tree that it is read
to where it is written out. A list of literals stands for a list of equalities, of which any or all
have to hold. It is read to another tree, which holds of the same records, and refused with the same
error.
-/

namespace Audience

/-- The members of an object, each in an object of its own. -/
def Members.apart (members : Members) : Json :=
  .array (members.map fun member => .object [member])

/-- A list that asks for each of some literals by itself. -/
def Json.equalities (items : List Json) : Json :=
  .array (items.map fun item => .object [("eq", item)])

namespace Criterion

/-- Literals hold as their equalities do, if both are put together from their answers alike. -/
theorem equivalent_equalities {c : Context} {build : List Literal → Criterion}
    {connect : List Criterion → Criterion} (answer : List Bool → Bool)
    (literals : ∀ p now record ls, (build ls).holds p now record =
      answer (ls.map fun l => (equals c l).holds p now record))
    (criteria : ∀ p now record as, (connect as).holds p now record =
      answer (as.map (holds p now record))) (ls : List Literal) :
    (build ls).Equivalent (connect (ls.map (.equals c))) := by
  intro p now record
  rw [literals, criteria, List.map_map]
  rfl

variable (c : Context)

theorem any_equivalent :
    ∀ ls, (Criterion.any c ls).Equivalent (.or c (ls.map (.equals c))) := by
  apply equivalent_equalities fun answers => answers.any id
  · intro p now record ls
    rw [List.any_map]
    rfl
  · exact fun p now record => holds_or c record

theorem all_equivalent :
    ∀ ls, (Criterion.all c ls).Equivalent (.and c (ls.map (.equals c))) := by
  apply equivalent_equalities fun answers => answers.all id
  · intro p now record ls
    rw [List.all_map]
    rfl
  · exact fun p now record => holds_and c record

end Criterion

namespace Grammar

variable {kc kl : Bool} {c : Context} {key : String}

theorem readObjects_apart (members : Members) :
    (builtin kc kl).readObjects c key members.apart =
      members.mapM fun member => (builtin kc kl).readMember c member.1 member.2 := by
  simp only [Members.apart, readObjects, List.mapM_map, Function.comp_def, readObject,
    readMembers_one]

theorem readMembers_eq_apart {members : Members} (several : 2 ≤ members.length) :
    (builtin kc kl).readMembers c members =
      (builtin kc kl).readMembers c [(Keyword.and.name, members.apart)] := by
  rw [readMembers_keyword, Keyword.read, readObjects_apart]
  rcases members with _ | ⟨first, _ | ⟨second, rest⟩⟩
  · cases several
  · simp at several
  · exact readMembers_many _ c first second rest

section Field

variable (field : c.source.isRoot = false)
include field

theorem readMembers_equals (value : Json) :
    (builtin kc kl).readMembers c [(Keyword.equals.name, value)] =
      .equals c <$> (builtin kc kl).readLiteral c value := by
  rw [readMembers_keyword, Keyword.read, readAgainst, requireField_eq_ok field, Outcome.ok_bind]
  exact (map_eq_pure_bind _ _).symm

theorem readObjects_equalities (items : List Json) :
    (builtin kc kl).readObjects c key (.equalities items) =
      List.map (.equals c) <$> items.mapM ((builtin kc kl).readLiteral c) := by
  simp only [Json.equalities, readObjects, List.mapM_map]
  exact Outcome.mapM_eq_map fun item _ => readMembers_equals field item

/-- A keyword that reads literals writes what a connective writes of their equalities, if it holds
where they do. -/
theorem readMembers_listed (k connective : Keyword) {build : List Literal → Criterion}
    {connect : List Criterion → Criterion}
    (literals : ∀ value, k.read (builtin kc kl) c value = do
      requireField c k.name
      build <$> (builtin kc kl).readLiterals c k.name value)
    (objects : ∀ value, connective.read (builtin kc kl) c value =
      connect <$> (builtin kc kl).readObjects c connective.name value)
    (same : ∀ ls, (build ls).Equivalent (connect (ls.map (.equals c)))) (items : List Json) :
    Outcome.Coincide Criterion.Equivalent
      ((builtin kc kl).readMembers c [(k.name, .array items)])
      ((builtin kc kl).readMembers c [(connective.name, .equalities items)]) := by
  have short : (builtin kc kl).readMembers c [(k.name, .array items)] =
      build <$> items.mapM ((builtin kc kl).readLiteral c) := by
    rw [readMembers_keyword, literals, requireField_eq_ok field]
    rfl
  have long : (builtin kc kl).readMembers c [(connective.name, .equalities items)] =
      (connect ∘ List.map (.equals c)) <$> items.mapM ((builtin kc kl).readLiteral c) := by
    rw [readMembers_keyword, objects, readObjects_equalities field, Functor.map_map]
    rfl
  rw [short, long]
  exact Outcome.coincide_map same _

end Field

/-- What a shorthand writes is what its expansion writes. Several members are read as their
conjunction is, to one tree or one error. On a field, any and all of some literals are refused with
the error for the list of equalities, or else read to a tree that holds of the same records. -/
theorem readMembers_shorthands (kc kl : Bool) (c : Context) :
    (∀ members : Members, 2 ≤ members.length →
      (builtin kc kl).readMembers c members =
        (builtin kc kl).readMembers c [("and", members.apart)]) ∧
    (c.source.isRoot = false → ∀ items : List Json,
      Outcome.Coincide Criterion.Equivalent
        ((builtin kc kl).readMembers c [("any", .array items)])
        ((builtin kc kl).readMembers c [("or", .equalities items)]) ∧
      Outcome.Coincide Criterion.Equivalent
        ((builtin kc kl).readMembers c [("all", .array items)])
        ((builtin kc kl).readMembers c [("and", .equalities items)])) :=
  ⟨fun _ several => readMembers_eq_apart several, fun field items =>
    ⟨readMembers_listed field .any .or (fun _ => rfl) (fun _ => rfl)
        (Criterion.any_equivalent c) items,
      readMembers_listed field .all .and (fun _ => rfl) (fun _ => rfl)
        (Criterion.all_equivalent c) items⟩⟩

def tagsContext : Context :=
  (Context.root .installation).child (.field (.root .installation) ["tags"])

theorem readMembers_shorthands_tags :
    let members : Members := [("gte", .string "a"), ("any", .array [.null, .string "de"])]
    2 ≤ members.length ∧
      strict.readMembers tagsContext members =
        strict.readMembers tagsContext [("and", members.apart)] ∧
      tagsContext.source.isRoot = false ∧
      Outcome.Coincide Criterion.Equivalent
        (strict.readMembers tagsContext [("any", .array [.null, .string "de"])])
        (strict.readMembers tagsContext [("or", .equalities [.null, .string "de"])]) ∧
      Outcome.Coincide Criterion.Equivalent
        (strict.readMembers tagsContext [("all", .array [.null, .string "de"])])
        (strict.readMembers tagsContext [("and", .equalities [.null, .string "de"])]) := by
  intro members
  obtain ⟨apart, equalities⟩ := readMembers_shorthands false false tagsContext
  have several : 2 ≤ members.length := by decide
  have field : tagsContext.source.isRoot = false := rfl
  exact ⟨several, apart members several, field, equalities field _⟩

end Grammar

end Audience
