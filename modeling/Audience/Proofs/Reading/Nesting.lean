import Audience.Proofs.Evaluation.Parts

/-! # Contexts around contexts

A tree keeps the contexts it was read in, but neither reading nor evaluation looks at those that lie
further out: under other contexts an object is read to the same tree under these. A field inside of
a field and the field at both paths together are one source in two contexts or in one, so that it
does not matter how they are written.
-/

namespace Audience

namespace Context

/-- A context that has another one around it. -/
def under (inner outer : Context) : Context :=
  ⟨inner.source, inner.ancestors ++ outer.source :: outer.ancestors⟩

variable (inner outer : Context)

@[simp] theorem source_under : (inner.under outer).source = inner.source := rfl

theorem child_under (s : Source) : (inner.under outer).child s = (inner.child s).under outer := rfl

theorem depth_under_child (s : Source) :
    (inner.under (outer.child s)).depth = (inner.under outer).depth + 1 := by
  simp only [under, child, depth, List.length_append, List.length_cons]
  omega

end Context

theorem Source.project_project (s : Source) (front back : Path) :
    (s.project front).project back = s.project (front ++ back) := by
  cases s with
  | field => simp only [project, List.append_assoc]
  | _ => rfl

theorem Path.ofDotted_append (front back : String) :
    Path.ofDotted (front ++ "." ++ back) = Path.ofDotted front ++ Path.ofDotted back := by
  simp [ofDotted, splitDots_append_dot]

namespace Criterion

section Under

variable (outer : Context)

mutual

/-- The same criterion with another context around it and around all that it consists of. -/
def under : Criterion → Criterion
  | .matchAll c => .matchAll (c.under outer)
  | .equals c l => .equals (c.under outer) l
  | .compares c comparator l => .compares (c.under outer) comparator l
  | .startsWith c l => .startsWith (c.under outer) l
  | .all c ls => .all (c.under outer) ls
  | .any c ls => .any (c.under outer) ls
  | .not c a => .not (c.under outer) (under a)
  | .and c as => .and (c.under outer) (underAll as)
  | .or c as => .or (c.under outer) (underAll as)
  | .inside c area => .inside (c.under outer) area
  | .geo c location date => .geo (c.under outer) (underIfGiven location) (underIfGiven date)
  | .lastActivity c comparison => .lastActivity (c.under outer) (underIfGiven comparison)
  | .presence c present since elapsed =>
    .presence (c.under outer) present (underIfGiven since) (underIfGiven elapsed)
  | .subscription c status => .subscription (c.under outer) status
  | .join c a => .join (c.under outer) (under a)
  | .unknown c key value => .unknown (c.under outer) key value

def underAll : List Criterion → List Criterion
  | [] => []
  | a :: rest => under a :: underAll rest

def underIfGiven : Option Criterion → Option Criterion
  | none => none
  | some a => some (under a)

end

variable {outer}

theorem underAll_eq (as : List Criterion) : underAll outer as = as.map (under outer) := by
  induction as with
  | nil => rfl
  | cons a as ih => rw [underAll, ih, List.map_cons]

theorem underIfGiven_eq (o : Option Criterion) : underIfGiven outer o = o.map (under outer) := by
  cases o <;> rfl

@[simp] theorem context_under (a : Criterion) :
    (a.under outer).context = a.context.under outer := by
  cases a <;> rfl

@[simp] theorem children_under (a : Criterion) :
    (a.under outer).children = a.children.map (under outer) := by
  cases a <;> simp [under, children, underAll_eq, underIfGiven_eq, Option.toList_map]

theorem nodes_under (a : Criterion) : (a.under outer).nodes = a.nodes.map (under outer) := by
  induction a using childInduction with
  | step a ih =>
    rw [nodes_eq, nodes_eq, children_under, List.map_cons, List.map_flatMap, List.flatMap_map]
    rw [List.flatMap_congr ih]

theorem isJoin_under (a : Criterion) : (a.under outer).isJoin = a.isJoin := by
  cases a <;> rfl

theorem combine_under (a : Criterion) (own : Bool) (parts : List Bool) :
    (a.under outer).combine own parts = a.combine own parts := by
  cases a <;> rfl

theorem test_under {p : Profile} {now : Int64} {record : Json} (a : Criterion) :
    (a.under outer).test p now record = a.test p now record := by
  cases a with
  | lastActivity c comparison => cases comparison <;> simp [under, underIfGiven, test, holds]
  | _ => simp [under, test, holds]

end Under

theorem holds_under {p : Profile} {now : Int64} {outer : Context} (a : Criterion) :
    ∀ record, (a.under outer).holds p now record = a.holds p now record := by
  induction a using childInduction with
  | step a ih =>
    intro record
    cases hj : a.isJoin with
    | true =>
      cases a with
      | join c b =>
        have same := ih b (List.mem_singleton.mpr rfl)
        simp only [under, holds_join, Context.source_under, same]
      | _ => cases hj
    | false =>
      rw [holds_eq_combine hj, holds_eq_combine ((isJoin_under a).trans hj), combine_under,
        test_under, children_under, List.map_map]
      congr 1
      exact List.map_congr_left fun b hb => ih b hb record

end Criterion

namespace Grammar

variable {kc kl : Bool} {c outer : Context} {key : String} {value : Json}

theorem readLiteral_eq (c d : Context) (value : Json) :
    (builtin kc kl).readLiteral c value = (builtin kc kl).readLiteral d value := by
  cases value with
  | null | bool | number | string | array => simp
  | object members =>
    by_cases one : members.length = 1
    · obtain ⟨⟨key, value⟩, rfl⟩ := List.length_eq_one_iff.mp one
      cases wordForm key with
      | empty => simp
      | word w => simp
      | unknown h => rw [readLiteral_unknown _ _ h, readLiteral_unknown _ _ h]
    · rw [readLiteral_object _ one, readLiteral_object _ one]

theorem readLiterals_eq (c d : Context) (key : String) (value : Json) :
    (builtin kc kl).readLiterals c key value = (builtin kc kl).readLiterals d key value := by
  cases value with
  | array items => exact congrArg items.mapM (funext (readLiteral_eq c d))
  | _ => rfl

theorem requireField_under : requireField (c.under outer) key = requireField c key := rfl

theorem requireInstallation_under :
    requireInstallation (c.under outer) key = requireInstallation c key := rfl

/-- Under another context an object is read to the same tree under it. -/
def ReadsUnder (kc kl : Bool) (outer : Context) (members : Members) : Prop :=
  ∀ c, (builtin kc kl).readMembers (c.under outer) members =
    Criterion.under outer <$> (builtin kc kl).readMembers c members

theorem readAgainst_under {build build' : Literal → Outcome Criterion}
    (h : ∀ l, build' l = Criterion.under outer <$> build l) :
    (builtin kc kl).readAgainst (c.under outer) key value build' =
      Criterion.under outer <$> (builtin kc kl).readAgainst c key value build := by
  simp only [readAgainst, requireField_under, readLiteral_eq (c.under outer) c, map_bind, h]

section Value

variable (ih : ∀ inner : Members, sizeOf inner < sizeOf value → ReadsUnder kc kl outer inner)
include ih

theorem readObject_under :
    (builtin kc kl).readObject (c.under outer) key value =
      Criterion.under outer <$> (builtin kc kl).readObject c key value := by
  cases value with
  | object members => exact ih members (by simp) c
  | _ => rfl

theorem readObjects_under :
    (builtin kc kl).readObjects (c.under outer) key value =
      List.map (Criterion.under outer) <$> (builtin kc kl).readObjects c key value := by
  cases value with
  | array items =>
    refine Outcome.mapM_eq_map fun item hitem => readObject_under fun inner hinner => ?_
    exact ih inner (Nat.lt_trans hinner (Json.sizeOf_of_mem_array hitem))
  | _ => rfl

theorem readRecord_under {target : Root} :
    (Keyword.record target).read (builtin kc kl) (c.under outer) value =
      Criterion.under outer <$> (Keyword.record target).read (builtin kc kl) c value := by
  simp only [Keyword.read, Context.source_under, Context.child_under, readObject_under ih]
  split
  · rfl
  · split <;> simp [Criterion.under]

end Value

theorem readPart_under {s : Source} {members : Members}
    (ih : ∀ inner : Members, sizeOf inner < sizeOf (Json.object members) →
      ReadsUnder kc kl outer inner) :
    (builtin kc kl).readPart (c.under outer) s members key =
      Option.map (Criterion.under outer) <$> (builtin kc kl).readPart c s members key := by
  unfold readPart
  split
  · rfl
  next value hvalue =>
    rw [Context.child_under, readObject_under fun inner hinner =>
      ih inner (Nat.lt_trans hinner (Json.sizeOf_of_get? hvalue))]
    simp

theorem readKeyword_under (k : Keyword)
    (ih : ∀ inner : Members, sizeOf inner < sizeOf value → ReadsUnder kc kl outer inner) :
    k.read (builtin kc kl) (c.under outer) value =
      Criterion.under outer <$> k.read (builtin kc kl) c value := by
  cases k with
  | and | or =>
    simp [Keyword.read, readObjects_under ih, Criterion.under, Criterion.underAll_eq]
  | not => simp [Keyword.read, readObject_under ih, Criterion.under]
  | equals | compares => exact readAgainst_under fun l => rfl
  | startsWith | inside =>
    refine readAgainst_under fun l => ?_
    cases l <;> rfl
  | any | all =>
    simp [Keyword.read, requireField_under, readLiterals_eq (c.under outer) c, Criterion.under]
  | geo =>
    simp only [Keyword.read, requireInstallation_under, Context.source_under, map_bind]
    refine bind_congr fun _ => ?_
    cases value with
    | object members =>
      simp [readInner, readPart_under ih, Criterion.under, Criterion.underIfGiven_eq]
    | _ => rfl
  | lastActivity =>
    simp [Keyword.read, requireInstallation_under, Context.child_under, readObject_under ih,
      Criterion.under, Criterion.underIfGiven]
  | presence =>
    simp only [Keyword.read, requireInstallation_under, Context.source_under, map_bind]
    refine bind_congr fun _ => ?_
    cases value with
    | object members =>
      simp [readInner, readPart_under ih, Criterion.under, Criterion.underIfGiven_eq]
    | _ => rfl
  | subscription =>
    simp only [Keyword.read, requireInstallation_under, map_bind]
    refine bind_congr fun _ => ?_
    cases value with
    | string text => simp [Criterion.under]
    | _ => rfl
  | record target => exact readRecord_under ih

theorem readMember_under
    (ih : ∀ inner : Members, sizeOf inner < sizeOf value → ReadsUnder kc kl outer inner) :
    (builtin kc kl).readMember (c.under outer) key value =
      Criterion.under outer <$> (builtin kc kl).readMember c key value := by
  cases keyForm key with
  | empty => simp [readMember_empty]
  | keyword k => rw [readMember_name, readMember_name, readKeyword_under k ih]
  | field path =>
    rw [readMember_field, readMember_field, Context.child_under, Context.source_under,
      readObject_under ih]
  | unknown h =>
    rw [readMember_unknown _ _ h, readMember_unknown _ _ h]
    split <;> rfl

/-- Contexts around an object leave what it writes as it is. -/
theorem readMembers_under (members : Members) : ReadsUnder kc kl outer members := by
  induction members using Members.sizeInduction with
  | step members ih =>
    intro c
    match members with
    | [] =>
      rw [readMembers_nil, readMembers_nil, Context.source_under]
      split <;> rfl
    | [entry] =>
      rw [readMembers_one, readMembers_one, readMember_under (ih entry List.mem_cons_self)]
    | first :: second :: rest =>
      rw [readMembers_many, readMembers_many,
        Outcome.mapM_eq_map fun entry hentry => readMember_under (ih entry hentry)]
      simp [Criterion.under, Criterion.underAll_eq]

/-- A field inside of a field is the field at both paths together. The two are refused with one
error or read to one tree, with one more context around every criterion of the first, so that they
hold of the same records. -/
theorem readMembers_nested (kc kl : Bool) (c : Context) (front back : String) (body : Members) :
    Outcome.Coincide
      (fun a b =>
        (∃ tree : Criterion,
          a = tree.under (c.child (c.source.project (.ofDotted front))) ∧ b = tree.under c) ∧
        a.nodes.map (·.context.depth) = b.nodes.map (·.context.depth + 1) ∧
        a.Equivalent b)
      ((builtin kc kl).readMembers c [("." ++ front, .object [("." ++ back, .object body)])])
      ((builtin kc kl).readMembers c [("." ++ front ++ "." ++ back, .object body)]) := by
  have joined : "." ++ front ++ "." ++ back = "." ++ (front ++ "." ++ back) := by
    simp [String.append_assoc]
  rw [joined, readMembers_field, readMembers_field, readMembers_field, Path.ofDotted_append]
  generalize Path.ofDotted front = front, Path.ofDotted back = back
  have source : (c.child (c.source.project front)).source.project back =
      c.source.project (front ++ back) :=
    Source.project_project c.source front back
  let inner : Context := ⟨c.source.project (front ++ back), []⟩
  have nested : (c.child (c.source.project front)).child (c.source.project (front ++ back)) =
      inner.under (c.child (c.source.project front)) := rfl
  have dotted : c.child (c.source.project (front ++ back)) = inner.under c := rfl
  rw [source, nested, dotted, readMembers_under body inner, readMembers_under body inner]
  refine Outcome.coincide_map (fun tree => ⟨⟨tree, rfl, rfl⟩, ?_, ?_⟩) _
  · simp only [Criterion.nodes_under, List.map_map]
    refine List.map_congr_left fun node _ => ?_
    simp [Context.depth_under_child]
  · intro p now record
    rw [Criterion.holds_under, Criterion.holds_under]

end Grammar

end Audience
