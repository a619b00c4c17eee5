import Mathlib
import Audience.Proofs.Evaluation.Parts
import Audience.Proofs.Evaluation.Values

/-! # What a segment looks at

Besides the installation, evaluation can look at the clock, the events, the user, the presence and
the last activity of a profile. Which of them it looks at is told by the criteria of the tree:
joins are the only way to users and events, and what is derived from presence and activity stands
only below the criteria that are about them. Where profiles agree on these inputs, they belong to
the segment alike.
-/

namespace Audience

/-- What evaluation can look at besides the installation. -/
inductive Input where
  | clock
  | events
  | user
  | presence
  | lastOpened
  deriving DecidableEq, Repr

/-- Whether two evaluations find the same at an input. A profile without a user agrees with one
whose user is empty. -/
def Input.Agrees (p q : Profile) (now now' : Int64) : Input → Prop
  | clock => now = now'
  | events => p.events = q.events
  | user => p.userRecord = q.userRecord
  | presence => p.presence = q.presence
  | lastOpened => p.lastOpened = q.lastOpened

def Literal.inputs : Literal → List Input
  | .relativeDate _ | .calendarDuration _ => [.clock]
  | _ => []

/-- What the values of a source are made of, besides the record at hand and the installation. -/
def Source.inputs : Source → List Input
  | .lastActivity _ => [.lastOpened]
  | .sinceDate _ _ | .elapsedTime _ _ => [.clock, .presence]
  | _ => []

def Source.joinInputs : Source → List Input
  | .root .user => [.user]
  | .root .event => [.events]
  | _ => []

namespace Criterion

/-- What a criterion looks at, apart from its source and from the criteria below it. -/
def ownInputs : Criterion → List Input
  | .equals _ literal | .compares _ _ literal | .startsWith _ literal => literal.inputs
  | .any _ literals | .all _ literals => literals.flatMap Literal.inputs
  | .lastActivity _ _ => [.lastOpened]
  | .presence _ _ _ _ => [.clock, .presence]
  | .join c _ => c.source.joinInputs
  | _ => []

/-- What a tree looks at. -/
def inputs (a : Criterion) : List Input :=
  a.nodes.flatMap ownInputs

theorem mem_inputs_of_mem_nodes {a b : Criterion} {i : Input} (hb : b ∈ a.nodes)
    (hi : i ∈ b.ownInputs) : i ∈ a.inputs :=
  List.mem_flatMap.mpr ⟨b, hb, hi⟩

theorem inputs_subset_of_mem_children {a b : Criterion} (hb : b ∈ a.children) :
    b.inputs ⊆ a.inputs := by
  intro i hi
  obtain ⟨d, hd, hi⟩ := List.mem_flatMap.mp hi
  exact mem_inputs_of_mem_nodes (mem_nodes_of_mem_children hb hd) hi

end Criterion

section Agreement

variable {p q : Profile} {now now' : Int64}

theorem Literal.resolve?_eq {l : Literal} (h : ∀ i ∈ l.inputs, i.Agrees p q now now') :
    l.resolve? now = l.resolve? now' := by
  cases l with
  | relativeDate | calendarDuration =>
    have same : now = now' := h .clock (List.mem_singleton.mpr rfl)
    rw [same]
  | _ => rfl

/-- The test of a criterion says the same of values that are alike, where the inputs agree. -/
theorem Criterion.test_eq {b : Criterion} {v w : Json}
    (subscription : p.subscription = q.subscription)
    (own : b.isJoin = false → ∀ i ∈ b.ownInputs, i.Agrees p q now now')
    (values : List.Forall₂ Json.Alike (p.valuesOf now v b.context.source)
      (q.valuesOf now' w b.context.source)) : b.test p now v = b.test q now' w := by
  have resolve {l : Literal} (stays : b.isJoin = false) (sub : l.inputs ⊆ b.ownInputs) :
      l.resolve? now = l.resolve? now' :=
    Literal.resolve?_eq fun i hi => own stays i (sub hi)
  have each {ls : List Literal} (stays : b.isJoin = false)
      (sub : ls.flatMap Literal.inputs ⊆ b.ownInputs) :
      List.Forall₂ (fun l m => l.isAmong now (p.valuesOf now v b.context.source) =
        m.isAmong now' (q.valuesOf now' w b.context.source)) ls ls := by
    refine List.forall₂_same.mpr fun l hl => ?_
    exact Literal.isAmong_eq values
      (resolve stays fun i hi => sub (List.mem_flatMap.mpr ⟨l, hl, hi⟩))
  cases b with
  | equals c l =>
    exact Literal.isAmong_eq values (resolve rfl (List.Subset.refl _))
  | compares c comparator l =>
    exact Literal.isAccepted_eq values (resolve rfl (List.Subset.refl _)) comparator
  | startsWith c l => exact Literal.isInitial_eq values rfl
  | any c ls => exact any_eq_of_forall₂ (each rfl (List.Subset.refl _)) id
  | all c ls => exact all_eq_of_forall₂ (each rfl (List.Subset.refl _)) id
  | inside c area => exact any_point_eq values area.contains
  | lastActivity c comparison =>
    cases comparison with
    | none =>
      have same : p.lastOpened = q.lastOpened := own rfl .lastOpened (List.mem_singleton.mpr rfl)
      simp only [test, holds, same]
    | some => rfl
  | presence =>
    have clock : now = now' := own rfl .clock (by simp [ownInputs])
    have presence : p.presence = q.presence := own rfl .presence (by simp [ownInputs])
    have same : p.isPresent now = q.isPresent now' := by
      simp only [Profile.isPresent, clock, presence]
    simp only [test, same]
  | subscription => simp only [test, holds, subscription]
  | _ => rfl

theorem Criterion.agrees_of_stays {b : Criterion} (stays : b.isJoin = false)
    (presence : p.presence = q.presence) (lastOpened : p.lastOpened = q.lastOpened) :
    ∀ i ∈ b.ownInputs, i.Agrees p q now now := by
  have figures {i : Input} (hi : i = .clock ∨ i = .presence ∨ i = .lastOpened) :
      i.Agrees p q now now := by
    rcases hi with rfl | rfl | rfl
    · rfl
    · exact presence
    · exact lastOpened
  have literal {l : Literal} {i : Input} (hi : i ∈ l.inputs) : i = .clock := by
    cases l with
    | relativeDate | calendarDuration => exact List.mem_singleton.mp hi
    | _ => cases hi
  intro i hi
  apply figures
  cases b with
  | equals | compares | startsWith => exact .inl (literal hi)
  | any | all =>
    obtain ⟨l, -, hi⟩ := List.mem_flatMap.mp hi
    exact .inl (literal hi)
  | lastActivity => exact .inr (.inr (List.mem_singleton.mp hi))
  | presence => simpa [ownInputs, or_assoc] using Or.inl hi
  | join => cases stays
  | _ => cases hi

theorem Criterion.test_alike {b : Criterion} {v w : Json} (h : p.Alike q)
    (record : v.FieldsAlike w) : b.test p now v = b.test q now w :=
  test_eq h.subscription (fun stays => agrees_of_stays stays h.presence h.lastOpened)
    (h.valuesOf now record b.context.source)

theorem Profile.subscription_eq (installation : p.installation = q.installation) :
    p.subscription = q.subscription := by
  simp only [Profile.subscription, installation]

theorem Profile.valuesOf_eq (installation : p.installation = q.installation) {s : Source}
    (inputs : ∀ i ∈ s.inputs, i.Agrees p q now now') (record : Json) :
    p.valuesOf now record s = q.valuesOf now' record s := by
  cases s with
  | root | field => rfl
  | geoLocation | geoDate => simp only [valuesOf, installation]
  | lastActivity =>
    have same : p.lastOpened = q.lastOpened := inputs .lastOpened (List.mem_singleton.mpr rfl)
    simp only [valuesOf, same]
  | sinceDate | elapsedTime =>
    have clock : now = now' := inputs .clock (by simp [Source.inputs])
    have presence : p.presence = q.presence := inputs .presence (by simp [Source.inputs])
    simp only [valuesOf, sinceDate, elapsedTime, clock, presence]

theorem Profile.reached_eq (installation : p.installation = q.installation) {s : Source}
    (inputs : ∀ i ∈ s.joinInputs, i.Agrees p q now now') : p.reached s = q.reached s := by
  cases s with
  | root r =>
    cases r with
    | installation => simp only [reached, installation]
    | user =>
      have same : p.userRecord = q.userRecord := inputs .user (List.mem_singleton.mpr rfl)
      simp only [reached, same]
    | event => exact inputs .events (List.mem_singleton.mpr rfl)
  | _ => rfl

end Agreement

section Sources

variable {c d : Context} {a b : Criterion}

@[simp] theorem Source.inputs_project (s : Source) (path : Path) :
    (s.project path).inputs = [] := by
  cases s <;> rfl

theorem Written.inputs_source (h : Written c a) :
    a.context.source.inputs ⊆ c.source.inputs := by
  induction h with
  | field _ _ ih => exact fun i hi => by simpa [Context.child] using ih hi
  | stay _ ih => exact fun i hi => by simpa [Context.child, Source.inputs] using ih hi
  | join => exact List.nil_subset _
  | _ => exact List.Subset.refl _

/-- A source that is derived for a part is what the criterion around it is about. -/
theorem Part.inputs_source (h : Part a d b) :
    d.source.inputs ⊆ a.ownInputs ++ a.context.source.inputs := by
  cases h with
  | location | date => exact List.nil_subset _
  | comparison | since | elapsed => exact List.subset_append_left _ _
  | _ => exact List.subset_append_right _ _

theorem Written.inputs_nodes (h : Written c a) (hb : b ∈ a.nodes) :
    b.context.source.inputs ⊆ a.inputs ++ c.source.inputs := by
  induction a using Criterion.childInduction generalizing c with
  | step a ih =>
    have own : a.ownInputs ⊆ a.inputs := fun i hi =>
      Criterion.mem_inputs_of_mem_nodes (Criterion.mem_nodes_self a) hi
    rcases Criterion.mem_nodes_iff.mp hb with rfl | ⟨e, he, hb⟩
    · exact List.Subset.trans h.inputs_source (List.subset_append_right _ _)
    · obtain ⟨d, hd⟩ := exists_part he
      intro i hi
      rcases List.mem_append.mp (ih e he (h.part hd) hb hi) with hi | hi
      · exact List.mem_append_left _ (Criterion.inputs_subset_of_mem_children he hi)
      · rcases List.mem_append.mp (hd.inputs_source hi) with hi | hi
        · exact List.mem_append_left _ (own hi)
        · exact List.mem_append_right _ (h.inputs_source hi)

end Sources

namespace Grammar

/-- Profiles with one installation belong to a segment alike if they agree on what it looks at,
each at its own time. -/
theorem belongsTo_eq_of_inputs {kc kl : Bool} {document : Json} {a : Criterion}
    (h : (builtin kc kl).read .installation document = .ok a) {p q : Profile} {now now' : Int64}
    (installation : p.installation = q.installation)
    (agree : ∀ i ∈ a.inputs, i.Agrees p q now now') : p.belongsTo now a = q.belongsTo now' a := by
  have sources {b : Criterion} (hb : b ∈ a.nodes) :
      ∀ i ∈ b.context.source.inputs, i.Agrees p q now now' := fun i hi =>
    agree i (by simpa [Context.root, Source.inputs] using (read_written h).inputs_nodes hb hi)
  have own {b : Criterion} (hb : b ∈ a.nodes) : ∀ i ∈ b.ownInputs, i.Agrees p q now now' :=
    fun i hi => agree i (Criterion.mem_inputs_of_mem_nodes hb hi)
  unfold Profile.belongsTo
  rw [installation]
  refine Criterion.holds_eq (R := Eq) (fun b hb => ?_) (fun c b hb => ?_) rfl
  · rintro record _ rfl
    refine Criterion.test_eq (Profile.subscription_eq installation) (fun _ => own hb) ?_
    rw [Profile.valuesOf_eq installation (sources hb) record]
    exact Json.Alike.refl_list _
  · exact .of_eq (Profile.reached_eq installation (own hb))

def activeDocument : Json :=
  .object [
    ("not", .object [("user", .object [(".plan", .object [("eq", .string "pro")])])]),
    ("lastActivityDate", .object [("gt", .number (.integer 1000))])]

def active : Criterion :=
  let here := Context.root .installation
  let user := here.child (.root .user)
  let activity := here.child (.lastActivity (.root .installation))
  .and here [
    .not here (.join user
      (.equals (user.child (.field (.root .user) ["plan"])) (.string "pro"))),
    .lastActivity here (some (.compares activity .gt (.number (.integer 1000))))]

def visitor : Profile where
  user := some .emptyObject
  events := [.object [("kind", .string "visit")]]
  presence := some ⟨100, 200, 100⟩
  lastOpened := 2000

theorem belongsTo_eq_of_inputs_active :
    (builtin false false).read .installation activeDocument = .ok active ∧
      active.inputs = [.user, .lastOpened] ∧
      visitor.belongsTo 3000 active = true ∧
      Profile.belongsTo { lastOpened := 2000 } 0 active = true := by
  have read : (builtin false false).read .installation activeDocument = .ok active := by cbv
  have inputs : active.inputs = [.user, .lastOpened] := rfl
  have belongs : visitor.belongsTo 3000 active = true := by cbv
  refine ⟨read, inputs, belongs, ?_⟩
  rw [← belongs]
  refine belongsTo_eq_of_inputs read rfl ?_
  rw [inputs, List.forall_mem_cons, List.forall_mem_singleton]
  exact ⟨rfl, rfl⟩

end Grammar

end Audience
