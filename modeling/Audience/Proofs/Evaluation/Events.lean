import Audience.Proofs.Evaluation.Inputs

/-! # Events

A join to events asks whether the criterion below it holds of some event, so that a tree sees which
events there are, and neither their order nor how often each occurs. More events only help such a
join. They help every tree in which no join to events stands below a negation.
-/

namespace Audience

def Profile.withEvents (p : Profile) (events : List Json) : Profile :=
  { p with events }

theorem Profile.addEvent_eq (p : Profile) (event : Json) :
    p.addEvent event = p.withEvents (p.events ++ [event]) := rfl

theorem Profile.alike_withEvents (p : Profile) (events : List Json) :
    p.Alike (p.withEvents events) :=
  ⟨.refl _, rfl, rfl, rfl⟩

theorem Profile.reached_subset {p : Profile} {events : List Json} (sub : p.events ⊆ events)
    (s : Source) : p.reached s ⊆ (p.withEvents events).reached s := by
  cases s with
  | root r =>
    cases r with
    | event => exact sub
    | _ => exact List.Subset.refl _
  | _ => exact List.Subset.refl _

/-- Whether a tree looks at an input below a negation. -/
def Criterion.negates (i : Input) (a : Criterion) : Bool :=
  a.nodes.any fun
    | .not _ b => i ∈ b.inputs
    | _ => false

namespace Criterion

variable {p : Profile} {now : Int64} {events : List Json} {i : Input} {a b : Criterion}

theorem negates_of_mem_children (hb : b ∈ a.children) (h : a.negates i = false) :
    b.negates i = false := by
  unfold negates at h ⊢
  rw [List.any_eq_false] at h ⊢
  exact fun d hd => h d (mem_nodes_of_mem_children hb hd)

theorem notMem_inputs_of_negates {c : Context} (h : (not c b).negates i = false) :
    i ∉ b.inputs := by
  unfold negates at h
  rw [List.any_eq_false] at h
  simpa using h _ (mem_nodes_self _)

theorem holds_withEvents
    (joins : ∀ c b, join c b ∈ a.nodes →
      EachRelated Eq (p.reached c.source) ((p.withEvents events).reached c.source))
    (record : Json) : a.holds p now record = a.holds (p.withEvents events) now record := by
  refine holds_eq (R := Eq) (fun b _ => ?_) joins rfl
  rintro v _ rfl
  exact test_alike (p.alike_withEvents events) (.refl v)

theorem holds_withEvents_of_mem_iff (same : ∀ e, e ∈ p.events ↔ e ∈ events) (record : Json) :
    a.holds p now record = a.holds (p.withEvents events) now record := by
  refine holds_withEvents (fun c b _ => ?_) record
  cases c.source with
  | root r =>
    cases r with
    | event => exact ⟨fun e he => ⟨e, (same e).mp he, rfl⟩, fun e he => ⟨e, (same e).mpr he, rfl⟩⟩
    | _ => exact .of_eq rfl
  | _ => exact .of_eq rfl

theorem holds_withEvents_of_notMem_inputs (blind : .events ∉ a.inputs) (record : Json) :
    a.holds p now record = a.holds (p.withEvents events) now record := by
  have installation : p.installation = (p.withEvents events).installation := rfl
  refine holds_withEvents (fun c b hb => ?_) record
  have inputs : ∀ i ∈ c.source.joinInputs, i.Agrees p (p.withEvents events) now now := by
    intro i hi
    cases i with
    | events => exact absurd (mem_inputs_of_mem_nodes hb hi) blind
    | _ => rfl
  exact .of_eq (Profile.reached_eq installation inputs)

theorem holds_withEvents_of_holds (sub : p.events ⊆ events) (positive : a.negates .events = false)
    {record : Json} (h : a.holds p now record = true) :
    a.holds (p.withEvents events) now record = true := by
  induction a using childInduction generalizing record with
  | step a ih =>
    cases hj : a.isJoin with
    | true =>
      cases a with
      | join c b =>
        have child : b ∈ (join c b).children := List.mem_singleton.mpr rfl
        rw [holds_join, List.any_eq_true] at h ⊢
        obtain ⟨reached, hr, h⟩ := h
        exact ⟨reached, Profile.reached_subset sub c.source hr,
          ih b child (negates_of_mem_children child positive) h⟩
      | _ => cases hj
    | false =>
      by_cases negative : ∃ c b, a = .not c b
      · obtain ⟨c, b, rfl⟩ := negative
        have blind := notMem_inputs_of_negates positive
        rw [holds, ← holds_withEvents_of_notMem_inputs blind]
        rwa [holds] at h
      · rw [holds_eq_combine hj, ← test_alike (p.alike_withEvents events) (.refl record)]
        rw [holds_eq_combine hj] at h
        have rest : ∀ c b, a ≠ .not c b := fun c b hab => negative ⟨c, b, hab⟩
        exact combine_mono rest
          (fun b hb => ih b hb (negates_of_mem_children hb positive)) h

end Criterion

/-- Whether a profile belongs to a segment depends on no more than the set of its events, and
where no join to events stands below a negation, further events do not end it. -/
theorem belongsTo_withEvents (a : Criterion) (p : Profile) (now : Int64) :
    (∀ events, (∀ e, e ∈ p.events ↔ e ∈ events) →
      p.belongsTo now a = (p.withEvents events).belongsTo now a) ∧
    (a.negates .events = false → ∀ events, p.events ⊆ events →
      p.belongsTo now a = true → (p.withEvents events).belongsTo now a = true) :=
  ⟨fun _ same => Criterion.holds_withEvents_of_mem_iff same _,
    fun positive _ sub h => Criterion.holds_withEvents_of_holds sub positive h⟩

def customers : Criterion :=
  let here := Context.root .installation
  let event := here.child (.root .event)
  let user := here.child (.root .user)
  .and here [
    .join event (.equals (event.child (.field (.root .event) ["kind"])) (.string "order")),
    .not here (.join user
      (.equals (user.child (.field (.root .user) ["plan"])) (.string "free")))]

def visit : Json := .object [("kind", .string "visit")]
def order : Json := .object [("kind", .string "order")]

def customer : Profile where
  user := some (.object [("plan", .string "pro")])
  events := [visit, order]

theorem belongsTo_withEvents_customer :
    customers.negates .events = false ∧ customer.belongsTo 0 customers = true ∧
      (customer.withEvents [order, visit, order]).belongsTo 0 customers = true ∧
      ∀ event, (customer.addEvent event).belongsTo 0 customers = true := by
  have positive : customers.negates .events = false := rfl
  have belongs : customer.belongsTo 0 customers = true := by cbv
  obtain ⟨set, more⟩ := belongsTo_withEvents customers customer 0
  refine ⟨positive, belongs, ?_, fun event => ?_⟩
  · rw [← belongs]
    refine (set [order, visit, order] fun e => ?_).symm
    simp only [customer, List.mem_cons, List.not_mem_nil, or_false]
    tauto
  · rw [Profile.addEvent_eq]
    exact more positive _ (List.subset_append_left _ _) belongs

end Audience
