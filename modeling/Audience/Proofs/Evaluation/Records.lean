import Mathlib
import Audience.Evaluation
import Audience.Proofs.Reading.Written

/-! # The record at hand

Evaluation carries a record from which fields are read, while every source names the kind of
record at its bottom. For a segment about installations the two agree throughout: evaluation
by the record at hand is evaluation by the records that the sources name, with the event of
the innermost join to events for the kind of events.
-/

namespace Audience

/-- The record of a kind. Outside of every join to events there is no event, which reads as an
empty record. -/
def Profile.recordOf (p : Profile) (event : Option Json) : Root → Json
  | .installation => p.installation
  | .user => p.userRecord
  | .event => event.getD .emptyObject

def Profile.valuesByRoot (p : Profile) (now : Int64) (event : Option Json) (s : Source) :
    List Json :=
  p.valuesOf now (p.recordOf event s.record) s

namespace Criterion

variable (p : Profile) (now : Int64)

mutual

/-- Whether a criterion holds, where every source names the record that it is read from. -/
def holdsByRoot (event : Option Json) : Criterion → Bool
  | .matchAll _ => true
  | .equals c literal => literal.isAmong now (p.valuesByRoot now event c.source)
  | .compares c comparator literal =>
    literal.isAccepted now (p.valuesByRoot now event c.source) comparator
  | .startsWith c literal => literal.isInitial (p.valuesByRoot now event c.source)
  | .all c literals =>
    literals.all fun literal => literal.isAmong now (p.valuesByRoot now event c.source)
  | .any c literals =>
    literals.any fun literal => literal.isAmong now (p.valuesByRoot now event c.source)
  | .not _ child => !holdsByRoot event child
  | .and _ children => holdAllByRoot event children
  | .or _ children => holdAnyByRoot event children
  | .inside c area =>
    ((p.valuesByRoot now event c.source).filterMap Geo.Point.ofJson?).any area.contains
  | .geo _ location date => holdsByRootIfGiven event location && holdsByRootIfGiven event date
  | .lastActivity _ none => 0 < p.lastOpened
  | .lastActivity _ (some comparison) => holdsByRoot event comparison
  | .presence _ present since elapsed =>
    p.isPresent now = present && holdsByRootIfGiven event elapsed &&
      holdsByRootIfGiven event since
  | .subscription _ status => p.subscription = status
  | .join c child =>
    match c.source with
    | .root .installation | .root .user => holdsByRoot event child
    | .root .event => p.events.any fun event => holdsByRoot (some event) child
    | _ => false
  | .unknown _ _ _ => false

def holdAllByRoot (event : Option Json) : List Criterion → Bool
  | [] => true
  | child :: rest => holdsByRoot event child && holdAllByRoot event rest

def holdAnyByRoot (event : Option Json) : List Criterion → Bool
  | [] => false
  | child :: rest => holdsByRoot event child || holdAnyByRoot event rest

def holdsByRootIfGiven (event : Option Json) : Option Criterion → Bool
  | none => true
  | some child => holdsByRoot event child

end

variable {p now}

theorem holdAll_eq_holdAllByRoot {record : Json} {event : Option Json} {as : List Criterion}
    (h : ∀ a ∈ as, holds p now record a = holdsByRoot p now event a) :
    holdAll p now record as = holdAllByRoot p now event as := by
  induction as with
  | nil => rfl
  | cons a as ih =>
    rw [List.forall_mem_cons] at h
    rw [holdAll, holdAllByRoot, h.1, ih h.2]

theorem holdAny_eq_holdAnyByRoot {record : Json} {event : Option Json} {as : List Criterion}
    (h : ∀ a ∈ as, holds p now record a = holdsByRoot p now event a) :
    holdAny p now record as = holdAnyByRoot p now event as := by
  induction as with
  | nil => rfl
  | cons a as ih =>
    rw [List.forall_mem_cons] at h
    rw [holdAny, holdAnyByRoot, h.1, ih h.2]

theorem holdsIfGiven_eq_holdsByRootIfGiven {record : Json} {event : Option Json}
    {o : Option Criterion} (h : ∀ a ∈ o, holds p now record a = holdsByRoot p now event a) :
    holdsIfGiven p now record o = holdsByRootIfGiven p now event o := by
  cases o with
  | none => rfl
  | some a => exact h a rfl

end Criterion

theorem Profile.valuesOf_eq_valuesByRoot {p : Profile} {now : Int64} {record : Json}
    {event : Option Json} {s : Source} (h : record = p.recordOf event s.record) :
    p.valuesOf now record s = p.valuesByRoot now event s := by
  rw [valuesByRoot, h]

/-- On the record that a context names, evaluation needs no record at hand. -/
theorem Written.holds_eq {p : Profile} {now : Int64} {c : Context} {a : Criterion}
    (h : Written c a) : ∀ {record : Json} {event : Option Json},
      record = p.recordOf event c.source.record →
        a.holds p now record = a.holdsByRoot p now event := by
  induction h with
  | matchAll | subscription | unknown => intros; rfl
  | equals | compares | startsWith | inside | any | all =>
    intro record event same
    simp only [Criterion.holds, Criterion.holdsByRoot, Profile.valuesOf_eq_valuesByRoot same]
  | not _ ih =>
    intro record event same
    simp only [Criterion.holds, Criterion.holdsByRoot, ih same]
  | and _ ih =>
    intro record event same
    exact Criterion.holdAll_eq_holdAllByRoot fun a ha => ih a ha same
  | or _ ih =>
    intro record event same
    exact Criterion.holdAny_eq_holdAnyByRoot fun a ha => ih a ha same
  | geo _ _ _ ihl ihd =>
    intro record event same
    simp only [Criterion.holds, Criterion.holdsByRoot]
    rw [Criterion.holdsIfGiven_eq_holdsByRootIfGiven fun a ha => ihl a ha same,
      Criterion.holdsIfGiven_eq_holdsByRootIfGiven fun a ha => ihd a ha same]
  | lastActivity _ _ ih =>
    intro record event same
    simp only [Criterion.holds, Criterion.holdsByRoot]
    exact ih same
  | presence _ _ _ ihs ihe =>
    intro record event same
    simp only [Criterion.holds, Criterion.holdsByRoot]
    rw [Criterion.holdsIfGiven_eq_holdsByRootIfGiven fun a ha => ihs a ha same,
      Criterion.holdsIfGiven_eq_holdsByRootIfGiven fun a ha => ihe a ha same]
  | field _ _ ih =>
    intro record event same
    exact ih (by simpa [Context.child] using same)
  | stay _ ih =>
    intro record event same
    exact ih same
  | @join c target a _ _ _ ih =>
    -- What was at hand does not matter: the join goes on to the record that its context names.
    intro record event _
    cases target with
    | installation => exact ih rfl
    | user => exact ih rfl
    | event => exact List.any_congr rfl fun _ => ih rfl

/-- A criterion that evaluation comes to, with the record at hand and the event of the innermost
join to events. -/
structure Visit where
  record : Json
  event : Option Json
  criterion : Criterion

/-- The records that a join evaluates its child on, each with the event bound there. -/
def Profile.joined (p : Profile) (event : Option Json) : Root → List (Json × Option Json)
  | .installation => [(p.installation, event)]
  | .user => [(p.userRecord, event)]
  | .event => p.events.map fun record => (record, some record)

namespace Visit

/-- Evaluation goes on to the children of a criterion; only a join changes the record. -/
inductive Step (p : Profile) : Visit → Visit → Prop where
  | child {record event a b} (h : b ∈ a.children) (stays : a.isJoin = false) :
      Step p ⟨record, event, a⟩ ⟨record, event, b⟩
  | join {record event c r b record' event'} (hc : c.source = .root r)
      (h : (record', event') ∈ p.joined event r) :
      Step p ⟨record, event, .join c b⟩ ⟨record', event', b⟩

/-- The visits that an evaluation can come to from its first one. -/
inductive Reachable (p : Profile) (first : Visit) : Visit → Prop where
  | first : Reachable p first first
  | step {v w} (h : Reachable p first v) (hs : Step p v w) : Reachable p first w

/-- The record at hand is the one that a source names. -/
def IsOn (p : Profile) (v : Visit) (s : Source) : Prop :=
  v.record = p.recordOf v.event s.record

/-- The criterion was written for a context that names the record at hand. -/
def AtHome (p : Profile) (v : Visit) : Prop :=
  ∃ c, Written c v.criterion ∧ v.IsOn p c.source

end Visit

theorem Profile.recordOf_joined {p : Profile} {event event' : Option Json} {r : Root}
    {record : Json} (h : (record, event') ∈ p.joined event r) : record = p.recordOf event' r := by
  cases r with
  | installation | user =>
    cases List.mem_singleton.mp h
    rfl
  | event =>
    obtain ⟨e, -, he⟩ := List.mem_map.mp h
    cases he
    rfl

namespace Visit

variable {p : Profile} {v w : Visit}

theorem AtHome.isOn (h : v.AtHome p) (stays : v.criterion.isJoin = false) :
    v.IsOn p v.criterion.context.source := by
  obtain ⟨c, hc, same⟩ := h
  rw [IsOn, hc.record_context stays]
  exact same

theorem AtHome.step (h : v.AtHome p) (hs : Step p v w) : w.AtHome p := by
  obtain ⟨c, hc, same⟩ := h
  cases hs with
  | child hb stays =>
    obtain ⟨d, hd⟩ := exists_part hb
    refine ⟨d, hc.part hd, ?_⟩
    rw [IsOn, hd.record_context, hc.record_context stays]
    exact same
  | @join _ _ d _ _ _ _ hd hr =>
    refine ⟨d, hc.part .join, ?_⟩
    rw [IsOn, hd]
    exact Profile.recordOf_joined hr

theorem Reachable.atHome {first : Visit} (h : Reachable p first v) (hf : first.AtHome p) :
    v.AtHome p := by
  induction h with
  | first => exact hf
  | step _ hs ih => exact ih.step hs

theorem Step.isOn_join {c : Context} {a : Criterion} (hv : v.criterion = .join c a)
    (hs : Step p v w) : w.IsOn p c.source := by
  cases hs with
  | child hb stays =>
    cases hv
    cases stays
  | join hd hr =>
    cases hv
    rw [IsOn, hd]
    exact Profile.recordOf_joined hr

end Visit

namespace Grammar

/-- Evaluating a segment about installations is evaluating it by the records that its sources
name. Whatever evaluation comes to, the record at hand is the one that the source of the
criterion names; a join names the record that it goes on to. -/
theorem belongsTo_eq_holdsByRoot {kc kl : Bool} {document : Json} {a : Criterion}
    (h : (builtin kc kl).read .installation document = .ok a) (p : Profile) (now : Int64) :
    p.belongsTo now a = a.holdsByRoot p now none ∧
      ∀ v, Visit.Reachable p ⟨p.installation, none, a⟩ v →
        (v.criterion.isJoin = false → v.IsOn p v.criterion.context.source) ∧
        (v.criterion.isJoin = true →
          ∀ w, Visit.Step p v w → w.IsOn p v.criterion.context.source) := by
  have written := read_written h
  refine ⟨written.holds_eq rfl, fun v hv => ⟨?_, ?_⟩⟩
  · exact (hv.atHome ⟨_, written, rfl⟩).isOn
  · intro hj w hs
    cases hc : v.criterion with
    | join c b => exact hs.isOn_join hc
    | _ => simp [hc, Criterion.isJoin] at hj

/-- Installations of professional users, with an order among the events of the user. -/
def buyersDocument : Json :=
  .object [("user", .object [
    (".plan", .object [("eq", .string "pro")]),
    ("event", .object [(".kind", .object [("eq", .string "order")])])])]

def buyers : Criterion :=
  let user := (Context.root .installation).child (.root .user)
  let hub := user.child (.root .installation)
  let event := hub.child (.root .event)
  .join user (.and user [
    .equals (user.child (.field (.root .user) ["plan"])) (.string "pro"),
    .join hub (.join event
      (.equals (event.child (.field (.root .event) ["kind"])) (.string "order")))])

def buyer : Profile where
  user := some (.object [("plan", .string "pro")])
  events := [.object [("kind", .string "visit")], .object [("kind", .string "order")]]

theorem read_buyersDocument : strict.read .installation buyersDocument = .ok buyers := by
  cbv

theorem belongsTo_eq_holdsByRoot_buyers :
    strict.read .installation buyersDocument = .ok buyers ∧
      buyer.belongsTo 0 buyers = true ∧ buyers.holdsByRoot buyer 0 none = true := by
  have read := read_buyersDocument
  have holds : buyer.belongsTo 0 buyers = true := by cbv
  refine ⟨read, holds, ?_⟩
  rw [← (belongsTo_eq_holdsByRoot read buyer 0).1, holds]

/-- A join has the source that it goes on to, and is come to with the record outside of it. -/
theorem not_isOn_buyers :
    strict.read .installation buyersDocument = .ok buyers ∧
      Visit.Reachable buyer ⟨buyer.installation, none, buyers⟩
        ⟨buyer.installation, none, buyers⟩ ∧
      buyers.context.source.record = .user ∧ buyer.installation ≠ buyer.recordOf none .user ∧
      ¬ Visit.IsOn buyer ⟨buyer.installation, none, buyers⟩ buyers.context.source := by
  have other : buyer.installation ≠ buyer.recordOf none .user := by
    intro same
    cases same
  exact ⟨read_buyersDocument, .first, rfl, other, other⟩

end Grammar
end Audience
