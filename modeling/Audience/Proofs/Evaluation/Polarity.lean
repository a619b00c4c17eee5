import Mathlib
import Audience.Proofs.Evaluation.Parts

/-! # Polarity

A place in a tree is told by the criteria around it. Every criterion but a negation keeps to what
stands below it: where that comes to hold of more, the whole does too. A negation turns this
around. What is taken for unknown never matches, so that it can only take matches away, or, below
an odd number of negations, add some.
-/

namespace Audience

/-- What stands around one of the criteria right below a criterion. -/
inductive Frame where
  | not (c : Context)
  | and (c : Context) (front back : List Criterion)
  | or (c : Context) (front back : List Criterion)
  | location (c : Context) (date : Option Criterion)
  | date (c : Context) (location : Option Criterion)
  | comparison (c : Context)
  | since (c : Context) (present : Bool) (elapsed : Option Criterion)
  | elapsed (c : Context) (present : Bool) (since : Option Criterion)
  | join (c : Context)

namespace Frame

def fill : Frame → Criterion → Criterion
  | .not c, a => .not c a
  | .and c front back, a => .and c (front ++ a :: back)
  | .or c front back, a => .or c (front ++ a :: back)
  | .location c other, a => .geo c (some a) other
  | .date c other, a => .geo c other (some a)
  | .comparison c, a => .lastActivity c (some a)
  | .since c present other, a => .presence c present (some a) other
  | .elapsed c present other, a => .presence c present other (some a)
  | .join c, a => .join c a

def negates : Frame → Bool
  | .not _ => true
  | _ => false

/-- Whether nothing holds where the criterion in the gap does not. -/
def isConjunctive : Frame → Bool
  | .not _ | .or _ _ _ => false
  | _ => true

theorem mem_children_fill (f : Frame) (a : Criterion) : a ∈ (f.fill a).children := by
  cases f <;> simp [fill, Criterion.children]

theorem exists_fill {a b : Criterion} (h : b ∈ a.children) : ∃ f : Frame, a = f.fill b := by
  obtain ⟨c, hc⟩ := exists_part h
  cases hc with
  | not => exact ⟨.not c, rfl⟩
  | and hb =>
    obtain ⟨front, back, rfl⟩ := List.append_of_mem hb
    exact ⟨.and c front back, rfl⟩
  | or hb =>
    obtain ⟨front, back, rfl⟩ := List.append_of_mem hb
    exact ⟨.or c front back, rfl⟩
  | @location c _ other => exact ⟨.location c other, rfl⟩
  | @date c other _ => exact ⟨.date c other, rfl⟩
  | @comparison c _ => exact ⟨.comparison c, rfl⟩
  | @since c present _ other => exact ⟨.since c present other, rfl⟩
  | @elapsed c present other _ => exact ⟨.elapsed c present other, rfl⟩
  | join => exact ⟨.join c, rfl⟩

end Frame

/-- A place in a tree: what stands around it, outermost first. -/
abbrev Place := List Frame

namespace Place

def fill (place : Place) (a : Criterion) : Criterion :=
  place.foldr Frame.fill a

/-- The number of negations that a place lies under. -/
def negations (place : Place) : Nat :=
  place.countP Frame.negates

@[simp] theorem fill_nil (a : Criterion) : fill [] a = a := rfl

@[simp] theorem fill_cons (f : Frame) (place : Place) (a : Criterion) :
    fill (f :: place) a = f.fill (fill place a) := rfl

theorem mem_nodes_iff {a d : Criterion} : d ∈ a.nodes ↔ ∃ place : Place, a = place.fill d := by
  constructor
  · intro h
    induction a using Criterion.childInduction with
    | step a ih =>
      rcases Criterion.mem_nodes_iff.mp h with rfl | ⟨b, hb, hd⟩
      · exact ⟨[], rfl⟩
      · obtain ⟨f, hf⟩ := Frame.exists_fill hb
        obtain ⟨place, rfl⟩ := ih b hb hd
        exact ⟨f :: place, hf⟩
  · rintro ⟨place, rfl⟩
    induction place with
    | nil => exact Criterion.mem_nodes_self d
    | cons f place ih =>
      exact Criterion.mem_nodes_of_mem_children (Frame.mem_children_fill f _) ih

end Place

section Polarity

variable {p : Profile} {now : Int64} {a b d e : Criterion}

/-- On every record one criterion holds only where another does. -/
def Criterion.Implies (p : Profile) (now : Int64) (a b : Criterion) : Prop :=
  ∀ record, a.holds p now record = true → b.holds p now record = true

open Criterion (Implies)

namespace Frame

theorem implies_fill {f : Frame} (positive : f.negates = false) (h : Implies p now a b) :
    Implies p now (f.fill a) (f.fill b) := by
  intro record
  cases f with
  | not c => cases positive
  | and c front back =>
    simp only [fill, Criterion.holds_and, List.map_append, List.map_cons, List.all_append,
      List.all_cons, Bool.and_eq_true, id]
    rintro ⟨before, ha, after⟩
    exact ⟨before, h record ha, after⟩
  | or c front back =>
    simp only [fill, Criterion.holds_or, List.map_append, List.map_cons, List.any_append,
      List.any_cons, Bool.or_eq_true, id]
    rintro (before | ha | after)
    · exact .inl before
    · exact .inr (.inl (h record ha))
    · exact .inr (.inr after)
  | location c other =>
    simp only [fill, Criterion.holds, Criterion.holdsIfGiven, Bool.and_eq_true]
    rintro ⟨ha, rest⟩
    exact ⟨h record ha, rest⟩
  | date c other =>
    simp only [fill, Criterion.holds, Criterion.holdsIfGiven, Bool.and_eq_true]
    rintro ⟨rest, ha⟩
    exact ⟨rest, h record ha⟩
  | comparison c => exact h record
  | since c present other =>
    simp only [fill, Criterion.holds, Criterion.holdsIfGiven, Bool.and_eq_true]
    rintro ⟨rest, ha⟩
    exact ⟨rest, h record ha⟩
  | elapsed c present other =>
    simp only [fill, Criterion.holds, Criterion.holdsIfGiven, Bool.and_eq_true]
    rintro ⟨⟨own, ha⟩, rest⟩
    exact ⟨⟨own, h record ha⟩, rest⟩
  | join c =>
    simp only [fill, Criterion.holds_join, List.any_eq_true]
    rintro ⟨reached, hr, ha⟩
    exact ⟨reached, hr, h reached ha⟩

theorem implies_fill_of_negates {f : Frame} (negative : f.negates = true)
    (h : Implies p now a b) : Implies p now (f.fill b) (f.fill a) := by
  intro record
  cases f with
  | not c =>
    simp only [fill, Criterion.holds, Bool.not_eq_true', Bool.eq_false_iff]
    exact fun hb ha => hb (h record ha)
  | _ => cases negative

theorem exists_holds {f : Frame} (conjunctive : f.isConjunctive = true) {record : Json}
    (h : (f.fill a).holds p now record = true) : ∃ reached, a.holds p now reached = true := by
  cases f with
  | not | or => cases conjunctive
  | join c =>
    simp only [fill, Criterion.holds_join, List.any_eq_true] at h
    obtain ⟨reached, -, ha⟩ := h
    exact ⟨reached, ha⟩
  | and c front back =>
    simp only [fill, Criterion.holds_and, List.map_append, List.map_cons, List.all_append,
      List.all_cons, Bool.and_eq_true, id] at h
    exact ⟨record, h.2.1⟩
  | _ =>
    simp only [fill, Criterion.holds, Criterion.holdsIfGiven, Bool.and_eq_true] at h
    exact ⟨record, by tauto⟩

end Frame

namespace Place

/-- A tree keeps to what stands at a place below an even number of negations, and goes against
what stands below an odd number. -/
theorem implies_fill (place : Place) (h : Implies p now e d) :
    (Even place.negations → Implies p now (place.fill e) (place.fill d)) ∧
      (Odd place.negations → Implies p now (place.fill d) (place.fill e)) := by
  induction place with
  | nil => exact ⟨fun _ => h, fun odd => by simp [negations] at odd⟩
  | cons f place ih =>
    obtain ⟨keeps, turns⟩ := ih
    cases hf : f.negates with
    | false =>
      have same : negations (f :: place) = negations place := by simp [negations, hf]
      rw [same]
      exact ⟨fun even => Frame.implies_fill hf (keeps even),
        fun odd => Frame.implies_fill hf (turns odd)⟩
    | true =>
      have more : negations (f :: place) = negations place + 1 := by simp [negations, hf]
      rw [more, Nat.even_add_one, Nat.not_even_iff_odd, Nat.odd_add_one, Nat.not_odd_iff_even]
      exact ⟨fun odd => Frame.implies_fill_of_negates hf (turns odd),
        fun even => Frame.implies_fill_of_negates hf (keeps even)⟩

theorem holds_fill_eq_false {place : Place} (conjunctive : place.all Frame.isConjunctive = true)
    (never : ∀ record, a.holds p now record = false) (record : Json) :
    (place.fill a).holds p now record = false := by
  induction place generalizing record with
  | nil => exact never record
  | cons f place ih =>
    rw [List.all_cons, Bool.and_eq_true] at conjunctive
    by_contra holds
    obtain ⟨reached, h⟩ := Frame.exists_holds conjunctive.1 (Bool.eq_true_of_not_eq_false holds)
    exact Bool.false_ne_true ((ih conjunctive.2 reached).symm.trans h)

end Place

@[simp] theorem Literal.isAmong_unknown (key : String) (v : Json) (values : List Json) :
    (Literal.unknown key v).isAmong now values = false := rfl

namespace Criterion

/-- A criterion, or a literal of it, is taken for one that no rule knows. -/
inductive Obscured : Criterion → Criterion → Prop where
  | criterion {a c key v} : Obscured a (.unknown c key v)
  | equals {c l key v} : Obscured (.equals c l) (.equals c (.unknown key v))
  | compares {c comparator l key v} :
      Obscured (.compares c comparator l) (.compares c comparator (.unknown key v))
  | startsWith {c l key v} : Obscured (.startsWith c l) (.startsWith c (.unknown key v))
  | any {c front l back key v} :
      Obscured (.any c (front ++ l :: back)) (.any c (front ++ .unknown key v :: back))
  | all {c front l back key v} :
      Obscured (.all c (front ++ l :: back)) (.all c (front ++ .unknown key v :: back))

theorem Obscured.implies (h : Obscured d e) : Implies p now e d := by
  intro record he
  cases h with
  | any =>
    simp only [holds, List.any_append, List.any_cons, Literal.isAmong_unknown,
      Bool.false_or, Bool.or_eq_true] at he ⊢
    tauto
  | all => simp [holds, Literal.isAmong_unknown] at he
  | _ => cases he

end Criterion

end Polarity

/-- Taking something in a tree for unknown, at any place below an even number of negations, makes
no profile belong to the segment that did not; below an odd number it ends no belonging. What only
conjunctive criteria lead to cannot be unknown in a segment that anyone belongs to. -/
theorem belongsTo_obscured (a : Criterion) (p : Profile) (now : Int64) :
    (∀ d, d ∈ a.nodes ↔ ∃ place : Place, a = place.fill d) ∧
      ∀ (place : Place) d, a = place.fill d →
        (∀ e, Criterion.Obscured d e →
          (Even place.negations →
            p.belongsTo now (place.fill e) = true → p.belongsTo now a = true) ∧
          (Odd place.negations →
            p.belongsTo now a = true → p.belongsTo now (place.fill e) = true)) ∧
        (place.all Frame.isConjunctive = true → ∀ c key v, d = .unknown c key v →
          p.belongsTo now a = false) := by
  refine ⟨fun d => Place.mem_nodes_iff, ?_⟩
  rintro place d rfl
  refine ⟨fun e obscured => ?_, ?_⟩
  · have implied : Criterion.Implies p now e d := obscured.implies
    obtain ⟨keeps, turns⟩ := place.implies_fill implied
    exact ⟨fun even => keeps even p.installation, fun odd => turns odd p.installation⟩
  · rintro conjunctive c key v rfl
    exact Place.holds_fill_eq_false conjunctive (fun _ => rfl) p.installation

def undisturbed (kind : Literal) (languages : List Literal) : Criterion :=
  let here := Context.root .installation
  let event := here.child (.root .event)
  .and here [
    .not here (.join event (.equals (event.child (.field (.root .event) ["kind"])) kind)),
    .any (here.child (.field (.root .installation) ["lang"])) languages]

def germanReader : Profile where
  installation := .object [("lang", .string "de")]
  events := [.object [("kind", .string "visit")]]

theorem belongsTo_obscured_undisturbed :
    let future := Literal.unknown "regex" .null
    let order := Literal.string "order"
    germanReader.belongsTo 0 (undisturbed order [future, .string "de"]) = true ∧
      germanReader.belongsTo 0 (undisturbed order [.string "fr", .string "de"]) = true ∧
      germanReader.belongsTo 0 (undisturbed future [.string "fr", .string "de"]) = true ∧
      ∀ c key v, germanReader.belongsTo 0 (.join c (.and c [.unknown c key v])) = false := by
  intro future order
  let here := Context.root .installation
  let event := here.child (.root .event)
  let kind := event.child (.field (.root .event) ["kind"])
  let lang := here.child (.field (.root .installation) ["lang"])
  -- The languages stand below no negation, and the kind of the event below one.
  let languages : Place := [.and here [.not here (.join event (.equals kind order))] []]
  let kinds : Place :=
    [.and here [] [.any lang [.string "fr", .string "de"]], .not here, .join event]
  have known : germanReader.belongsTo 0 (undisturbed order [future, .string "de"]) = true := by
    cbv
  have belongs : germanReader.belongsTo 0
      (undisturbed order [.string "fr", .string "de"]) = true :=
    (((belongsTo_obscured _ germanReader 0).2 languages _ rfl).1 _
      (@Criterion.Obscured.any lang [] _ _ _ _)).1 (by decide) known
  have turned : germanReader.belongsTo 0
      (undisturbed future [.string "fr", .string "de"]) = true :=
    (((belongsTo_obscured _ germanReader 0).2 kinds _ rfl).1 _ .equals).2 (by decide) belongs
  refine ⟨known, belongs, turned, fun c key v => ?_⟩
  exact ((belongsTo_obscured _ germanReader 0).2 [.join c, .and c [] []] _ rfl).2 rfl c key v rfl

end Audience
