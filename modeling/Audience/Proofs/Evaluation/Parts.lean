import Mathlib.Data.List.Forall2
import Audience.Evaluation
import Audience.Proofs.Json.Order
import Audience.Proofs.Reading.Written

/-! # Evaluation by parts

A criterion combines a test of its own with what the criteria right below it come to, all on the
record at hand; a join asks the criterion below it about the records that it goes on to. Two
evaluations of one tree are therefore compared criterion by criterion: they agree where the tests
do and where joins go on to records that are alike.
-/

namespace Audience

theorem Part.sizeOf_lt {a b : Criterion} {c : Context} (h : Part a c b) : sizeOf b < sizeOf a := by
  cases h with
  | and hb | or hb =>
    have below := List.sizeOf_lt_of_mem hb
    simp only [Criterion.and.sizeOf_spec, Criterion.or.sizeOf_spec]
    omega
  | not | join =>
    simp only [Criterion.not.sizeOf_spec, Criterion.join.sizeOf_spec]
    omega
  | _ =>
    simp only [Criterion.geo.sizeOf_spec, Criterion.lastActivity.sizeOf_spec,
      Criterion.presence.sizeOf_spec, Option.some.sizeOf_spec]
    omega

namespace Criterion

theorem childInduction {P : Criterion → Prop} (step : ∀ a, (∀ b ∈ a.children, P b) → P a)
    (a : Criterion) : P a := by
  induction hn : sizeOf a using Nat.strongRecOn generalizing a with
  | ind n ih =>
    apply step
    intro b hb
    obtain ⟨c, hc⟩ := exists_part hb
    exact ih _ (hn ▸ hc.sizeOf_lt) b rfl

mutual

/-- The criteria of a tree: the tree itself, then those of its children. -/
def nodes : Criterion → List Criterion
  | .not c a => .not c a :: nodes a
  | .and c as => .and c as :: nodesOfAll as
  | .or c as => .or c as :: nodesOfAll as
  | .geo c location date => .geo c location date :: (nodesIfGiven location ++ nodesIfGiven date)
  | .lastActivity c comparison => .lastActivity c comparison :: nodesIfGiven comparison
  | .presence c present since elapsed =>
    .presence c present since elapsed :: (nodesIfGiven since ++ nodesIfGiven elapsed)
  | .join c a => .join c a :: nodes a
  | a => [a]

def nodesOfAll : List Criterion → List Criterion
  | [] => []
  | a :: rest => nodes a ++ nodesOfAll rest

def nodesIfGiven : Option Criterion → List Criterion
  | none => []
  | some a => nodes a

end

theorem nodesOfAll_eq (as : List Criterion) : nodesOfAll as = as.flatMap nodes := by
  induction as with
  | nil => rfl
  | cons a as ih => rw [nodesOfAll, ih, List.flatMap_cons]

theorem nodesIfGiven_eq (o : Option Criterion) : nodesIfGiven o = o.toList.flatMap nodes := by
  cases o <;> simp [nodesIfGiven]

theorem nodes_eq (a : Criterion) : a.nodes = a :: a.children.flatMap nodes := by
  cases a <;> simp [nodes, children, nodesOfAll_eq, nodesIfGiven_eq]

theorem mem_nodes_iff {a d : Criterion} : d ∈ a.nodes ↔ d = a ∨ ∃ b ∈ a.children, d ∈ b.nodes := by
  rw [nodes_eq, List.mem_cons, List.mem_flatMap]

@[simp] theorem mem_nodes_self (a : Criterion) : a ∈ a.nodes :=
  mem_nodes_iff.mpr (.inl rfl)

theorem mem_nodes_of_mem_children {a b d : Criterion} (hb : b ∈ a.children) (hd : d ∈ b.nodes) :
    d ∈ a.nodes :=
  mem_nodes_iff.mpr (.inr ⟨b, hb, hd⟩)

section Combine

variable (p : Profile) (now : Int64) (record : Json)

/-- What a criterion asks by itself, apart from the criteria below it. -/
def test : Criterion → Bool
  | .presence _ present _ _ => p.isPresent now = present
  | .not _ _ | .and _ _ | .or _ _ | .geo _ _ _ | .lastActivity _ (some _) | .join _ _ => true
  | a => a.holds p now record

/-- What a criterion makes of its own test and of what its children come to. -/
def combine (own : Bool) (parts : List Bool) : Criterion → Bool
  | .not _ _ => !parts.all id
  | .or _ _ => parts.any id
  | _ => own && parts.all id

variable {p now record}

theorem holdsIfGiven_eq_all (o : Option Criterion) :
    holdsIfGiven p now record o = (o.toList.map (holds p now record)).all id := by
  cases o <;> simp [holdsIfGiven]

theorem holds_eq_combine {a : Criterion} (stays : a.isJoin = false) :
    a.holds p now record =
      a.combine (a.test p now record) (a.children.map (holds p now record)) := by
  cases a with
  | join => cases stays
  | not => simp [holds, combine, children]
  | and => simp [holds_and, combine, test, children]
  | or => simp [holds_or, combine, children]
  | geo => simp [holds, combine, test, children, holdsIfGiven_eq_all]
  | lastActivity c comparison => cases comparison <;> simp [holds, combine, test, children]
  | presence =>
    simp only [holds, combine, test, children, holdsIfGiven_eq_all, List.map_append,
      List.all_append, Bool.and_assoc]
    congr 1
    exact Bool.and_comm _ _
  | _ => simp [combine, test, children]

theorem combine_mono {a : Criterion} (positive : ∀ c b, a ≠ .not c b) {own : Bool}
    {bs : List Criterion} {f g : Criterion → Bool} (h : ∀ b ∈ bs, f b = true → g b = true) :
    a.combine own (bs.map f) = true → a.combine own (bs.map g) = true := by
  cases a with
  | not c b => exact absurd rfl (positive c b)
  | or =>
    simp only [combine, List.any_map, List.any_eq_true]
    rintro ⟨b, hb, hf⟩
    exact ⟨b, hb, h b hb hf⟩
  | _ =>
    simp only [combine, List.all_map, Bool.and_eq_true, List.all_eq_true]
    exact fun ⟨ho, hf⟩ => ⟨ho, fun b hb => h b hb (hf b hb)⟩

end Combine

end Criterion

/-- The records that a join to a source asks its child about. -/
def Profile.reached (p : Profile) : Source → List Json
  | .root .installation => [p.installation]
  | .root .user => [p.userRecord]
  | .root .event => p.events
  | _ => []

/-- Criteria that hold of the same records, whatever the profile and the time. -/
def Criterion.Equivalent (a b : Criterion) : Prop :=
  ∀ (p : Profile) (now : Int64) (record : Json), a.holds p now record = b.holds p now record

theorem Criterion.holds_join {p : Profile} {now : Int64} {record : Json} {c : Context}
    {a : Criterion} :
    (join c a).holds p now record = (p.reached c.source).any (a.holds p now ·) := by
  rw [holds]
  split <;> simp_all [Profile.reached]

/-- Lists in which each member of one is related to some member of the other. -/
def EachRelated {α β : Type} (R : α → β → Prop) (as : List α) (bs : List β) : Prop :=
  (∀ a ∈ as, ∃ b ∈ bs, R a b) ∧ ∀ b ∈ bs, ∃ a ∈ as, R a b

namespace EachRelated

variable {α β : Type} {R : α → β → Prop} {as : List α} {bs : List β}

theorem of_eq {as bs : List α} (h : as = bs) : EachRelated Eq as bs := by
  subst h
  exact ⟨fun a ha => ⟨a, ha, rfl⟩, fun a ha => ⟨a, ha, rfl⟩⟩

theorem of_forall₂ (h : List.Forall₂ R as bs) : EachRelated R as bs := by
  induction h with
  | nil => exact ⟨nofun, nofun⟩
  | cons head _ ih =>
    simp only [EachRelated, List.forall_mem_cons, List.exists_mem_cons_iff]
    exact ⟨⟨.inl head, fun a ha => .inr (ih.1 a ha)⟩, .inl head, fun b hb => .inr (ih.2 b hb)⟩

theorem any_eq (h : EachRelated R as bs) {f : α → Bool} {g : β → Bool}
    (hfg : ∀ {a b}, R a b → f a = g b) : as.any f = bs.any g := by
  rw [Bool.eq_iff_iff, List.any_eq_true, List.any_eq_true]
  constructor
  · rintro ⟨a, ha, hf⟩
    obtain ⟨b, hb, hab⟩ := h.1 a ha
    exact ⟨b, hb, hfg hab ▸ hf⟩
  · rintro ⟨b, hb, hg⟩
    obtain ⟨a, ha, hab⟩ := h.2 b hb
    exact ⟨a, ha, (hfg hab).symm ▸ hg⟩

end EachRelated

/-- Profiles that are the same but for one record, which has a related one in its place. -/
inductive Profile.DiffersIn (R : Json → Json → Prop) : Profile → Profile → Prop where
  | installation {p : Profile} {v w : Json} (h : R v w) :
      DiffersIn R { p with installation := v } { p with installation := w }
  | user {p : Profile} {v w : Json} (h : R v w) :
      DiffersIn R { p with user := some v } { p with user := some w }
  | event {p : Profile} {front back : List Json} {v w : Json} (h : R v w) :
      DiffersIn R { p with events := front ++ v :: back } { p with events := front ++ w :: back }

namespace Profile.DiffersIn

variable {R : Json → Json → Prop} {p q : Profile} (refl : ∀ v, R v v) (h : p.DiffersIn R q)
include h

theorem presence_eq : p.presence = q.presence := by
  cases h <;> rfl

theorem lastOpened_eq : p.lastOpened = q.lastOpened := by
  cases h <;> rfl

include refl

theorem related : R p.installation q.installation := by
  cases h with
  | installation h => exact h
  | _ => exact refl _

theorem reached (s : Source) : EachRelated R (p.reached s) (q.reached s) := by
  have same (vs : List Json) : List.Forall₂ R vs vs := List.forall₂_same.mpr fun v _ => refl v
  apply EachRelated.of_forall₂
  cases s with
  | root r =>
    cases r with
    | installation => exact .cons (related refl h) .nil
    | user =>
      cases h with
      | user h => exact .cons h .nil
      | _ => exact same _
    | event =>
      cases h with
      | event h => exact List.rel_append (same _) (.cons h (same _))
      | _ => exact same _
  | _ => exact .nil

end Profile.DiffersIn

section Agreement

variable {p q : Profile} {now now' : Int64} {v w : Json}

/-- Evaluations of one tree agree on related records where the tests of all its criteria do and
where all its joins go on to related records. -/
theorem Criterion.holds_eq {R : Json → Json → Prop} {a : Criterion}
    (tests : ∀ b ∈ a.nodes, ∀ {v w}, R v w → b.test p now v = b.test q now' w)
    (joins : ∀ c b, join c b ∈ a.nodes →
      EachRelated R (p.reached c.source) (q.reached c.source)) :
    ∀ {v w}, R v w → a.holds p now v = a.holds q now' w := by
  induction a using childInduction with
  | step a ih =>
    have below {b} (hb : b ∈ a.children) : ∀ {v w}, R v w → b.holds p now v = b.holds q now' w :=
      ih b hb (fun d hd => tests d (mem_nodes_of_mem_children hb hd))
        (fun c d hd => joins c d (mem_nodes_of_mem_children hb hd))
    intro v w related
    cases hj : a.isJoin with
    | true =>
      cases a with
      | join c b =>
        rw [holds_join, holds_join]
        exact (joins c b (mem_nodes_self _)).any_eq (below (by simp [children]))
      | _ => cases hj
    | false =>
      rw [holds_eq_combine hj, holds_eq_combine hj, tests a (mem_nodes_self a) related,
        List.map_congr_left fun b hb => below hb related]

end Agreement

end Audience
