import Mathlib.Data.List.Forall2
import Audience.Json.Document

/-! # The order of members

A value stays the same up to order when the members of objects in it, at any depth, change
places. The keys of an object are distinct, as they are in every value that is read from a text,
so that a key leads to the same member wherever it stands.
-/

namespace Audience

section Forall₂

variable {α β γ : Type} {R : α → β → Prop} {as : List α} {bs : List β}
  (h : List.Forall₂ R as bs)
include h

theorem map_eq_of_forall₂ {f : α → γ} {g : β → γ} (hfg : ∀ {a b}, R a b → f a = g b) :
    as.map f = bs.map g := by
  induction h with
  | nil => exact List.map_nil.trans List.map_nil.symm
  | cons head _ ih => rw [List.map_cons, List.map_cons, hfg head, ih]

theorem any_eq_of_forall₂ {f : α → Bool} {g : β → Bool} (hfg : ∀ {a b}, R a b → f a = g b) :
    as.any f = bs.any g := by
  simpa using congrArg (·.any id) (map_eq_of_forall₂ h hfg)

theorem all_eq_of_forall₂ {f : α → Bool} {g : β → Bool} (hfg : ∀ {a b}, R a b → f a = g b) :
    as.all f = bs.all g := by
  simpa using congrArg (·.all id) (map_eq_of_forall₂ h hfg)

theorem mapM_eq_of_forall₂ {m : Type → Type} [Monad m] [LawfulMonad m] {f : α → m γ}
    {g : β → m γ} (hfg : ∀ {a b}, R a b → f a = g b) : as.mapM f = bs.mapM g := by
  induction h with
  | nil => rfl
  | cons head _ ih => rw [List.mapM_cons, List.mapM_cons, hfg head, ih]

theorem getElem?_rel_of_forall₂ (i : Nat) : Option.Rel R as[i]? bs[i]? := by
  induction h generalizing i with
  | nil => exact .none
  | cons head _ ih =>
    cases i with
    | zero => exact .some head
    | succ i => simpa using ih i

end Forall₂

inductive Members.SameKey (R : Json → Json → Prop) : String × Json → String × Json → Prop where
  | mk {key v w} (h : R v w) : SameKey R (key, v) (key, w)

mutual

/-- Values that differ in nothing but the order of members, at any depth. -/
inductive Json.Reordered : Json → Json → Prop where
  | null : Json.Reordered .null .null
  | bool {b} : Json.Reordered (.bool b) (.bool b)
  | number {n} : Json.Reordered (.number n) (.number n)
  | string {s} : Json.Reordered (.string s) (.string s)
  | array {as bs} (h : List.Forall₂ Json.Reordered as bs) : Json.Reordered (.array as) (.array bs)
  | object {as bs} (h : Members.Reordered as bs) : Json.Reordered (.object as) (.object bs)

/-- Members in another order, with no key twice and such values. -/
inductive Members.Reordered : Members → Members → Prop where
  | mk {as bs cs} (distinct : (as.map Prod.fst).Nodup)
      (pairs : List.Forall₂ (Members.SameKey Json.Reordered) as bs) (order : bs.Perm cs) :
      Members.Reordered as cs

end

namespace Members

variable {R : Json → Json → Prop} {as bs cs : Members}

theorem keys_eq (h : List.Forall₂ (SameKey R) as bs) : as.map Prod.fst = bs.map Prod.fst :=
  map_eq_of_forall₂ h fun head => by cases head; rfl

theorem get?_rel (h : List.Forall₂ (SameKey R) as bs) (key : String) :
    Option.Rel R (as.get? key) (bs.get? key) := by
  induction h with
  | nil => exact .none
  | cons head _ ih =>
    obtain @⟨k, v, w, hvw⟩ := head
    by_cases hk : k = key
    · simpa [get?, hk] using Option.Rel.some hvw
    · simpa [get?, hk] using ih

theorem get?_perm (order : bs.Perm cs) (distinct : (bs.map Prod.fst).Nodup) (key : String) :
    bs.get? key = cs.get? key := by
  induction order with
  | nil => rfl
  | cons m _ ih =>
    rw [List.map_cons, List.nodup_cons] at distinct
    simp only [get?, ih distinct.2]
  | swap m n _ =>
    -- Only here does it matter that a key stands for one member.
    obtain ⟨k, v⟩ := m
    obtain ⟨l, w⟩ := n
    have ne : l ≠ k := by
      rintro rfl
      simp at distinct
    by_cases hl : l = key
    · subst hl
      simp [get?, Ne.symm ne]
    · simp [get?, hl]
  | trans first _ ih ih' =>
    exact (ih distinct).trans (ih' ((first.map Prod.fst).nodup_iff.mp distinct))

theorem Reordered.get?_rel (h : Members.Reordered as cs) (key : String) :
    Option.Rel Json.Reordered (as.get? key) (cs.get? key) := by
  obtain ⟨distinct, pairs, order⟩ := h
  rw [← get?_perm order (keys_eq pairs ▸ distinct) key]
  exact Members.get?_rel pairs key

theorem Reordered.length_eq (h : Members.Reordered as cs) : as.length = cs.length := by
  obtain ⟨-, pairs, order⟩ := h
  exact pairs.length_eq.trans order.length_eq

theorem Reordered.exists_singleton {key : String} {v : Json} (h : Members.Reordered [(key, v)] cs) :
    ∃ w, v.Reordered w ∧ cs = [(key, w)] := by
  obtain ⟨-, pairs, order⟩ := h
  cases pairs with
  | cons head tail =>
    cases tail
    cases head with
    | mk same => exact ⟨_, same, (List.singleton_perm.mp order).symm⟩

theorem mem_put {members : Members} {key : String} {value : Json} {entry : String × Json}
    (h : entry ∈ members.put key value) : entry ∈ members ∨ entry = (key, value) := by
  induction members with
  | nil => exact .inr (List.mem_singleton.mp h)
  | cons m rest ih =>
    simp only [put] at h
    split at h
    next same =>
      rcases List.mem_cons.mp h with rfl | h
      · exact .inr (by rw [same])
      · exact .inl (List.mem_cons_of_mem _ h)
    next =>
      rcases List.mem_cons.mp h with rfl | h
      · exact .inl List.mem_cons_self
      · exact (ih h).imp_left (List.mem_cons_of_mem _)

theorem nodup_put {members : Members} {key : String} {value : Json}
    (h : (members.map Prod.fst).Nodup) : ((members.put key value).map Prod.fst).Nodup := by
  induction members with
  | nil => simp [put]
  | cons m rest ih =>
    rw [List.map_cons, List.nodup_cons] at h
    simp only [put]
    split
    · simpa using h
    next ne =>
      rw [List.map_cons, List.nodup_cons]
      refine ⟨fun hm => ?_, ih h.2⟩
      obtain ⟨entry, hentry, hkey⟩ := List.mem_map.mp hm
      rcases mem_put hentry with hentry | rfl
      · exact h.1 (List.mem_map.mpr ⟨entry, hentry, hkey⟩)
      · exact ne hkey.symm

end Members

namespace Json

theorem reordered_array {items : List Json} (h : ∀ v ∈ items, v.Reordered v) :
    (Json.array items).Reordered (.array items) :=
  .array (List.forall₂_same.mpr h)

theorem reordered_object {members : Members} (distinct : (members.map Prod.fst).Nodup)
    (h : ∀ entry ∈ members, entry.2.Reordered entry.2) :
    (Json.object members).Reordered (.object members) :=
  .object ⟨distinct, List.forall₂_same.mpr fun entry hentry => .mk (h entry hentry), .refl _⟩

def IgnoresOrder {β : Type} (f : Json → β) : Prop :=
  ∀ ⦃v w : Json⦄, v.Reordered w → f v = f w

theorem asString?_ignoresOrder : IgnoresOrder asString? := fun _ _ h => by
  cases h <;> rfl

theorem asBool?_ignoresOrder : IgnoresOrder asBool? := fun _ _ h => by
  cases h <;> rfl

theorem asFloat?_ignoresOrder : IgnoresOrder asFloat? := fun _ _ h => by
  cases h <;> rfl

theorem isNull_ignoresOrder : IgnoresOrder isNull := fun _ _ h => by
  cases h <;> rfl

theorem IgnoresOrder.bind_eq {γ : Type} {f : Json → Option γ} (hf : IgnoresOrder f)
    {o o' : Option Json} (h : Option.Rel Reordered o o') : o.bind f = o'.bind f := by
  cases h with
  | none => rfl
  | some same => exact hf same

theorem rel_bind {f : Json → Option Json}
    (hf : ∀ {v w : Json}, v.Reordered w → Option.Rel Reordered (f v) (f w)) {o o' : Option Json}
    (h : Option.Rel Reordered o o') : Option.Rel Reordered (o.bind f) (o'.bind f) := by
  cases h with
  | none => exact .none
  | some same => exact hf same

theorem cases_rel {o o' : Option Json} (h : Option.Rel Reordered o o') :
    o = none ∧ o' = none ∨ ∃ v w, o = some v ∧ o' = some w ∧ v.Reordered w := by
  cases h with
  | none => exact .inl ⟨rfl, rfl⟩
  | some same => exact .inr ⟨_, _, rfl, rfl, same⟩

namespace Document

mutual

theorem reordered_of_value? {depth : Nat} :
    ∀ (d : Document) {v : Json}, d.value? depth = some v → v.Reordered v
  | .null, _, h => by cases h; exact .null
  | .bool _, _, h => by cases h; exact .bool
  | .number _, _, h => by
    obtain ⟨_, -, rfl⟩ := Option.map_eq_some_iff.mp h
    exact .number
  | .string _, _, h => by
    obtain ⟨_, -, rfl⟩ := Option.map_eq_some_iff.mp h
    exact .string
  | .array items, _, h => by
    obtain ⟨_, -, h⟩ := Option.bind_eq_some_iff.mp h
    obtain ⟨values, hv, h⟩ := Option.bind_eq_some_iff.mp h
    cases h
    exact reordered_array (reordered_of_items? items hv)
  | .object entries, _, h => by
    obtain ⟨_, -, h⟩ := Option.bind_eq_some_iff.mp h
    obtain ⟨members, hm, h⟩ := Option.bind_eq_some_iff.mp h
    cases h
    exact reordered_of_members? entries hm .nil nofun

theorem reordered_of_items? {depth : Nat} :
    ∀ (ds : List Document) {vs : List Json}, items? depth ds = some vs → ∀ v ∈ vs, v.Reordered v
  | [], _, h => by cases h; nofun
  | d :: ds, _, h => by
    simp only [items?, Option.bind_eq_bind, Option.bind_eq_some_iff, Option.pure_def,
      Option.some.injEq] at h
    obtain ⟨v, hv, vs, hvs, rfl⟩ := h
    exact List.forall_mem_cons.mpr ⟨reordered_of_value? d hv, reordered_of_items? ds hvs⟩

theorem reordered_of_members? {depth : Nat} :
    ∀ (entries : List (List Piece × Document)) {front members : Members},
      members? depth entries front = some members → (front.map Prod.fst).Nodup →
        (∀ entry ∈ front, entry.2.Reordered entry.2) →
          (Json.object members).Reordered (.object members)
  | [], _, _, h, distinct, values => by cases h; exact reordered_object distinct values
  | (key, d) :: rest, front, _, h, distinct, values => by
    simp only [members?, Option.bind_eq_bind, Option.bind_eq_some_iff] at h
    obtain ⟨k, -, v, hv, h⟩ := h
    refine reordered_of_members? rest h (Members.nodup_put distinct) fun entry hentry => ?_
    rcases Members.mem_put hentry with hentry | rfl
    · exact values entry hentry
    · exact reordered_of_value? d hv

end

end Document

/-- Every value that is read from a text is a reordering of itself. -/
theorem reordered_of_parse? {text : String} {v : Json} (h : parse? text = some v) :
    v.Reordered v := by
  obtain ⟨d, -, hd⟩ := Option.bind_eq_some_iff.mp h
  exact Document.reordered_of_value? d hd

end Json

end Audience
