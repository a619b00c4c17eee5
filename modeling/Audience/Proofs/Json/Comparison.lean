import Audience.Json.Comparison
import Audience.Proofs.Json.Order
import Audience.Proofs.Text.Units

/-! # Order and equality from either side

Comparing two values from the other side turns the answer around, and equality does not depend on
the side. For objects this takes distinct keys: then an object as large as another one that has all
its members has no other member. Among booleans, numbers and texts equality is what the order says.
-/

namespace Audience

theorem Binary64.compare?_swap (x y : Float) :
    compare? y x = (compare? x y).map Ordering.swap := by
  rw [compare?, compare?]
  cases rank? x with
  | none => cases rank? y <;> rfl
  | some r =>
    cases rank? y with
    | none => rfl
    | some s => exact congrArg some Std.OrientedCmp.eq_swap

theorem Number.compare?_swap (a b : Number) : b.compare? a = (a.compare? b).map Ordering.swap := by
  cases a with
  | integer i =>
    cases b with
    | integer j => exact congrArg some Std.OrientedCmp.eq_swap
    | float y => exact Binary64.compare?_swap _ _
  | float x => cases b <;> exact Binary64.compare?_swap _ _

theorem Number.same_symm {a b : Number} (h : a.same b = true) : b.same a = true := by
  cases a with
  | integer i =>
    cases b with
    | integer j => simpa [same, eq_comm] using h
    | float y => exact h
  | float x =>
    cases b with
    | integer j => exact h
    | float y =>
      have equal : Binary64.compare? x y = some .eq := by simpa [same] using h
      simp [same, Binary64.compare?_swap x y, equal]

theorem Text.compareUnits_swap (x y : String) : compareUnits y x = (compareUnits x y).swap := by
  rw [compareUnits, compareUnits]
  exact Std.OrientedCmp.eq_swap

theorem Text.compareUnits_eq_iff {x y : String} : compareUnits x y = .eq ↔ x = y := by
  rw [compareUnits_eq, Std.LawfulEqCmp.compare_eq_iff_eq, String.toList_inj]

namespace Members

variable {as bs : Members} {key : String} {v : Json}

theorem mem_of_get? (h : as.get? key = some v) : (key, v) ∈ as := by
  induction as with
  | nil => cases h
  | cons m rest ih =>
    obtain ⟨k, w⟩ := m
    rw [get?] at h
    split at h
    next same =>
      cases h
      rw [same]
      exact List.mem_cons_self
    next => exact List.mem_cons_of_mem _ (ih h)

theorem get?_of_mem (distinct : (as.map Prod.fst).Nodup) (h : (key, v) ∈ as) :
    as.get? key = some v := by
  induction as with
  | nil => cases h
  | cons m rest ih =>
    obtain ⟨k, w⟩ := m
    rw [List.map_cons, List.nodup_cons] at distinct
    rw [get?]
    rcases List.mem_cons.mp h with here | later
    · cases here
      exact if_pos rfl
    · rw [if_neg, ih distinct.2 later]
      rintro rfl
      exact distinct.1 (List.mem_map.mpr ⟨_, later, rfl⟩)

theorem Reordered.distinct (h : Members.Reordered as bs) : (as.map Prod.fst).Nodup := by
  obtain ⟨distinct, -, -⟩ := h
  exact distinct

theorem perm_keys (distinct : (as.map Prod.fst).Nodup) (length : as.length = bs.length)
    (h : ∀ key a, (key, a) ∈ as → ∃ b, bs.get? key = some b) :
    (as.map Prod.fst).Perm (bs.map Prod.fst) := by
  have keys : as.map Prod.fst ⊆ bs.map Prod.fst := by
    intro key hkey
    obtain ⟨⟨_, a⟩, ha, rfl⟩ := List.mem_map.mp hkey
    obtain ⟨b, found⟩ := h _ a ha
    exact List.mem_map.mpr ⟨_, mem_of_get? found, rfl⟩
  exact (distinct.subperm keys).perm_of_length_le (by simp [length])

end Members

namespace Json

/-- No object in the value, at any depth, has a key twice, as in whatever is read from a text. -/
def IsKeyed (v : Json) : Prop :=
  v.Reordered v

section Parts

variable {items : List Json} {members : Members} {v : Json} {key : String}

theorem IsKeyed.item (h : (Json.array items).IsKeyed) (hv : v ∈ items) : v.IsKeyed := by
  cases h with
  | array all => exact List.forall₂_same.mp all v hv

theorem IsKeyed.distinct (h : (Json.object members).IsKeyed) : (members.map Prod.fst).Nodup := by
  cases h with
  | object all => exact all.distinct

theorem IsKeyed.member (h : (Json.object members).IsKeyed) (hv : (key, v) ∈ members) :
    v.IsKeyed := by
  cases h with
  | object all =>
    have same := all.get?_rel key
    rw [Members.get?_of_mem all.distinct hv] at same
    cases same with
    | some same => exact same

end Parts

theorem sameMembers_iff {as bs : Members} : sameMembers as bs = true ↔
    ∀ key a, (key, a) ∈ as → ∃ b, bs.get? key = some b ∧ same a b = true := by
  induction as with
  | nil => simp [sameMembers]
  | cons m rest ih =>
    obtain ⟨key, a⟩ := m
    rw [sameMembers, Bool.and_eq_true, ih]
    constructor
    · rintro ⟨here, others⟩ k v (_ | later)
      · cases found : bs.get? key with
        | none => simp [found] at here
        | some b => exact ⟨b, rfl, by simpa [found] using here⟩
      · exact others k v ‹_›
    · intro all
      obtain ⟨b, found, equal⟩ := all key a List.mem_cons_self
      exact ⟨by simpa [found] using equal,
        fun k v later => all k v (List.mem_cons_of_mem _ later)⟩

/-- A value that equals another one only if the other equals it as well. -/
def Interchanges (a : Json) : Prop :=
  ∀ ⦃b : Json⦄, a.IsKeyed → b.IsKeyed → same a b = true → same b a = true

/-- If an object has all members of another one of its size, the other has all of its members. -/
theorem sameMembers_symm {as bs : Members} (ih : ∀ m ∈ as, m.2.Interchanges)
    (ha : (Json.object as).IsKeyed) (hb : (Json.object bs).IsKeyed) (length : as.length = bs.length)
    (h : sameMembers as bs = true) : sameMembers bs as = true := by
  rw [sameMembers_iff] at h ⊢
  have order : (as.map Prod.fst).Perm (bs.map Prod.fst) :=
    Members.perm_keys ha.distinct length fun key a ha => (h key a ha).imp fun _ found => found.1
  intro key b hmem
  have there : key ∈ as.map Prod.fst := order.mem_iff.mpr (List.mem_map.mpr ⟨_, hmem, rfl⟩)
  obtain ⟨⟨_, a⟩, hmem', rfl⟩ := List.mem_map.mp there
  obtain ⟨b', found, equal⟩ := h _ a hmem'
  obtain rfl : b = b' := Option.some.inj ((Members.get?_of_mem hb.distinct hmem).symm.trans found)
  exact ⟨a, Members.get?_of_mem ha.distinct hmem',
    ih _ hmem' (ha.member hmem') (hb.member hmem) equal⟩

theorem sameItems_symm {as bs : List Json} (ih : ∀ a ∈ as, a.Interchanges)
    (ha : ∀ a ∈ as, a.IsKeyed) (hb : ∀ b ∈ bs, b.IsKeyed) (h : sameItems as bs = true) :
    sameItems bs as = true := by
  induction as generalizing bs with
  | nil =>
    cases bs with
    | nil => rfl
    | cons => exact absurd h Bool.false_ne_true
  | cons a as ihs =>
    cases bs with
    | nil => exact absurd h Bool.false_ne_true
    | cons b bs =>
      rw [sameItems, Bool.and_eq_true] at h ⊢
      rw [List.forall_mem_cons] at ih ha hb
      exact ⟨ih.1 ha.1 hb.1 h.1, ihs ih.2 ha.2 hb.2 h.2⟩

mutual

theorem interchanges : ∀ a : Json, a.Interchanges
  | .null, b, _, _, h => by cases b <;> simp_all [same]
  | .bool _, b, _, _, h => by cases b <;> simp_all [same]
  | .number _, b, _, _, h => by
    cases b with
    | number => exact Number.same_symm h
    | _ => simp [same] at h
  | .string _, b, _, _, h => by cases b <;> simp_all [same]
  | .array items, b, ha, hb, h => by
    cases b with
    | array =>
      exact sameItems_symm (interchanges_items items) (fun _ => ha.item) (fun _ => hb.item) h
    | _ => simp [same] at h
  | .object members, b, ha, hb, h => by
    cases b with
    | object others =>
      rw [same, Bool.and_eq_true, decide_eq_true_iff] at h ⊢
      exact ⟨h.1.symm, sameMembers_symm (interchanges_members members) ha hb h.1 h.2⟩
    | _ => simp [same] at h

theorem interchanges_items : ∀ items : List Json, ∀ a ∈ items, a.Interchanges
  | [] => nofun
  | a :: items => List.forall_mem_cons.mpr ⟨interchanges a, interchanges_items items⟩

theorem interchanges_members : ∀ members : Members, ∀ m ∈ members, m.2.Interchanges
  | [] => nofun
  | (_, a) :: members => List.forall_mem_cons.mpr ⟨interchanges a, interchanges_members members⟩

end

theorem compare?_null (a : Json) : a.compare? .null = a.compareZero? := by
  cases a <;> rfl

theorem null_compare? (b : Json) : Json.null.compare? b = b.compareZero?.map Ordering.swap := by
  cases b <;> rfl

theorem compare?_swap (a b : Json) : b.compare? a = (a.compare? b).map Ordering.swap := by
  cases a with
  | null =>
    rw [compare?_null, null_compare?, Option.map_map]
    cases b.compareZero? <;> simp
  | bool x =>
    cases b with
    | bool y => exact congrArg some Std.OrientedCmp.eq_swap
    | _ => rfl
  | number m =>
    cases b with
    | number n => exact Number.compare?_swap m n
    | _ => rfl
  | string s =>
    cases b with
    | string t => exact congrArg some (Text.compareUnits_swap s t)
    | _ => rfl
  | array | object => cases b <;> rfl

theorem equal_symm {a b : Json} (ha : a.IsKeyed) (hb : b.IsKeyed) (h : a.equal b = true) :
    b.equal a = true := by
  cases a with
  | number m =>
    cases b with
    | number n =>
      have equal : m.compare? n = some .eq := by simpa [equal] using h
      simp [Json.equal, Number.compare?_swap m n, equal]
    | _ => exact interchanges _ ha hb h
  | _ => cases b <;> exact interchanges _ ha hb h

/-- Values that have an order. Null has one only as the zero of another kind. -/
inductive IsScalar : Json → Prop where
  | bool (b : Bool) : IsScalar (.bool b)
  | number (n : Number) : IsScalar (.number n)
  | string (s : String) : IsScalar (.string s)

theorem IsScalar.equal_iff {a b : Json} (ha : a.IsScalar) (hb : b ≠ .null) :
    a.equal b = true ↔ a.compare? b = some .eq := by
  cases ha with
  | bool x =>
    cases b with
    | bool y => simp [equal, same, compare?]
    | null => exact absurd rfl hb
    | _ => simp [equal, same, compare?]
  | number m =>
    cases b with
    | number n => simp [equal, compare?]
    | null => exact absurd rfl hb
    | _ => simp [equal, same, compare?]
  | string s =>
    cases b with
    | string t => simp [equal, same, compare?, Text.compareUnits_eq_iff]
    | null => exact absurd rfl hb
    | _ => simp [equal, same, compare?]

end Json

end Audience
