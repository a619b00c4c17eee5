import Mathlib
import Audience.Catalog

/-! # Histories of catalogs

A catalog keeps its segments in no order and counts registrations apart from them. Told by the
calls that were made on it, it is a list all the same: registrations append to it, removals take
out of it, and refused registrations never happened.
-/

namespace Audience

def Grammar.describes (g : Grammar) (document : Json) (p : Profile) (now : Int64) : Bool :=
  match g.read .installation document with
  | .ok a => p.belongsTo now a
  | .error _ => false

namespace Catalog

/-- A call on a catalog. A registration comes with the identifier that it would draw. -/
inductive Call (ι : Type) where
  | register (id : ι) (name : String) (document : Json)
  | get (id : ι)
  | remove (id : ι)
  | list
  | size
  | isEmpty
  | matching (p : Profile) (clock : Nat → Int64)

section History

variable {ι : Type} (g : Grammar)

/-- The identifier that a call draws: only registrations whose document is read draw one. -/
def Call.draws? : Call ι → Option ι
  | .register id _ document =>
    match g.read .installation document with
    | .ok _ => some id
    | .error _ => none
  | _ => none

/-- The identifiers drawn by some calls, one for every segment registered. -/
def drawn (calls : List (Call ι)) : List ι :=
  calls.filterMap (Call.draws? g)

/-- A segment that was registered, numbered by the registrations before, and not removed since. -/
def IsLive (calls : List (Call ι)) (s : Segment ι) : Prop :=
  g.read .installation s.document = .ok s.criterion ∧
    ∃ before since, calls = before ++ .register s.id s.name s.document :: since ∧
      s.sequence = (drawn g before).length ∧ .remove s.id ∉ since

variable {g} {calls : List (Call ι)} {call : Call ι} {s t : Segment ι}

theorem draws?_register {id : ι} {name : String} {document : Json} {a : Criterion}
    (read : g.read .installation document = .ok a) :
    (Call.register id name document).draws? g = some id := by
  simp only [Call.draws?, read]

theorem drawn_concat : drawn g (calls ++ [call]) = drawn g calls ++ (call.draws? g).toList := by
  cases h : call.draws? g <;> simp [drawn, h]

/-- The last call took a segment out, or put it in, or it was there before. -/
theorem isLive_concat : IsLive g (calls ++ [call]) s ↔
    IsLive g calls s ∧ call ≠ .remove s.id ∨
      g.read .installation s.document = .ok s.criterion ∧
        call = .register s.id s.name s.document ∧ s.sequence = (drawn g calls).length := by
  constructor
  · rintro ⟨read, before, since, split, number, stays⟩
    rcases List.eq_nil_or_concat since with rfl | ⟨since, last, rfl⟩
    · obtain ⟨rfl, same⟩ := List.append_inj' split rfl
      cases same
      exact .inr ⟨read, rfl, number⟩
    · rw [List.concat_eq_append] at split stays
      rw [← List.cons_append, ← List.append_assoc] at split
      obtain ⟨rfl, same⟩ := List.append_inj' split rfl
      cases same
      simp only [List.mem_append, List.mem_singleton, not_or] at stays
      exact .inl ⟨⟨read, before, since, rfl, number, stays.1⟩, Ne.symm stays.2⟩
  · rintro (⟨⟨read, before, since, rfl, number, stays⟩, kept⟩ | ⟨read, rfl, number⟩)
    · refine ⟨read, before, since ++ [call], by simp, number, ?_⟩
      simp only [List.mem_append, List.mem_singleton, not_or]
      exact ⟨stays, Ne.symm kept⟩
    · exact ⟨read, calls, [], rfl, number, nofun⟩

theorem IsLive.mem_drawn (h : IsLive g calls s) : s.id ∈ drawn g calls := by
  obtain ⟨read, before, since, rfl, -⟩ := h
  simp [drawn, Call.draws?, read]

theorem IsLive.sequence_lt (h : IsLive g calls s) : s.sequence < (drawn g calls).length := by
  obtain ⟨read, before, since, rfl, number, -⟩ := h
  simp only [drawn, List.filterMap_append, List.length_append, List.filterMap_cons, Call.draws?,
    read, List.length_cons] at number ⊢
  omega

theorem IsLive.eq_of_sequence_eq (hs : IsLive g calls s) (ht : IsLive g calls t)
    (same : s.sequence = t.sequence) : s = t := by
  induction calls using List.reverseRecOn with
  | nil =>
    obtain ⟨-, before, since, split, -⟩ := hs
    simp at split
  | append_singleton calls call ih =>
    rcases isLive_concat.mp hs with ⟨hs, -⟩ | ⟨reads, rfl, numbers⟩ <;>
      rcases isLive_concat.mp ht with ⟨ht, -⟩ | ⟨readt, callt, numbert⟩
    · exact ih hs ht
    · have := hs.sequence_lt
      omega
    · have := ht.sequence_lt
      omega
    · cases s
      cases t
      simp_all

theorem eq_of_drawn (distinct : (drawn g calls).Nodup) {id : ι}
    {before since before' since' : List (Call ι)} {r r' : Call ι}
    (hr : r.draws? g = some id) (hr' : r'.draws? g = some id)
    (split : calls = before ++ r :: since) (split' : calls = before' ++ r' :: since') :
    since = since' := by
  have clash {front middle rest : List (Call ι)} {x y : Call ι} (hx : x.draws? g = some id)
      (hy : y.draws? g = some id) (h : calls = front ++ x :: (middle ++ y :: rest)) : False := by
    subst h
    simp [drawn, hx, hy, List.nodup_append] at distinct
  rcases List.append_eq_append_iff.mp (split.symm.trans split') with
    ⟨middle, hb, hs⟩ | ⟨middle, hb, hs⟩
  · cases middle with
    | nil => simp_all
    | cons x middle =>
      obtain ⟨rfl, rfl⟩ := List.cons.inj hs
      exact (clash hr hr' split).elim
  · cases middle with
    | nil => simp_all
    | cons x middle =>
      obtain ⟨rfl, rfl⟩ := List.cons.inj hs
      exact (clash hr' hr split').elim

end History

section State

variable {ι : Type} [BEq ι] [Hashable ι]

def Call.next (c : Catalog ι) : Call ι → Catalog ι
  | .register id name document => (c.register id name document).2
  | .remove id => (c.remove id).2
  | _ => c

/-- The catalog after some calls on a fresh one. -/
def after (g : Grammar) (calls : List (Call ι)) : Catalog ι :=
  calls.foldl Call.next (.empty g)

theorem after_concat (g : Grammar) (calls : List (Call ι)) (call : Call ι) :
    after g (calls ++ [call]) = call.next (after g calls) := by
  simp [after]

variable {g : Grammar} {calls : List (Call ι)} {c : Catalog ι}

theorem register_of_error {id : ι} {name : String} {document : Json} {e : Error}
    (h : c.grammar.read .installation document = .error e) :
    c.register id name document = (.error e, c) := by
  simp only [register, h]

theorem register_of_ok {id : ι} {name : String} {document : Json} {a : Criterion}
    (h : c.grammar.read .installation document = .ok a) :
    c.register id name document =
      (.ok id, { c with
        segments := c.segments.insert id ⟨id, name, document, a, c.next⟩
        next := c.next + 1 }) := by
  simp only [register, h]

/-- What a catalog keeps of the calls made on it. -/
structure Keeps (g : Grammar) (calls : List (Call ι)) (c : Catalog ι) : Prop where
  grammar : c.grammar = g
  next : c.next = (drawn g calls).length
  get : ∀ id s, c.get? id = some s ↔ s.id = id ∧ IsLive g calls s

theorem Keeps.empty (g : Grammar) : Keeps g [] (.empty g : Catalog ι) where
  grammar := rfl
  next := rfl
  get id s := by simp [get?, Catalog.empty, IsLive]

/-- A call that draws no identifier and removes nothing leaves everything as it is. -/
theorem Keeps.idle (h : Keeps g calls c) {call : Call ι} (draws : call.draws? g = none)
    (removes : ∀ id, call ≠ .remove id) : Keeps g (calls ++ [call]) c where
  grammar := h.grammar
  next := by simp [h.next, drawn_concat, draws]
  get id s := by
    rw [h.get, isLive_concat]
    constructor
    · rintro ⟨rfl, live⟩
      exact ⟨rfl, .inl ⟨live, removes _⟩⟩
    · rintro ⟨rfl, ⟨live, -⟩ | ⟨read, rfl, -⟩⟩
      · exact ⟨rfl, live⟩
      · simp [Call.draws?, read] at draws

theorem Keeps.get_of_register (h : Keeps g calls c) (distinct : (drawn g calls).Nodup)
    {before since : List (Call ι)} {id : ι} {name : String} {document : Json} {a : Criterion}
    (split : calls = before ++ .register id name document :: since)
    (read : g.read .installation document = .ok a) :
    (.remove id ∉ since → c.get? id = some ⟨id, name, document, a, (drawn g before).length⟩) ∧
      (.remove id ∈ since → c.get? id = none) := by
  refine ⟨fun stays => (h.get _ _).mpr ⟨rfl, read, before, since, split, rfl, stays⟩, ?_⟩
  refine fun gone => Option.eq_none_iff_forall_ne_some.mpr fun s kept => ?_
  obtain ⟨rfl, reads, before', since', split', -, stays⟩ := (h.get _ _).mp kept
  have same : since = since' :=
    eq_of_drawn distinct (draws?_register read) (draws?_register reads) split split'
  exact stays (same ▸ gone)

variable [LawfulBEq ι]

theorem Keeps.register (h : Keeps g calls c) {id : ι} {name : String} {document : Json}
    {a : Criterion} (read : g.read .installation document = .ok a) (fresh : id ∉ drawn g calls) :
    Keeps g (calls ++ [.register id name document]) (c.register id name document).2 := by
  have read' : c.grammar.read .installation document = .ok a := h.grammar ▸ read
  rw [register_of_ok read']
  refine ⟨h.grammar, ?_, fun other s => ?_⟩
  · simp [h.next, drawn_concat, Call.draws?, read]
  · rw [isLive_concat, get?, Std.HashMap.getElem?_insert]
    by_cases same : id = other
    · subst same
      simp only [beq_self_eq_true, if_true, Option.some.injEq]
      constructor
      · rintro rfl
        exact ⟨rfl, .inr ⟨read, rfl, h.next⟩⟩
      · rintro ⟨rfl, ⟨live, -⟩ | ⟨reads, call, number⟩⟩
        · exact absurd live.mem_drawn fresh
        · cases s
          simp_all [h.next]
    · have kept : c.segments[other]? = some s ↔ s.id = other ∧ IsLive g calls s := h.get other s
      simp only [beq_eq_false_iff_ne.mpr same, Bool.false_eq_true, if_false, kept]
      constructor
      · rintro ⟨rfl, live⟩
        exact ⟨rfl, .inl ⟨live, nofun⟩⟩
      · rintro ⟨rfl, ⟨live, -⟩ | ⟨-, call, -⟩⟩
        · exact ⟨rfl, live⟩
        · cases call
          exact absurd rfl same

theorem Keeps.remove (h : Keeps g calls c) (id : ι) :
    Keeps g (calls ++ [.remove id]) (c.remove id).2 where
  grammar := h.grammar
  next := by simp [Catalog.remove, h.next, drawn_concat, Call.draws?]
  get other s := by
    have kept : c.segments[other]? = some s ↔ s.id = other ∧ IsLive g calls s := h.get other s
    rw [isLive_concat, get?, Catalog.remove, Std.HashMap.getElem?_erase]
    by_cases same : id = other
    · subst same
      simp only [beq_self_eq_true, if_true]
      constructor
      · nofun
      · rintro ⟨rfl, ⟨-, gone⟩ | ⟨-, call, -⟩⟩
        · exact absurd rfl gone
        · cases call
    · simp only [beq_eq_false_iff_ne.mpr same, Bool.false_eq_true, if_false, kept]
      constructor
      · rintro ⟨rfl, live⟩
        exact ⟨rfl, .inl ⟨live, fun call => same (by cases call; rfl)⟩⟩
      · rintro ⟨rfl, ⟨live, -⟩ | ⟨-, call, -⟩⟩
        · exact ⟨rfl, live⟩
        · cases call

theorem Keeps.step (h : Keeps g calls c) {call : Call ι}
    (fresh : (drawn g (calls ++ [call])).Nodup) : Keeps g (calls ++ [call]) (call.next c) := by
  cases call with
  | register id name document =>
    cases read : g.read .installation document with
    | error e =>
      have same : c.register id name document = (.error e, c) :=
        register_of_error (h.grammar ▸ read)
      simp only [Call.next, same]
      exact h.idle (by simp [Call.draws?, read]) nofun
    | ok a =>
      refine h.register read fun old => ?_
      simp only [drawn_concat, Call.draws?, read, Option.toList_some, List.nodup_append,
        List.mem_singleton] at fresh
      exact fresh.2.2 id old id rfl rfl
  | remove id => exact h.remove id
  | _ => exact h.idle rfl nofun

theorem keeps_after (distinct : (drawn g calls).Nodup) : Keeps g calls (after g calls) := by
  induction calls using List.reverseRecOn with
  | nil => exact .empty g
  | append_singleton calls call ih =>
    rw [after_concat]
    refine (ih ?_).step distinct
    rw [drawn_concat] at distinct
    exact distinct.sublist (List.sublist_append_left _ _)

theorem size_eq_length : c.size = c.list.length := by
  rw [list, List.length_mergeSort, List.length_map, Std.HashMap.length_toList, size]

theorem isEmpty_eq : c.isEmpty = c.list.isEmpty := by
  rw [Bool.eq_iff_iff, List.isEmpty_iff_length_eq_zero, ← size_eq_length, size, isEmpty,
    Std.HashMap.isEmpty_eq_size_eq_zero, beq_iff_eq]

theorem mem_list {s : Segment ι} : s ∈ c.list ↔ ∃ id, c.get? id = some s := by
  simp [list, get?, Std.HashMap.mem_toList_iff_getElem?_eq_some]

namespace Keeps

theorem mem_list_iff (h : Keeps g calls c) {s : Segment ι} : s ∈ c.list ↔ IsLive g calls s := by
  simp [mem_list, h.get]

theorem pairwise_list (h : Keeps g calls c) : c.list.Pairwise (·.sequence < ·.sequence) := by
  have sorted : c.list.Pairwise (·.sequence ≤ ·.sequence) := by
    refine (List.pairwise_mergeSort ?_ ?_ _).imp of_decide_eq_true
    · simpa using fun _ _ _ => Nat.le_trans
    · simpa using fun _ _ => Nat.le_total _ _
  have apart : c.list.Pairwise (·.sequence ≠ ·.sequence) := by
    refine ((List.mergeSort_perm _ _).pairwise_iff Ne.symm).mpr (List.pairwise_map.mpr ?_)
    refine Std.HashMap.distinct_keys_toList.imp_of_mem fun {x y} hx hy ne same => ?_
    have keptx := (h.get _ _).mp (Std.HashMap.mem_toList_iff_getElem?_eq_some.mp hx)
    have kepty := (h.get _ _).mp (Std.HashMap.mem_toList_iff_getElem?_eq_some.mp hy)
    have one := keptx.2.eq_of_sequence_eq kepty.2 same
    simp [← keptx.1, ← kepty.1, one] at ne
  exact sorted.imp₂ (fun s t le ne => Nat.lt_of_le_of_ne le ne) apart

theorem matching_eq (h : Keeps g calls c) (p : Profile) (clock : Nat → Int64) :
    c.matching p clock =
      (c.list.zipIdx.filter fun (s, reading) => g.describes s.document p (clock reading)).map
        (·.1.id) := by
  unfold matching
  congr 1
  refine List.filter_congr fun (s, reading) hs => ?_
  have live := h.mem_list_iff.mp (List.fst_mem_of_mem_zipIdx hs)
  simp only [Grammar.describes, live.1]

theorem list_register (h : Keeps g calls c) {id : ι} {name : String} {document : Json}
    {a : Criterion} (read : g.read .installation document = .ok a) (fresh : id ∉ drawn g calls) :
    (c.register id name document).2.list =
      c.list ++ [⟨id, name, document, a, (drawn g calls).length⟩] := by
  have grown : Keeps g (calls ++ [.register id name document]) (c.register id name document).2 :=
    h.register read fresh
  let ordered (s t : Segment ι) : Prop := s.sequence < t.sequence
  have : Std.Irrefl ordered := ⟨fun s => Nat.lt_irrefl s.sequence⟩
  have : Std.Antisymm ordered := ⟨fun s t lt gt => absurd lt (Nat.lt_asymm gt)⟩
  refine List.Pairwise.eq_of_mem_iff (r := ordered) grown.pairwise_list ?_ fun s => ?_
  · refine List.pairwise_append.mpr ⟨h.pairwise_list, List.pairwise_singleton .., ?_⟩
    rintro s hs _ ht
    rw [List.mem_singleton.mp ht]
    exact (h.mem_list_iff.mp hs).sequence_lt
  · rw [grown.mem_list_iff, isLive_concat, List.mem_append, h.mem_list_iff, List.mem_singleton]
    constructor
    · rintro (⟨live, -⟩ | ⟨reads, call, number⟩)
      · exact .inl live
      · cases s
        simp_all
    · rintro (live | rfl)
      · exact .inl ⟨live, nofun⟩
      · exact .inr ⟨read, rfl, rfl⟩

end Keeps

/-- What a catalog answers, told by the calls that were made on it. -/
structure Answers (g : Grammar) (calls : List (Call ι)) (c : Catalog ι) : Prop where
  /-- A registration appends a segment, numbered by the registrations before. -/
  register : ∀ id name document a, g.read .installation document = .ok a → id ∉ drawn g calls →
    (c.register id name document).1 = .ok id ∧
      (c.register id name document).2.list =
        c.list ++ [⟨id, name, document, a, (drawn g calls).length⟩]
  /-- What was registered is there until it is removed. -/
  get_registered : ∀ before id name document since a,
    calls = before ++ .register id name document :: since →
      g.read .installation document = .ok a →
        (.remove id ∉ since →
          c.get? id = some ⟨id, name, document, a, (drawn g before).length⟩) ∧
        (.remove id ∈ since → c.get? id = none)
  /-- Nothing else is there. -/
  get : ∀ id s, c.get? id = some s ↔ s.id = id ∧ IsLive g calls s
  /-- A segment is taken out once. -/
  remove : ∀ id, (c.remove id).1 = c.get? id ∧ ((c.remove id).2.remove id).1 = none
  mem_list : ∀ s, s ∈ c.list ↔ IsLive g calls s
  pairwise_list : c.list.Pairwise (·.sequence < ·.sequence)
  size : c.size = c.list.length
  isEmpty : c.isEmpty = c.list.isEmpty
  matching : ∀ p clock, c.matching p clock =
    (c.list.zipIdx.filter fun (s, reading) => g.describes s.document p (clock reading)).map
      (·.1.id)

/-- After any calls a catalog is the list of the segments registered and not removed since, and
calls with documents that are not read might as well not have been made. -/
theorem answers_after (distinct : (drawn g calls).Nodup) :
    Answers g calls (after g calls) ∧
      ∀ id name document e, g.read .installation document = .error e →
        ((after g calls).register id name document).1 = .error e ∧
          ∀ later, after g (calls ++ .register id name document :: later) =
            after g (calls ++ later) := by
  have kept := keeps_after distinct
  refine ⟨?_, fun id name document e read => ?_⟩
  · exact {
      register := fun id name document a read fresh =>
        ⟨by rw [register_of_ok (by rw [kept.grammar, read])], kept.list_register read fresh⟩
      get_registered := fun _ _ _ _ _ _ split read => kept.get_of_register distinct split read
      get := kept.get
      remove := fun id => ⟨rfl, by simp [Catalog.remove, get?]⟩
      mem_list := fun _ => kept.mem_list_iff
      pairwise_list := kept.pairwise_list
      size := size_eq_length
      isEmpty := isEmpty_eq
      matching := kept.matching_eq }
  · have refused : (after g calls).register id name document = (.error e, after g calls) :=
      register_of_error (by rw [kept.grammar, read])
    refine ⟨by rw [refused], fun later => ?_⟩
    have same : Call.next (after g calls) (.register id name document) = after g calls := by
      rw [Call.next, refused]
    simp only [after, List.foldl_append, List.foldl_cons] at same ⊢
    rw [same]

end State

def frenchDocument : Json :=
  .object [(".lang", .object [("eq", .string "fr")])]

/-- Not a segment: the installation itself is not a value. -/
def brokenDocument : Json :=
  .object [("eq", .string "fr")]

def french : Criterion :=
  .equals ((Context.root .installation).child (.field (.root .installation) ["lang"]))
    (.string "fr")

/-- Everyone comes and goes, a document is refused, and the French stay. -/
def frenchCalls : List (Call Nat) :=
  [.register 7 "everyone" (.object []), .register 8 "broken" brokenDocument,
    .register 8 "french" frenchDocument, .remove 7, .list]

theorem answers_after_french :
    (drawn .strict frenchCalls).Nodup ∧ Answers .strict frenchCalls (after .strict frenchCalls) ∧
      (after .strict frenchCalls).get? 7 = none ∧
      (after .strict frenchCalls).get? 8 = some ⟨8, "french", frenchDocument, french, 1⟩ ∧
      ((after .strict frenchCalls).register 9 "broken" brokenDocument).1 =
        fault (.needsField "eq" (.root .installation)) := by
  have everyone : Grammar.strict.read .installation (.object []) =
      .ok (.matchAll (.root .installation)) := by cbv
  have broken : Grammar.strict.read .installation brokenDocument =
      fault (.needsField "eq" (.root .installation)) := by cbv
  have read : Grammar.strict.read .installation frenchDocument = .ok french := by cbv
  have distinct : (drawn .strict frenchCalls).Nodup := by
    simp [drawn, frenchCalls, List.filterMap_cons, Call.draws?, everyone, broken, fault, read]
  obtain ⟨answers, refused⟩ := answers_after distinct
  refine ⟨distinct, answers, ?_, ?_, (refused 9 "broken" brokenDocument _ broken).1⟩
  · exact (answers.get_registered [] 7 _ _ _ _ rfl everyone).2 (by simp)
  · refine ((answers.get_registered [_, _] 8 _ _ _ _ rfl read).1 (by simp)).trans ?_
    simp [drawn, Call.draws?, everyone, broken, fault]

end Catalog

end Audience
