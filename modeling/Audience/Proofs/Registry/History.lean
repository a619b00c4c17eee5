import Mathlib.Data.List.Nodup
import Audience.Registry

/-! # Histories of registries

What a registry answers is told by the registrations that it accepted: of each key the first
exact one and all the dynamic ones. Rules that come later are asked last, so that they answer
only for what was declined before.
-/

namespace Audience

/-- Whether an outcome ends the search for a rule: it is a result or an error. -/
def Outcome.isDecided {α : Type} : Outcome (Option α) → Bool
  | .ok none => false
  | _ => true

theorem Outcome.isDecided_map_some {α : Type} (o : Outcome α) : (some <$> o).isDecided = true := by
  cases o <;> rfl

theorem Rule.first_eq_find {α : Type} (rules : List (Rule α)) (c : Context) (key : String)
    (value : Json) (scope : Scope (sizeOf value)) :
    Rule.first rules c key value scope =
      ((rules.map fun rule => rule c key value scope).find? Outcome.isDecided).getD (.ok none) := by
  induction rules with
  | nil => rfl
  | cons rule rest ih =>
    rw [Rule.first, List.map_cons, List.find?_cons]
    rcases h : rule c key value scope with e | _ | a
    · rfl
    · exact ih
    · rfl

theorem Rule.first_append_of_decided {α : Type} {rules : List (Rule α)} {c : Context}
    {key : String} {value : Json} {scope : Scope (sizeOf value)}
    (h : (Rule.first rules c key value scope).isDecided = true) (more : List (Rule α)) :
    Rule.first (rules ++ more) c key value scope = Rule.first rules c key value scope := by
  rw [first_eq_find] at h
  rw [first_eq_find, first_eq_find, List.map_append, List.find?_append]
  cases found : (rules.map fun rule => rule c key value scope).find? Outcome.isDecided with
  | none => simp [found, Outcome.isDecided] at h
  | some o => rfl

namespace Registry

/-- A call that adds a rule. -/
inductive Registration (α : Type) where
  | exact (key : String) (rule : Rule α)
  | dynamic (rule : Rule α)

variable {α : Type}

namespace Registration

def run (r : Registry α) : Registration α → Outcome Unit × Registry α
  | .exact key rule => r.addExact key rule
  | .dynamic rule => (.ok (), r.addDynamic rule)

def asExact? : Registration α → Option (String × Rule α)
  | .exact key rule => some (key, rule)
  | .dynamic _ => none

def asDynamic? : Registration α → Option (Rule α)
  | .exact _ _ => none
  | .dynamic rule => some rule

def for? (key : String) (call : Registration α) : Option (Rule α) :=
  call.asExact?.bind fun entry => if entry.1 = key then some entry.2 else none

theorem length_eq (calls : List (Registration α)) :
    (calls.filterMap asExact?).length + (calls.filterMap asDynamic?).length = calls.length := by
  induction calls with
  | nil => rfl
  | cons call rest ih =>
    cases call <;> simp only [List.filterMap_cons, asExact?, asDynamic?, List.length_cons] <;> omega

end Registration

def after (r : Registry α) (calls : List (Registration α)) : Registry α :=
  calls.foldl (fun r call => (call.run r).2) r

/-- The registrations that succeed. -/
def accepted (r : Registry α) : List (Registration α) → List (Registration α)
  | [] => []
  | call :: rest =>
    match call.run r with
    | (.ok (), s) => call :: accepted s rest
    | (.error _, s) => accepted s rest

theorem addExact_of_hasExact {r : Registry α} {key : String} (rule : Rule α)
    (h : r.hasExact key = true) : r.addExact key rule = (.error (r.conflict key), r) := by
  rw [addExact, if_pos h]

theorem addExact_of_not_hasExact {r : Registry α} {key : String} (rule : Rule α)
    (h : r.hasExact key = false) :
    r.addExact key rule = (.ok (), { r with exact := r.exact ++ [(key, rule)] }) := by
  rw [addExact, if_neg (by simp [h])]

theorem after_eq (r : Registry α) (calls : List (Registration α)) :
    after r calls =
      { exact := r.exact ++ (accepted r calls).filterMap Registration.asExact?
        dynamic := r.dynamic ++ (accepted r calls).filterMap Registration.asDynamic?
        conflict := r.conflict } := by
  induction calls generalizing r with
  | nil => simp [after, accepted]
  | cons call rest ih =>
    rw [after, List.foldl_cons]
    refine (ih _).trans ?_
    cases call with
    | dynamic rule =>
      simp [accepted, Registration.run, addDynamic, List.filterMap_cons, Registration.asExact?,
        Registration.asDynamic?]
    | exact key rule =>
      cases h : r.hasExact key with
      | true => simp [accepted, Registration.run, addExact_of_hasExact rule h]
      | false =>
        simp [accepted, Registration.run, addExact_of_not_hasExact rule h, List.filterMap_cons,
          Registration.asExact?, Registration.asDynamic?]

theorem hasExact_iff {r : Registry α} {key : String} :
    r.hasExact key = true ↔ key ∈ r.exact.map Prod.fst := by
  rw [hasExact, Option.isSome_iff_ne_none, ne_eq, List.lookup_eq_none_iff]
  simp only [List.mem_map, bne_iff_ne, ne_eq, not_forall, not_not]
  constructor <;> rintro ⟨entry, hentry, rfl⟩ <;> exact ⟨entry, hentry, rfl⟩

theorem nodup_after {r : Registry α} (h : (r.exact.map Prod.fst).Nodup)
    (calls : List (Registration α)) : ((after r calls).exact.map Prod.fst).Nodup := by
  induction calls generalizing r with
  | nil => exact h
  | cons call rest ih =>
    refine ih ?_
    cases call with
    | dynamic => exact h
    | exact key rule =>
      cases taken : r.hasExact key with
      | true => simpa only [Registration.run, addExact_of_hasExact rule taken] using h
      | false =>
        have new : key ∉ r.exact.map Prod.fst := by simp [← hasExact_iff, taken]
        simp only [Registration.run, addExact_of_not_hasExact rule taken, List.map_append,
          List.map_cons, List.map_nil]
        refine List.nodup_append.mpr ⟨h, List.nodup_singleton key, ?_⟩
        rintro k hk _ hl rfl
        exact new (List.mem_singleton.mp hl ▸ hk)

/-- Without a new exact rule for a key, only dynamic rules come after those asked before. -/
theorem rulesFor_after {s : Registry α} {more : List (Registration α)} {key : String}
    (h : ∀ rule, .exact key rule ∉ accepted s more) : (after s more).rulesFor key =
      s.rulesFor key ++ (accepted s more).filterMap Registration.asDynamic? := by
  have none : ((accepted s more).filterMap Registration.asExact?).lookup key = none := by
    refine List.lookup_eq_none_iff.mpr fun entry hentry => ?_
    obtain ⟨call, hcall, he⟩ := List.mem_filterMap.mp hentry
    cases call <;> cases he
    refine bne_iff_ne.mpr ?_
    rintro rfl
    exact h _ hcall
  simp [rulesFor, Registry.after_eq, List.lookup_append, none]

theorem exact_notMem_accepted {r : Registry α} {key : String} (h : r.hasExact key = true)
    (calls : List (Registration α)) (rule : Rule α) : .exact key rule ∉ accepted r calls := by
  induction calls generalizing r with
  | nil => exact List.not_mem_nil
  | cons call rest ih =>
    cases call with
    | dynamic other =>
      rw [accepted, Registration.run, List.mem_cons, not_or]
      exact ⟨nofun, ih h⟩
    | exact key' other =>
      cases taken : r.hasExact key' with
      | true =>
        simp only [accepted, Registration.run, addExact_of_hasExact other taken]
        exact ih h
      | false =>
        simp only [accepted, Registration.run, addExact_of_not_hasExact other taken,
          List.mem_cons, not_or]
        refine ⟨?_, ih ?_⟩
        · rintro ⟨⟩
          exact Bool.noConfusion (h.symm.trans taken)
        · rw [hasExact_iff] at h ⊢
          simp [h]

/-- What is decided stays so, unless an exact rule for its key is added. -/
theorem read_after {s : Registry α} {more : List (Registration α)} {c : Context} {key : String}
    {value : Json} {scope : Scope (sizeOf value)}
    (decided : (s.read c key value scope).isDecided = true)
    (free : ∀ rule, .exact key rule ∉ accepted s more) :
    (after s more).read c key value scope = s.read c key value scope := by
  rw [Registry.read, rulesFor_after free]
  exact Rule.first_append_of_decided decided _

theorem toList_lookup {exact : List (String × Rule α)} (h : (exact.map Prod.fst).Nodup)
    (key : String) : (exact.lookup key).toList =
      exact.filterMap fun entry => if entry.1 = key then some entry.2 else none := by
  induction exact with
  | nil => rfl
  | cons entry rest ih =>
    obtain ⟨k, rule⟩ := entry
    rw [List.map_cons, List.nodup_cons] at h
    by_cases same : k = key
    · subst same
      have others : rest.filterMap (fun entry => if entry.1 = k then some entry.2 else none) =
          [] := by
        refine List.filterMap_eq_nil_iff.mpr fun entry hentry => if_neg fun same => h.1 ?_
        exact List.mem_map.mpr ⟨entry, hentry, same⟩
      simp [others]
    · have other : (key == k) = false := beq_eq_false_iff_ne.mpr (Ne.symm same)
      simp [List.lookup_cons, other, same, ih h.2]

/-- The rules that some accepted registrations have asked for a key, in order. -/
def asked (calls : List (Registration α)) (key : String) : List (Rule α) :=
  calls.filterMap (·.for? key) ++ calls.filterMap Registration.asDynamic?

/-- A registry of one of the two kinds without rules, with the conflicts that it reports. -/
inductive Fresh : {α : Type} → Registry α → (String → Error) → Prop where
  | criteria : Fresh .emptyCriteria .criterionRuleExists
  | literals : Fresh .emptyLiterals .literalRuleExists

namespace Fresh

variable {r : Registry α} {conflict : String → Error} (fresh : Fresh r conflict)
  (calls : List (Registration α))
include fresh

theorem after_eq : after r calls =
    { exact := (accepted r calls).filterMap Registration.asExact?
      dynamic := (accepted r calls).filterMap Registration.asDynamic?
      conflict } := by
  cases fresh <;> exact Registry.after_eq _ calls

theorem nodup_after : ((after r calls).exact.map Prod.fst).Nodup := by
  refine Registry.nodup_after ?_ calls
  cases fresh <;> exact List.nodup_nil

theorem hasExact_iff (key : String) : (after r calls).hasExact key = true ↔
    ∃ first, .exact key first ∈ accepted r calls := by
  rw [Registry.hasExact_iff, fresh.after_eq]
  simp only [List.mem_map, List.mem_filterMap]
  constructor
  · rintro ⟨entry, ⟨call, hcall, he⟩, rfl⟩
    cases call <;> cases he
    exact ⟨_, hcall⟩
  · rintro ⟨first, h⟩
    exact ⟨(key, first), ⟨_, h, rfl⟩, rfl⟩

theorem exact_eq (key : String) : ((after r calls).exact.lookup key).toList =
    (accepted r calls).filterMap (·.for? key) := by
  rw [toList_lookup (fresh.nodup_after calls), fresh.after_eq, List.filterMap_filterMap]
  rfl

theorem rulesFor_eq (key : String) :
    (after r calls).rulesFor key = asked (accepted r calls) key := by
  rw [rulesFor, fresh.exact_eq, fresh.after_eq]
  rfl

theorem size_eq : (after r calls).size = (accepted r calls).length := by
  rw [size, fresh.after_eq, Registration.length_eq]

end Fresh

/-- What a registry answers, told by the registrations that were made on it. -/
structure Follows (r : Registry α) (conflict : String → Error) (calls : List (Registration α))
    (s : Registry α) : Prop where
  /-- An exact rule is refused where one was accepted before. -/
  refuses : ∀ key rule, (∃ e, (s.addExact key rule).1 = .error e) ↔
    ∃ first, .exact key first ∈ accepted r calls
  /-- A refusal names the key and changes nothing. -/
  refusal : ∀ key rule e, (s.addExact key rule).1 = .error e →
    e = conflict key ∧ (s.addExact key rule).2 = s
  size : s.size = (accepted r calls).length
  /-- At most one exact rule is asked for a key. -/
  exact_le_one : ∀ key, ((accepted r calls).filterMap (·.for? key)).length ≤ 1
  /-- The first rule that does not decline decides. -/
  read : ∀ c key value scope, s.read c key value scope =
    (((asked (accepted r calls) key).map fun rule => rule c key value scope).find?
      Outcome.isDecided).getD (.ok none)
  /-- What is decided stays so, unless an exact rule for its key is added. -/
  decided : ∀ more c key value scope, (s.read c key value scope).isDecided = true →
    (∀ rule, .exact key rule ∉ accepted s more) →
      (after s more).read c key value scope = s.read c key value scope

/-- After any registrations on a fresh registry, it refuses what was claimed before, counts what it
accepted, and asks what it accepted in order. -/
theorem follows_after {r : Registry α} {conflict : String → Error} (fresh : Fresh r conflict)
    (calls : List (Registration α)) : Follows r conflict calls (after r calls) where
  refuses key rule := by
    rw [← fresh.hasExact_iff]
    cases taken : (after r calls).hasExact key with
    | true => simp [addExact_of_hasExact rule taken]
    | false => simp [addExact_of_not_hasExact rule taken]
  refusal key rule e h := by
    cases taken : (after r calls).hasExact key with
    | true =>
      rw [addExact_of_hasExact rule taken] at h ⊢
      cases h
      exact ⟨by rw [fresh.after_eq], rfl⟩
    | false => simp [addExact_of_not_hasExact rule taken] at h
  size := fresh.size_eq calls
  exact_le_one key := by
    rw [← fresh.exact_eq]
    cases (after r calls).exact.lookup key <;> simp
  read c key value scope := by
    rw [Registry.read, fresh.rulesFor_eq, Rule.first_eq_find]
  decided _ _ _ _ _ h free := read_after h free

def echoRule : Rule Literal := fun _ key _ _ => .ok (some (.string key))

def decliningRule : Rule Literal := fun _ _ _ _ => .ok none

/-- The exact rule of a key declines, and comes second with another one. -/
def echoCalls : List (Registration Literal) :=
  [.exact "plan" decliningRule, .dynamic echoRule, .exact "plan" echoRule]

theorem follows_after_echo :
    Fresh .emptyLiterals .literalRuleExists ∧
      Follows .emptyLiterals .literalRuleExists echoCalls (after .emptyLiterals echoCalls) ∧
      (after .emptyLiterals echoCalls).size = 2 ∧
      ((after .emptyLiterals echoCalls).addExact "plan" echoRule).1 =
        .error (.literalRuleExists "plan") ∧
      ∀ c scope, (after .emptyLiterals echoCalls).read c "plan" .null scope =
        .ok (some (.string "plan")) := by
  have follows := follows_after .literals echoCalls
  have accepts : accepted .emptyLiterals echoCalls =
      [.exact "plan" decliningRule, .dynamic echoRule] := rfl
  refine ⟨.literals, follows, follows.size.trans (by rw [accepts]; rfl), ?_, fun c scope => ?_⟩
  · obtain ⟨e, he⟩ := (follows.refuses "plan" echoRule).mpr ⟨decliningRule, by simp [accepts]⟩
    rw [he, (follows.refusal _ _ e he).1]
  · rw [follows.read, accepts]
    rfl

end Registry

end Audience
