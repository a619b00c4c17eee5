import Audience.Proofs.Reading.Keywords
import Audience.Proofs.Reading.Literals

/-! # Leniency

Lenient reading keeps what no rule knows. A tree that it gives can be searched for these
unknowns in the order they are read, and reading the same document with less leniency stops at
the first of them that is refused. Where lenient reading finds a fault, every reading fails.
-/

namespace Audience

/-- A key that no rule knows, with its value. -/
inductive Unknown where
  | criterion (key : String) (value : Json)
  | literal (key : String) (value : Json)

namespace Unknown

def error : Unknown → Error
  | criterion key value => .unknownCriterion key value
  | literal key value => .unknownLiteral key value

def isRefused (kc kl : Bool) : Unknown → Bool
  | criterion _ _ => !kc
  | literal _ _ => !kl

end Unknown

def Literal.unknowns : Literal → List Unknown
  | .unknown key value => [.literal key value]
  | _ => []

namespace Criterion

mutual

/-- The unknowns of a tree: children and literals from left to right, the location before the
date, and the date of presence before its length. -/
def unknowns : Criterion → List Unknown
  | .equals _ literal | .compares _ _ literal | .startsWith _ literal => literal.unknowns
  | .any _ literals | .all _ literals => literals.flatMap Literal.unknowns
  | .not _ child | .join _ child => unknowns child
  | .and _ children | .or _ children => unknownsOfAll children
  | .geo _ location date => unknownsIfGiven location ++ unknownsIfGiven date
  | .lastActivity _ comparison => unknownsIfGiven comparison
  | .presence _ _ since elapsed => unknownsIfGiven since ++ unknownsIfGiven elapsed
  | .unknown _ key value => [.criterion key value]
  | .matchAll _ | .inside _ _ | .subscription _ _ => []

def unknownsOfAll : List Criterion → List Unknown
  | [] => []
  | child :: rest => unknowns child ++ unknownsOfAll rest

def unknownsIfGiven : Option Criterion → List Unknown
  | none => []
  | some child => unknowns child

end

theorem unknownsOfAll_eq (as : List Criterion) : unknownsOfAll as = as.flatMap unknowns := by
  induction as with
  | nil => rfl
  | cons a as ih => simp [unknownsOfAll, ih]

end Criterion

/-- How an outcome under two flags follows the lenient one, given the unknowns of a result. -/
inductive Follows (kc kl : Bool) {α : Type} (us : α → List Unknown) :
    Outcome α → Outcome α → Prop where
  | kept {a} (h : (us a).find? (·.isRefused kc kl) = none) : Follows kc kl us (.ok a) (.ok a)
  | refused {a u} (h : (us a).find? (·.isRefused kc kl) = some u) :
      Follows kc kl us (.ok a) (.error u.error)
  | failed {f e} : Follows kc kl us (.error (.badInput f)) (.error e)

namespace Follows

variable {kc kl : Bool} {α β γ : Type} {us : α → List Unknown} {vs : β → List Unknown}
  {ws : γ → List Unknown} {lenient outcome : Outcome α} {lenient' outcome' : Outcome β}

theorem ok {a : α} (h : us a = []) : Follows kc kl us (.ok a) (.ok a) :=
  .kept (by simp [h])

theorem fault (f : Fault) : Follows kc kl us (Audience.fault f) (Audience.fault f) :=
  .failed

theorem map {f : α → β} (h : Follows kc kl us lenient outcome) (hf : ∀ a, vs (f a) = us a) :
    Follows kc kl vs (f <$> lenient) (f <$> outcome) := by
  cases h with
  | kept h => exact .kept (by rw [hf, h])
  | refused h => exact .refused (by rw [hf, h])
  | failed => exact .failed

theorem guard {step : Outcome α} {k k' : α → Outcome β}
    (h : Follows kc kl (fun _ => []) step step)
    (hk : ∀ a, step = .ok a → Follows kc kl vs (k a) (k' a)) :
    Follows kc kl vs (step >>= k) (step >>= k') := by
  cases step with
  | ok a => exact hk a rfl
  | error e =>
    cases h
    exact .failed

theorem check {k : α → Outcome β} (h : Follows kc kl us lenient outcome)
    (hk : ∀ a, Follows kc kl (fun _ => []) (k a) (k a)) (hu : ∀ a b, k a = .ok b → vs b = us a) :
    Follows kc kl vs (lenient >>= k) (outcome >>= k) := by
  cases h with
  | failed => exact .failed
  | @kept a h =>
    have hka := hk a
    simp only [Outcome.ok_bind]
    cases hb : k a with
    | ok b => exact .kept (by rw [hu a b hb, h])
    | error e =>
      rw [hb] at hka
      cases hka
      exact .failed
  | @refused a u h =>
    have hka := hk a
    simp only [Outcome.ok_bind, Outcome.error_bind]
    cases hb : k a with
    | ok b => exact .refused (by rw [hu a b hb, h])
    | error e =>
      rw [hb] at hka
      cases hka
      exact .failed

theorem map₂ {f : α → β → γ} (h : Follows kc kl us lenient outcome)
    (h' : Follows kc kl vs lenient' outcome') (hf : ∀ a b, ws (f a b) = us a ++ vs b) :
    Follows kc kl ws (do let a ← lenient; let b ← lenient'; return f a b)
      (do let a ← outcome; let b ← outcome'; return f a b) := by
  cases h with
  | failed => exact .failed
  | kept h =>
    cases h' with
    | failed => exact .failed
    | kept h' => exact .kept (by simp [hf, List.find?_append, h, h'])
    | refused h' => exact .refused (by simp [hf, List.find?_append, h, h'])
  | refused h =>
    cases h' with
    | failed => exact .failed
    | kept h' | refused h' => exact .refused (by simp [hf, List.find?_append, h])

theorem mapM {ι : Type} {f f' : ι → Outcome α} {is : List ι}
    (h : ∀ i ∈ is, Follows kc kl us (f i) (f' i)) :
    Follows kc kl (fun as => as.flatMap us) (is.mapM f) (is.mapM f') := by
  induction is with
  | nil => exact .ok rfl
  | cons i is ih =>
    rw [List.forall_mem_cons] at h
    simp only [List.mapM_cons]
    exact h.1.map₂ (ih h.2) fun a as => List.flatMap_cons

end Follows

/-- A step that is the same under all flags, where it gives nothing unknown. -/
abbrev Known (kc kl : Bool) {α : Type} (step : Outcome α) : Prop :=
  Follows kc kl (fun _ => []) step step

namespace Known

variable {kc kl : Bool} {α β : Type} {step : Outcome α}

theorem map {f : α → β} {vs : β → List Unknown} (h : Known kc kl step)
    (hf : ∀ a, vs (f a) = []) : Follows kc kl vs (f <$> step) (f <$> step) :=
  Follows.map h hf

theorem mapM {ι : Type} {f : ι → Outcome α} {is : List ι} (h : ∀ i ∈ is, Known kc kl (f i)) :
    Known kc kl (is.mapM f) := by
  induction is with
  | nil => exact .ok rfl
  | cons i is ih =>
    rw [List.forall_mem_cons] at h
    simp only [List.mapM_cons]
    exact h.1.map₂ (ih h.2) fun _ _ => rfl

end Known

namespace Grammar

variable {kc kl : Bool}

theorem requireField_known (c : Context) (key : String) : Known kc kl (requireField c key) := by
  unfold requireField
  split
  · exact .fault _
  · exact .ok rfl

theorem requireInstallation_known (c : Context) (key : String) :
    Known kc kl (requireInstallation c key) := by
  unfold requireInstallation
  split
  · exact .ok rfl
  · exact .fault _

theorem writtenDuration_known (text : String) : Known kc kl (writtenDuration text) := by
  unfold writtenDuration
  split
  · exact .ok rfl
  · exact .fault _

theorem spokenDuration_known (text : String) : Known kc kl (spokenDuration text) := by
  unfold spokenDuration
  split
  · exact .fault _
  · split
    · exact .ok rfl
    · exact .fault _

theorem readDate_known (key : String) (value : Json) :
    Follows kc kl Literal.unknowns (readDate key value) (readDate key value) := by
  unfold readDate
  split
  · exact .ok rfl
  · split
    · exact (writtenDuration_known _).map fun _ => rfl
    · split
      · exact .ok rfl
      · exact .fault _
  · exact .fault _

theorem readDuration_known (key : String) (value : Json) :
    Follows kc kl Literal.unknowns (readDuration key value) (readDuration key value) := by
  unfold readDuration
  split
  · exact .ok rfl
  · split
    · exact (writtenDuration_known _).map fun _ => rfl
    · exact (spokenDuration_known _).map fun _ => rfl
  · exact .fault _

theorem geohash_known (text : String) : Known kc kl (geohash text) := by
  unfold geohash
  split
  · exact .ok rfl
  · exact .fault _

theorem numeric_known (key : String) (members : Members) (field : String) :
    Known kc kl (numeric key members field) := by
  unfold numeric
  split
  · exact .ok rfl
  · exact .fault _

theorem readPoint_known (value : Json) : Known kc kl (readPoint value) := by
  unfold readPoint
  split
  · exact (geohash_known _).map fun _ => rfl
  · refine .guard (numeric_known _ _ _) fun lat _ => ?_
    refine .guard (numeric_known _ _ _) fun lon _ => ?_
    exact .ok rfl
  · exact .fault _

theorem readSides_known (key : String) (members : Members) :
    Known kc kl (readSides key members) := by
  unfold readSides
  split
  · refine .guard (readPoint_known _) fun topLeft _ => ?_
    refine .guard (readPoint_known _) fun bottomRight _ => ?_
    exact .ok rfl
  · split
    · refine .guard (readPoint_known _) fun topRight _ => ?_
      refine .guard (readPoint_known _) fun bottomLeft _ => ?_
      exact .ok rfl
    · split
      · refine .guard (numeric_known _ _ _) fun top _ => ?_
        refine .guard (numeric_known _ _ _) fun right _ => ?_
        refine .guard (numeric_known _ _ _) fun bottom _ => ?_
        refine .guard (numeric_known _ _ _) fun left _ => ?_
        exact .ok rfl
      · exact .fault _

theorem readBox_known (key : String) (value : Json) : Known kc kl (readBox key value) := by
  unfold readBox
  split
  · exact (geohash_known _).map fun _ => rfl
  · exact readSides_known _ _
  · exact .fault _

theorem readCircle_known (key : String) (value : Json) : Known kc kl (readCircle key value) := by
  unfold readCircle
  split
  · refine .guard (numeric_known _ _ _) fun radius _ => ?_
    split
    · refine .guard (readPoint_known _) fun center _ => ?_
      exact .ok rfl
    · exact .fault _
  · exact .fault _

theorem readRing_known (key : String) (value : Json) : Known kc kl (readRing key value) := by
  unfold readRing
  split
  · split
    · exact .fault _
    · exact .mapM fun point _ => readPoint_known point
  · exact .fault _

theorem readWord_known (value : Json) (w : LiteralWord) :
    Follows kc kl Literal.unknowns (w.read value) (w.read value) := by
  cases w with
  | date => exact readDate_known _ _
  | duration => exact readDuration_known _ _
  | point => exact (readPoint_known _).map fun _ => rfl
  | box => exact (readBox_known _ _).map fun _ => rfl
  | circle => exact (readCircle_known _ _).map fun _ => rfl
  | polygon => exact (readRing_known _ _).map fun _ => rfl

theorem readLiteral_follows (c : Context) (value : Json) :
    Follows kc kl Literal.unknowns (lenient.readLiteral c value)
      ((builtin kc kl).readLiteral c value) := by
  unfold lenient
  match value with
  | .null => simpa using Follows.ok rfl
  | .bool b => simpa using Follows.ok rfl
  | .number n => simpa using Follows.ok rfl
  | .string s => simpa using Follows.ok rfl
  | .array items => simpa using Follows.fault _
  | .object [(key, inner)] =>
    cases wordForm key with
    | empty => simpa using Follows.fault _
    | word w => simpa using readWord_known inner w
    | unknown hk =>
      simp only [readLiteral_unknown _ _ hk, if_pos]
      cases kl with
      | false => exact .refused (u := .literal key inner) rfl
      | true => exact .kept rfl
  | .object [] =>
    rw [readLiteral_object _ (by simp), readLiteral_object _ (by simp)]
    exact .fault _
  | .object (first :: second :: rest) =>
    rw [readLiteral_object _ (by simp), readLiteral_object _ (by simp)]
    exact .fault _

/-- Reading an object of criteria follows lenient reading of it, in every context. -/
def Respects (kc kl : Bool) (members : Members) : Prop :=
  ∀ c, Follows kc kl Criterion.unknowns (lenient.readMembers c members)
    ((builtin kc kl).readMembers c members)

section Value

variable {c : Context} {key : String} {value : Json}

theorem readLiterals_follows :
    Follows kc kl (fun ls => ls.flatMap Literal.unknowns) (lenient.readLiterals c key value)
      ((builtin kc kl).readLiterals c key value) := by
  cases value with
  | array items => exact .mapM fun item _ => readLiteral_follows c item
  | _ => exact .fault _

theorem readAgainst_follows {build : Literal → Outcome Criterion}
    (hb : ∀ l, Known kc kl (build l))
    (hu : ∀ l a, build l = .ok a → a.unknowns = l.unknowns) :
    Follows kc kl Criterion.unknowns (lenient.readAgainst c key value build)
      ((builtin kc kl).readAgainst c key value build) :=
  .guard (requireField_known c key) fun _ _ => (readLiteral_follows c value).check hb hu

theorem readInner_known : Known kc kl (readInner key value) := by
  cases value with
  | object members => exact .ok rfl
  | _ => exact .fault _

theorem readFlag_known (members : Members) : Known kc kl (readFlag key members) := by
  unfold readFlag
  split
  · exact .ok rfl
  · exact .fault _

variable (ih : ∀ inner : Members, sizeOf inner < sizeOf value → Respects kc kl inner)
include ih

theorem readObject_follows :
    Follows kc kl Criterion.unknowns (lenient.readObject c key value)
      ((builtin kc kl).readObject c key value) := by
  cases value with
  | object members => exact ih members (by simp) c
  | _ => exact .fault _

theorem readObjects_follows :
    Follows kc kl Criterion.unknownsOfAll (lenient.readObjects c key value)
      ((builtin kc kl).readObjects c key value) := by
  rw [funext Criterion.unknownsOfAll_eq]
  cases value with
  | array items =>
    refine .mapM fun item hitem => ?_
    exact readObject_follows fun inner hinner =>
      ih inner (Nat.lt_trans hinner (Json.sizeOf_of_mem_array hitem))
  | _ => exact .fault _

end Value

theorem readPart_follows {c : Context} {s : Source} {members : Members} {key : String}
    (ih : ∀ inner : Members, sizeOf inner < sizeOf (Json.object members) → Respects kc kl inner) :
    Follows kc kl Criterion.unknownsIfGiven (lenient.readPart c s members key)
      ((builtin kc kl).readPart c s members key) := by
  unfold readPart
  split
  · exact .ok rfl
  · rename_i value hvalue
    have inside := @readObject_follows kc kl (c.child s) key value fun inner hinner =>
      ih inner (Nat.lt_trans hinner (Json.sizeOf_of_get? hvalue))
    exact inside.map fun _ => rfl

theorem readRecord_follows {c : Context} {target : Root} {value : Json}
    (ih : ∀ inner : Members, sizeOf inner < sizeOf value → Respects kc kl inner) :
    Follows kc kl Criterion.unknowns ((Keyword.record target).read lenient c value)
      ((Keyword.record target).read (builtin kc kl) c value) := by
  simp only [Keyword.read]
  split
  · exact readObject_follows ih
  · split <;> exact (readObject_follows ih).map fun _ => rfl

theorem readSubscription_known (text : String) : Known kc kl (readSubscription text) := by
  unfold readSubscription
  split
  · exact .ok rfl
  · exact .fault _

theorem readKeyword_follows (c : Context) {value : Json} (k : Keyword)
    (ih : ∀ inner : Members, sizeOf inner < sizeOf value → Respects kc kl inner) :
    Follows kc kl Criterion.unknowns (k.read lenient c value)
      (k.read (builtin kc kl) c value) := by
  cases k with
  | and | or => exact (readObjects_follows ih).map fun _ => rfl
  | not => exact (readObject_follows ih).map fun _ => rfl
  | equals | compares comparator =>
    refine readAgainst_follows (fun _ => .ok rfl) fun l a ha => ?_
    cases ha
    rfl
  | startsWith | inside =>
    -- A literal that is kept as unknown is neither a text nor an area: lenient reading fails on
    -- it as well, if later than reading that refuses it.
    refine readAgainst_follows (fun l => ?_) fun l a ha => ?_
    · split
      · exact .ok rfl
      · exact .fault _
    · cases l <;> cases ha
      rfl
  | any | all =>
    refine .guard (requireField_known _ _) fun _ _ => ?_
    exact readLiterals_follows.map fun literals => rfl
  | geo =>
    refine .guard (requireInstallation_known _ _) fun _ _ => ?_
    refine .guard readInner_known fun members hm => ?_
    cases value <;> cases hm
    exact (readPart_follows ih).map₂ (readPart_follows ih) fun location date => rfl
  | lastActivity =>
    refine .guard (requireInstallation_known _ _) fun _ _ => ?_
    exact (readObject_follows ih).map fun comparison => rfl
  | presence =>
    refine .guard (requireInstallation_known _ _) fun _ _ => ?_
    refine .guard readInner_known fun members hm => ?_
    refine .guard (readFlag_known _) fun present _ => ?_
    cases value <;> cases hm
    exact (readPart_follows ih).map₂ (readPart_follows ih) fun since elapsed => rfl
  | subscription =>
    refine .guard (requireInstallation_known _ _) fun _ _ => ?_
    split
    · exact (readSubscription_known _).map fun _ => rfl
    · exact .fault _
  | record target => exact readRecord_follows ih

theorem readMember_follows (c : Context) (key : String) {value : Json}
    (ih : ∀ inner : Members, sizeOf inner < sizeOf value → Respects kc kl inner) :
    Follows kc kl Criterion.unknowns (lenient.readMember c key value)
      ((builtin kc kl).readMember c key value) := by
  unfold lenient
  cases keyForm key with
  | empty =>
    rw [readMember_empty, readMember_empty]
    exact .fault _
  | keyword k =>
    rw [readMember_name, readMember_name]
    exact readKeyword_follows c k ih
  | field path =>
    rw [readMember_field, readMember_field]
    exact readObject_follows ih
  | unknown hk =>
    rw [readMember_unknown _ _ hk, readMember_unknown _ _ hk, if_pos rfl]
    cases kc with
    | false => exact .refused (u := .criterion key value) rfl
    | true => exact .kept rfl

theorem readMembers_follows (members : Members) : Respects kc kl members := by
  induction members using Members.sizeInduction with
  | step members ih =>
    intro c
    match members with
    | [] =>
      rw [readMembers_nil, readMembers_nil]
      split
      · exact .ok rfl
      · exact .fault _
    | [entry] =>
      rw [readMembers_one, readMembers_one]
      exact readMember_follows c entry.1 (ih entry (by simp))
    | first :: second :: rest =>
      rw [readMembers_many, readMembers_many]
      refine Follows.map (.mapM fun entry hentry => readMember_follows c entry.1 (ih entry hentry))
        fun as => ?_
      rw [Criterion.unknowns, Criterion.unknownsOfAll_eq]

/-- Lenient reading gives a tree or finds a fault of the document. Under any flags, what it gives
is read alike where nothing unknown in it is refused; otherwise the first such unknown is the
error. Where it finds a fault there is an error too. -/
theorem read_leniency (kc kl : Bool) (r : Root) (document : Json) :
    match lenient.read r document with
    | .ok a =>
      (builtin kc kl).read r document =
        match a.unknowns.find? (·.isRefused kc kl) with
        | none => .ok a
        | some u => .error u.error
    | .error e => (∃ f, e = .badInput f) ∧ ∃ e', (builtin kc kl).read r document = .error e' := by
  have follows : Follows kc kl Criterion.unknowns (lenient.read r document)
      ((builtin kc kl).read r document) := by
    cases document with
    | object members => exact readMembers_follows members _
    | _ => exact .fault _
  revert follows
  generalize lenient.read r document = given
  generalize (builtin kc kl).read r document = outcome
  intro follows
  cases follows with
  | kept h => simp [h]
  | refused h => simp [h]
  | failed => simp

end Grammar
end Audience
