import Audience.Proofs.Reading.Keywords
import Audience.Proofs.Reading.Literals

/-! # What documents can write

The built-in rules put a criterion into a context by few moves: a field and a record of the same
kind only change the context, a record of another kind joins, and every other keyword builds on
what stands in its own context or in a part of it. Whatever is read arises by these moves, so
that a law of read criteria is an induction over them.
-/

namespace Audience

/-- The criteria that some document can write in a context. -/
inductive Written : Context → Criterion → Prop where
  | matchAll {c} (root : c.source.isRoot = true) : Written c (.matchAll c)
  | equals {c l} (field : c.source.isRoot = false) : Written c (.equals c l)
  | compares {c comparator l} (field : c.source.isRoot = false) :
      Written c (.compares c comparator l)
  | startsWith {c s} (field : c.source.isRoot = false) : Written c (.startsWith c (.string s))
  | inside {c area} (field : c.source.isRoot = false) : Written c (.inside c area)
  | any {c ls} (field : c.source.isRoot = false) : Written c (.any c ls)
  | all {c ls} (field : c.source.isRoot = false) : Written c (.all c ls)
  | not {c a} (h : Written c a) : Written c (.not c a)
  | and {c as} (h : ∀ a ∈ as, Written c a) : Written c (.and c as)
  | or {c as} (h : ∀ a ∈ as, Written c a) : Written c (.or c as)
  | geo {c location date} (installation : c.source = .root .installation)
      (hl : ∀ a ∈ location, Written (c.child (.geoLocation c.source)) a)
      (hd : ∀ a ∈ date, Written (c.child (.geoDate c.source)) a) :
      Written c (.geo c location date)
  | lastActivity {c a} (installation : c.source = .root .installation)
      (h : Written (c.child (.lastActivity c.source)) a) : Written c (.lastActivity c (some a))
  | presence {c present since elapsed} (installation : c.source = .root .installation)
      (hs : ∀ a ∈ since, Written (c.child (.sinceDate c.source present)) a)
      (he : ∀ a ∈ elapsed, Written (c.child (.elapsedTime c.source present)) a) :
      Written c (.presence c present since elapsed)
  | subscription {c status} (installation : c.source = .root .installation) :
      Written c (.subscription c status)
  | unknown {c key value} : Written c (.unknown c key value)
  | field {c path a} (ne : path ≠ []) (h : Written (c.child (c.source.project path)) a) :
      Written c a
  | stay {c a} (h : Written (c.child (.root c.source.record)) a) : Written c a
  | join {c target a} (ne : c.source.record ≠ target)
      (hub : c.source.record = .installation ∨ target = .installation)
      (h : Written (c.child (.root target)) a) : Written c (.join (c.child (.root target)) a)

def Criterion.children : Criterion → List Criterion
  | .not _ a | .join _ a => [a]
  | .and _ as | .or _ as => as
  | .geo _ location date => location.toList ++ date.toList
  | .lastActivity _ comparison => comparison.toList
  | .presence _ _ since elapsed => since.toList ++ elapsed.toList
  | _ => []

/-- The criteria right below a criterion, each with the context it was written in. -/
inductive Part : Criterion → Context → Criterion → Prop where
  | not {c a} : Part (.not c a) c a
  | and {c as a} (h : a ∈ as) : Part (.and c as) c a
  | or {c as a} (h : a ∈ as) : Part (.or c as) c a
  | location {c a date} : Part (.geo c (some a) date) (c.child (.geoLocation c.source)) a
  | date {c location a} : Part (.geo c location (some a)) (c.child (.geoDate c.source)) a
  | comparison {c a} : Part (.lastActivity c (some a)) (c.child (.lastActivity c.source)) a
  | since {c present a elapsed} :
      Part (.presence c present (some a) elapsed) (c.child (.sinceDate c.source present)) a
  | elapsed {c present since a} :
      Part (.presence c present since (some a)) (c.child (.elapsedTime c.source present)) a
  | join {c a} : Part (.join c a) c a

theorem exists_part {a b : Criterion} (h : b ∈ a.children) : ∃ c, Part a c b := by
  cases a with
  | not c a | join c a =>
    obtain rfl := List.mem_singleton.mp h
    constructor <;> constructor
  | and c as => exact ⟨c, .and h⟩
  | or c as => exact ⟨c, .or h⟩
  | geo c location date =>
    rcases List.mem_append.mp h with h | h <;> obtain rfl := Option.mem_toList.mp h
    · exact ⟨_, .location⟩
    · exact ⟨_, .date⟩
  | lastActivity c comparison =>
    obtain rfl := Option.mem_toList.mp h
    exact ⟨_, .comparison⟩
  | presence c present since elapsed =>
    rcases List.mem_append.mp h with h | h <;> obtain rfl := Option.mem_toList.mp h
    · exact ⟨_, .since⟩
    · exact ⟨_, .elapsed⟩
  | _ => cases h

theorem Written.part {c d : Context} {a b : Criterion} (h : Written c a) (hp : Part a d b) :
    Written d b := by
  induction h with
  | field _ _ ih | stay _ ih => exact ih hp
  | and h => cases hp with | and hb => exact h _ hb
  | or h => cases hp with | or hb => exact h _ hb
  | geo _ hl hd =>
    cases hp with
    | location => exact hl _ rfl
    | date => exact hd _ rfl
  | presence _ hs he =>
    cases hp with
    | since => exact hs _ rfl
    | elapsed => exact he _ rfl
  | not h | lastActivity _ h | join _ _ h => cases hp; exact h
  | _ => cases hp

def Criterion.isJoin : Criterion → Bool
  | .join _ _ => true
  | _ => false

/-- Only a join goes on to another record than that of the context it was written in. -/
theorem Written.record_context {c : Context} {a : Criterion} (h : Written c a)
    (stays : a.isJoin = false) : a.context.source.record = c.source.record := by
  induction h with
  | field _ _ ih => simpa [Context.child] using ih stays
  | stay _ ih => exact ih stays
  | join => cases stays
  | _ => rfl

theorem Part.record_context {a b : Criterion} {d : Context} (h : Part a d b) :
    d.source.record = a.context.source.record := by
  cases h <;> rfl

theorem Path.ofDotted_ne_nil (text : String) : Path.ofDotted text ≠ [] := by
  simp [Path.ofDotted, splitDots_ne_nil]

namespace Grammar

theorem isRoot_of_requireField {c : Context} {key : String} (h : requireField c key = .ok ()) :
    c.source.isRoot = false := by
  unfold requireField at h
  split at h
  · cases h
  next field => simpa using field

theorem source_of_requireInstallation {c : Context} {key : String}
    (h : requireInstallation c key = .ok ()) : c.source = .root .installation := by
  unfold requireInstallation at h
  split at h
  · assumption
  · cases h

variable {kc kl : Bool}

/-- Everything read from an object stands in its context. -/
def Writes (kc kl : Bool) (members : Members) : Prop :=
  ∀ c a, (builtin kc kl).readMembers c members = .ok a → Written c a

section Value

variable {c : Context} {key : String} {value : Json}
  (ih : ∀ inner : Members, sizeOf inner < sizeOf value → Writes kc kl inner)
include ih

theorem readObject_written {a : Criterion}
    (h : (builtin kc kl).readObject c key value = .ok a) : Written c a := by
  cases value with
  | object inner => exact ih inner (by simp) c a h
  | _ => cases h

theorem readObjects_written {as : List Criterion}
    (h : (builtin kc kl).readObjects c key value = .ok as) : ∀ a ∈ as, Written c a := by
  cases value with
  | array items =>
    intro a ha
    obtain ⟨item, hitem, hread⟩ := Outcome.mem_of_mapM_eq_ok h a ha
    exact readObject_written
      (fun inner hinner => ih inner (Nat.lt_trans hinner (Json.sizeOf_of_mem_array hitem))) hread
  | _ => cases h

end Value

theorem readPart_written {c : Context} {s : Source} {members : Members} {key : String}
    {o : Option Criterion}
    (ih : ∀ inner : Members, sizeOf inner < sizeOf (Json.object members) → Writes kc kl inner)
    (h : (builtin kc kl).readPart c s members key = .ok o) : ∀ a ∈ o, Written (c.child s) a := by
  unfold readPart at h
  split at h
  · cases h
    nofun
  · rename_i value hvalue
    obtain ⟨a, ha, rfl⟩ := Outcome.map_eq_ok_iff.mp h
    rintro _ ⟨⟩
    exact readObject_written
      (fun inner hinner => ih inner (Nat.lt_trans hinner (Json.sizeOf_of_get? hvalue))) ha

theorem readAgainst_written {c : Context} {key : String} {value : Json}
    {build : Literal → Outcome Criterion} {a : Criterion}
    (hb : ∀ l, c.source.isRoot = false → build l = .ok a → Written c a)
    (h : (builtin kc kl).readAgainst c key value build = .ok a) : Written c a := by
  obtain ⟨_, hf, h⟩ := Outcome.bind_eq_ok_iff.mp h
  obtain ⟨l, -, h⟩ := Outcome.bind_eq_ok_iff.mp h
  exact hb l (isRoot_of_requireField hf) h

theorem readRecord_written {c : Context} {target : Root} {value : Json} {a : Criterion}
    (ih : ∀ inner : Members, sizeOf inner < sizeOf value → Writes kc kl inner)
    (h : (Keyword.record target).read (builtin kc kl) c value = .ok a) : Written c a := by
  simp only [Keyword.read] at h
  split at h
  case isTrue same =>
    subst same
    exact .stay (readObject_written ih h)
  case isFalse ne =>
    split at h
    case isTrue hub =>
      obtain ⟨b, hb, rfl⟩ := Outcome.map_eq_ok_iff.mp h
      exact .join ne hub (readObject_written ih hb)
    case isFalse far =>
      obtain ⟨b, hb, rfl⟩ := Outcome.map_eq_ok_iff.mp h
      rw [not_or] at far
      exact .join far.1 (.inr rfl)
        (.join (Ne.symm far.2) (.inl rfl) (readObject_written ih hb))

theorem readKeyword_written {c : Context} {value : Json} {a : Criterion} (k : Keyword)
    (ih : ∀ inner : Members, sizeOf inner < sizeOf value → Writes kc kl inner)
    (h : k.read (builtin kc kl) c value = .ok a) : Written c a := by
  cases k with
  | and =>
    obtain ⟨as, has, rfl⟩ := Outcome.map_eq_ok_iff.mp h
    exact .and (readObjects_written ih has)
  | or =>
    obtain ⟨as, has, rfl⟩ := Outcome.map_eq_ok_iff.mp h
    exact .or (readObjects_written ih has)
  | not =>
    obtain ⟨b, hb, rfl⟩ := Outcome.map_eq_ok_iff.mp h
    exact .not (readObject_written ih hb)
  | equals =>
    refine readAgainst_written (fun l field hl => ?_) h
    cases hl
    exact .equals field
  | compares comparator =>
    refine readAgainst_written (fun l field hl => ?_) h
    cases hl
    exact .compares field
  | startsWith =>
    refine readAgainst_written (fun l field hl => ?_) h
    cases l <;> cases hl
    exact .startsWith field
  | inside =>
    refine readAgainst_written (fun l field hl => ?_) h
    cases l <;> cases hl
    exact .inside field
  | any =>
    obtain ⟨_, field, h⟩ := Outcome.bind_eq_ok_iff.mp h
    obtain ⟨ls, -, rfl⟩ := Outcome.map_eq_ok_iff.mp h
    exact .any (isRoot_of_requireField field)
  | all =>
    obtain ⟨_, field, h⟩ := Outcome.bind_eq_ok_iff.mp h
    obtain ⟨ls, -, rfl⟩ := Outcome.map_eq_ok_iff.mp h
    exact .all (isRoot_of_requireField field)
  | geo =>
    simp only [Keyword.read, Outcome.bind_eq_ok_iff] at h
    obtain ⟨_, hi, members, hm, location, hl, date, hd, h⟩ := h
    cases value <;> cases hm
    cases h
    exact .geo (source_of_requireInstallation hi) (readPart_written ih hl)
      (readPart_written ih hd)
  | lastActivity =>
    simp only [Keyword.read, Outcome.bind_eq_ok_iff] at h
    obtain ⟨_, hi, b, hb, h⟩ := h
    cases h
    exact .lastActivity (source_of_requireInstallation hi) (readObject_written ih hb)
  | presence =>
    simp only [Keyword.read, Outcome.bind_eq_ok_iff] at h
    obtain ⟨_, hi, members, hm, present, -, since, hs, elapsed, he, h⟩ := h
    cases value <;> cases hm
    cases h
    exact .presence (source_of_requireInstallation hi) (readPart_written ih hs)
      (readPart_written ih he)
  | subscription =>
    simp only [Keyword.read, Outcome.bind_eq_ok_iff] at h
    obtain ⟨_, hi, h⟩ := h
    split at h
    · obtain ⟨status, -, rfl⟩ := Outcome.map_eq_ok_iff.mp h
      exact .subscription (source_of_requireInstallation hi)
    · cases h
  | record target => exact readRecord_written ih h

theorem readMember_written {c : Context} {key : String} {value : Json} {a : Criterion}
    (ih : ∀ inner : Members, sizeOf inner < sizeOf value → Writes kc kl inner)
    (h : (builtin kc kl).readMember c key value = .ok a) : Written c a := by
  cases keyForm key with
  | empty =>
    rw [readMember_empty] at h
    cases h
  | keyword k =>
    rw [readMember_name] at h
    exact readKeyword_written k ih h
  | field path =>
    rw [readMember_field] at h
    exact .field (Path.ofDotted_ne_nil path) (readObject_written ih h)
  | unknown hk =>
    rw [readMember_unknown _ _ hk] at h
    split at h <;> cases h
    exact .unknown

theorem readMembers_written (members : Members) : Writes kc kl members := by
  induction members using Members.sizeInduction with
  | step members ih =>
    intro c a h
    match members with
    | [] =>
      rw [readMembers_nil] at h
      split at h <;> cases h
      exact .matchAll ‹_›
    | [entry] =>
      rw [readMembers_one] at h
      exact readMember_written (ih entry (by simp)) h
    | first :: second :: rest =>
      rw [readMembers_many] at h
      obtain ⟨as, has, rfl⟩ := Outcome.map_eq_ok_iff.mp h
      refine .and fun a ha => ?_
      obtain ⟨entry, hentry, hread⟩ := Outcome.mem_of_mapM_eq_ok has a ha
      exact readMember_written (ih entry hentry) hread

theorem read_written {r : Root} {document : Json} {a : Criterion}
    (h : (builtin kc kl).read r document = .ok a) : Written (.root r) a := by
  cases document with
  | object members => exact readMembers_written members _ a h
  | _ => cases h

end Grammar

end Audience
