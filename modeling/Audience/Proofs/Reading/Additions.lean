import Mathlib
import Audience.Proofs.Json.Absence
import Audience.Proofs.Reading.Keywords

/-! # Added members

Objects stand in a document at three levels: they hold criteria, or what is asked of the location of
an installation, or of its presence. Strict reading goes through all members of an object of
criteria, and refuses the document for a key that it does not know. In the other two kinds of
objects it only looks up the keys it knows, so that any other member can be added unnoticed.
-/

namespace Audience

theorem Members.get?_append (front back : Members) (key : String) :
    (front ++ back).get? key = (front.get? key).or (back.get? key) := by
  induction front with
  | nil => rfl
  | cons member front ih =>
    simp only [List.cons_append, get?, ih]
    split <;> rfl

theorem Members.get?_added {front back : Members} {key other : String} (value : Json)
    (ne : key ≠ other) :
    (front ++ (key, value) :: back).get? other = (front ++ back).get? other := by
  simp only [get?_append, get?, ne, if_false]

theorem Members.get?_found {front : Members} {key : String} (found : front.get? key = none)
    (value : Json) (back : Members) : (front ++ (key, value) :: back).get? key = some value := by
  simp only [get?_append, found, get?, if_true, Option.none_or]

/-- What the members of an object are about. -/
inductive Level where
  | criteria
  | geo
  | presence
  deriving DecidableEq, Repr

namespace Level

/-- The keys that reading looks at in an object. -/
inductive Knows : Level → String → Prop where
  | field (path : String) : Knows .criteria ("." ++ path)
  | keyword (k : Keyword) : Knows .criteria k.name
  | location : Knows .geo "location"
  | date : Knows .geo "date"
  | present : Knows .presence "present"
  | since : Knows .presence "sinceDate"
  | elapsed : Knows .presence "elapsedTime"

def knows (key : String) : Level → Bool
  | criteria => key.toList.head? = some '.' || Keyword.list.any (·.name = key)
  | geo => key = "location" || key = "date"
  | presence => key = "present" || key = "sinceDate" || key = "elapsedTime"

theorem knows_iff {level : Level} {key : String} : level.knows key = true ↔ level.Knows key := by
  constructor
  · intro h
    cases level with
    | criteria =>
      simp only [knows, Bool.or_eq_true, decide_eq_true_eq, List.any_eq_true] at h
      rcases h with dot | ⟨k, -, rfl⟩
      · obtain ⟨path, hpath⟩ := List.head?_eq_some_iff.mp dot
        obtain rfl : key = "." ++ String.ofList path := String.toList_inj.mp (by simp [hpath])
        exact .field _
      · exact .keyword k
    | geo =>
      simp only [knows, Bool.or_eq_true, decide_eq_true_eq] at h
      rcases h with rfl | rfl <;> constructor
    | presence =>
      simp only [knows, Bool.or_eq_true, decide_eq_true_eq] at h
      rcases h with (rfl | rfl) | rfl <;> constructor
  · intro h
    cases h with
    | field path => simp [knows]
    | keyword k => simpa [knows] using .inr ⟨k, Keyword.mem_list k, rfl⟩
    | _ => decide

instance {level : Level} {key : String} : Decidable (level.Knows key) :=
  decidable_of_iff _ knows_iff

def read (c : Context) (members : Members) : Level → Outcome Criterion
  | criteria => Grammar.strict.readMembers c members
  | geo => Keyword.geo.read .strict c (.object members)
  | presence => Keyword.presence.read .strict c (.object members)

end Level

/-- A key whose value holds an object, with the levels of the objects on both sides. -/
inductive Door : Level → Level → Type where
  | field (path : String) : Door .criteria .criteria
  | not : Door .criteria .criteria
  | and (before after : List Json) : Door .criteria .criteria
  | or (before after : List Json) : Door .criteria .criteria
  | record (target : Root) : Door .criteria .criteria
  | lastActivity : Door .criteria .criteria
  | geo : Door .criteria .geo
  | presence : Door .criteria .presence
  | location : Door .geo .criteria
  | date : Door .geo .criteria
  | since : Door .presence .criteria
  | elapsed : Door .presence .criteria

namespace Door

variable {outer inner : Level}

def key : Door outer inner → String
  | field path => "." ++ path
  | not => Keyword.not.name
  | and _ _ => Keyword.and.name
  | or _ _ => Keyword.or.name
  | record target => (Keyword.record target).name
  | lastActivity => Keyword.lastActivity.name
  | geo => Keyword.geo.name
  | presence => Keyword.presence.name
  | location => "location"
  | date => "date"
  | since => "sinceDate"
  | elapsed => "elapsedTime"

def value (members : Members) : Door outer inner → Json
  | and before after | or before after => .array (before ++ .object members :: after)
  | field _ | not | record _ | lastActivity | geo | presence | location | date | since | elapsed =>
    .object members

end Door

/-- A place for an object in an object. Of several members with one key the first counts. -/
inductive Spot : Level → Level → Type where
  | here {level : Level} : Spot level level
  | under {outer between inner : Level} (front back : Members) (door : Door outer between)
      (found : front.get? door.key = none) (spot : Spot between inner) : Spot outer inner

/-- The members of the outer object, with those of an object at the place. -/
def Spot.fill (members : Members) {outer inner : Level} : Spot outer inner → Members
  | here => members
  | under front back door _ spot => front ++ (door.key, door.value (spot.fill members)) :: back

namespace Grammar

open Outcome

variable {x : Option Error} {c : Context} {front back : Members}

theorem readPart_congr {g : Grammar} {s : Source} {members other : Members} {key : String}
    (h : members.get? key = other.get? key) :
    g.readPart c s members key = g.readPart c s other key := by
  rw [readPart, readPart, h]

theorem readFlag_congr {members other : Members} {key : String}
    (h : members.get? "present" = other.get? "present") :
    readFlag key members = readFlag key other := by
  rw [readFlag, readFlag, h]

theorem read_geo (members : Members) :
    Level.geo.read c members = (do
      requireInstallation c Keyword.geo.name
      let location ← strict.readPart c (.geoLocation c.source) members "location"
      let date ← strict.readPart c (.geoDate c.source) members "date"
      return .geo c location date) := rfl

theorem read_presence (members : Members) :
    Level.presence.read c members = (do
      requireInstallation c Keyword.presence.name
      let present ← readFlag Keyword.presence.name members
      let since ← strict.readPart c (.sinceDate c.source present) members "sinceDate"
      let elapsed ← strict.readPart c (.elapsedTime c.source present) members "elapsedTime"
      return .presence c present since elapsed) := rfl

theorem succeeds_members {members : Members} (h : Succeeds (strict.readMembers c members)) :
    ∀ entry ∈ members, Succeeds (strict.readMember c entry.1 entry.2) := by
  match members with
  | [] => simp
  | [entry] => simpa [readMembers_one] using h
  | _ :: _ :: _ => exact succeeds_mapM.mp (succeeds_map.mp (readMembers_many _ c _ _ _ ▸ h))

/-- One member or many, what is read from them goes on to what is read from the object. -/
theorem readMembers_around (c : Context) (front back : Members) :
    ∃ build : List Criterion → Criterion, ∀ entry, strict.readMembers c (front ++ entry :: back) =
      build <$> (front ++ entry :: back).mapM fun entry => strict.readMember c entry.1 entry.2 := by
  match front, back with
  | [], [] =>
    refine ⟨fun as => as.headD (.matchAll c), fun entry => ?_⟩
    rw [List.nil_append, readMembers_one, List.mapM_cons, List.mapM_nil]
    cases strict.readMember c entry.1 entry.2 <;> rfl
  | [], _ :: _ | [_], _ | _ :: _ :: _, _ => exact ⟨.and c, fun entry => readMembers_many _ _ _ _ _⟩

theorem becomes_readMembers {key : String} {v w : Json}
    (h : Becomes x (strict.readMember c key v) (strict.readMember c key w)) :
    Becomes x (strict.readMembers c (front ++ (key, v) :: back))
      (strict.readMembers c (front ++ (key, w) :: back)) := by
  obtain ⟨build, hbuild⟩ := readMembers_around c front back
  rw [hbuild, hbuild]
  refine Becomes.map (Becomes.mapM ?_ front back) build
  exact h

theorem becomes_keyword {k : Keyword} {v w : Json}
    (h : Becomes x (k.read strict c v) (k.read strict c w)) :
    Becomes x (strict.readMembers c (front ++ (k.name, v) :: back))
      (strict.readMembers c (front ++ (k.name, w) :: back)) := by
  refine becomes_readMembers ?_
  rwa [strict, readMember_name, readMember_name]

section Door

variable {v w : Members}

theorem becomes_readObjects {key : String} (before after : List Json)
    (h : Becomes x (strict.readMembers c v) (strict.readMembers c w)) :
    Becomes x (strict.readObjects c key (.array (before ++ .object v :: after)))
      (strict.readObjects c key (.array (before ++ .object w :: after))) := by
  refine Becomes.mapM ?_ before after
  exact h

theorem becomes_readPart {s : Source} {key : String} (found : front.get? key = none)
    (h : Becomes x (strict.readMembers (c.child s) v) (strict.readMembers (c.child s) w)) :
    Becomes x (strict.readPart c s (front ++ (key, .object v) :: back) key)
      (strict.readPart c s (front ++ (key, .object w) :: back) key) := by
  rw [readPart_of_present (Members.get?_found found _ _),
    readPart_of_present (Members.get?_found found _ _)]
  exact Becomes.map h some

theorem get?_changed {key other : String} (ne : key ≠ other) :
    Members.get? (front ++ (key, .object v) :: back) other =
      Members.get? (front ++ (key, .object w) :: back) other := by
  rw [Members.get?_added _ ne, Members.get?_added _ ne]

theorem readPart_changed (w : Members) (other : String) {s : Source} {key : String}
    (ne : key ≠ other) :
    strict.readPart c s (front ++ (key, .object v) :: back) other =
      strict.readPart c s (front ++ (key, .object w) :: back) other :=
  readPart_congr (get?_changed ne)

theorem readFlag_changed (w : Members) {key name : String} (ne : key ≠ "present") :
    readFlag name (front ++ (key, .object v) :: back) =
      readFlag name (front ++ (key, .object w) :: back) :=
  readFlag_congr (get?_changed ne)

theorem becomes_door {outer inner : Level} (door : Door outer inner)
    (found : front.get? door.key = none)
    (h : ∀ c, Becomes x (inner.read c v) (inner.read c w)) (c : Context) :
    Becomes x (outer.read c (front ++ (door.key, door.value v) :: back))
      (outer.read c (front ++ (door.key, door.value w) :: back)) := by
  cases door with
  | field path =>
    refine becomes_readMembers ?_
    rw [strict, Door.key, readMember_field, readMember_field]
    exact h _
  | not => exact becomes_keyword (k := .not) ((h c).map _)
  | and before after =>
    exact becomes_keyword (k := .and) ((becomes_readObjects before after (h c)).map _)
  | or before after =>
    exact becomes_keyword (k := .or) ((becomes_readObjects before after (h c)).map _)
  | record target =>
    refine becomes_keyword (k := .record target) ?_
    rw [Keyword.read, Keyword.read]
    split
    · exact h _
    · split <;> exact (h _).map _
  | lastActivity =>
    exact becomes_keyword (k := .lastActivity) (.after fun _ => (h _).bind _)
  | geo => exact becomes_keyword (k := .geo) (h c)
  | presence => exact becomes_keyword (k := .presence) (h c)
  | location =>
    rw [read_geo, read_geo, Door.key, Door.value, Door.value,
      readPart_changed w "date" (by decide)]
    exact .after fun _ => (becomes_readPart found (h _)).bind _
  | date =>
    rw [read_geo, read_geo, Door.key, Door.value, Door.value,
      readPart_changed w "location" (by decide)]
    exact .after fun _ => .after fun _ => (becomes_readPart found (h _)).bind _
  | since =>
    rw [read_presence, read_presence, Door.key, Door.value, Door.value,
      readFlag_changed w (by decide)]
    refine .after fun _ => .after fun _ => ?_
    rw [readPart_changed w "elapsedTime" (by decide)]
    exact (becomes_readPart found (h _)).bind _
  | elapsed =>
    rw [read_presence, read_presence, Door.key, Door.value, Door.value,
      readFlag_changed w (by decide)]
    refine .after fun _ => .after fun _ => ?_
    rw [readPart_changed w "sinceDate" (by decide)]
    exact .after fun _ => (becomes_readPart found (h _)).bind _

end Door

/-- A change of an object changes the document as it changes the object in all contexts. -/
theorem becomes_fill {outer inner : Level} (spot : Spot outer inner) {v w : Members}
    (h : ∀ c, Becomes x (inner.read c v) (inner.read c w)) :
    ∀ c, Becomes x (outer.read c (spot.fill v)) (outer.read c (spot.fill w)) := by
  induction spot with
  | here => exact h
  | under front back door found spot ih => exact becomes_door door found (ih h)

theorem succeeds_inside {outer inner : Level} (spot : Spot outer inner) {members : Members}
    (h : Succeeds (outer.read c (spot.fill members))) : ∃ d, Succeeds (inner.read d members) := by
  by_contra refused
  -- Of an object that is refused in all contexts any error can be said to come of it.
  have whole := becomes_fill (x := some (.badInput .notAnObject)) spot (v := members) (w := members)
    (fun d succeeds => absurd ⟨d, succeeds⟩ refused) c h
  rw [whole] at h
  exact not_succeeds_error _ h

def refusal (key : String) (value : Json) : Error :=
  if key = "" then .badInput .emptyCriterionKey else .unknownCriterion key value

section Added

variable {key : String} {value : Json}

theorem readMember_refused (h : ¬ Level.criteria.Knows key) :
    strict.readMember c key value = .error (refusal key value) := by
  cases keyForm key with
  | empty => exact readMember_empty _ c value
  | keyword k => exact absurd (.keyword k) h
  | field path => exact absurd (.field path) h
  | unknown hk =>
    rw [strict, readMember_unknown c value hk, refusal, if_neg hk.ne_empty]
    rfl

theorem becomes_refusal (h : ¬ Level.criteria.Knows key) (c : Context) :
    Becomes (some (refusal key value)) (Level.criteria.read c (front ++ back))
      (Level.criteria.read c (front ++ (key, value) :: back)) := by
  intro succeeds
  have each := succeeds_members succeeds
  obtain ⟨before, hbefore⟩ := succeeds_mapM.mpr fun entry hentry =>
    each entry (List.mem_append_left back hentry)
  obtain ⟨build, hbuild⟩ := readMembers_around c front back
  rw [Level.read, hbuild, List.mapM_append, List.mapM_cons, hbefore, readMember_refused h]
  rfl

/-- What no part of an object is read from can be added to it. -/
theorem read_added {level : Level} (ne : level ≠ .criteria) (h : ¬ level.Knows key) (c : Context) :
    level.read c (front ++ (key, value) :: back) = level.read c (front ++ back) := by
  have other {known : String} (hk : level.Knows known) : key ≠ known := fun same => h (same ▸ hk)
  cases level with
  | criteria => exact absurd rfl ne
  | geo =>
    rw [read_geo, read_geo, readPart_congr (Members.get?_added value (other .location)),
      readPart_congr (Members.get?_added value (other .date))]
  | presence =>
    rw [read_presence, read_presence, readFlag_congr (Members.get?_added value (other .present))]
    simp only [readPart_congr (Members.get?_added value (other .since)),
      readPart_congr (Members.get?_added value (other .elapsed))]

end Added

/-- In a document that strict reading accepts, it knows all keys of the objects of criteria and
refuses any other there, with the error that names the key and its value. To an object about the
location or the presence such a key can be added, and the document is read as without it. -/
theorem strict_read_added (r : Root) {level : Level} (spot : Spot .criteria level)
    (front back : Members)
    (accepted : Succeeds (strict.read r (.object (spot.fill (front ++ back))))) :
    (level = .criteria →
      (∀ entry ∈ front ++ back, level.Knows entry.1) ∧
      ∀ key value, ¬ level.Knows key →
        strict.read r (.object (spot.fill (front ++ (key, value) :: back))) =
          .error (refusal key value)) ∧
    (level ≠ .criteria → ∀ key value, ¬ level.Knows key →
      strict.read r (.object (spot.fill (front ++ (key, value) :: back))) =
        strict.read r (.object (spot.fill (front ++ back)))) := by
  constructor
  · rintro rfl
    constructor
    · intro entry mem
      by_contra unknown
      obtain ⟨c, succeeds⟩ := succeeds_inside (c := .root r) spot accepted
      have read := succeeds_members succeeds entry mem
      rw [readMember_refused unknown] at read
      exact not_succeeds_error _ read
    · intro key value unknown
      exact becomes_fill spot (becomes_refusal unknown) (.root r) accepted
  · intro ne key value unknown
    exact becomes_fill spot (fun c => .of_eq (read_added ne unknown c)) (.root r) accepted

section Dated

def insideGeo : Spot .criteria .geo :=
  .under [] [] .geo rfl .here

def insideDate : Spot .criteria .criteria :=
  .under [] [] .geo rfl (.under [] [] .date rfl .here)

def afterStart : Members :=
  [("gt", .number (.integer 0))]

def datedLocation : Criterion :=
  let date := (Context.root .installation).child (.geoDate (.root .installation))
  .geo (.root .installation) none (some (.compares date .gt (.number (.integer 0))))

theorem strict_read_added_afterStart :
    strict.read .installation (.object (insideDate.fill afterStart)) = .ok datedLocation ∧
      ¬ Level.criteria.Knows "before" ∧ ¬ Level.geo.Knows "locatoin" ∧
      strict.read .installation (.object (insideDate.fill (afterStart ++ [("before", .null)]))) =
        .error (.unknownCriterion "before" .null) ∧
      strict.read .installation (.object (insideGeo.fill
        [("date", .object afterStart), ("locatoin", .null)])) = .ok datedLocation := by
  have read : strict.read .installation (.object (insideDate.fill afterStart)) =
      .ok datedLocation := by cbv
  have noBefore : ¬ Level.criteria.Knows "before" := by decide
  have noLocatoin : ¬ Level.geo.Knows "locatoin" := by decide
  have date := strict_read_added .installation insideDate afterStart [] ⟨_, read⟩
  have geo := strict_read_added .installation insideGeo [("date", .object afterStart)] [] ⟨_, read⟩
  exact ⟨read, noBefore, noLocatoin, (date.1 rfl).2 "before" .null noBefore,
    (geo.2 (by decide) "locatoin" .null noLocatoin).trans read⟩

/-- With its only part misspelt, what asks for a location asks for nothing. -/
theorem strict_read_misspelt :
    let anywhere := Criterion.geo (.root .installation) none none
    ¬ Level.geo.Knows "locatoin" ∧
      strict.read .installation (.object (insideGeo.fill [])) = .ok anywhere ∧
      strict.read .installation (.object (insideGeo.fill
        [("locatoin", .object [("inside", .object [("geobox", .string "u09")])])])) =
          .ok anywhere ∧
      ∀ (p : Profile) (now : Int64), p.belongsTo now anywhere = true :=
  ⟨by decide, by cbv, by cbv, fun _ _ => rfl⟩

end Dated

end Grammar

end Audience
