import Mathlib
import Audience.Proofs.Reading.Nesting

/-! # Fields of derived sources

A field of what is derived from an installation takes its name from there, `geo.location.city`, but
its path starts anew and is followed from the record at hand. It is therefore read like the field of
the installation itself with the last part of that name, and like the field with the whole name only
where the installation keeps the same values at both.
-/

namespace Audience

/-- Whether two paths, gone on from alike, lead to the same values in a record. -/
def Json.SameBelow (record : Json) (front front' : Path) : Prop :=
  ∀ rest : Path, record.valuesAt (front ++ rest) = record.valuesAt (front' ++ rest)

namespace Json.SameBelow

variable {record : Json} {front front' : Path}

theorem refl : record.SameBelow front front := fun _ => rfl

theorem valuesAt_eq (h : record.SameBelow front front') :
    record.valuesAt front = record.valuesAt front' := by
  simpa using h []

theorem append (h : record.SameBelow front front') (path : Path) :
    record.SameBelow (front ++ path) (front' ++ path) := fun rest => by
  simpa only [List.append_assoc] using h (path ++ rest)

end Json.SameBelow

namespace Source

def IsField : Source → Prop
  | .field _ _ => True
  | _ => False

theorem isField_project (s : Source) (path : Path) : (s.project path).IsField := by
  cases s <;> trivial

namespace IsField

variable {s : Source} (h : s.IsField)
include h

theorem isRoot_eq_false : s.isRoot = false := by
  cases s with
  | field => rfl
  | _ => exact h.elim

theorem ne_root {r : Root} : s ≠ .root r := by
  rintro rfl
  exact h

theorem valuesOf_eq {p : Profile} {now : Int64} {record : Json} :
    p.valuesOf now record s = record.valuesAt s.fullPath := by
  cases s with
  | field => rfl
  | _ => exact h.elim

end IsField

end Source

namespace Criterion

/-- Criteria that hold alike of every record that has the same values below two paths. -/
def AlikeBelow (front front' : Path) (a b : Criterion) : Prop :=
  ∀ (p : Profile) (now : Int64) (record : Json), record.SameBelow front front' →
    a.holds p now record = b.holds p now record

theorem Equivalent.join {a b : Criterion} (h : a.Equivalent b) {c d : Context}
    (same : c.source = d.source) : (Criterion.join c a).Equivalent (.join d b) := by
  intro p now record
  simp only [holds_join, same, h p now]

namespace AlikeBelow

variable {front front' : Path} {a b : Criterion} {as bs : List Criterion} {c d : Context}

theorem of_equivalent (h : a.Equivalent b) : AlikeBelow front front' a b :=
  fun p now record _ => h p now record

theorem of_append {path : Path} (h : AlikeBelow (front ++ path) (front' ++ path) a b) :
    AlikeBelow front front' a b :=
  fun p now record same => h p now record (same.append path)

theorem not (h : AlikeBelow front front' a b) :
    AlikeBelow front front' (.not c a) (.not d b) := by
  intro p now record same
  simp only [holds, h p now record same]

theorem map_holds_eq (h : List.Forall₂ (AlikeBelow front front') as bs) {p : Profile} {now : Int64}
    {record : Json} (same : record.SameBelow front front') :
    as.map (holds p now record) = bs.map (holds p now record) := by
  induction h with
  | nil => rfl
  | cons head _ ih => rw [List.map_cons, List.map_cons, head p now record same, ih]

theorem and (h : List.Forall₂ (AlikeBelow front front') as bs) :
    AlikeBelow front front' (.and c as) (.and d bs) := by
  intro p now record same
  rw [holds_and, holds_and, map_holds_eq h same]

theorem or (h : List.Forall₂ (AlikeBelow front front') as bs) :
    AlikeBelow front front' (.or c as) (.or d bs) := by
  intro p now record same
  rw [holds_or, holds_or, map_holds_eq h same]

end AlikeBelow

end Criterion

/-- Contexts that stand on fields of one kind of record. -/
structure Context.OnFields (c d : Context) : Prop where
  left : c.source.IsField
  right : d.source.IsField
  record : c.source.record = d.source.record

namespace Context.OnFields

variable {c d : Context}

theorem child (h : c.OnFields d) (path : Path) :
    (c.child (c.source.project path)).OnFields (d.child (d.source.project path)) where
  left := Source.isField_project _ _
  right := Source.isField_project _ _
  record := by simpa only [Context.child, Source.record_project] using h.record

theorem alike_of_values (h : c.OnFields d) {a b : Criterion}
    (test : List Json → Int64 → Bool)
    (ha : ∀ {p now record}, a.holds p now record = test (p.valuesOf now record c.source) now)
    (hb : ∀ {p now record}, b.holds p now record = test (p.valuesOf now record d.source) now) :
    a.AlikeBelow c.source.fullPath d.source.fullPath b := by
  intro p now record same
  rw [ha, hb, h.left.valuesOf_eq, h.right.valuesOf_eq, same.valuesAt_eq]

end Context.OnFields

namespace Grammar

open Criterion (AlikeBelow)

variable {kc kl : Bool} {c d : Context} {key : String} {value : Json}

theorem agree_readObject_child (c d : Context) (s : Source) :
    ((builtin kc kl).readObject (c.child s) key value).Agree Criterion.Equivalent
      ((builtin kc kl).readObject (d.child s) key value) := by
  have alone (outer : Context) : outer.child s = (⟨s, []⟩ : Context).under outer := rfl
  rw [alone c, alone d, readObject_under fun inner _ => readMembers_under inner,
    readObject_under fun inner _ => readMembers_under inner]
  refine Outcome.agree_map (fun a p now record => ?_) _
  rw [Criterion.holds_under, Criterion.holds_under]

/-- Below two fields of one kind of record an object is refused at both, or read at both to criteria
that hold alike where the fields have the same values. -/
def ReadsBeside (kc kl : Bool) (members : Members) : Prop :=
  ∀ c d : Context, c.OnFields d →
    ((builtin kc kl).readMembers c members).Agree
      (AlikeBelow c.source.fullPath d.source.fullPath) ((builtin kc kl).readMembers d members)

section Value

variable (h : c.OnFields d)
include h

theorem agree_requireInstallation {R : Unit → Unit → Prop} :
    (requireInstallation c key).Agree R (requireInstallation d key) := by
  rw [requireInstallation, requireInstallation, if_neg h.left.ne_root, if_neg h.right.ne_root]
  exact .error

theorem agree_readAgainst_beside {build build' : Literal → Outcome Criterion}
    (hb : ∀ l, (build l).Agree (AlikeBelow c.source.fullPath d.source.fullPath) (build' l)) :
    ((builtin kc kl).readAgainst c key value build).Agree
      (AlikeBelow c.source.fullPath d.source.fullPath)
      ((builtin kc kl).readAgainst d key value build') := by
  rw [readAgainst, readAgainst, requireField_eq_ok h.left.isRoot_eq_false,
    requireField_eq_ok h.right.isRoot_eq_false, Outcome.ok_bind, Outcome.ok_bind,
    readLiteral_eq c d]
  exact Outcome.agree_bind hb _

theorem agree_readLiterals_beside {build build' : List Literal → Criterion}
    (hb : ∀ ls, (build ls).AlikeBelow c.source.fullPath d.source.fullPath (build' ls)) :
    (do requireField c key; build <$> (builtin kc kl).readLiterals c key value).Agree
      (AlikeBelow c.source.fullPath d.source.fullPath)
      (do requireField d key; build' <$> (builtin kc kl).readLiterals d key value) := by
  rw [requireField_eq_ok h.left.isRoot_eq_false, requireField_eq_ok h.right.isRoot_eq_false,
    Outcome.ok_bind, Outcome.ok_bind, readLiterals_eq c d]
  exact Outcome.agree_map hb _

theorem agree_readRecord_beside (target : Root) :
    ((Keyword.record target).read (builtin kc kl) c value).Agree
      (AlikeBelow c.source.fullPath d.source.fullPath)
      ((Keyword.record target).read (builtin kc kl) d value) := by
  simp only [Keyword.read, h.record]
  split
  · exact (agree_readObject_child c d _).mono .of_equivalent
  · split
    · exact (agree_readObject_child c d _).map fun same => .of_equivalent (same.join rfl)
    · exact (agree_readObject_child _ _ _).map fun same =>
        .of_equivalent ((same.join rfl).join rfl)

variable (ih : ∀ inner : Members, sizeOf inner < sizeOf value → ReadsBeside kc kl inner)
include ih

theorem agree_readObject_beside :
    ((builtin kc kl).readObject c key value).Agree
      (AlikeBelow c.source.fullPath d.source.fullPath)
      ((builtin kc kl).readObject d key value) := by
  cases value with
  | object members => exact ih members (by simp) c d h
  | _ => exact .error

theorem agree_readObjects_beside :
    ((builtin kc kl).readObjects c key value).Agree
      (List.Forall₂ (AlikeBelow c.source.fullPath d.source.fullPath))
      ((builtin kc kl).readObjects d key value) := by
  cases value with
  | array items =>
    refine .mapM_same fun item hitem => agree_readObject_beside h fun inner hinner => ?_
    exact ih inner (Nat.lt_trans hinner (Json.sizeOf_of_mem_array hitem))
  | _ => exact .error

theorem agree_readKeyword_beside (k : Keyword) :
    (k.read (builtin kc kl) c value).Agree (AlikeBelow c.source.fullPath d.source.fullPath)
      (k.read (builtin kc kl) d value) := by
  cases k with
  | and => exact (agree_readObjects_beside h ih).map .and
  | or => exact (agree_readObjects_beside h ih).map .or
  | not => exact (agree_readObject_beside h ih).map .not
  | equals =>
    exact agree_readAgainst_beside h fun l => .ok <|
      h.alike_of_values (fun values now => l.isAmong now values) rfl rfl
  | compares comparator =>
    exact agree_readAgainst_beside h fun l => .ok <|
      h.alike_of_values (fun values now => l.isAccepted now values comparator) rfl rfl
  | startsWith =>
    refine agree_readAgainst_beside h fun l => ?_
    split
    · exact .ok (h.alike_of_values (fun values _ => l.isInitial values) rfl rfl)
    · exact .error
  | inside =>
    refine agree_readAgainst_beside h fun l => ?_
    split
    next area _ =>
      exact .ok (h.alike_of_values
        (fun values _ => (values.filterMap Geo.Point.ofJson?).any area.contains) rfl rfl)
    · exact .error
  | any =>
    exact agree_readLiterals_beside h fun ls =>
      h.alike_of_values (fun values now => ls.any (·.isAmong now values)) rfl rfl
  | all =>
    exact agree_readLiterals_beside h fun ls =>
      h.alike_of_values (fun values now => ls.all (·.isAmong now values)) rfl rfl
  | geo | lastActivity | presence | subscription =>
    exact (agree_requireInstallation h (R := fun _ _ => False)).bind nofun
  | record target => exact agree_readRecord_beside h target

theorem agree_readMember_beside (key : String) :
    ((builtin kc kl).readMember c key value).Agree
      (AlikeBelow c.source.fullPath d.source.fullPath)
      ((builtin kc kl).readMember d key value) := by
  cases keyForm key with
  | empty =>
    rw [readMember_empty, readMember_empty]
    exact .error
  | keyword k =>
    rw [readMember_name, readMember_name]
    exact agree_readKeyword_beside h ih k
  | field path =>
    rw [readMember_field, readMember_field]
    refine (agree_readObject_beside (h.child (.ofDotted path)) ih).mono fun alike => ?_
    simp only [Context.child, Source.fullPath_project] at alike
    exact alike.of_append
  | unknown hk =>
    rw [readMember_unknown _ _ hk, readMember_unknown _ _ hk]
    split
    · exact .ok fun _ _ _ _ => rfl
    · exact .error

end Value

theorem readMembers_beside (members : Members) : ReadsBeside kc kl members := by
  induction members using Members.sizeInduction with
  | step members ih =>
    intro c d h
    match members with
    | [] =>
      rw [readMembers_nil, readMembers_nil, h.left.isRoot_eq_false, h.right.isRoot_eq_false]
      exact .error
    | [entry] =>
      rw [readMembers_one, readMembers_one]
      exact agree_readMember_beside h (ih entry List.mem_cons_self) entry.1
    | first :: second :: rest =>
      rw [readMembers_many, readMembers_many]
      refine .map (.mapM_same fun entry hentry => ?_) .and
      exact agree_readMember_beside h (ih entry hentry) entry.1

end Grammar

/-- What the built-in rules derive from an installation. -/
inductive Derived where
  | location
  | date
  | lastActivity
  | since (present : Bool)
  | elapsed (present : Bool)
  deriving DecidableEq, Repr

namespace Derived

def source : Derived → Source
  | location => .geoLocation (.root .installation)
  | date => .geoDate (.root .installation)
  | lastActivity => .lastActivity (.root .installation)
  | since present => .sinceDate (.root .installation) present
  | elapsed present => .elapsedTime (.root .installation) present

def document (body : Members) : Derived → Json
  | location => .object [("geo", .object [("location", .object body)])]
  | date => .object [("geo", .object [("date", .object body)])]
  | lastActivity => .object [("lastActivityDate", .object body)]
  | since present =>
    .object [("presence", .object [("present", .bool present), ("sinceDate", .object body)])]
  | elapsed present =>
    .object [("presence", .object [("present", .bool present), ("elapsedTime", .object body)])]

def criterion (a : Criterion) : Derived → Criterion
  | location => .geo (.root .installation) (some a) none
  | date => .geo (.root .installation) none (some a)
  | lastActivity => .lastActivity (.root .installation) (some a)
  | since present => .presence (.root .installation) present (some a) none
  | elapsed present => .presence (.root .installation) present none (some a)

/-- What such a criterion asks besides: that the installation is present, or absent, where it asks
for the time of that. -/
def applies (p : Profile) (now : Int64) : Derived → Bool
  | since present | elapsed present => p.isPresent now = present
  | _ => true

/-- The path at which an installation itself keeps what is derived. -/
def path? : Derived → Option String
  | location => some "geo.location"
  | date => some "geo.date"
  | _ => none

open Grammar

variable {kc kl : Bool} (t : Derived)

theorem read_document (body : Members) :
    (builtin kc kl).read .installation (t.document body) =
      (t.criterion ·) <$>
        (builtin kc kl).readMembers ((Context.root .installation).child t.source) body := by
  have there (key : String) : requireInstallation (.root .installation) key = .ok () := if_pos rfl
  have flag (key : String) (present : Bool) (part : String × Json) :
      readFlag key [("present", .bool present), part] = .ok present := rfl
  cases t with
  | location =>
    refine (readMembers_keyword _ _ .geo).trans ?_
    rw [Keyword.read, there, readInner, Outcome.ok_bind, Outcome.ok_bind, readPart_of_present rfl,
      readPart_of_absent rfl, readObject, bind_map_left]
    rfl
  | date =>
    refine (readMembers_keyword _ _ .geo).trans ?_
    rw [Keyword.read, there, readInner, Outcome.ok_bind, Outcome.ok_bind, readPart_of_absent rfl,
      readPart_of_present rfl, readObject, Outcome.ok_bind, bind_map_left]
    rfl
  | lastActivity =>
    refine (readMembers_keyword _ _ .lastActivity).trans ?_
    rw [Keyword.read, there, readObject]
    rfl
  | since present =>
    refine (readMembers_keyword _ _ .presence).trans ?_
    rw [Keyword.read, there, readInner, Outcome.ok_bind, Outcome.ok_bind, flag, Outcome.ok_bind,
      readPart_of_present rfl, readPart_of_absent rfl, readObject, bind_map_left]
    rfl
  | elapsed present =>
    refine (readMembers_keyword _ _ .presence).trans ?_
    rw [Keyword.read, there, readInner, Outcome.ok_bind, Outcome.ok_bind, flag, Outcome.ok_bind,
      readPart_of_absent rfl, readPart_of_present rfl, readObject, Outcome.ok_bind, bind_map_left]
    rfl

theorem holds_criterion {p : Profile} {now : Int64} {record : Json} (a : Criterion) :
    (t.criterion a).holds p now record = (t.applies p now && a.holds p now record) := by
  cases t <;> simp [criterion, applies, Criterion.holds, Criterion.holdsIfGiven]

/-- A field of what is derived is read beside any other field of the installation. -/
theorem agree_read_document (path : String) (body : Members) {d : Context}
    (field : d.source.IsField) (record : d.source.record = .installation) :
    ((builtin kc kl).read .installation (t.document [("." ++ path, .object body)])).Agree
      (fun a b => ∃ inner, a = t.criterion inner ∧
        inner.AlikeBelow (.ofDotted path) d.source.fullPath b)
      ((builtin kc kl).readMembers d body) := by
  let c := (Context.root .installation).child t.source
  have beside : (c.child (c.source.project (.ofDotted path))).OnFields d := by
    refine ⟨Source.isField_project _ _, field, ?_⟩
    rw [record]
    cases t <;> rfl
  have start : (c.source.project (.ofDotted path)).fullPath = .ofDotted path := by
    rw [Source.fullPath_project]
    cases t <;> rfl
  rw [read_document, readMembers_field, ← id_map ((builtin kc kl).readMembers d body)]
  refine (readMembers_beside body _ _ beside).map fun same => ⟨_, rfl, ?_⟩
  rw [Context.child, start] at same
  exact same

/-- A field of what is derived is accepted where the field of the installation with the last part of
its name is, and holds where that does and the derived part is asked for. The field with its whole
name is accepted then too, and holds alike of installations that keep the same values at both. -/
theorem read_field (kc kl : Bool) (path : String) (body : Members) :
    ((builtin kc kl).read .installation (t.document [("." ++ path, .object body)])).Agree
        (fun a b => ∀ (p : Profile) (now : Int64),
          p.belongsTo now a = (t.applies p now && p.belongsTo now b))
        ((builtin kc kl).read .installation (.object [("." ++ path, .object body)])) ∧
      ∀ front, t.path? = some front →
        ((builtin kc kl).read .installation (t.document [("." ++ path, .object body)])).Agree
          (fun a b => ∀ (p : Profile) (now : Int64),
            p.installation.SameBelow (.ofDotted path) (.ofDotted (front ++ "." ++ path)) →
              p.belongsTo now a = p.belongsTo now b)
          ((builtin kc kl).read .installation
            (.object [("." ++ (front ++ "." ++ path), .object body)])) := by
  have fields (path : String) : (builtin kc kl).read .installation
      (.object [("." ++ path, .object body)]) = (builtin kc kl).readMembers
        ((Context.root .installation).child (.field (.root .installation) (.ofDotted path))) body :=
    readMembers_field _ path body
  constructor
  · rw [fields]
    refine (t.agree_read_document path body (by trivial) (by rfl)).mono ?_
    rintro _ b ⟨inner, rfl, same⟩ p now
    rw [Profile.belongsTo, holds_criterion, same p now _ .refl, Profile.belongsTo]
  · intro front hfront
    rw [fields]
    refine (t.agree_read_document path body (by trivial) (by rfl)).mono ?_
    rintro _ b ⟨inner, rfl, same⟩ p now below
    have asked : t.applies p now = true := by
      cases t with
      | location | date => rfl
      | _ => cases hfront
    rw [Profile.belongsTo, holds_criterion, asked, same p now _ below, Profile.belongsTo,
      Bool.true_and]

section Paris

def isParis : Members :=
  [("eq", .string "Paris")]

def parisAt (c : Context) (path : Path) : Criterion :=
  .equals (c.child (.field c.source path)) (.string "Paris")

def parisInside : Criterion :=
  location.criterion (parisAt ((Context.root .installation).child location.source) ["city"])

def parisWhole : Criterion :=
  parisAt (.root .installation) ["geo", "location", "city"]

def parisLocation : Json :=
  .object [("location", .object [("city", .string "Paris")])]

def visitor : Profile where
  installation := .object [("geo", parisLocation)]

def parisian : Profile where
  installation := .object [("city", .string "Paris"), ("geo", parisLocation)]

def numbered (n : Int) : Profile where
  installation := .object [("x", .number (.integer n))]

theorem strict_read_parisInside :
    strict.read .installation (location.document [(".city", .object isParis)]) =
      .ok parisInside := by
  cbv

theorem strict_read_parisWhole :
    strict.read .installation (.object [(".geo.location.city", .object isParis)]) =
      .ok parisWhole := by
  cbv

theorem parisian_sameBelow : parisian.installation.SameBelow
    (.ofDotted "city") (.ofDotted ("geo.location" ++ "." ++ "city")) := by
  have city : Path.ofDotted "city" = ["city"] := by decide
  have whole : Path.ofDotted ("geo.location" ++ "." ++ "city") = ["geo", "location", "city"] := by
    decide
  intro rest
  rw [city, whole]
  simp [Json.valuesAt, Path.isCustomDate, Json.at?, Json.step?, Members.get?, parisian,
    parisLocation]

theorem read_field_parisian :
    location.path? = some "geo.location" ∧
      parisian.installation.SameBelow
        (.ofDotted "city") (.ofDotted ("geo.location" ++ "." ++ "city")) ∧
      strict.read .installation (location.document [(".city", .object isParis)]) =
        .ok parisInside ∧
      strict.read .installation (.object [(".geo.location.city", .object isParis)]) =
        .ok parisWhole ∧
      parisian.belongsTo 0 parisInside = true ∧ parisian.belongsTo 0 parisWhole = true := by
  have belongs : parisian.belongsTo 0 parisInside = true := by cbv
  refine ⟨rfl, parisian_sameBelow, strict_read_parisInside, strict_read_parisWhole, belongs, ?_⟩
  have read := (location.read_field false false "city" isParis).2 "geo.location" rfl
  rw [← read.results strict_read_parisInside strict_read_parisWhole parisian 0 parisian_sameBelow,
    belongs]

/-- Asked inside of the location, an installation in Paris that does not name the city elsewhere
does not match; and a number is found below the last activity, where the installation has it. -/
theorem read_field_visitor :
    strict.read .installation (location.document [(".city", .object isParis)]) =
        .ok parisInside ∧
      strict.read .installation (.object [(".geo.location.city", .object isParis)]) =
        .ok parisWhole ∧
      visitor.belongsTo 0 parisInside = false ∧ visitor.belongsTo 0 parisWhole = true ∧
      ∃ a, strict.read .installation
          (lastActivity.document [(".x", .object [("eq", .number (.integer 1))])]) = .ok a ∧
        (numbered 1).belongsTo 0 a = true ∧ (numbered 2).belongsTo 0 a = false := by
  refine ⟨strict_read_parisInside, strict_read_parisWhole, by cbv, by cbv,
    lastActivity.criterion (.equals (((Context.root .installation).child lastActivity.source).child
      (.field lastActivity.source ["x"])) (.number (.integer 1))), ?_, ?_, ?_⟩ <;> cbv

end Paris

end Derived

end Audience
