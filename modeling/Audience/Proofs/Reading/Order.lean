import Mathlib
import Audience.Proofs.Evaluation.Order
import Audience.Proofs.Reading.Keywords
import Audience.Proofs.Reading.Literals

/-! # Reading whatever the order

A document whose members stand in another order is read where the document is, and to a criterion
that holds of the same profiles. Which error comes first may change with the order, and so may the
order of the parts of a conjunction.
-/

namespace Audience

open Json (IgnoresOrder)

namespace Grammar

section Fields

variable {as cs : Members} (h : Members.Reordered as cs)
include h

theorem numeric_eq (key field : String) : numeric key as field = numeric key cs field := by
  unfold numeric
  rw [Json.asFloat?_ignoresOrder.bind_eq (h.get?_rel field)]

theorem agree_readFlag (key : String) : (readFlag key as).Agree Eq (readFlag key cs) := by
  unfold readFlag
  rw [Json.asBool?_ignoresOrder.bind_eq (h.get?_rel "present")]
  exact Outcome.agree_refl (fun _ => rfl) _

theorem isSome_get?_eq (key : String) : (as.get? key).isSome = (cs.get? key).isSome := by
  obtain ⟨ha, hc⟩ | ⟨v, w, ha, hc, -⟩ := Json.cases_rel (h.get?_rel key) <;>
    simp [ha, hc]

end Fields

theorem readPoint_ignoresOrder : IgnoresOrder readPoint := fun v w h => by
  cases h with
  | object members =>
    simp only [readPoint, numeric_eq members]
  | _ => rfl

theorem corners_eq {o₁ o₁' o₂ o₂' : Option Json} {other other' : Outcome (Geo.Box Float)}
    (box : Geo.Point Float → Geo.Point Float → Geo.Box Float) :
    Option.Rel Json.Reordered o₁ o₁' → Option.Rel Json.Reordered o₂ o₂' → other = other' →
      (match o₁, o₂ with
        | some v, some w => return box (← readPoint v) (← readPoint w)
        | _, _ => other) =
        match o₁', o₂' with
        | some v, some w => return box (← readPoint v) (← readPoint w)
        | _, _ => other' := by
  intro h₁ h₂ ho
  cases h₁ with
  | none => exact ho
  | some same₁ =>
    cases h₂ with
    | none => exact ho
    | some same₂ => simp only [readPoint_ignoresOrder same₁, readPoint_ignoresOrder same₂]

theorem readSides_eq {as cs : Members} (h : Members.Reordered as cs)
    (key : String) : readSides key as = readSides key cs := by
  have rel := h.get?_rel
  refine corners_eq .ofTopLeft (rel "topLeft") (rel "bottomRight") ?_
  refine corners_eq .ofTopRight (rel "topRight") (rel "bottomLeft") ?_
  simp only [isSome_get?_eq h, numeric_eq h]

theorem readBox_ignoresOrder (key : String) : IgnoresOrder (readBox key) := fun v w h => by
  cases h with
  | object members => exact readSides_eq members key
  | _ => rfl

theorem readCircle_ignoresOrder (key : String) : IgnoresOrder (readCircle key) := fun v w h => by
  cases h with
  | object members =>
    simp only [readCircle, numeric_eq members]
    obtain ⟨ha, hc⟩ | ⟨v, w, ha, hc, same⟩ :=
      Json.cases_rel (members.get?_rel "center")
    · rw [ha, hc]
    · simp only [ha, hc, readPoint_ignoresOrder same]
  | _ => rfl

theorem readRing_ignoresOrder (key : String) : IgnoresOrder (readRing key) := fun v w h => by
  cases h with
  | array items =>
    simp only [readRing, items.length_eq, mapM_eq_of_forall₂ items (readPoint_ignoresOrder ·)]
  | _ => rfl

end Grammar

theorem LiteralWord.read_eq {v w : Json} (h : v.Reordered w) (word : LiteralWord) :
    word.read v = word.read w := by
  cases word with
  | date | duration => cases h <;> rfl
  | point => simp only [read, Grammar.readPoint_ignoresOrder h]
  | box => simp only [read, Grammar.readBox_ignoresOrder _ h]
  | circle => simp only [read, Grammar.readCircle_ignoresOrder _ h]
  | polygon => simp only [read, Grammar.readRing_ignoresOrder _ h]

namespace Grammar

variable {kc kl : Bool}

theorem agree_readLiteral_object (c : Context) (key : String) {v w : Json}
    (h : v.Reordered w) :
    ((builtin kc kl).readLiteral c (.object [(key, v)])).Agree Literal.Agrees
      ((builtin kc kl).readLiteral c (.object [(key, w)])) := by
  cases wordForm key with
  | empty =>
    rw [readLiteral_empty, readLiteral_empty]
    exact .error
  | word word =>
    rw [readLiteral_word, readLiteral_word, LiteralWord.read_eq h]
    exact Outcome.agree_refl (fun _ => .refl) _
  | unknown hk =>
    rw [readLiteral_unknown _ _ hk, readLiteral_unknown _ _ hk]
    split
    · exact .ok .unknown
    · exact .error

theorem agree_readLiteral (c : Context) {v w : Json} (h : v.Reordered w) :
    ((builtin kc kl).readLiteral c v).Agree Literal.Agrees ((builtin kc kl).readLiteral c w) := by
  cases h with
  | null | bool | number | string => simpa using .ok .refl
  | array =>
    rw [readLiteral_array, readLiteral_array]
    exact .error
  | @object as cs members =>
    by_cases one : as.length = 1
    · obtain ⟨⟨key, v⟩, rfl⟩ := List.length_eq_one_iff.mp one
      obtain ⟨w, same, rfl⟩ := members.exists_singleton
      exact agree_readLiteral_object c key same
    · have many : cs.length ≠ 1 := members.length_eq ▸ one
      rw [readLiteral_object _ one, readLiteral_object _ many]
      exact .error

theorem agree_readLiterals (c : Context) (key : String) {v w : Json} (h : v.Reordered w) :
    ((builtin kc kl).readLiterals c key v).Agree (List.Forall₂ Literal.Agrees)
      ((builtin kc kl).readLiterals c key w) := by
  cases h with
  | array items => exact .mapM items fun _ _ {_} same => agree_readLiteral c same
  | _ => exact .error

/-- Everything that is read from an object agrees with what is read from it in another order. -/
def ReadsAlike (kc kl : Bool) (members : Members) : Prop :=
  ∀ c other, Members.Reordered members other →
    ((builtin kc kl).readMembers c members).Agree Criterion.Agrees
      ((builtin kc kl).readMembers c other)

section Value

variable {c : Context} {key : String} {v w : Json} (h : v.Reordered w)
  (ih : ∀ inner : Members, sizeOf inner < sizeOf v → ReadsAlike kc kl inner)
include h

theorem agree_readAgainst {build build' : Literal → Outcome Criterion}
    (hb : ∀ {l m}, l.Agrees m → (build l).Agree Criterion.Agrees (build' m)) :
    ((builtin kc kl).readAgainst c key v build).Agree Criterion.Agrees
      ((builtin kc kl).readAgainst c key w build') :=
  (Outcome.agree_refl (fun _ => rfl) (requireField c key)).bind fun _ =>
    (agree_readLiteral c h).bind hb

include ih

theorem agree_readObject :
    ((builtin kc kl).readObject c key v).Agree Criterion.Agrees
      ((builtin kc kl).readObject c key w) := by
  cases h with
  | object members => exact ih _ (by simp) c _ members
  | _ => exact .error

theorem agree_readObjects :
    ((builtin kc kl).readObjects c key v).Agree (List.Forall₂ Criterion.Agrees)
      ((builtin kc kl).readObjects c key w) := by
  cases h with
  | array items =>
    refine .mapM items fun item hitem {_} same => agree_readObject same fun inner hinner => ?_
    exact ih inner (Nat.lt_trans hinner (Json.sizeOf_of_mem_array hitem))
  | _ => exact .error

end Value

theorem agree_readPart {c : Context} {s : Source} {key : String} {as cs : Members}
    (h : Members.Reordered as cs)
    (ih : ∀ inner : Members, sizeOf inner < sizeOf (Json.object as) → ReadsAlike kc kl inner) :
    ((builtin kc kl).readPart c s as key).Agree (Option.Rel Criterion.Agrees)
      ((builtin kc kl).readPart c s cs key) := by
  unfold readPart
  obtain ⟨ha, hc⟩ | ⟨v, w, ha, hc, same⟩ := Json.cases_rel (h.get?_rel key)
  · rw [ha, hc]
    exact .ok .none
  · rw [ha, hc]
    refine .map (agree_readObject same fun inner hinner => ?_) .some
    exact ih inner (Nat.lt_trans hinner (Json.sizeOf_of_get? ha))

theorem agree_readRecord {c : Context} {target : Root} {v w : Json} (h : v.Reordered w)
    (ih : ∀ inner : Members, sizeOf inner < sizeOf v → ReadsAlike kc kl inner) :
    ((Keyword.record target).read (builtin kc kl) c v).Agree Criterion.Agrees
      ((Keyword.record target).read (builtin kc kl) c w) := by
  simp only [Keyword.read]
  split
  · exact agree_readObject h ih
  · split
    · exact (agree_readObject h ih).map .join
    · exact (agree_readObject h ih).map fun same => .join (.join same)

theorem agree_readKeyword {c : Context} {v w : Json} (k : Keyword) (h : v.Reordered w)
    (ih : ∀ inner : Members, sizeOf inner < sizeOf v → ReadsAlike kc kl inner) :
    (k.read (builtin kc kl) c v).Agree Criterion.Agrees (k.read (builtin kc kl) c w) := by
  have field := Outcome.agree_refl (fun _ => rfl) (requireField c k.name)
  have installation := Outcome.agree_refl (fun _ => rfl) (requireInstallation c k.name)
  cases k with
  | and => exact (agree_readObjects h ih).map fun same => .and same (.refl _)
  | or => exact (agree_readObjects h ih).map .or
  | not => exact (agree_readObject h ih).map .not
  | equals => exact agree_readAgainst h fun same => .ok (.equals same)
  | compares comparator => exact agree_readAgainst h fun same => .ok (.compares comparator same)
  | startsWith =>
    refine agree_readAgainst h fun same => ?_
    rw [same.asString?]
    split
    · exact .ok (.startsWith same)
    · exact .error
  | inside =>
    refine agree_readAgainst h fun same => ?_
    rw [same.asArea?]
    split
    · exact .ok (.inside _)
    · exact .error
  | any => exact field.bind fun _ => (agree_readLiterals c _ h).map .any
  | all => exact field.bind fun _ => (agree_readLiterals c _ h).map .all
  | geo =>
    refine installation.bind fun _ => ?_
    cases h with
    | object members =>
      exact (agree_readPart members ih).bind fun hl => (agree_readPart members ih).bind fun hd =>
        .ok (.geo hl hd)
    | _ => exact .error
  | lastActivity =>
    exact installation.bind fun _ => (agree_readObject h ih).bind fun same =>
      .ok (.lastActivity same)
  | presence =>
    refine installation.bind fun _ => ?_
    cases h with
    | object members =>
      refine (agree_readFlag members _).bind fun {present _} same => ?_
      subst same
      exact (agree_readPart members ih).bind fun hs => (agree_readPart members ih).bind fun he =>
        .ok (.presence present hs he)
    | _ => exact .error
  | subscription =>
    refine installation.bind fun _ => ?_
    cases h with
    | string => exact (Outcome.agree_refl (fun _ => rfl) _).map fun same => same ▸ .subscription _
    | _ => exact .error
  | record target => exact agree_readRecord h ih

theorem agree_readMember {c : Context} {key : String} {v w : Json} (h : v.Reordered w)
    (ih : ∀ inner : Members, sizeOf inner < sizeOf v → ReadsAlike kc kl inner) :
    ((builtin kc kl).readMember c key v).Agree Criterion.Agrees
      ((builtin kc kl).readMember c key w) := by
  cases keyForm key with
  | empty =>
    rw [readMember_empty, readMember_empty]
    exact .error
  | keyword k =>
    rw [readMember_name, readMember_name]
    exact agree_readKeyword k h ih
  | field path =>
    rw [readMember_field, readMember_field]
    exact agree_readObject h ih
  | unknown hk =>
    rw [readMember_unknown _ _ hk, readMember_unknown _ _ hk]
    split
    · exact .ok .unknown
    · exact .error

theorem readMembers_alike (members : Members) : ReadsAlike kc kl members := by
  induction members using Members.sizeInduction with
  | step members ih =>
    intro c other h
    have read (entry) (hentry : entry ∈ members) {entry' : String × Json}
        (same : Members.SameKey Json.Reordered entry entry') :
        ((builtin kc kl).readMember c entry.1 entry.2).Agree Criterion.Agrees
          ((builtin kc kl).readMember c entry'.1 entry'.2) := by
      cases same with
      | mk same => exact agree_readMember same (ih _ hentry)
    have length := h.length_eq
    match members, other with
    | [], [] =>
      rw [readMembers_nil]
      split
      · exact .ok .matchAll
      · exact .error
    | [(key, v)], _ =>
      obtain ⟨w, same, rfl⟩ := h.exists_singleton
      rw [readMembers_one, readMembers_one]
      exact read _ List.mem_cons_self (.mk same)
    | _ :: _ :: _, _ :: _ :: _ =>
      rw [readMembers_many, readMembers_many]
      -- First the members in their places are read alike, then their places change.
      obtain ⟨distinct, pairs, order⟩ := h
      exact ((Outcome.Agree.mapM pairs read).trans (.mapM_perm order) fun same order =>
        Criterion.Agrees.and same order).map id
    | [], _ :: _ | _ :: _ :: _, [] | _ :: _ :: _, [_] => simp at length

theorem agree_read (r : Root) {d d' : Json} (h : d.Reordered d') :
    ((builtin kc kl).read r d).Agree Criterion.Agrees ((builtin kc kl).read r d') := by
  cases h with
  | object members =>
    exact readMembers_alike _ _ _ members
  | _ => exact .error

/-- A document is read whatever the order of its members, and the segments that it writes in
different orders hold of the same profiles, whatever the order of members there. -/
theorem read_reordered {d d' : Json} (h : d.Reordered d') (kc kl : Bool) :
    (∀ r, ((builtin kc kl).read r d).Succeeds ↔ ((builtin kc kl).read r d').Succeeds) ∧
      ∀ a a', (builtin kc kl).read .installation d = .ok a →
        (builtin kc kl).read .installation d' = .ok a' →
          ∀ (p q : Profile) (now : Int64), p.Reordered q →
            p.belongsTo now a = q.belongsTo now a' :=
  ⟨fun r => (agree_read r h).succeeds, fun _ _ ha ha' _ _ now hp =>
    (agree_read .installation h).results ha ha' now hp hp.installation⟩

def berlinersDocument : Json :=
  .object [
    ("presence", .object [
      ("present", .bool true),
      ("elapsedTime", .object [("lt", .number (.integer 1000))])]),
    (".city", .object [("eq", .string "Berlin")])]

def berlinersTurned : Json :=
  .object [
    (".city", .object [("eq", .string "Berlin")]),
    ("presence", .object [
      ("elapsedTime", .object [("lt", .number (.integer 1000))]),
      ("present", .bool true)])]

def berlinerCity : Criterion :=
  .equals ((Context.root .installation).child (.field (.root .installation) ["city"]))
    (.string "Berlin")

def berlinerPresence : Criterion :=
  let elapsed := (Context.root .installation).child (.elapsedTime (.root .installation) true)
  .presence (.root .installation) true none (some (.compares elapsed .lt (.number (.integer 1000))))

def berliner : Profile where
  installation := .object [("id", .string "b"), ("city", .string "Berlin")]

def berlinerTurned : Profile where
  installation := .object [("city", .string "Berlin"), ("id", .string "b")]

theorem berlinersDocument_reordered : berlinersDocument.Reordered berlinersTurned := by
  have single {key : String} {v : Json} (h : v.Reordered v) :
      (Json.object [(key, v)]).Reordered (.object [(key, v)]) :=
    .object ⟨by simp, .cons (.mk h) .nil, .refl _⟩
  refine .object ⟨by decide, .cons (.mk ?_) (.cons (.mk (single .string)) .nil), .swap ..⟩
  exact .object ⟨by decide, .cons (.mk .bool) (.cons (.mk (single .number)) .nil), .swap ..⟩

theorem berliner_reordered : berliner.Reordered berlinerTurned where
  installation := .object ⟨by decide, .cons (.mk .string) (.cons (.mk .string) .nil), .swap ..⟩
  user := .none
  events := .nil
  presence := rfl
  lastOpened := rfl

theorem read_reordered_berliners :
    berlinersDocument.Reordered berlinersTurned ∧ berliner.Reordered berlinerTurned ∧
      strict.read .installation berlinersDocument =
        .ok (.and (.root .installation) [berlinerPresence, berlinerCity]) ∧
      strict.read .installation berlinersTurned =
        .ok (.and (.root .installation) [berlinerCity, berlinerPresence]) ∧
      berliner.belongsTo 0 (.and (.root .installation) [berlinerPresence, berlinerCity]) = true ∧
      berlinerTurned.belongsTo 0
        (.and (.root .installation) [berlinerCity, berlinerPresence]) = true := by
  have read : strict.read .installation berlinersDocument =
      .ok (.and (.root .installation) [berlinerPresence, berlinerCity]) := by cbv
  have turned : strict.read .installation berlinersTurned =
      .ok (.and (.root .installation) [berlinerCity, berlinerPresence]) := by cbv
  have belongs : berliner.belongsTo 0
      (.and (.root .installation) [berlinerPresence, berlinerCity]) = true := by cbv
  refine ⟨berlinersDocument_reordered, berliner_reordered, read, turned, belongs, ?_⟩
  have same := (read_reordered berlinersDocument_reordered false false).2 _ _ read turned
    berliner berlinerTurned 0 berliner_reordered
  rw [← same, belongs]

end Grammar

end Audience
