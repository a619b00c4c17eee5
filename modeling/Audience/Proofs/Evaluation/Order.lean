import Audience.Proofs.Evaluation.Values

/-! # Evaluation whatever the order

Evaluation looks up members by their keys, goes through lists in order and compares values, none
of which sees the order of members. Criteria agree when they hold of the same profiles up to
that order, and every kind of criterion keeps the agreement of its parts.
-/

namespace Audience

namespace Json

mutual

theorem same_ignoresOrder : ∀ a : Json, IgnoresOrder a.same
  | .object as, _, _, h => by
    cases h with
    | object members =>
      simp only [same, members.length_eq, sameMembers_eq as members]
    | _ => rfl
  | .array as, _, _, h => by
    cases h with
    | array items => simp only [same, sameItems_eq as items]
    | _ => rfl
  | .null, _, _, h | .bool _, _, _, h | .number _, _, _, h | .string _, _, _, h => by
    cases h <;> rfl

theorem sameItems_eq : ∀ (as : List Json) {bs cs : List Json}, List.Forall₂ Reordered bs cs →
    sameItems as bs = sameItems as cs
  | [], _, _, h => by cases h <;> rfl
  | a :: as, _, _, h => by
    cases h with
    | nil => rfl
    | cons head tail => rw [sameItems, sameItems, same_ignoresOrder a head, sameItems_eq as tail]

theorem sameMembers_eq : ∀ (as : List (String × Json)) {bs cs : Members},
    Members.Reordered bs cs → sameMembers as bs = sameMembers as cs
  | [], _, _, _ => rfl
  | (key, a) :: as, bs, cs, h => by
    rw [sameMembers, sameMembers, sameMembers_eq as h]
    obtain ⟨hb, hc⟩ | ⟨v, w, hb, hc, head⟩ := cases_rel (h.get?_rel key)
    · rw [hb, hc]
    · simp only [hb, hc, same_ignoresOrder a head]

end

theorem equal_ignoresOrder (a : Json) : IgnoresOrder a.equal := fun v w h => by
  cases a with
  | number n => cases h <;> rfl
  | _ => exact same_ignoresOrder _ h

theorem compare?_ignoresOrder (a : Json) : IgnoresOrder (·.compare? a) := fun v w h => by
  cases h <;> cases a <;> rfl

theorem get?_rel {v w : Json} (h : v.Reordered w) (key : String) :
    Option.Rel Reordered (v.get? key) (w.get? key) := by
  cases h with
  | object members => exact members.get?_rel key
  | _ => exact .none

theorem step?_rel {v w : Json} (h : v.Reordered w) (key : String) :
    Option.Rel Reordered (v.step? key) (w.step? key) := by
  cases h with
  | object members => exact members.get?_rel key
  | array items =>
    simp only [step?]
    cases Path.index? key with
    | none => exact .none
    | some i => exact getElem?_rel_of_forall₂ items i
  | _ => exact .none

theorem at?_rel {v w : Json} (h : v.Reordered w) (path : Path) :
    Option.Rel Reordered (v.at? path) (w.at? path) := by
  induction path generalizing v w with
  | nil => exact .some h
  | cons key path ih =>
    simp only [at?, List.foldlM_cons]
    exact rel_bind ih (step?_rel h key)

end Json

theorem Geo.Point.ofJson?_ignoresOrder : Json.IgnoresOrder Geo.Point.ofJson? := fun v w h => by
  cases h with
  | object members =>
    have rel := members.get?_rel
    simp only [ofJson?, Json.asFloat?_ignoresOrder.bind_eq (rel "lat"),
      Json.asFloat?_ignoresOrder.bind_eq (rel "lon")]
  | _ => rfl

namespace Json

theorem Reordered.alike {v w : Json} (h : v.Reordered w) : v.Alike w where
  equal _ := equal_ignoresOrder _ h
  compare? expected := compare?_ignoresOrder expected h
  asString? := asString?_ignoresOrder h
  point := Geo.Point.ofJson?_ignoresOrder h

theorem values_alike_of_rel {o o' : Option Json} (h : Option.Rel Reordered o o') :
    List.Forall₂ Alike (values o) (values o') := by
  cases h with
  | none => exact .nil
  | some same =>
    have alike := same.alike
    cases same with
    | null => exact .nil
    | array items =>
      exact values_array_alike (items.imp fun v w same => ⟨same.alike, isNull_ignoresOrder same⟩)
    | _ => exact .cons alike .nil

theorem Reordered.fieldsAlike {v w : Json} (h : v.Reordered w) : v.FieldsAlike w :=
  fieldsAlike_of_values fun path => values_alike_of_rel (at?_rel h path)

end Json

/-- Profiles that differ in nothing but the order of members in their records. -/
structure Profile.Reordered (p q : Profile) : Prop where
  installation : p.installation.Reordered q.installation
  user : Option.Rel Json.Reordered p.user q.user
  events : List.Forall₂ Json.Reordered p.events q.events
  presence : p.presence = q.presence
  lastOpened : p.lastOpened = q.lastOpened

namespace Profile.Reordered

variable {p q : Profile} (h : p.Reordered q)
include h

theorem userRecord : p.userRecord.Reordered q.userRecord := by
  unfold Profile.userRecord
  obtain ⟨hp, hq⟩ | ⟨v, w, hp, hq, same⟩ := Json.cases_rel h.user
  · rw [hp, hq]
    exact Json.reordered_object .nil (List.forall_mem_nil _)
  · rw [hp, hq]
    exact same

theorem subscription : p.subscription = q.subscription := by
  have text (key inner : String) :
      ((p.installation.get? key).bind (·.get? inner)).bind Json.asString? =
        ((q.installation.get? key).bind (·.get? inner)).bind Json.asString? := by
    exact Json.asString?_ignoresOrder.bind_eq
      (Json.rel_bind (Json.get?_rel · inner) (Json.get?_rel h.installation key))
  simp only [Profile.subscription, text]

theorem alike : p.Alike q where
  installation := h.installation.fieldsAlike
  subscription := h.subscription
  presence := h.presence
  lastOpened := h.lastOpened

theorem valuesOf (now : Int64) {v w : Json} (hr : v.Reordered w) (s : Source) :
    List.Forall₂ Json.Alike (p.valuesOf now v s) (q.valuesOf now w s) :=
  h.alike.valuesOf now hr.fieldsAlike s

end Profile.Reordered

/-- Literals that are the same but for what stands at a key that no rule knows. -/
inductive Literal.Agrees : Literal → Literal → Prop where
  | refl {l} : Agrees l l
  | unknown {key v w} : Agrees (.unknown key v) (.unknown key w)

namespace Literal.Agrees

variable {l m : Literal} (h : l.Agrees m)
include h

theorem resolve? (now : Int64) : l.resolve? now = m.resolve? now := by
  cases h <;> rfl

theorem asString? : l.asString? = m.asString? := by
  cases h <;> rfl

theorem asArea? : l.asArea? = m.asArea? := by
  cases h <;> rfl

end Literal.Agrees

/-- Criteria that hold of the same profiles, whatever the order of members there. -/
def Criterion.Agrees (a b : Criterion) : Prop :=
  ∀ ⦃p q : Profile⦄ ⦃v w : Json⦄ (now : Int64), p.Reordered q → v.Reordered w →
    a.holds p now v = b.holds q now w

namespace Criterion.Agrees

variable {c : Context} {a b : Criterion} {l m : Literal} {ls ms : List Literal}
  {as bs cs : List Criterion}

theorem matchAll : (matchAll c).Agrees (matchAll c) := fun _ _ _ _ _ _ _ => rfl

theorem equals (hl : l.Agrees m) : (equals c l).Agrees (equals c m) := fun _ _ _ _ now hp hr =>
  Literal.isAmong_eq (hp.valuesOf now hr c.source) (hl.resolve? now)

theorem compares (comparator : Comparator) (hl : l.Agrees m) :
    (compares c comparator l).Agrees (compares c comparator m) := fun _ _ _ _ now hp hr =>
  Literal.isAccepted_eq (hp.valuesOf now hr c.source) (hl.resolve? now) comparator

theorem startsWith (hl : l.Agrees m) : (startsWith c l).Agrees (startsWith c m) :=
  fun _ _ _ _ now hp hr => Literal.isInitial_eq (hp.valuesOf now hr c.source) hl.asString?

theorem any (hl : List.Forall₂ Literal.Agrees ls ms) : (any c ls).Agrees (any c ms) :=
  fun _ _ _ _ now hp hr => any_eq_of_forall₂ hl fun same =>
    Literal.isAmong_eq (hp.valuesOf now hr c.source) (same.resolve? now)

theorem all (hl : List.Forall₂ Literal.Agrees ls ms) : (all c ls).Agrees (all c ms) :=
  fun _ _ _ _ now hp hr => all_eq_of_forall₂ hl fun same =>
    Literal.isAmong_eq (hp.valuesOf now hr c.source) (same.resolve? now)

theorem inside (area : Geo.Area) : (inside c area).Agrees (inside c area) :=
  fun _ _ _ _ now hp hr => any_point_eq (hp.valuesOf now hr c.source) area.contains

theorem not (h : a.Agrees b) : (not c a).Agrees (not c b) := fun _ _ _ _ now hp hr => by
  simp only [holds, h now hp hr]

theorem and (h : List.Forall₂ Agrees as bs) (order : bs.Perm cs) : (and c as).Agrees (and c cs) :=
  fun _ _ _ _ now hp hr => by
    rw [holds_and, holds_and, map_eq_of_forall₂ h (fun same => same now hp hr), (order.map _).all_eq]

theorem or (h : List.Forall₂ Agrees as bs) : (or c as).Agrees (or c bs) :=
  fun _ _ _ _ now hp hr => by
    rw [holds_or, holds_or, map_eq_of_forall₂ h (fun same => same now hp hr)]

theorem ifGiven {o o' : Option Criterion} (h : Option.Rel Agrees o o') {p q : Profile}
    {v w : Json} (now : Int64) (hp : p.Reordered q) (hr : v.Reordered w) :
    holdsIfGiven p now v o = holdsIfGiven q now w o' := by
  cases h with
  | none => rfl
  | some same => exact same now hp hr

theorem geo {location location' date date' : Option Criterion}
    (hl : Option.Rel Agrees location location') (hd : Option.Rel Agrees date date') :
    (geo c location date).Agrees (geo c location' date') := fun _ _ _ _ now hp hr => by
  simp only [holds, ifGiven hl now hp hr, ifGiven hd now hp hr]

theorem lastActivity (h : a.Agrees b) :
    (lastActivity c (some a)).Agrees (lastActivity c (some b)) := fun _ _ _ _ now hp hr => by
  simp only [holds, h now hp hr]

theorem presence (present : Bool) {since since' elapsed elapsed' : Option Criterion}
    (hs : Option.Rel Agrees since since') (he : Option.Rel Agrees elapsed elapsed') :
    (presence c present since elapsed).Agrees (presence c present since' elapsed') :=
  fun _ _ _ _ now hp hr => by
    simp only [holds, hp.alike.isPresent, ifGiven hs now hp hr, ifGiven he now hp hr]

theorem subscription (status : Subscription) :
    (subscription c status).Agrees (subscription c status) := fun _ _ _ _ _ hp _ => by
  simp only [holds, hp.subscription]

theorem join (h : a.Agrees b) : (join c a).Agrees (join c b) := fun p q v w now hp hr => by
  simp only [holds]
  split
  · exact h now hp hp.installation
  · exact h now hp hp.userRecord
  · exact any_eq_of_forall₂ hp.events fun same => h now hp same
  · rfl

theorem unknown {key : String} {v w : Json} : (unknown c key v).Agrees (unknown c key w) :=
  fun _ _ _ _ _ _ _ => rfl

end Criterion.Agrees

end Audience
