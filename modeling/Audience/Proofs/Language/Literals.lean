import Audience.Proofs.Geo.Names
import Audience.Proofs.Reading.Literals

/-! # The language of literals

Which values strict reading takes for literals is said here without reading them: what a date, a
duration, a point and an area look like. The texts of dates and durations come in forms of which
no text has two.
-/

namespace Audience

def IsGeohash (text : String) : Prop :=
  ∀ c ∈ Text.lowercase text.toList, c ∈ Geo.alphabet

/-- A distance from now or an absolute date. -/
def IsDateText (text : String) : Prop :=
  (Duration.parse? text).isSome ∨ (Timestamp.parse? text).isSome

/-- A calendar duration, or an amount with a unit that a double can hold. -/
def IsDurationText (text : String) : Prop :=
  (Duration.parse? text).isSome ∨ ∃ x, Spoken.millis text = .ok x ∧ Binary64.isFinite x = true

def Members.HasNumber (members : Members) (key : String) : Prop :=
  ∃ n, members.get? key = some (.number n)

def Members.HasBoth (members : Members) (key other : String) : Prop :=
  (members.get? key).isSome ∧ (members.get? other).isSome

inductive IsDate : Json → Prop where
  | number (n : Number) : IsDate (.number n)
  | text {text : String} (h : IsDateText text) : IsDate (.string text)

inductive IsDuration : Json → Prop where
  | number (n : Number) : IsDuration (.number n)
  | text {text : String} (h : IsDurationText text) : IsDuration (.string text)

inductive IsPoint : Json → Prop where
  | geohash {text : String} (h : IsGeohash text) : IsPoint (.string text)
  | coordinates {members : Members} (lat : members.HasNumber "lat")
      (lon : members.HasNumber "lon") : IsPoint (.object members)

def Members.HasPoints (members : Members) (key other : String) : Prop :=
  (∃ value, members.get? key = some value ∧ IsPoint value) ∧
    ∃ value, members.get? other = some value ∧ IsPoint value

theorem Members.HasPoints.hasBoth {members : Members} {key other : String}
    (h : members.HasPoints key other) : members.HasBoth key other := by
  obtain ⟨⟨a, ha, -⟩, b, hb, -⟩ := h
  simp [HasBoth, ha, hb]

/-- Two opposite corners or four sides. Where several are there the first pair of corners counts,
and sides count only without a pair of corners. -/
inductive IsSides (members : Members) : Prop where
  | ofTopLeft (h : members.HasPoints "topLeft" "bottomRight")
  | ofTopRight (other : ¬ members.HasBoth "topLeft" "bottomRight")
      (h : members.HasPoints "topRight" "bottomLeft")
  | ofSides (other : ¬ members.HasBoth "topLeft" "bottomRight")
      (another : ¬ members.HasBoth "topRight" "bottomLeft")
      (h : ∀ side ∈ ["top", "right", "bottom", "left"], members.HasNumber side)

inductive IsBox : Json → Prop where
  | geohash {text : String} (h : IsGeohash text) : IsBox (.string text)
  | sides {members : Members} (h : IsSides members) : IsBox (.object members)

inductive IsCircle : Json → Prop where
  | mk {members : Members} {center : Json} (radius : members.HasNumber "radius")
      (h : members.get? "center" = some center) (point : IsPoint center) :
      IsCircle (.object members)

inductive IsPolygon : Json → Prop where
  | mk {items : List Json} (three : 3 ≤ items.length) (h : ∀ item ∈ items, IsPoint item) :
      IsPolygon (.array items)

def LiteralWord.Takes (value : Json) : LiteralWord → Prop
  | date => IsDate value
  | duration => IsDuration value
  | point => IsPoint value
  | box => IsBox value
  | circle => IsCircle value
  | polygon => IsPolygon value

theorem LiteralWord.name_inj {w w' : LiteralWord} (h : w.name = w'.name) : w = w' := by
  cases w <;> cases w' <;> first | rfl | simp [name] at h

inductive IsLiteral : Json → Prop where
  | null : IsLiteral .null
  | bool (b : Bool) : IsLiteral (.bool b)
  | number (n : Number) : IsLiteral (.number n)
  | string (s : String) : IsLiteral (.string s)
  | word {w : LiteralWord} {value : Json} (h : w.Takes value) :
      IsLiteral (.object [(w.name, value)])

theorem isLiteral_object_iff {key : String} {value : Json} :
    IsLiteral (.object [(key, value)]) ↔ ∃ w : LiteralWord, key = w.name ∧ w.Takes value := by
  constructor
  · intro h
    cases h with
    | word h => exact ⟨_, rfl, h⟩
  · rintro ⟨w, rfl, h⟩
    exact .word h

def LiteralWord.isArea : LiteralWord → Bool
  | box | circle | polygon => true
  | date | duration | point => false

inductive IsArea : Json → Prop where
  | word {w : LiteralWord} {value : Json} (area : w.isArea = true) (h : w.Takes value) :
      IsArea (.object [(w.name, value)])

theorem Duration.isAnnounced_of_parse? {text : String} (h : (parse? text).isSome) :
    isAnnounced text = true := by
  unfold parse? ofText? at h
  split at h
  case h_1 positive rest hs => simp [isAnnounced, hs]
  case h_2 => simp at h

/-- What announces a calendar duration begins with its letter, perhaps after a sign. -/
theorem Duration.toList_of_isAnnounced {text : String} (h : isAnnounced text = true) :
    ∃ rest, text.toList = 'P' :: rest ∨ text.toList = '+' :: 'P' :: rest ∨
      text.toList = '-' :: 'P' :: rest := by
  unfold isAnnounced splitSign at h
  split at h <;> simp only [decide_eq_true_eq, List.head?_eq_some_iff] at h <;>
    obtain ⟨rest, hr⟩ := h <;> refine ⟨rest, ?_⟩
  case h_1 hs => exact .inr (.inl (by rw [hs, hr]))
  case h_2 hs => exact .inr (.inr (by rw [hs, hr]))
  case h_3 => exact .inl hr

theorem Timestamp.parse?_of_isAnnounced {text : String} (h : Duration.isAnnounced text = true) :
    parse? text = none := by
  obtain ⟨rest, hr | hr | hr⟩ := Duration.toList_of_isAnnounced h <;>
    simp [parse?, fields?, dates, digits?, hr, Char.isDigit]

theorem Spoken.millis_of_isAnnounced {text : String} (h : Duration.isAnnounced text = true) :
    millis text = .error (.shape text) := by
  obtain ⟨rest, hr | hr | hr⟩ := Duration.toList_of_isAnnounced h <;>
  · have shape : Shape.ofChars? text.toList = none := by
      simp [Shape.ofChars?, hr, Text.isBlank, splitSign, isMantissa, Char.isDigit]
    simp [millis, shape]
    rfl

namespace Grammar

open Outcome

theorem succeeds_geohash {text : String} : Succeeds (geohash text) ↔ IsGeohash text := by
  rw [IsGeohash, ← Geo.bitsOfText_eq_ok_iff, geohash, Geo.Geohash.parse]
  cases Geo.bitsOfText (Text.lowercase text.toList) <;> simp [Functor.map, Except.map]

theorem succeeds_numeric {key : String} {members : Members} {field : String} :
    Succeeds (numeric key members field) ↔ members.HasNumber field := by
  unfold numeric Members.HasNumber
  cases members.get? field with
  | none => simp
  | some value => cases value <;> simp [Json.asFloat?]

theorem succeeds_writtenDuration {text : String} :
    Succeeds (writtenDuration text) ↔ (Duration.parse? text).isSome := by
  unfold writtenDuration
  cases Duration.parse? text <;> simp

theorem succeeds_spokenDuration {text : String} :
    Succeeds (spokenDuration text) ↔
      ∃ x, Spoken.millis text = .ok x ∧ Binary64.isFinite x = true := by
  unfold spokenDuration
  cases Spoken.millis text with
  | error f => simp
  | ok x => cases h : Binary64.isFinite x <;> simp [h]

theorem succeeds_readDate {key : String} {value : Json} :
    Succeeds (readDate key value) ↔ IsDate value := by
  cases value with
  | number n => exact ⟨fun _ => .number n, fun _ => ⟨_, rfl⟩⟩
  | string text =>
    -- The announcement decides how a text is read, and no text can be read in both ways.
    have texts : Succeeds (readDate key (.string text)) ↔ IsDateText text := by
      rw [readDate, IsDateText]
      cases ha : Duration.isAnnounced text with
      | true => simp [succeeds_writtenDuration, Timestamp.parse?_of_isAnnounced ha]
      | false =>
        have hd : ¬ (Duration.parse? text).isSome := fun hd => by
          simp [Duration.isAnnounced_of_parse? hd] at ha
        cases Timestamp.parse? text <;> simp [hd]
    exact texts.trans ⟨.text, fun | .text h => h⟩
  | _ => exact iff_of_false (not_succeeds_fault _) (by rintro ⟨⟩)

theorem succeeds_readDuration {key : String} {value : Json} :
    Succeeds (readDuration key value) ↔ IsDuration value := by
  cases value with
  | number n => exact ⟨fun _ => .number n, fun _ => ⟨_, rfl⟩⟩
  | string text =>
    have texts : Succeeds (readDuration key (.string text)) ↔ IsDurationText text := by
      rw [readDuration, IsDurationText]
      cases ha : Duration.isAnnounced text with
      | true => simp [succeeds_writtenDuration, Spoken.millis_of_isAnnounced ha]
      | false =>
        have hd : ¬ (Duration.parse? text).isSome := fun hd => by
          simp [Duration.isAnnounced_of_parse? hd] at ha
        simp [succeeds_spokenDuration, hd]
    exact texts.trans ⟨.text, fun | .text h => h⟩
  | _ => exact iff_of_false (not_succeeds_fault _) (by rintro ⟨⟩)

theorem succeeds_readPoint {value : Json} : Succeeds (readPoint value) ↔ IsPoint value := by
  cases value with
  | string text =>
    rw [readPoint, succeeds_map, succeeds_geohash]
    exact ⟨.geohash, fun | .geohash h => h⟩
  | object members =>
    rw [readPoint, succeeds_both, succeeds_numeric, succeeds_numeric]
    exact ⟨fun h => .coordinates h.1 h.2, fun | .coordinates lat lon => ⟨lat, lon⟩⟩
  | _ => exact iff_of_false (not_succeeds_fault _) (by rintro ⟨⟩)

theorem succeeds_corners {members : Members} {key other : String} {a b : Json}
    {build : Geo.Point Float → Geo.Point Float → Geo.Box Float}
    (ha : members.get? key = some a) (hb : members.get? other = some b) :
    Succeeds (do let p ← readPoint a; let q ← readPoint b; return build p q) ↔
      members.HasPoints key other := by
  rw [succeeds_both, succeeds_readPoint, succeeds_readPoint]
  simp [Members.HasPoints, ha, hb]

theorem succeeds_sides {key : String} {members : Members} :
    Succeeds (if ["top", "right", "bottom", "left"].all fun side => (members.get? side).isSome then
        do
          let top ← numeric key members "top"
          let right ← numeric key members "right"
          let bottom ← numeric key members "bottom"
          let left ← numeric key members "left"
          return (⟨top, right, bottom, left⟩ : Geo.Box Float)
      else fault (.expects key .corners)) ↔
      ∀ side ∈ ["top", "right", "bottom", "left"], members.HasNumber side := by
  split
  case isTrue =>
    simp only [List.forall_mem_cons, ← @succeeds_numeric key]
    cases numeric key members "top" <;> cases numeric key members "right" <;>
      cases numeric key members "bottom" <;> cases numeric key members "left" <;> simp
  case isFalse missing =>
    refine iff_of_false (not_succeeds_fault _) fun h => missing ?_
    rw [List.all_eq_true]
    intro side hside
    obtain ⟨n, hn⟩ := h side hside
    simp [hn]

theorem succeeds_readSides {key : String} {members : Members} :
    Succeeds (readSides key members) ↔ IsSides members := by
  unfold readSides
  split
  case h_1 ha hb =>
    have both : members.HasBoth "topLeft" "bottomRight" := by simp [Members.HasBoth, ha, hb]
    rw [succeeds_corners ha hb]
    refine ⟨.ofTopLeft, fun h => ?_⟩
    cases h with
    | ofTopLeft h => exact h
    | ofTopRight other | ofSides other => exact absurd both other
  case h_2 ne =>
    have other : ¬ members.HasBoth "topLeft" "bottomRight" := by
      rintro ⟨ha, hb⟩
      exact ne _ _ (Option.some_get ha).symm (Option.some_get hb).symm
    split
    case h_1 ha hb =>
      have both : members.HasBoth "topRight" "bottomLeft" := by simp [Members.HasBoth, ha, hb]
      rw [succeeds_corners ha hb]
      refine ⟨.ofTopRight other, fun h => ?_⟩
      cases h with
      | ofTopLeft h => exact absurd h.hasBoth other
      | ofTopRight _ h => exact h
      | ofSides _ another => exact absurd both another
    case h_2 ne' =>
      have another : ¬ members.HasBoth "topRight" "bottomLeft" := by
        rintro ⟨ha, hb⟩
        exact ne' _ _ (Option.some_get ha).symm (Option.some_get hb).symm
      rw [succeeds_sides]
      refine ⟨.ofSides other another, fun h => ?_⟩
      cases h with
      | ofTopLeft h => exact absurd h.hasBoth other
      | ofTopRight _ h => exact absurd h.hasBoth another
      | ofSides _ _ h => exact h

theorem succeeds_readBox {key : String} {value : Json} :
    Succeeds (readBox key value) ↔ IsBox value := by
  cases value with
  | string text =>
    rw [readBox, succeeds_map, succeeds_geohash]
    exact ⟨.geohash, fun | .geohash h => h⟩
  | object members =>
    rw [readBox, succeeds_readSides]
    exact ⟨.sides, fun | .sides h => h⟩
  | _ => exact iff_of_false (not_succeeds_fault _) (by rintro ⟨⟩)

theorem succeeds_readCircle {key : String} {value : Json} :
    Succeeds (readCircle key value) ↔ IsCircle value := by
  cases value with
  | object members =>
    have parts : Succeeds (readCircle key (.object members)) ↔
        Members.HasNumber members "radius" ∧
          ∃ center, Members.get? members "center" = some center ∧ IsPoint center := by
      simp only [readCircle, ← succeeds_readPoint, ← @succeeds_numeric key]
      cases numeric key members "radius" with
      | error e => simp
      | ok radius =>
        cases Members.get? members "center" with
        | none => simp
        | some center =>
          simp only [ok_bind]
          rw [succeeds_bind]
          simp [Succeeds]
    rw [parts]
    constructor
    · rintro ⟨radius, center, h, point⟩
      exact .mk radius h point
    · rintro ⟨radius, h, point⟩
      exact ⟨radius, _, h, point⟩
  | _ => exact iff_of_false (not_succeeds_fault _) (by rintro ⟨⟩)

theorem succeeds_readRing {key : String} {value : Json} :
    Succeeds (readRing key value) ↔ IsPolygon value := by
  cases value with
  | array items =>
    rw [readRing]
    split
    case isTrue few =>
      exact iff_of_false (not_succeeds_fault _) fun | .mk three _ => by omega
    case isFalse three =>
      simp only [succeeds_mapM, succeeds_readPoint]
      exact ⟨.mk (by omega), fun | .mk _ h => h⟩
  | _ => exact iff_of_false (not_succeeds_fault _) (by rintro ⟨⟩)

theorem succeeds_word {w : LiteralWord} {value : Json} :
    Succeeds (w.read value) ↔ w.Takes value := by
  cases w with
  | date => exact succeeds_readDate
  | duration => exact succeeds_readDuration
  | point => exact succeeds_map.trans succeeds_readPoint
  | box => exact succeeds_map.trans succeeds_readBox
  | circle => exact succeeds_map.trans succeeds_readCircle
  | polygon => exact succeeds_map.trans succeeds_readRing

theorem succeeds_readLiteral {c : Context} {value : Json} :
    Succeeds (strict.readLiteral c value) ↔ IsLiteral value := by
  unfold strict
  match value with
  | .null => simpa using IsLiteral.null
  | .bool b => simpa using IsLiteral.bool b
  | .number n => simpa using IsLiteral.number n
  | .string s => simpa using IsLiteral.string s
  | .array items =>
    rw [readLiteral_array]
    exact iff_of_false (not_succeeds_fault _) (by rintro ⟨⟩)
  | .object [] =>
    rw [readLiteral_object _ (by simp)]
    exact iff_of_false (not_succeeds_fault _) (by rintro ⟨⟩)
  | .object [(key, inner)] =>
    rw [isLiteral_object_iff]
    cases wordForm key with
    | empty =>
      rw [readLiteral_empty]
      exact ⟨nofun, fun ⟨w, hw, _⟩ => absurd hw.symm w.name_ne_empty⟩
    | word w =>
      rw [readLiteral_word, succeeds_word]
      exact ⟨fun h => ⟨w, rfl, h⟩, fun ⟨w', hw, h⟩ => LiteralWord.name_inj hw ▸ h⟩
    | unknown hk =>
      rw [readLiteral_unknown _ _ hk]
      exact ⟨nofun, fun ⟨w, hw, _⟩ => absurd hw (hk.ne_name w)⟩
  | .object (first :: second :: rest) =>
    rw [readLiteral_object _ (by simp)]
    exact iff_of_false (not_succeeds_fault _) (by rintro ⟨⟩)

theorem readDate_plain {key : String} {value : Json} {l : Literal}
    (h : readDate key value = .ok l) : l.asString? = none ∧ l.asArea? = none := by
  unfold readDate at h
  split at h
  · cases h
    exact ⟨rfl, rfl⟩
  · split at h
    · obtain ⟨d, -, rfl⟩ := map_eq_ok_iff.mp h
      exact ⟨rfl, rfl⟩
    · split at h <;> cases h
      exact ⟨rfl, rfl⟩
  · cases h

theorem readDuration_plain {key : String} {value : Json} {l : Literal}
    (h : readDuration key value = .ok l) : l.asString? = none ∧ l.asArea? = none := by
  unfold readDuration at h
  split at h
  · cases h
    exact ⟨rfl, rfl⟩
  · split at h <;> obtain ⟨d, -, rfl⟩ := map_eq_ok_iff.mp h <;> exact ⟨rfl, rfl⟩
  · cases h

theorem word_asString? {w : LiteralWord} {value : Json} {l : Literal}
    (h : w.read value = .ok l) : l.asString? = none := by
  cases w with
  | date => exact (readDate_plain h).1
  | duration => exact (readDuration_plain h).1
  | point | box | circle | polygon =>
    obtain ⟨_, -, rfl⟩ := map_eq_ok_iff.mp h
    rfl

theorem word_asArea? {w : LiteralWord} {value : Json} {l : Literal}
    (h : w.read value = .ok l) : l.asArea?.isSome = w.isArea := by
  cases w with
  | date => simp [(readDate_plain h).2, LiteralWord.isArea]
  | duration => simp [(readDuration_plain h).2, LiteralWord.isArea]
  | point | box | circle | polygon =>
    obtain ⟨_, -, rfl⟩ := map_eq_ok_iff.mp h
    rfl

theorem exists_string_iff {c : Context} {value : Json} :
    (∃ l, strict.readLiteral c value = .ok l ∧ l.asString?.isSome = true) ↔
      ∃ text, value = .string text := by
  constructor
  · rintro ⟨l, h, string⟩
    unfold strict at h
    cases succeeds_readLiteral.mp ⟨l, h⟩ with
    | string text => exact ⟨text, rfl⟩
    | word =>
      rw [readLiteral_word] at h
      simp [word_asString? h] at string
    | null | bool | number =>
      simp only [readLiteral_null, readLiteral_bool, readLiteral_number] at h
      cases h
      cases string
  · rintro ⟨text, rfl⟩
    exact ⟨.string text, readLiteral_string c text, rfl⟩

theorem exists_area_iff {c : Context} {value : Json} :
    (∃ l, strict.readLiteral c value = .ok l ∧ l.asArea?.isSome = true) ↔ IsArea value := by
  constructor
  · rintro ⟨l, h, area⟩
    unfold strict at h
    cases succeeds_readLiteral.mp ⟨l, h⟩ with
    | word takes =>
      rw [readLiteral_word] at h
      exact .word (by rw [← word_asArea? h, area]) takes
    | null | bool | number | string =>
      simp only [readLiteral_null, readLiteral_bool, readLiteral_number, readLiteral_string] at h
      cases h
      cases area
  · rintro ⟨area, takes⟩
    obtain ⟨l, h⟩ := succeeds_word.mpr takes
    exact ⟨l, by rw [strict, readLiteral_word, h], by rw [word_asArea? h, area]⟩

end Grammar

end Audience
