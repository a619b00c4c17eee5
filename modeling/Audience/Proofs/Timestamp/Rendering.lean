import Mathlib
import Audience.Proofs.Timestamp.Reading

/-! # Rendered instants

An instant is written in full at an offset of whole minutes, and fields at their defaults may then
be left out from the end of the time on, while the offset stays. Reading gives the instant back.
Where a date that was cut short stands before an offset to the west, the offset may be taken for a
month or a day at first, but its minutes cannot follow a date.
-/

namespace Audience.Timestamp

namespace Spelling

/-- Leaves out the last field of the time, or of the date if there is no time, where this field is
at its default. -/
inductive Drops : Spelling → Spelling → Prop where
  | milli {d h m s o} : Drops ⟨d, some (.milli h m s 0), o⟩ ⟨d, some (.second h m s), o⟩
  | second {d h m o} : Drops ⟨d, some (.second h m 0), o⟩ ⟨d, some (.minute h m), o⟩
  | minute {d h o} : Drops ⟨d, some (.minute h 0), o⟩ ⟨d, some (.hour h), o⟩
  | hour {d o} : Drops ⟨d, some (.hour 0), o⟩ ⟨d, none, o⟩
  | day {y m o} : Drops ⟨.day y m 1, none, o⟩ ⟨.month y m, none, o⟩
  | month {y o} : Drops ⟨.month y 1, none, o⟩ ⟨.year y, none, o⟩

theorem Drops.keeps {x y : Spelling} (h : Drops x y) :
    y.fields = x.fields ∧ y.offset = x.offset := by
  cases h <;> exact ⟨rfl, rfl⟩

theorem keeps_of_drops {x y : Spelling} (h : Relation.ReflTransGen Drops x y) :
    y.fields = x.fields ∧ y.offset = x.offset := by
  induction h with
  | refl => exact ⟨rfl, rfl⟩
  | tail _ step ih =>
    obtain ⟨fields, offset⟩ := step.keeps
    exact ⟨fields.trans ih.1, offset.trans ih.2⟩

end Spelling

section LongestDate

/-- Where one date is longer than another, the text goes on with a dash and two digits behind the
shorter one. What follows these is the rest of the text, or another dash. -/
theorem exists_longer {d e : DateText} {s rest : List Char}
    (same : d.chars ++ s = e.chars ++ rest) (longer : d.chars.length < e.chars.length) :
    ∃ (n : Fin 100) (after : List Char),
      s = '-' :: (padded 2 n ++ after) ∧ (after = rest ∨ after.head? = some '-') := by
  cases d with
  | year =>
    cases e with
    | year => simp [DateText.chars] at longer
    | month _ m =>
      simp only [DateText.chars, List.append_assoc, List.cons_append] at same
      exact ⟨m, rest, (List.append_inj same (by simp)).2, .inl rfl⟩
    | day _ m d =>
      simp only [DateText.chars, List.append_assoc, List.cons_append] at same
      exact ⟨m, '-' :: (padded 2 d ++ rest), (List.append_inj same (by simp)).2, .inr rfl⟩
  | month =>
    cases e with
    | year | month => simp [DateText.chars] at longer
    | day _ _ d =>
      simp only [DateText.chars, List.append_assoc, List.cons_append] at same
      have months := List.cons.inj (List.append_inj same (by simp)).2
      exact ⟨d, rest, (List.append_inj months.2 (by simp)).2, .inl rfl⟩
  | day => cases e <;> simp [DateText.chars] at longer

theorem Spelling.head?_tail_ne_colon (x : Spelling) : x.tail.head? ≠ some ':' := by
  cases h : x.time with
  | none =>
    rw [Spelling.tail, h]
    exact head?_offset_ne (by decide) x.offset
  | some t => cases t <;> simp [Spelling.tail, h, TimeText.chars]

theorem Spelling.offset_of_tail {x : Spelling} {n : Fin 100} {after : List Char}
    (h : x.tail = '-' :: (padded 2 n ++ after)) :
    (∃ east hour, x.offset = some (.hour east hour)) ∨ after.head? = some ':' := by
  obtain ⟨date, time, offset⟩ := x
  cases time with
  | some t => cases t <;> simp [Spelling.tail, TimeText.chars] at h
  | none =>
    cases offset with
    | none => cases h
    | some o =>
      cases o with
      | utc => simp [Spelling.tail, OffsetText.chars] at h
      | hour east hour => exact .inl ⟨east, hour, rfl⟩
      | minute east hour minute =>
        have chars : OffsetText.sign east :: (padded 2 hour ++ ':' :: padded 2 minute) =
          '-' :: (padded 2 n ++ after) := h
        have minutes := (List.append_inj (List.cons.inj chars).2 (by simp)).2
        exact .inr (by rw [← minutes, List.head?_cons])

/-- Only hours without minutes could be taken for more of the date. -/
theorem Spelling.hasLongestDate {x : Spelling}
    (h : ∀ east hour, x.offset ≠ some (.hour east hour)) : x.HasLongestDate := by
  intro y same
  by_contra! longer
  obtain ⟨n, after, tail, follows⟩ := exists_longer (chars_eq_of_text_eq same.symm) longer
  rcases offset_of_tail tail with ⟨east, hour, offset⟩ | colon
  · exact h east hour offset
  · rcases follows with rfl | dash
    · exact y.head?_tail_ne_colon colon
    · rw [dash] at colon
      exact absurd colon (by decide)

end LongestDate

section Fields

def DateText.ofDate (d : Calendar.Date) : DateText :=
  .day (Fin.ofNat 10000 d.year.toNat) (Fin.ofNat 100 d.month) (Fin.ofNat 100 d.day)

def TimeText.ofMillis (millis : Nat) : TimeText :=
  .milli (Fin.ofNat 100 (millis / 3600000)) (Fin.ofNat 100 (millis / 60000 % 60))
    (Fin.ofNat 100 (millis / 1000 % 60)) (Fin.ofNat 1000 (millis % 1000))

def OffsetText.ofMinutes (zone : Int) : OffsetText :=
  .minute (0 ≤ zone) (Fin.ofNat 100 (zone.natAbs / 60)) (Fin.ofNat 100 (zone.natAbs % 60))

/-- The ways to write an offset in full. No offset may also be written `Z`, or not at all. -/
def offsetForms (zone : Int) : List (Option OffsetText) :=
  some (.ofMinutes zone) :: if zone = 0 then [some (.minute false 0 0), some .utc, none] else []

theorem DateText.date_ofDate {d : Calendar.Date} (valid : d.isValid = true) (first : 0 ≤ d.year)
    (last : d.year ≤ 9999) : (ofDate d).date = d := by
  obtain ⟨⟨m1, m12⟩, d1, dn⟩ := Calendar.Date.isValid_iff.mp valid
  have short := Calendar.daysInMonth_le d.year d.month
  have year : ((d.year.toNat % 10000 : Nat) : Int) = d.year := by omega
  have month : d.month % 100 = d.month := by omega
  have day : d.day % 100 = d.day := by omega
  simp only [ofDate, date, Fin.val_ofNat, year, month, day]

theorem TimeText.time_ofMillis {millis : Nat} (h : millis < 86400000) :
    ∃ hour minute second milli : Nat,
      (ofMillis millis).time = ⟨hour, minute, second, milli⟩ ∧
        hour ≤ 23 ∧ minute ≤ 59 ∧ second ≤ 59 ∧
        hour * 3600000 + minute * 60000 + second * 1000 + milli = millis := by
  refine ⟨millis / 3600000 % 100, millis / 60000 % 60 % 100, millis / 1000 % 60 % 100,
    millis % 1000 % 1000, rfl, ?_⟩
  omega

theorem offset_parts {zone : Int} {offset : Option OffsetText} (near : zone.natAbs < 1440)
    (form : offset ∈ offsetForms zone) :
    ∃ (east : Bool) (hour minute : Nat),
      offset.elim (true, 0, 0) OffsetText.parts = (east, hour, minute) ∧
        hour ≤ 23 ∧ minute ≤ 59 ∧
        (if east then 1 else -1) * (hour * 60 + minute : Int) = zone := by
  rw [offsetForms, List.mem_cons] at form
  rcases form with rfl | other
  · refine ⟨0 ≤ zone, zone.natAbs / 60 % 100, zone.natAbs % 60 % 100, rfl, ?_, ?_, ?_⟩
    · omega
    · omega
    · simp only [decide_eq_true_eq]
      split <;> omega
  · split at other
    next zero =>
      subst zero
      simp only [List.mem_cons, List.not_mem_nil, or_false] at other
      rcases other with rfl | rfl | rfl
      · exact ⟨false, 0, 0, rfl, by decide⟩
      · exact ⟨true, 0, 0, rfl, by decide⟩
      · exact ⟨true, 0, 0, rfl, by decide⟩
    next => cases other

theorem offset_ne_hour {zone : Int} {offset : Option OffsetText}
    (form : offset ∈ offsetForms zone) (east : Bool) (hour : Fin 100) :
    offset ≠ some (.hour east hour) := by
  rintro rfl
  rw [offsetForms, OffsetText.ofMinutes] at form
  split at form <;> simp at form

end Fields

/-- An instant with all its fields, as they are so many minutes to the east. -/
def Spelling.ofInstant (t zone : Int) (offset : Option OffsetText) : Spelling :=
  let there := t + zone * 60000
  { date := .ofDate (.ofMillis there)
    time := some (.ofMillis (there % Calendar.dayMillis).toNat)
    offset }

section Instants

variable {t zone : Int} {offset : Option OffsetText}

theorem Spelling.fields_ofInstant (near : zone.natAbs < 1440)
    (first : 0 ≤ (Calendar.Date.ofMillis (t + zone * 60000)).year)
    (last : (Calendar.Date.ofMillis (t + zone * 60000)).year ≤ 9999)
    (form : offset ∈ offsetForms zone) :
    (ofInstant t zone offset).fields.InRange ∧ (ofInstant t zone offset).fields.millis = t := by
  have valid : (Calendar.Date.ofMillis (t + zone * 60000)).isValid = true :=
    Calendar.Date.isValid_ofDays _
  have date := DateText.date_ofDate valid first last
  have days : (Calendar.Date.ofMillis (t + zone * 60000)).toDays =
      (t + zone * 60000) / Calendar.dayMillis := Calendar.toDays_ofDays _
  have withinDay : ((t + zone * 60000) % Calendar.dayMillis).toNat < 86400000 := by
    unfold Calendar.dayMillis
    omega
  obtain ⟨hour, minute, second, milli, time, h23, m59, s59, millis⟩ :=
    TimeText.time_ofMillis withinDay
  obtain ⟨east, offsetHour, offsetMinute, parts, oh23, om59, minutes⟩ := offset_parts near form
  obtain ⟨month, day⟩ := Calendar.Date.isValid_iff.mp valid
  constructor
  · simp only [ofInstant, fields, Option.elim_some, date, time, parts]
    exact ⟨month, day, h23, m59, Nat.le_succ_of_le s59, oh23, om59⟩
  · simp only [Fields.millis_eq, ofInstant, fields, Option.elim_some, date, time, parts, days]
    unfold Calendar.dayMillis at *
    rw [← mul_assoc, minutes]
    omega

/-- An instant that is written at some offset, and of which fields at their defaults are left out
from the end on, is read back. -/
theorem parse?_of_drops (near : zone.natAbs < 1440)
    (first : 0 ≤ (Calendar.Date.ofMillis (t + zone * 60000)).year)
    (last : (Calendar.Date.ofMillis (t + zone * 60000)).year ≤ 9999)
    (form : offset ∈ offsetForms zone) {x : Spelling}
    (dropped : Relation.ReflTransGen Spelling.Drops (.ofInstant t zone offset) x) :
    parse? x.text = some t := by
  obtain ⟨fields, kept⟩ := Spelling.keeps_of_drops dropped
  obtain ⟨inRange, millis⟩ := Spelling.fields_ofInstant near first last form
  have longest : x.HasLongestDate := Spelling.hasLongestDate fun east hour => by
    rw [kept]
    exact offset_ne_hour form east hour
  rw [Spelling.parse?_text longest (by rwa [fields]), fields, millis]

end Instants

/-- Five hours are no month, as minutes follow them. -/
theorem parse?_of_drops_west :
    (Spelling.ofInstant 1577856600000 (-330) (some (.ofMinutes (-330)))).text =
        "2020-01-01T00:00:00.000-05:30" ∧
      Relation.ReflTransGen Spelling.Drops
        (.ofInstant 1577856600000 (-330) (some (.ofMinutes (-330))))
        ⟨.year 2020, none, some (.minute false 5 30)⟩ ∧
      parse? "2020-05:30" = some 1577856600000 := by
  have full : Spelling.ofInstant 1577856600000 (-330) (some (.ofMinutes (-330))) =
      ⟨.day 2020 1 1, some (.milli 0 0 0 0), some (.minute false 5 30)⟩ := by rfl
  have dropped : Relation.ReflTransGen Spelling.Drops
      (.ofInstant 1577856600000 (-330) (some (.ofMinutes (-330))))
      ⟨.year 2020, none, some (.minute false 5 30)⟩ := by
    rw [full]
    exact .head .milli (.head .second (.head .minute (.head .hour (.head .day (.single .month)))))
  have text : "2020-05:30" =
      Spelling.text ⟨.year 2020, none, some (.minute false 5 30)⟩ := by cbv
  refine ⟨by cbv, dropped, ?_⟩
  rw [text]
  exact parse?_of_drops (by decide) (by decide) (by decide) List.mem_cons_self dropped

end Audience.Timestamp
