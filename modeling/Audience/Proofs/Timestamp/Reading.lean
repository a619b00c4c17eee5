import Mathlib
import Audience.Proofs.Calendar.Days
import Audience.Proofs.Timestamp.Spelling

/-! # Reading instants

A text is read in the spelling with the longest date, if it has one, and the spelling is refused
where its fields are out of range. Reading goes from left to right; what it takes off a text and
what it leaves are told field by field.
-/

namespace Audience.Timestamp

section Fields

variable {count n : Nat} {mark : Char} {s rest : List Char}

theorem digits?_eq_some_iff :
    digits? count s = some (n, rest) ↔ n < tenTo count ∧ s = padded count n ++ rest := by
  simp only [digits?]
  constructor
  · intro h
    split at h
    next front =>
      obtain ⟨length, digits⟩ := front
      cases h
      obtain ⟨bound, same⟩ := padded_digitsValue digits
      rw [length] at bound same
      exact ⟨bound, by rw [same, List.take_append_drop]⟩
    next => cases h
  · rintro ⟨bound, rfl⟩
    have front : (padded count n ++ rest).take count = padded count n := by simp
    have back : (padded count n ++ rest).drop count = rest := by simp
    rw [front, back, if_pos ⟨length_padded count n, all_isDigit_padded count n⟩,
      digitsValue_padded bound]

theorem marked?_eq_some_iff :
    marked? mark count s = some (n, rest) ↔
      n < tenTo count ∧ s = mark :: (padded count n ++ rest) := by
  cases s with
  | nil => simp [marked?]
  | cons c s =>
    simp only [marked?, List.cons.injEq]
    split
    next same => rw [digits?_eq_some_iff, same]; tauto
    next other => exact ⟨nofun, fun h => absurd h.2.1 other⟩

theorem marked?_eq_none_of_head (h : s.head? ≠ some mark) : marked? mark count s = none := by
  cases s with
  | nil => rfl
  | cons c s =>
    have other : c ≠ mark := fun same => h (by rw [same, List.head?_cons])
    simp [marked?, other]

theorem digits?_year (y : Fin 10000) (rest : List Char) :
    digits? 4 (padded 4 y ++ rest) = some (y.val, rest) :=
  digits?_eq_some_iff.mpr ⟨y.isLt, rfl⟩

theorem digits?_two (n : Fin 100) (rest : List Char) :
    digits? 2 (padded 2 n ++ rest) = some (n.val, rest) :=
  digits?_eq_some_iff.mpr ⟨n.isLt, rfl⟩

theorem marked?_two (mark : Char) (n : Fin 100) (rest : List Char) :
    marked? mark 2 (mark :: (padded 2 n ++ rest)) = some (n.val, rest) :=
  marked?_eq_some_iff.mpr ⟨n.isLt, rfl⟩

theorem marked?_three (mark : Char) (n : Fin 1000) (rest : List Char) :
    marked? mark 3 (mark :: (padded 3 n ++ rest)) = some (n.val, rest) :=
  marked?_eq_some_iff.mpr ⟨n.isLt, rfl⟩

end Fields

section Dates

variable {s rest : List Char} {d : Calendar.Date}

theorem exists_dateText (h : (d, rest) ∈ dates s) :
    ∃ x : DateText, x.date = d ∧ x.chars ++ rest = s := by
  unfold dates at h
  cases hy : digits? 4 s with
  | none => simp [hy] at h
  | some y =>
    obtain ⟨year, afterYear⟩ := y
    obtain ⟨yearBound, rfl⟩ := digits?_eq_some_iff.mp hy
    have yearText (h : d = ⟨year, 1, 1⟩ ∧ rest = afterYear) :
        ∃ x : DateText, x.date = d ∧ x.chars ++ rest = padded 4 year ++ afterYear :=
      ⟨.year ⟨year, yearBound⟩, h.1.symm, by rw [h.2]; rfl⟩
    cases hm : marked? '-' 2 afterYear with
    | none =>
      simp only [hy, hm, List.mem_singleton, Prod.mk.injEq] at h
      exact yearText h
    | some m =>
      obtain ⟨month, afterMonth⟩ := m
      obtain ⟨monthBound, rfl⟩ := marked?_eq_some_iff.mp hm
      have monthText (h : d = ⟨year, month, 1⟩ ∧ rest = afterMonth) :
          ∃ x : DateText, x.date = d ∧
            x.chars ++ rest = padded 4 year ++ '-' :: (padded 2 month ++ afterMonth) :=
        ⟨.month ⟨year, yearBound⟩ ⟨month, monthBound⟩, h.1.symm, by
          rw [h.2]
          simp [DateText.chars]⟩
      cases hd : marked? '-' 2 afterMonth with
      | none =>
        simp only [hy, hm, hd, List.mem_cons, Prod.mk.injEq, List.not_mem_nil, or_false] at h
        exact h.elim monthText yearText
      | some day =>
        obtain ⟨day, afterDay⟩ := day
        obtain ⟨dayBound, rfl⟩ := marked?_eq_some_iff.mp hd
        simp only [hy, hm, hd, List.mem_cons, Prod.mk.injEq, List.not_mem_nil, or_false] at h
        rcases h with ⟨rfl, rfl⟩ | h | h
        · refine ⟨.day ⟨year, yearBound⟩ ⟨month, monthBound⟩ ⟨day, dayBound⟩, rfl, ?_⟩
          simp [DateText.chars]
        · exact monthText h
        · exact yearText h

theorem mem_dates (x : DateText) (rest : List Char) : (x.date, rest) ∈ dates (x.chars ++ rest) := by
  cases x with
  | year y =>
    simp only [dates, DateText.chars, digits?_year]
    split
    · exact List.mem_singleton.mpr rfl
    · split <;> simp [DateText.date]
  | month y m =>
    simp only [dates, DateText.chars, List.append_assoc, List.cons_append, digits?_year,
      marked?_two]
    split <;> simp [DateText.date]
  | day y m d =>
    simp only [dates, DateText.chars, List.append_assoc, List.cons_append, digits?_year,
      marked?_two]
    exact List.mem_cons_self

/-- Longer dates come first and leave less of the text. -/
theorem pairwise_dates (s : List Char) :
    (dates s).Pairwise fun before after => before.2.length < after.2.length := by
  unfold dates
  cases digits? 4 s with
  | none => exact .nil
  | some y =>
    obtain ⟨year, afterYear⟩ := y
    cases hm : marked? '-' 2 afterYear with
    | none => simp [hm]
    | some m =>
      obtain ⟨month, afterMonth⟩ := m
      obtain ⟨-, rfl⟩ := marked?_eq_some_iff.mp hm
      cases hd : marked? '-' 2 afterMonth with
      | none => simp [hm, hd]
      | some day =>
        obtain ⟨day, afterDay⟩ := day
        obtain ⟨-, rfl⟩ := marked?_eq_some_iff.mp hd
        simp [hm, hd]
        omega

end Dates

section Times

theorem exists_timeText (s : List Char) :
    ∃ x : Option TimeText, x.elim [] TimeText.chars ++ (time s).2 = s ∧
      (time s).1 = x.elim ⟨0, 0, 0, 0⟩ TimeText.time := by
  unfold time
  cases hh : marked? 'T' 2 s with
  | none => exact ⟨none, rfl, rfl⟩
  | some h =>
    obtain ⟨hour, afterHour⟩ := h
    obtain ⟨hourBound, rfl⟩ := marked?_eq_some_iff.mp hh
    cases hm : marked? ':' 2 afterHour with
    | none =>
      refine ⟨some (.hour ⟨hour, hourBound⟩), ?_, ?_⟩
      · simp [TimeText.chars, hm]
      · simp [TimeText.time, hm]
    | some m =>
      obtain ⟨minute, afterMinute⟩ := m
      obtain ⟨minuteBound, rfl⟩ := marked?_eq_some_iff.mp hm
      cases hs : marked? ':' 2 afterMinute with
      | none =>
        refine ⟨some (.minute ⟨hour, hourBound⟩ ⟨minute, minuteBound⟩), ?_, ?_⟩
        · simp [TimeText.chars, hm, hs]
        · simp [TimeText.time, hm, hs]
      | some sec =>
        obtain ⟨second, afterSecond⟩ := sec
        obtain ⟨secondBound, rfl⟩ := marked?_eq_some_iff.mp hs
        cases hf : marked? '.' 3 afterSecond with
        | none =>
          refine ⟨some (.second ⟨hour, hourBound⟩ ⟨minute, minuteBound⟩ ⟨second, secondBound⟩),
            ?_, ?_⟩
          · simp [TimeText.chars, hm, hs, hf]
          · simp [TimeText.time, hm, hs, hf]
        | some milli =>
          obtain ⟨milli, afterMilli⟩ := milli
          obtain ⟨milliBound, rfl⟩ := marked?_eq_some_iff.mp hf
          refine ⟨some (.milli ⟨hour, hourBound⟩ ⟨minute, minuteBound⟩ ⟨second, secondBound⟩
            ⟨milli, milliBound⟩), ?_, ?_⟩
          · simp [TimeText.chars, hm, hs, hf]
          · simp [TimeText.time, hm, hs, hf]

theorem head?_offset_ne {mark : Char} (other : mark ∉ ['Z', '+', '-']) (o : Option OffsetText) :
    (o.elim [] OffsetText.chars).head? ≠ some mark := by
  rintro same
  apply other
  rcases o with _ | o
  · cases same
  · cases o with
    | utc =>
      cases same
      decide
    | hour east | minute east =>
      cases same
      cases east <;> decide

theorem time_tail (x : Option TimeText) (o : Option OffsetText) :
    time (x.elim [] TimeText.chars ++ o.elim [] OffsetText.chars) =
      (x.elim ⟨0, 0, 0, 0⟩ TimeText.time, o.elim [] OffsetText.chars) := by
  have stops {mark : Char} {count : Nat} (other : mark ∉ ['Z', '+', '-']) :
      marked? mark count (o.elim [] OffsetText.chars) = none :=
    marked?_eq_none_of_head (head?_offset_ne other o)
  have t : marked? 'T' 2 (o.elim [] OffsetText.chars) = none := stops (by decide)
  have colon : marked? ':' 2 (o.elim [] OffsetText.chars) = none := stops (by decide)
  have point : marked? '.' 3 (o.elim [] OffsetText.chars) = none := stops (by decide)
  rcases x with _ | x
  · simp [time, t]
  · cases x <;>
      simp [time, TimeText.chars, marked?_two, marked?_three, colon, point, TimeText.time]

end Times

section Offsets

theorem offset?_eq_some_iff {s : List Char} {v : Bool × Nat × Nat} :
    offset? s = some v ↔
      ∃ o : Option OffsetText, o.elim [] OffsetText.chars = s ∧
        o.elim (true, 0, 0) OffsetText.parts = v := by
  constructor
  · intro h
    unfold offset? at h
    split at h
    next =>
      cases h
      exact ⟨none, rfl, rfl⟩
    next =>
      cases h
      exact ⟨some .utc, rfl, rfl⟩
    next sign rest _ =>
      split at h
      next signed =>
        have same : OffsetText.sign (sign = '+') = sign := by
          rcases signed with rfl | rfl <;> rfl
        cases hh : digits? 2 rest with
        | none => simp [hh] at h
        | some hour =>
          obtain ⟨hour, afterHour⟩ := hour
          obtain ⟨hourBound, rfl⟩ := digits?_eq_some_iff.mp hh
          cases afterHour with
          | nil =>
            simp only [hh] at h
            cases h
            exact ⟨some (.hour (sign = '+') ⟨hour, hourBound⟩), by simp [OffsetText.chars, same],
              rfl⟩
          | cons c afterHour =>
            simp only [hh] at h
            cases hm : marked? ':' 2 (c :: afterHour) with
            | none => simp [hm] at h
            | some minute =>
              obtain ⟨minute, afterMinute⟩ := minute
              obtain ⟨minuteBound, split⟩ := marked?_eq_some_iff.mp hm
              cases afterMinute with
              | cons => simp [hm] at h
              | nil =>
                simp only [hm] at h
                cases h
                rw [split]
                exact ⟨some (.minute (sign = '+') ⟨hour, hourBound⟩ ⟨minute, minuteBound⟩),
                  by simp [OffsetText.chars, same], rfl⟩
      next => cases h
  · rintro ⟨o, rfl, rfl⟩
    rcases o with _ | o
    · rfl
    · cases o with
      | utc => rfl
      | hour east n =>
        have digits : digits? 2 (padded 2 n) = some (n.val, []) := by
          simpa using digits?_two n []
        cases east <;> simp [OffsetText.chars, OffsetText.sign, OffsetText.parts, offset?, digits]
      | minute east n m =>
        have minutes : marked? ':' 2 (':' :: padded 2 m) = some (m.val, []) := by
          simpa using marked?_two ':' m []
        cases east <;>
          simp [OffsetText.chars, OffsetText.sign, OffsetText.parts, offset?, digits?_two, minutes]

end Offsets

theorem fieldsAfter?_eq_some_iff {d : DateText} {rest : List Char} {f : Fields} :
    fieldsAfter? d.date rest = some f ↔
      ∃ x : Spelling, x.date = d ∧ x.tail = rest ∧ x.fields = f := by
  constructor
  · intro h
    obtain ⟨t, written, value⟩ := exists_timeText rest
    simp only [fieldsAfter?] at h
    split at h
    next east hour minute read =>
      obtain ⟨o, left, parts⟩ := offset?_eq_some_iff.mp read
      cases h
      refine ⟨⟨d, t, o⟩, rfl, ?_, ?_⟩
      · rw [Spelling.tail, left, written]
      · simp only [Spelling.fields, ← value, parts]
    next => cases h
  · rintro ⟨x, rfl, rfl, rfl⟩
    have read : offset? (x.offset.elim [] OffsetText.chars) =
        some (x.offset.elim (true, 0, 0) OffsetText.parts) := offset?_eq_some_iff.mpr ⟨_, rfl, rfl⟩
    simp only [fieldsAfter?, Spelling.tail, time_tail, read]
    rfl

theorem mem_dates_of_text {x : Spelling} {text : String} (h : x.text = text) :
    (x.date.date, x.tail) ∈ dates text.toList := by
  have chars : x.date.chars ++ x.tail = text.toList := Spelling.text_eq_iff.mp h
  rw [← chars]
  exact mem_dates x.date x.tail

theorem exists_spelling {text : String} {d : Calendar.Date} {rest : List Char} {f : Fields}
    (member : (d, rest) ∈ dates text.toList) (read : fieldsAfter? d rest = some f) :
    ∃ x : Spelling, x.text = text ∧ x.date.date = d ∧ x.tail = rest ∧ x.fields = f := by
  obtain ⟨date, rfl, written⟩ := exists_dateText member
  obtain ⟨x, rfl, rfl, same⟩ := fieldsAfter?_eq_some_iff.mp read
  exact ⟨x, Spelling.text_eq_iff.mpr written, rfl, rfl, same⟩

theorem Spelling.length_tail_le_iff {x y : Spelling} (same : y.text = x.text) :
    x.tail.length ≤ y.tail.length ↔ y.date.chars.length ≤ x.date.chars.length := by
  have total := congrArg List.length (chars_eq_of_text_eq same)
  simp only [Spelling.chars, List.length_append] at total
  omega

/-- Reading takes the spelling with the longest date. -/
theorem fields?_eq_some_iff {text : String} {f : Fields} :
    fields? text = some f ↔
      ∃ x : Spelling, x.text = text ∧ x.HasLongestDate ∧ x.fields = f := by
  have ordered := pairwise_dates text.toList
  unfold fields?
  rw [List.findSome?_eq_some_iff]
  constructor
  · rintro ⟨front, ⟨d, rest⟩, back, split, read, refused⟩
    obtain ⟨x, spells, rfl, rfl, same⟩ :=
      exists_spelling (split ▸ List.mem_append_right _ List.mem_cons_self) read
    refine ⟨x, spells, fun y other => ?_, same⟩
    rw [← Spelling.length_tail_le_iff other]
    -- The date of any other spelling is tried as well, and not before this one.
    have tried := mem_dates_of_text (other.trans spells)
    rw [split, List.pairwise_append, List.pairwise_cons] at ordered
    rw [split, List.mem_append, List.mem_cons] at tried
    rcases tried with early | here | late
    · have read : fieldsAfter? y.date.date y.tail = some y.fields :=
        fieldsAfter?_eq_some_iff.mpr ⟨y, rfl, rfl, rfl⟩
      exact absurd (read.symm.trans (refused _ early)) (Option.some_ne_none _)
    · exact Nat.le_of_eq (congrArg (·.2.length) here.symm)
    · exact Nat.le_of_lt (ordered.2.1.1 _ late)
  · rintro ⟨x, spells, longest, rfl⟩
    obtain ⟨front, back, split⟩ := List.append_of_mem (mem_dates_of_text spells)
    have read : fieldsAfter? x.date.date x.tail = some x.fields :=
      fieldsAfter?_eq_some_iff.mpr ⟨x, rfl, rfl, rfl⟩
    refine ⟨front, _, back, split, read, fun (d, rest) early => ?_⟩
    refine Option.eq_none_iff_forall_ne_some.mpr fun f read => ?_
    obtain ⟨y, other, rfl, rfl, -⟩ :=
      exists_spelling (split ▸ List.mem_append_left _ early) read
    rw [split, List.pairwise_append] at ordered
    have sooner : y.tail.length < x.tail.length := ordered.2.2 _ early _ List.mem_cons_self
    have within := longest y (other.trans spells.symm)
    rw [← Spelling.length_tail_le_iff (other.trans spells.symm)] at within
    omega

theorem Fields.millis_eq (f : Fields) :
    f.millis = f.date.toDays * 86400000 + f.hour * 3600000 + f.minute * 60000 +
      f.second * 1000 + f.milli -
        (if f.east then 1 else -1) * ((f.offsetHour * 60 + f.offsetMinute) * 60000) := by
  simp only [Fields.millis, Fields.offsetMillis, Calendar.dayMillis]
  split <;> push_cast <;> ring

theorem Fields.InRange.daysFromEpoch {f : Fields} (h : f.InRange) :
    Calendar.DaysFromEpoch f.date.toDays f.date :=
  Calendar.daysFromEpoch_iff.mpr ⟨Calendar.Date.isValid_iff.mpr ⟨h.month, h.day⟩, rfl⟩

theorem Spelling.parse?_text {x : Spelling} (longest : x.HasLongestDate)
    (inRange : x.fields.InRange) : parse? x.text = some x.fields.millis := by
  have read : fields? x.text = some x.fields := fields?_eq_some_iff.mpr ⟨x, rfl, longest, rfl⟩
  rw [parse?, read, Option.bind_some, if_pos (x.fields.isValid_iff.mpr inRange)]

/-- A text is read if it can be spelled, and if the fields of its spelling with the longest date
are in range. It is read as the instant of these fields, whose day is counted from 1970-01-01. -/
theorem parse?_iff_longestDate (text : String) (t : Int) :
    parse? text = some t ↔
      ∃ (x : Spelling) (days : Int), x.text = text ∧ x.HasLongestDate ∧ x.fields.InRange ∧
        Calendar.DaysFromEpoch days x.fields.date ∧
        t = days * 86400000 + x.fields.hour * 3600000 + x.fields.minute * 60000 +
          x.fields.second * 1000 + x.fields.milli -
            (if x.fields.east then 1 else -1) *
              ((x.fields.offsetHour * 60 + x.fields.offsetMinute) * 60000) := by
  constructor
  · intro h
    obtain ⟨f, read, valid⟩ := Option.bind_eq_some_iff.mp h
    obtain ⟨x, spells, longest, rfl⟩ := fields?_eq_some_iff.mp read
    split at valid
    next isValid =>
      cases valid
      have inRange := x.fields.isValid_iff.mp isValid
      exact ⟨x, _, spells, longest, inRange, inRange.daysFromEpoch, x.fields.millis_eq⟩
    next => cases valid
  · rintro ⟨x, days, rfl, longest, inRange, counted, rfl⟩
    obtain ⟨-, rfl⟩ := Calendar.daysFromEpoch_iff.mp counted
    rw [Spelling.parse?_text longest inRange, x.fields.millis_eq]

-- A month is preferred to an offset, unless what is left then cannot be read.
example : parse? "2020-01-02" = some (Calendar.Date.toDays ⟨2020, 1, 2⟩ * 86400000) := by cbv
example : parse? "2020-01:30" = some (Calendar.Date.toDays ⟨2020, 1, 1⟩ * 86400000 + 5400000) := by
  cbv

end Audience.Timestamp
