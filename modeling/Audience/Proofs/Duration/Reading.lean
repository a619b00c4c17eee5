import Mathlib
import Audience.Grammar.Literals
import Audience.Proofs.Decimal.Reading
import Audience.Proofs.Duration.Spelling

/-! # Reading durations

A text reads as a duration exactly if it is spelled as one, and every part of the duration is the
double nearest to the number written for it. Each part is read with what follows it left over, and
a part that is missing leaves the text as it is.
-/

namespace Audience.Duration

open Decimal

def IsMark (c : Char) : Prop :=
  c.isDigit = false ∧ c ≠ '.' ∧ c ≠ ','

instance (c : Char) : Decidable (IsMark c) :=
  inferInstanceAs (Decidable (_ ∧ _ ∧ _))

section Numbers

variable {s rest : List Char} {c : Char} {digits : List (Fin 10)}

theorem number?_nil (h : ∀ c ∈ s.head?, c.isDigit = false) : number? s = none := by
  obtain ⟨taken, -⟩ := span_digitChars [] h
  rw [number?, show s.takeWhile Char.isDigit = [] from taken]

theorem number?_cons (first : Fin 10) (others : List (Fin 10)) (left : c.isDigit = false)
    (rest : List Char) : number? (digitChars (first :: others) ++ c :: rest) =
      if c = '.' ∨ c = ',' then
        some (.ofDigits (digitChars (first :: others)) (rest.takeWhile Char.isDigit),
          rest.dropWhile Char.isDigit)
      else some (.ofDigits (digitChars (first :: others)) [], c :: rest) := by
  obtain ⟨taken, left⟩ := span_digitChars (first :: others)
    (show ∀ d ∈ (c :: rest).head?, d.isDigit = false by simp [left])
  rw [number?, taken, left]
  rfl

theorem number?_chars (n : NumberText) (ends : IsMark c) (rest : List Char) :
    number? (n.chars ++ c :: rest) = some (n.numeral, c :: rest) := by
  obtain ⟨notDigit, noPoint, noComma⟩ := ends
  obtain ⟨first, others, fraction⟩ := n
  rcases fraction with _ | ⟨mark, decimals⟩
  · rw [NumberText.chars, Option.elim_none, List.append_nil, number?_cons first others notDigit,
      if_neg (by simp [noPoint, noComma])]
    rfl
  · obtain ⟨taken, left⟩ := span_digitChars decimals
      (show ∀ d ∈ (c :: rest).head?, d.isDigit = false by simp [notDigit])
    have pointed : mark.char.isDigit = false ∧ (mark.char = '.' ∨ mark.char = ',') := by
      cases mark <;> decide
    rw [NumberText.chars, Option.elim_some, List.append_assoc, List.cons_append,
      number?_cons first others pointed.1, if_pos pointed.2, taken, left]
    rfl

theorem exists_number {m : Numeral} (h : number? s = some (m, rest)) :
    ∃ n : NumberText, n.chars ++ rest = s := by
  obtain ⟨digits, left, rfl, stops⟩ := exists_span s
  rcases digits with _ | ⟨first, others⟩
  · rw [show digitChars [] ++ left = left from rfl, number?_nil stops] at h
    cases h
  · rcases left with _ | ⟨c, left⟩
    · obtain ⟨taken, dropped⟩ := span_digitChars (first :: others) stops
      rw [number?, taken, dropped] at h
      cases h
      exact ⟨⟨first, others, none⟩, by simp [NumberText.chars]⟩
    · rw [number?_cons first others (stops c rfl)] at h
      split at h
      next pointed =>
        obtain ⟨decimals, left, rfl, ends⟩ := exists_span left
        obtain ⟨mark, rfl⟩ : ∃ mark : Mark, mark.char = c :=
          pointed.elim (fun h => ⟨.point, h.symm⟩) fun h => ⟨.comma, h.symm⟩
        obtain ⟨taken, dropped⟩ := span_digitChars decimals ends
        rw [taken, dropped] at h
        cases h
        exact ⟨⟨first, others, some (mark, decimals)⟩, by simp [NumberText.chars]⟩
      next =>
        cases h
        exact ⟨⟨first, others, none⟩, by simp [NumberText.chars]⟩

end Numbers

def numeralOf (n : Option NumberText) : Numeral :=
  n.elim ⟨0, 0⟩ NumberText.numeral

/-- Where a part with a given mark is missing. -/
def Skips (mark : Char) (s : List Char) : Prop :=
  part mark s = (⟨0, 0⟩, s)

section Parts

variable {mark other : Char} {n : Option NumberText} {s rest : List Char}
variable {fields : List (Char × Option NumberText)}

theorem part_marked (ends : IsMark mark) (n : Option NumberText) (skips : Skips mark rest) :
    part mark (marked mark n ++ rest) = (numeralOf n, rest) := by
  rcases n with _ | n
  · exact skips
  · rw [marked, Option.elim_some, List.append_assoc, List.singleton_append, part,
      number?_chars n ends rest]
    simp [numeralOf]

theorem skips_marked (ends : IsMark other) (ne : other ≠ mark) (n : Option NumberText)
    (skips : Skips mark rest) : Skips mark (marked other n ++ rest) := by
  rcases n with _ | n
  · exact skips
  · rw [marked, Option.elim_some, List.append_assoc, List.singleton_append, Skips, part,
      number?_chars n ends rest]
    simp [ne]

theorem skips_of_head (h : ∀ c ∈ s.head?, c.isDigit = false) : Skips mark s := by
  rw [Skips, part, number?_nil h]

theorem skips_spelled (h : ∀ field ∈ fields, IsMark field.1 ∧ field.1 ≠ mark)
    (skips : Skips mark rest) : Skips mark (spelled fields ++ rest) := by
  induction fields with
  | nil => exact skips
  | cons field fields ih =>
    obtain ⟨⟨ends, ne⟩, others⟩ := List.forall_mem_cons.mp h
    rw [spelled_cons, List.append_assoc]
    exact skips_marked ends ne field.2 (ih others)

theorem part_spelled (ends : IsMark mark)
    (others : ∀ field ∈ fields, IsMark field.1 ∧ field.1 ≠ mark) (skips : Skips mark rest) :
    part mark (spelled ((mark, n) :: fields) ++ rest) = (numeralOf n, spelled fields ++ rest) := by
  rw [spelled_cons, List.append_assoc]
  exact part_marked ends n (skips_spelled others skips)

theorem exists_part {m : Numeral} (h : part mark s = (m, rest)) :
    ∃ n, marked mark n ++ rest = s := by
  rw [part] at h
  split at h
  next c left read =>
    split at h
    next same =>
      cases h
      obtain ⟨n, rfl⟩ := exists_number read
      rw [same]
      exact ⟨some n, by simp [marked]⟩
    next =>
      cases h
      exact ⟨none, rfl⟩
  next =>
    cases h
    exact ⟨none, rfl⟩

end Parts

namespace Spelling

theorem skips_time (mark : Char) (time : Option TimeText) :
    Skips mark (time.elim [] TimeText.chars) := by
  apply skips_of_head
  rcases time with _ | time
  · simp
  · simp [TimeText.chars]

theorem parts?_chars (x : Spelling) :
    parts? (x.date.chars ++ x.time.elim [] TimeText.chars) = some (x.parts.map numeralOf) := by
  obtain ⟨sign, ⟨years, months, weeks, days⟩, time⟩ := x
  have letters : IsMark 'Y' ∧ IsMark 'M' ∧ IsMark 'W' ∧ IsMark 'D' ∧ IsMark 'H' ∧ IsMark 'S' := by
    decide
  simp +decide only [DateText.chars, parts?, part_spelled, List.forall_mem_cons, letters,
    skips_time, spelled_nil, List.nil_append]
  rcases time with _ | ⟨hours, minutes, seconds⟩
  · rfl
  · have nothing (mark : Char) : Skips mark [] := skips_of_head (by simp)
    simp only [Option.elim_some, TimeText.chars]
    rw [← List.append_nil (spelled [('H', hours), ('M', minutes), ('S', seconds)])]
    simp +decide only [part_spelled, List.forall_mem_cons, letters, nothing]
    rfl

theorem exists_parts {s : List Char} {p : Parts Numeral} (h : parts? s = some p) :
    ∃ (date : DateText) (time : Option TimeText),
      date.chars ++ time.elim [] TimeText.chars = s := by
  rcases hY : part 'Y' s with ⟨y, s⟩
  rcases hM : part 'M' s with ⟨m, s⟩
  rcases hW : part 'W' s with ⟨w, s⟩
  rcases hD : part 'D' s with ⟨d, rest⟩
  simp only [parts?, hY, hM, hW, hD] at h
  obtain ⟨days, rfl⟩ := exists_part hD
  obtain ⟨weeks, rfl⟩ := exists_part hW
  obtain ⟨months, rfl⟩ := exists_part hM
  obtain ⟨years, rfl⟩ := exists_part hY
  split at h
  next s =>
    rcases hH : part 'H' s with ⟨hour, s⟩
    rcases hM' : part 'M' s with ⟨minute, s⟩
    rcases hS : part 'S' s with ⟨second, rest⟩
    simp only [hH, hM', hS] at h
    obtain ⟨ended, -⟩ := Option.ite_none_right_eq_some.mp h
    obtain rfl := List.isEmpty_iff.mp ended
    obtain ⟨seconds, rfl⟩ := exists_part hS
    obtain ⟨minutes, rfl⟩ := exists_part hM'
    obtain ⟨hours, rfl⟩ := exists_part hH
    refine ⟨⟨years, months, weeks, days⟩, some ⟨hours, minutes, seconds⟩, ?_⟩
    simp [DateText.chars, TimeText.chars]
  next =>
    obtain ⟨ended, -⟩ := Option.ite_none_right_eq_some.mp h
    obtain rfl := List.isEmpty_iff.mp ended
    refine ⟨⟨years, months, weeks, days⟩, none, ?_⟩
    simp [DateText.chars]

theorem splitSign_chars (x : Spelling) : splitSign x.chars =
    (decide (x.sign ≠ some .minus), 'P' :: (x.date.chars ++ x.time.elim [] TimeText.chars)) := by
  rcases x with ⟨_ | _ | _, date, time⟩ <;> rfl

theorem exists_sign (s : List Char) :
    ∃ sign : Option Sign, sign.elim [] (fun sign => [sign.char]) ++ (splitSign s).2 = s := by
  fun_cases splitSign s with
  | case1 => exact ⟨some .plus, rfl⟩
  | case2 => exact ⟨some .minus, rfl⟩
  | case3 => exact ⟨none, rfl⟩

/-- A text reads as the numbers of its spelling. -/
theorem ofText?_text (x : Spelling) :
    ofText? x.text = some ⟨decide (x.sign ≠ some .minus), x.parts.map numeralOf⟩ := by
  rw [ofText?, text, String.toList_ofList, splitSign_chars]
  simp only [parts?_chars]
  rfl

theorem exists_text {text : String} {d : Duration Numeral} (h : ofText? text = some d) :
    ∃ x : Spelling, x.text = text := by
  obtain ⟨sign, same⟩ := exists_sign text.toList
  rw [ofText?] at h
  split at h
  next positive rest unsigned =>
    rw [unsigned] at same
    obtain ⟨p, read, -⟩ := Option.map_eq_some_iff.mp h
    obtain ⟨date, time, rfl⟩ := exists_parts read
    exact ⟨⟨sign, date, time⟩, text_eq_iff.mpr same⟩
  next => cases h

theorem isRead_numeralOf (n : Option NumberText) : IsRead n (numeralOf n).toFloat := by
  rcases n with _ | n
  · exact if_pos (.inl rfl)
  · rw [IsRead, ← n.value_numeral]
    exact n.numeral.isNearest_toFloat

def duration (x : Spelling) : Duration Float where
  positive := decide (x.sign ≠ some .minus)
  parts := (x.parts.map numeralOf).map Numeral.toFloat

theorem writtenDuration_text (x : Spelling) :
    Grammar.writtenDuration x.text = .ok x.duration := by
  rw [Grammar.writtenDuration, parse?, ofText?_text]
  rfl

theorem writtenDuration_of_unspelled {text : String} (h : ∀ x : Spelling, x.text ≠ text) :
    Grammar.writtenDuration text = .error (.badInput (.writtenDuration text)) := by
  have unread : ofText? text = none := by
    rw [Option.eq_none_iff_forall_ne_some]
    intro d read
    obtain ⟨x, same⟩ := exists_text read
    exact h x same
  rw [Grammar.writtenDuration, parse?, unread]
  rfl

theorem denotes_duration (x : Spelling) : x.Denotes x.duration where
  sign := by simp [duration]
  parts := by
    simp only [duration, Parts.map, Parts.toList, List.forall₂_cons, isRead_numeralOf,
      List.Forall₂.nil, and_self]

end Spelling

/-- The texts that are durations are those spelled as one. Such a text stands for the duration whose
parts are the doubles nearest to the numbers in it, and every other text is refused. -/
theorem writtenDuration_spelled (text : String) :
    ((∃ d, Grammar.writtenDuration text = .ok d) ↔ ∃ x : Spelling, x.text = text) ∧
      (∀ e, Grammar.writtenDuration text = .error e → e = .badInput (.writtenDuration text)) ∧
      ∀ d, Grammar.writtenDuration text = .ok d →
        ∀ x : Spelling, x.text = text → x.Denotes d := by
  by_cases spelled : ∃ x : Spelling, x.text = text
  · obtain ⟨x, rfl⟩ := spelled
    have read := x.writtenDuration_text
    refine ⟨⟨fun _ => ⟨x, rfl⟩, fun _ => ⟨x.duration, read⟩⟩, ?_, ?_⟩
    · rintro e refused
      rw [read] at refused
      cases refused
    · rintro d read y same
      rw [← same, y.writtenDuration_text] at read
      cases read
      exact y.denotes_duration
  · have refused := Spelling.writtenDuration_of_unspelled (not_exists.mp spelled)
    rw [refused]
    refine ⟨⟨?_, fun some => absurd some spelled⟩, ?_, ?_⟩
    · rintro ⟨d, read⟩
      cases read
    · rintro e same
      cases same
      rfl
    · rintro d read
      cases read

theorem text_halfYearBack : halfYearBack.text = "-P0,5YT3M" := by decide

theorem duration_halfYearBack : halfYearBack.duration = ⟨false, ⟨0.5, 0, 0, 0, 0, 3, 0⟩⟩ := by
  have half : Numeral.toFloat ⟨5, -1⟩ = 0.5 := by decide +kernel
  have three : Numeral.toFloat ⟨3, 0⟩ = 3 := by decide +kernel
  have zero : Numeral.toFloat ⟨0, 0⟩ = 0 := by decide +kernel
  have parts : halfYearBack.parts.map numeralOf =
      ⟨⟨5, -1⟩, ⟨0, 0⟩, ⟨0, 0⟩, ⟨0, 0⟩, ⟨0, 0⟩, ⟨3, 0⟩, ⟨0, 0⟩⟩ := by rfl
  rw [Spelling.duration, parts]
  simp [Parts.map, half, three, zero, halfYearBack]

theorem writtenDuration_spelled_halfYearBack :
    halfYearBack.text = "-P0,5YT3M" ∧
      Grammar.writtenDuration "-P0,5YT3M" = .ok ⟨false, ⟨0.5, 0, 0, 0, 0, 3, 0⟩⟩ ∧
      halfYearBack.Denotes ⟨false, ⟨0.5, 0, 0, 0, 0, 3, 0⟩⟩ := by
  have read := halfYearBack.writtenDuration_text
  rw [text_halfYearBack, duration_halfYearBack] at read
  exact ⟨text_halfYearBack, read,
    (writtenDuration_spelled "-P0,5YT3M").2.2 _ read _ text_halfYearBack⟩

end Audience.Duration
