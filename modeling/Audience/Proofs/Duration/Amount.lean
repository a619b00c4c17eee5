import Mathlib
import Audience.Proofs.Decimal.Reading
import Audience.Proofs.Duration.Shape
import Audience.Proofs.Duration.Spelling

/-! # Amounts of spoken durations

An amount has digits with at most one point among them, at least one digit on either side of it, and
perhaps an exponent. It reads as the double nearest to the number it writes. A shape whose digits
and points are not of this kind has no amount.
-/

namespace Audience.Spoken

open Decimal
open Duration (Sign)

structure ExponentText where
  upper : Bool
  sign : Option Sign
  first : Fin 10
  others : List (Fin 10)

/-- A number as it is written, with digits before the point or behind it. -/
structure Amount where
  sign : Option Sign
  whole : List (Fin 10)
  decimals : Option (List (Fin 10))
  ne : whole ++ decimals.getD [] ≠ []
  exponent : Option ExponentText

def signChars (sign : Option Sign) : List Char :=
  sign.elim [] fun sign => [sign.char]

namespace ExponentText

def chars (e : ExponentText) : List Char :=
  (if e.upper then 'E' else 'e') :: signChars e.sign ++ digitChars (e.first :: e.others)

def value (e : ExponentText) : Int :=
  if e.sign = some .minus then -digitsNat (e.first :: e.others) else digitsNat (e.first :: e.others)

end ExponentText

namespace Amount

def mantissa (a : Amount) : List Char :=
  digitChars a.whole ++ a.decimals.elim [] fun digits => '.' :: digitChars digits

def exponentChars (a : Amount) : List Char :=
  a.exponent.elim [] ExponentText.chars

def chars (a : Amount) : List Char :=
  signChars a.sign ++ (a.mantissa ++ a.exponentChars)

def magnitude (a : Amount) : ℚ :=
  (digitsNat a.whole + digitsNat (a.decimals.getD []) / 10 ^ (a.decimals.getD []).length) *
    10 ^ a.exponent.elim 0 ExponentText.value

/-- The double nearest to what is written, on the side of zero that the sign tells. -/
def IsReadAs (a : Amount) (x : Float) : Prop :=
  ∃ y, Binary64.IsNearest a.magnitude y ∧ x = if a.sign = some .minus then -y else y

def numeral (a : Amount) : Numeral :=
  (Numeral.ofDigits (digitChars a.whole) (digitChars (a.decimals.getD []))).scale
    (a.exponent.elim 0 ExponentText.value)

def toFloat (a : Amount) : Float :=
  if a.sign = some .minus then -a.numeral.toFloat else a.numeral.toFloat

theorem value_numeral (a : Amount) : a.numeral.value = a.magnitude := by
  have joined (front back : List (Fin 10)) :
      digitChars front ++ digitChars back = digitChars (front ++ back) := List.map_append.symm
  rw [numeral, Numeral.scale, Numeral.ofDigits, Numeral.value, joined, digitsValue_digitChars,
    digitsNat_append, digitChars, List.length_map, zpow_add₀ (by norm_num), zpow_neg, zpow_natCast,
    magnitude, ← mul_assoc]
  push_cast
  field_simp

end Amount

section Reading

variable {s rest : List Char} {digits : List (Fin 10)}

theorem isSign_iff {s : List Char} : IsSign s ↔ ∃ sign, signChars sign = s := by
  constructor
  · rintro (rfl | rfl | rfl)
    · exact ⟨none, rfl⟩
    · exact ⟨some .plus, rfl⟩
    · exact ⟨some .minus, rfl⟩
  · rintro ⟨_ | _ | _, rfl⟩
    · exact .inl rfl
    · exact .inr (.inl rfl)
    · exact .inr (.inr rfl)

theorem isExponent_iff {s : List Char} : IsExponent s ↔ ∃ e : ExponentText, e.chars = s := by
  constructor
  · rintro ⟨letter, signed, ne, all⟩
    obtain ⟨sign, rfl⟩ := isSign_iff.mp signed
    obtain ⟨digits, rfl⟩ := exists_digits all
    rcases digits with _ | ⟨first, others⟩
    · exact absurd rfl ne
    rcases letter with rfl | rfl
    · exact ⟨⟨false, sign, first, others⟩, rfl⟩
    · exact ⟨⟨true, sign, first, others⟩, rfl⟩
  · rintro ⟨⟨upper, sign, first, others⟩, rfl⟩
    refine .intro ?_ (isSign_iff.mpr ⟨sign, rfl⟩) (by simp [digitChars])
      fun c hc => isDigit_of_mem_digitChars hc
    cases upper
    · exact .inl rfl
    · exact .inr rfl

theorem digits?_digitChars (first : Fin 10) (others : List (Fin 10)) :
    digits? (digitChars (first :: others)) = some (digitsNat (first :: others)) := by
  have some : digitChars (first :: others) ≠ [] := by simp [digitChars]
  have all : (digitChars (first :: others)).all Char.isDigit = true :=
    List.all_eq_true.mpr fun c hc => isDigit_of_mem_digitChars hc
  rw [digits?, if_pos ⟨some, all⟩, digitsValue_digitChars]

theorem signedDigits?_chars (e : ExponentText) :
    signedDigits? (signChars e.sign ++ digitChars (e.first :: e.others)) = some e.value := by
  have read := digits?_digitChars e.first e.others
  obtain ⟨upper, _ | _ | _, first, others⟩ := e
  · have unsigned (sign : Char) (h : sign.isDigit = false) (tail : List Char) :
        digitChars (first :: others) ≠ sign :: tail := by
      intro same
      have mem : sign ∈ digitChars (first :: others) := same ▸ List.mem_cons_self
      have digit := isDigit_of_mem_digitChars mem
      rw [h] at digit
      cases digit
    simp only [signChars, Option.elim_none, List.nil_append, ExponentText.value]
    unfold signedDigits?
    split
    next same => exact absurd same (unsigned '-' rfl _)
    next same => exact absurd same (unsigned '+' rfl _)
    next => simp [read]
  · simp [signChars, Sign.char, signedDigits?, read, ExponentText.value]
  · simp [signChars, Sign.char, signedDigits?, read, ExponentText.value]

theorem digitChars_eq_nil_iff : digitChars digits = [] ↔ digits = [] :=
  List.map_eq_nil_iff

/-- What becomes of a numeral with the text behind its digits. -/
def scaled? (n : Numeral) : List Char → Option Numeral
  | [] => some n
  | e :: rest => if e = 'e' ∨ e = 'E' then n.scale <$> signedDigits? rest else none

theorem scaled?_exponent (n : Numeral) (exponent : Option ExponentText) :
    scaled? n (exponent.elim [] ExponentText.chars) =
      some (n.scale (exponent.elim 0 ExponentText.value)) := by
  rcases exponent with _ | e
  · simp [scaled?, Numeral.scale]
  · have letter : (if e.upper then 'E' else 'e') = 'e' ∨ (if e.upper then 'E' else 'e') = 'E' := by
      cases e.upper <;> simp
    simp only [Option.elim_some, ExponentText.chars, List.cons_append, scaled?, if_pos letter,
      signedDigits?_chars, Option.map_eq_map, Option.map_some]

theorem scaled?_point (n : Numeral) (rest : List Char) : scaled? n ('.' :: rest) = none := by
  rw [scaled?, if_neg (by decide)]

theorem ofChars?_whole (whole : List (Fin 10)) (stops : Stops isMantissa rest) :
    Numeral.ofChars? (digitChars whole ++ rest) =
      if whole = [] then none else scaled? (.ofDigits (digitChars whole) []) rest := by
  obtain ⟨taken, dropped⟩ := span_digitChars whole stops.isDigit
  unfold Numeral.ofChars?
  rw [taken, dropped]
  rcases rest with _ | ⟨c, rest⟩
  · simp [digitChars, scaled?]
  · have unpointed : c ≠ '.' := by
      rintro rfl
      cases stops '.' rfl
    simp [digitChars, scaled?, unpointed]

theorem ofChars?_pointed (whole decimals : List (Fin 10))
    (stops : ∀ c ∈ rest.head?, c.isDigit = false) :
    Numeral.ofChars? (digitChars whole ++ '.' :: (digitChars decimals ++ rest)) =
      if whole = [] ∧ decimals = [] then none
      else scaled? (.ofDigits (digitChars whole) (digitChars decimals)) rest := by
  have point : ∀ c ∈ ('.' :: (digitChars decimals ++ rest)).head?, c.isDigit = false := by
    rintro _ ⟨⟩
    rfl
  obtain ⟨taken, dropped⟩ := span_digitChars whole point
  obtain ⟨taken', dropped'⟩ := span_digitChars decimals stops
  unfold Numeral.ofChars?
  rw [taken, dropped]
  simp only [taken', dropped']
  rcases rest with _ | ⟨c, rest⟩ <;> simp [digitChars, scaled?]

end Reading

/-- How many points stand among digits: none, one, or several. -/
inductive MantissaForm : List Char → Prop where
  | whole (whole : List (Fin 10)) (ne : whole ≠ []) : MantissaForm (digitChars whole)
  | pointed (whole decimals : List (Fin 10)) :
      MantissaForm (digitChars whole ++ '.' :: digitChars decimals)
  | dotted (whole decimals : List (Fin 10)) (rest : List Char) :
      MantissaForm (digitChars whole ++ '.' :: (digitChars decimals ++ '.' :: rest))

theorem mantissaForm {s : List Char} (ne : s ≠ []) (all : ∀ c ∈ s, isMantissa c = true) :
    MantissaForm s := by
  -- Whatever stands behind digits is a point.
  have span {s : List Char} (all : ∀ c ∈ s, isMantissa c = true) :
      ∃ digits rest, s = digitChars digits ++ rest ∧ (rest = [] ∨ ∃ tail, rest = '.' :: tail) := by
    obtain ⟨digits, rest, rfl, stops⟩ := exists_span s
    refine ⟨digits, rest, rfl, ?_⟩
    rcases rest with _ | ⟨c, tail⟩
    · exact .inl rfl
    · rcases isMantissa_iff.mp (all c (by simp)) with digit | rfl
      · rw [stops c rfl] at digit
        cases digit
      · exact .inr ⟨tail, rfl⟩
  obtain ⟨whole, rest, rfl, rfl | ⟨tail, rfl⟩⟩ := span all
  · rw [List.append_nil] at ne ⊢
    exact .whole whole fun none => ne (digitChars_eq_nil_iff.mpr none)
  · obtain ⟨decimals, rest, rfl, rfl | ⟨tail, rfl⟩⟩ :=
      span fun c hc => all c (List.mem_append_right _ (List.mem_cons_of_mem _ hc))
    · rw [List.append_nil]
      exact .pointed whole decimals
    · exact .dotted whole decimals tail

namespace Shape

/-- Whether the digits and points of a shape are a number: one point at most, and a digit. -/
def IsNumber (x : Shape) : Prop :=
  x.mantissa.count '.' ≤ 1 ∧ ∃ c ∈ x.mantissa, c.isDigit = true

end Shape

structure Amount.Fills (a : Amount) (x : Shape) : Prop where
  sign : signChars a.sign = x.sign
  mantissa : a.mantissa = x.mantissa
  exponent : a.exponentChars = x.exponent

theorem count_point_digitChars (digits : List (Fin 10)) : (digitChars digits).count '.' = 0 := by
  rw [List.count_eq_zero]
  intro point
  cases isDigit_of_mem_digitChars point

theorem exists_isDigit_digitChars {digits : List (Fin 10)} :
    (∃ c ∈ digitChars digits, c.isDigit = true) ↔ digits ≠ [] := by
  rw [ne_eq, ← digitChars_eq_nil_iff]
  constructor
  · rintro ⟨c, hc, -⟩
    exact List.ne_nil_of_mem hc
  · intro ne
    obtain ⟨c, hc⟩ := List.exists_mem_of_ne_nil _ ne
    exact ⟨c, hc, isDigit_of_mem_digitChars hc⟩

theorem isNumber_whole {whole : List (Fin 10)} :
    (digitChars whole).count '.' ≤ 1 ∧ (∃ c ∈ digitChars whole, c.isDigit = true) ↔
      whole ≠ [] := by
  rw [count_point_digitChars, exists_isDigit_digitChars]
  exact and_iff_right (Nat.zero_le 1)

theorem isNumber_pointed {whole decimals : List (Fin 10)} :
    (digitChars whole ++ '.' :: digitChars decimals).count '.' ≤ 1 ∧
        (∃ c ∈ digitChars whole ++ '.' :: digitChars decimals, c.isDigit = true) ↔
      whole ++ decimals ≠ [] := by
  have single : (digitChars whole ++ '.' :: digitChars decimals).count '.' = 1 := by
    simp [count_point_digitChars]
  rw [single, ← exists_isDigit_digitChars, digitChars, digitChars, digitChars, List.map_append]
  refine (and_iff_right le_rfl).trans ⟨?_, ?_⟩
  · rintro ⟨c, hc, digit⟩
    rcases List.mem_append.mp hc with hc | hc
    · exact ⟨c, List.mem_append_left _ hc, digit⟩
    · rcases List.mem_cons.mp hc with rfl | hc
      · cases digit
      · exact ⟨c, List.mem_append_right _ hc, digit⟩
  · rintro ⟨c, hc, digit⟩
    refine ⟨c, ?_, digit⟩
    rw [List.mem_append, List.mem_cons]
    exact (List.mem_append.mp hc).imp id .inr

section Numbers

variable {x : Shape}

theorem Amount.isMantissa_of_mem (a : Amount) {c : Char} (h : c ∈ a.mantissa) :
    isMantissa c = true := by
  have digit {digits : List (Fin 10)} (hc : c ∈ digitChars digits) : isMantissa c = true :=
    isMantissa_iff.mpr (.inl (isDigit_of_mem_digitChars hc))
  rw [mantissa, List.mem_append] at h
  rcases h with h | h
  · exact digit h
  · rcases hd : a.decimals with _ | decimals <;> rw [hd] at h
    · cases h
    · rcases List.mem_cons.mp h with rfl | h
      · rfl
      · exact digit h

theorem Amount.Fills.isNumber {a : Amount} (h : a.Fills x) : x.IsNumber := by
  rw [Shape.IsNumber, ← h.mantissa]
  obtain ⟨sign, whole, _ | decimals, ne, exponent⟩ := a
  · rw [Amount.mantissa, Option.elim_none, List.append_nil]
    exact isNumber_whole.mpr (by simpa using ne)
  · exact isNumber_pointed.mpr ne

theorem Shape.IsWritten.exists_amount (h : x.IsWritten) (number : x.IsNumber) :
    ∃ a : Amount, a.Fills x := by
  obtain ⟨sign, same⟩ := isSign_iff.mp h.sign
  obtain ⟨exponent, same'⟩ :
      ∃ e : Option ExponentText, e.elim [] ExponentText.chars = x.exponent := by
    rcases h.exponent with nothing | written
    · exact ⟨none, nothing.symm⟩
    · obtain ⟨e, same'⟩ := isExponent_iff.mp written
      exact ⟨some e, same'⟩
  rw [Shape.IsNumber] at number
  have form := mantissaForm h.ne h.mantissa
  generalize hm : x.mantissa = mantissa at form number
  cases form with
  | whole whole ne =>
    exact ⟨⟨sign, whole, none, by simpa using ne, exponent⟩, same, by simp [Amount.mantissa, hm],
      same'⟩
  | pointed whole decimals =>
    have ne : whole ++ decimals ≠ [] := isNumber_pointed.mp number
    exact ⟨⟨sign, whole, some decimals, ne, exponent⟩, same, by simp [Amount.mantissa, hm], same'⟩
  | dotted whole decimals rest =>
    have single := number.1
    simp [count_point_digitChars] at single

theorem Amount.isExponent_exponentChars (a : Amount) :
    a.exponentChars = [] ∨ IsExponent a.exponentChars := by
  rcases h : a.exponent with _ | e
  · exact .inl (by simp [exponentChars, h])
  · exact .inr (isExponent_iff.mpr ⟨e, by simp [exponentChars, h]⟩)

theorem Amount.ofChars?_mantissa (a : Amount) :
    Numeral.ofChars? (a.mantissa ++ a.exponentChars) = some a.numeral := by
  have stops := stops_exponent a.isExponent_exponentChars
  obtain ⟨sign, whole, _ | decimals, ne, exponent⟩ := a
  · have digit : whole ≠ [] := by simpa using ne
    simp only [mantissa, Option.elim_none, List.append_nil]
    rw [ofChars?_whole whole stops, if_neg digit]
    exact scaled?_exponent _ exponent
  · have digit : ¬ (whole = [] ∧ decimals = []) := by simpa using ne
    simp only [mantissa, Option.elim_some, List.append_assoc, List.cons_append]
    rw [ofChars?_pointed whole decimals stops.isDigit, if_neg digit]
    exact scaled?_exponent _ exponent

/-- The amount of a shape reads as the number that is written. -/
theorem Amount.Fills.amount?_eq {a : Amount} (h : a.Fills x) : x.amount? = some a.toFloat := by
  have minus : x.sign = ['-'] ↔ a.sign = some .minus := by
    rw [← h.sign]
    rcases a.sign with _ | _ | _ <;> simp [signChars, Sign.char]
  rw [Shape.amount?, ← h.mantissa, ← h.exponent, a.ofChars?_mantissa]
  simp [Amount.toFloat, minus]

theorem Shape.IsWritten.amount?_eq_none (h : x.IsWritten) (other : ¬ x.IsNumber) :
    x.amount? = none := by
  have form := mantissaForm h.ne h.mantissa
  have stops := (stops_exponent h.exponent).isDigit
  rw [Shape.IsNumber] at other
  rw [Shape.amount?]
  generalize x.mantissa = mantissa at form other
  cases form with
  | whole whole ne => exact absurd (isNumber_whole.mpr ne) other
  | pointed whole decimals =>
    rw [isNumber_pointed, not_not, List.append_eq_nil_iff] at other
    rw [List.append_assoc, List.cons_append, ofChars?_pointed whole decimals stops, if_pos other]
    rfl
  | dotted whole decimals rest =>
    have point : Stops Char.isDigit ('.' :: (rest ++ x.exponent)) := by
      rintro _ ⟨⟩
      rfl
    rw [List.append_assoc, List.cons_append, List.append_assoc, List.cons_append,
      ofChars?_pointed whole decimals point, scaled?_point, ite_self]
    rfl

end Numbers

end Audience.Spoken
