import Mathlib
import Audience.Duration.Spoken

/-! # The shape of a spoken duration

A text has the shape of a spoken duration if it can be cut into a sign, digits and points, an
exponent and letters, with white space around all of this and before the letters. An `e` may start
an exponent or a word, but what stands behind it leaves one way to cut the text, and reading finds
it.
-/

namespace Audience.Spoken

open Text (isBlank)

def IsSign (s : List Char) : Prop :=
  s = [] ∨ s = ['+'] ∨ s = ['-']

inductive IsExponent : List Char → Prop where
  | intro {e : Char} {sign digits : List Char} (letter : e = 'e' ∨ e = 'E') (signed : IsSign sign)
      (ne : digits ≠ []) (all : ∀ c ∈ digits, c.isDigit = true) : IsExponent (e :: sign ++ digits)

namespace Shape

structure IsWritten (x : Shape) : Prop where
  sign : IsSign x.sign
  ne : x.mantissa ≠ []
  mantissa : ∀ c ∈ x.mantissa, isMantissa c = true
  exponent : x.exponent = [] ∨ IsExponent x.exponent
  unit : ∀ c ∈ x.unit, c.isAlpha = true

/-- Whether a text has a given shape. -/
def IsOf (x : Shape) (s : List Char) : Prop :=
  x.IsWritten ∧ ∃ before between after : List Char,
    (∀ c ∈ before, isBlank c = true) ∧ (∀ c ∈ between, isBlank c = true) ∧
      (∀ c ∈ after, isBlank c = true) ∧
      s = before ++ (x.sign ++ (x.mantissa ++ (x.exponent ++ (between ++ (x.unit ++ after)))))

end Shape

section Classes

variable {c : Char}

theorem isBlank_of_isDigit (h : c.isDigit = true) : isBlank c = false := by
  have zero : '0'.toNat = 48 := rfl
  have nine : '9'.toNat = 57 := rfl
  have bounds := Char.isDigit_iff_toNat.mp h
  simp only [isBlank, Bool.or_eq_false_iff, Bool.and_eq_false_iff, decide_eq_false_iff_not]
  omega

theorem isAlpha_iff_toNat :
    c.isAlpha = true ↔ 65 ≤ c.toNat ∧ c.toNat ≤ 90 ∨ 97 ≤ c.toNat ∧ c.toNat ≤ 122 := by
  simp only [Char.isAlpha, Char.isUpper, Char.isLower, Bool.or_eq_true, Bool.and_eq_true,
    decide_eq_true_eq, ge_iff_le, UInt32.le_iff_toNat_le]
  rfl

theorem isBlank_of_isAlpha (h : c.isAlpha = true) : isBlank c = false := by
  have bounds := isAlpha_iff_toNat.mp h
  simp only [isBlank, Bool.or_eq_false_iff, Bool.and_eq_false_iff, decide_eq_false_iff_not]
  omega

theorem isDigit_of_isAlpha (h : c.isAlpha = true) : c.isDigit = false := by
  have zero : '0'.toNat = 48 := rfl
  have nine : '9'.toNat = 57 := rfl
  have bounds := isAlpha_iff_toNat.mp h
  rw [← Bool.not_eq_true, Char.isDigit_iff_toNat]
  omega

theorem isMantissa_iff : isMantissa c = true ↔ c.isDigit = true ∨ c = '.' := by
  simp [isMantissa]

theorem isBlank_of_isMantissa (h : isMantissa c = true) : isBlank c = false := by
  rcases isMantissa_iff.mp h with digit | rfl
  · exact isBlank_of_isDigit digit
  · rfl

theorem apart {p q : Char → Bool} (h : p c = true → q c = false) (hq : q c = true) :
    p c = false := by
  rw [← Bool.not_eq_true]
  intro hp
  rw [h hp] at hq
  cases hq

theorem isMantissa_of_isBlank : isBlank c = true → isMantissa c = false :=
  apart isBlank_of_isMantissa

theorem isMantissa_of_isAlpha (h : c.isAlpha = true) : isMantissa c = false := by
  rw [← Bool.not_eq_true, isMantissa_iff, isDigit_of_isAlpha h]
  rintro (digit | rfl)
  · cases digit
  · cases h

theorem isAlpha_of_isBlank : isBlank c = true → c.isAlpha = false :=
  apart isBlank_of_isAlpha

theorem isDigit_of_isBlank : isBlank c = true → c.isDigit = false :=
  apart isBlank_of_isDigit

end Classes

section Stops

variable {p q : Char → Bool} {s t front rest : List Char}

/-- Whether no character of a class stands at the front of a text. -/
def Stops (p : Char → Bool) (s : List Char) : Prop :=
  ∀ c ∈ s.head?, p c = false

theorem Stops.append (hs : Stops p s) (ht : Stops p t) : Stops p (s ++ t) := by
  cases s with
  | nil => exact ht
  | cons c s => exact hs

theorem Stops.of_ne_nil (ne : s ≠ []) (hs : Stops p s) : Stops p (s ++ t) := by
  cases s with
  | nil => exact absurd rfl ne
  | cons c s => exact hs

theorem stops_of_all (all : ∀ c ∈ s, q c = true) (apart : ∀ {c}, q c = true → p c = false) :
    Stops p s := by
  intro c hc
  exact apart (all c (List.mem_of_mem_head? hc))

theorem Stops.takeWhile_eq (h : Stops p s) : s.takeWhile p = [] := by
  cases s with
  | nil => rfl
  | cons c s => exact List.takeWhile_cons_of_neg (by simp [h c rfl])

theorem Stops.dropWhile_eq (h : Stops p s) : s.dropWhile p = s := by
  cases s with
  | nil => rfl
  | cons c s => exact List.dropWhile_cons_of_neg (by simp [h c rfl])

theorem Stops.isDigit (h : Stops isMantissa s) : Stops Char.isDigit s := by
  intro c hc
  have other := h c hc
  rw [← Bool.not_eq_true, isMantissa_iff, not_or, Bool.not_eq_true] at other
  exact other.1

theorem takeWhile_of_stops (all : ∀ c ∈ front, p c = true) (h : Stops p rest) :
    (front ++ rest).takeWhile p = front := by
  rw [List.takeWhile_append_of_pos all, h.takeWhile_eq, List.append_nil]

theorem dropWhile_of_stops (all : ∀ c ∈ front, p c = true) (h : Stops p rest) :
    (front ++ rest).dropWhile p = rest := by
  rw [List.dropWhile_append_of_pos all, h.dropWhile_eq]

end Stops

section Splitting

variable {s rest : List Char}

theorem splitSign_parts (s : List Char) :
    IsSign (splitSign s).1 ∧ (splitSign s).1 ++ (splitSign s).2 = s := by
  fun_cases splitSign s with
  | case1 rest => exact ⟨.inr (.inl rfl), rfl⟩
  | case2 rest => exact ⟨.inr (.inr rfl), rfl⟩
  | case3 => exact ⟨.inl rfl, rfl⟩

theorem splitSign_of_ne (plus : s.head? ≠ some '+') (minus : s.head? ≠ some '-') :
    splitSign s = ([], s) := by
  fun_cases splitSign s with
  | case1 rest => exact absurd rfl plus
  | case2 rest => exact absurd rfl minus
  | case3 => rfl

theorem splitSign_append {sign : List Char} (h : IsSign sign)
    (mantissa : ∀ c ∈ rest.head?, isMantissa c = true) :
    splitSign (sign ++ rest) = (sign, rest) := by
  rcases h with rfl | rfl | rfl
  · apply splitSign_of_ne <;>
    · intro head
      cases mantissa _ (Option.mem_def.mpr head)
  · rfl
  · rfl

theorem splitExponent_parts (s : List Char) :
    ((splitExponent s).1 = [] ∨ IsExponent (splitExponent s).1) ∧
      (splitExponent s).1 ++ (splitExponent s).2 = s := by
  cases s with
  | nil => exact ⟨.inl rfl, rfl⟩
  | cons e rest =>
    obtain ⟨signed, same⟩ := splitSign_parts rest
    simp only [splitExponent]
    split
    next h =>
      refine ⟨.inr (.intro h.1 signed h.2 fun c hc => List.mem_takeWhile_imp hc), ?_⟩
      rw [List.append_assoc, List.takeWhile_append_dropWhile, List.cons_append, same]
    next => exact ⟨.inl rfl, rfl⟩

theorem splitExponent_append {exponent : List Char} (h : IsExponent exponent)
    (stops : Stops Char.isDigit rest) : splitExponent (exponent ++ rest) = (exponent, rest) := by
  obtain @⟨e, sign, digits, letter, signed, ne, all⟩ := h
  have mantissa : ∀ c ∈ (digits ++ rest).head?, isMantissa c = true := by
    rw [List.head?_append_of_ne_nil _ ne]
    intro c hc
    exact isMantissa_iff.mpr (.inl (all c (List.mem_of_mem_head? hc)))
  have split : splitSign (sign ++ (digits ++ rest)) = (sign, digits ++ rest) :=
    splitSign_append signed mantissa
  simp only [List.cons_append, List.append_assoc, splitExponent, split,
    takeWhile_of_stops all stops, dropWhile_of_stops all stops, if_pos (And.intro letter ne)]

theorem stops_exponent {exponent : List Char} (h : exponent = [] ∨ IsExponent exponent) :
    Stops isMantissa exponent := by
  rcases h with rfl | ⟨rfl | rfl, -, -, -⟩
  · nofun
  · rintro _ ⟨⟩
    rfl
  · rintro _ ⟨⟩
    rfl

/-- Letters and white space hold no exponent: a letter has a letter or white space behind it. -/
theorem splitExponent_of_unit {between unit after : List Char}
    (hb : ∀ c ∈ between, isBlank c = true) (hu : ∀ c ∈ unit, c.isAlpha = true)
    (ha : ∀ c ∈ after, isBlank c = true) :
    splitExponent (between ++ (unit ++ after)) = ([], between ++ (unit ++ after)) := by
  rcases h : between ++ (unit ++ after) with _ | ⟨e, rest⟩
  · rfl
  · have others : ∀ c ∈ rest, isBlank c = true ∨ c.isAlpha = true := by
      intro c hc
      have some : c ∈ between ++ (unit ++ after) := h ▸ List.mem_cons_of_mem e hc
      simp only [List.mem_append] at some
      rcases some with hc | hc | hc
      · exact .inl (hb c hc)
      · exact .inr (hu c hc)
      · exact .inl (ha c hc)
    have head (c : Char) (hc : c ∈ rest.head?) := others c (List.mem_of_mem_head? hc)
    have unsigned : splitSign rest = ([], rest) := by
      apply splitSign_of_ne <;>
      · intro sign
        rcases head _ (Option.mem_def.mpr sign) with blank | alpha
        · cases blank
        · cases alpha
    have stops : Stops Char.isDigit rest := fun c hc =>
      (head c hc).elim isDigit_of_isBlank isDigit_of_isAlpha
    simp [splitExponent, unsigned, stops.takeWhile_eq]

end Splitting

namespace Shape

theorem isOf_of_ofChars? {s : List Char} {x : Shape} (h : ofChars? s = some x) : x.IsOf s := by
  simp only [ofChars?] at h
  obtain ⟨⟨ne, ended⟩, read⟩ := Option.ite_none_right_eq_some.mp h
  obtain ⟨signed, sign⟩ := splitSign_parts (s.dropWhile isBlank)
  generalize hs₁ : (splitSign (s.dropWhile isBlank)).2 = s₁ at *
  obtain ⟨exponents, exponent⟩ := splitExponent_parts (s₁.dropWhile isMantissa)
  generalize hs₂ : (splitExponent (s₁.dropWhile isMantissa)).2 = s₂ at *
  obtain rfl := Option.some.inj read
  refine ⟨⟨signed, ne, fun c hc => List.mem_takeWhile_imp hc, exponents,
    fun c hc => List.mem_takeWhile_imp hc⟩, s.takeWhile isBlank, s₂.takeWhile isBlank,
    (s₂.dropWhile isBlank).dropWhile Char.isAlpha, fun c hc => List.mem_takeWhile_imp hc,
    fun c hc => List.mem_takeWhile_imp hc, List.dropWhile_eq_nil_iff.mp ended, ?_⟩
  rw [List.takeWhile_append_dropWhile, List.takeWhile_append_dropWhile, exponent,
    List.takeWhile_append_dropWhile, sign, List.takeWhile_append_dropWhile]

/-- White space before the letters is dropped. Without letters, that behind them goes with it. -/
theorem unit_of_blanks {between unit after : List Char} (hb : ∀ c ∈ between, isBlank c = true)
    (hu : ∀ c ∈ unit, c.isAlpha = true) (ha : ∀ c ∈ after, isBlank c = true) :
    let s := (between ++ (unit ++ after)).dropWhile isBlank
    s.takeWhile Char.isAlpha = unit ∧ (s.dropWhile Char.isAlpha).dropWhile isBlank = [] := by
  have left : Stops Char.isAlpha after := stops_of_all ha isAlpha_of_isBlank
  have nothing : after.dropWhile isBlank = [] := List.dropWhile_eq_nil_iff.mpr ha
  rcases eq_or_ne unit [] with rfl | ne
  · simp [List.dropWhile_append_of_pos hb, nothing]
  · have stops : Stops isBlank (unit ++ after) :=
      .of_ne_nil ne (stops_of_all hu isBlank_of_isAlpha)
    simp only [dropWhile_of_stops hb stops, takeWhile_of_stops hu left, dropWhile_of_stops hu left,
      nothing, and_self]

theorem ofChars?_of_isOf {s : List Char} {x : Shape} (h : x.IsOf s) : ofChars? s = some x := by
  obtain ⟨sign, mantissa, exponent, unit⟩ := x
  obtain ⟨⟨signed, ne, mantissas, exponents, letters⟩, before, between, after, hbefore, hbetween,
    hafter, rfl⟩ := h
  dsimp only at *
  generalize hrest : between ++ (unit ++ after) = rest
  have first : ∀ c ∈ (mantissa ++ (exponent ++ rest)).head?, isMantissa c = true := by
    rw [List.head?_append_of_ne_nil _ ne]
    exact fun c hc => mantissas c (List.mem_of_mem_head? hc)
  have blanks : Stops isBlank (sign ++ (mantissa ++ (exponent ++ rest))) := by
    refine .append ?_ fun c hc => isBlank_of_isMantissa (first c hc)
    rcases signed with rfl | rfl | rfl <;> rintro _ ⟨⟩ <;> rfl
  have behind : Stops isMantissa rest := by
    rw [← hrest]
    exact (stops_of_all hbetween isMantissa_of_isBlank).append
      ((stops_of_all letters isMantissa_of_isAlpha).append
        (stops_of_all hafter isMantissa_of_isBlank))
  have digits : Stops isMantissa (exponent ++ rest) := (stops_exponent exponents).append behind
  have split : splitExponent (exponent ++ rest) = (exponent, rest) := by
    rcases exponents with rfl | written
    · rw [List.nil_append, ← hrest]
      exact splitExponent_of_unit hbetween letters hafter
    · exact splitExponent_append written behind.isDigit
  obtain ⟨word, ended⟩ := unit_of_blanks hbetween letters hafter
  rw [hrest] at word ended
  simp only [ofChars?, dropWhile_of_stops hbefore blanks, splitSign_append signed first,
    takeWhile_of_stops mantissas digits, dropWhile_of_stops mantissas digits, split, word, ended]
  exact if_pos ⟨ne, trivial⟩

theorem ofChars?_eq_some_iff {s : List Char} {x : Shape} : ofChars? s = some x ↔ x.IsOf s :=
  ⟨isOf_of_ofChars?, ofChars?_of_isOf⟩

end Shape

end Audience.Spoken
