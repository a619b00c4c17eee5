import Mathlib
import Audience.Proofs.Decimal.Digits
import Audience.Proofs.Decimal.Reading

/-! # Written decimals

A decimal has a digit or more, and perhaps a mark with the digits of a fraction behind it. The
numeral with these digits writes the same number.
-/

namespace Audience.Decimal

/-- What stands before the fraction. -/
inductive Mark where
  | point
  | comma
  deriving DecidableEq

def Mark.char : Mark → Char
  | .point => '.'
  | .comma => ','

def digitChars (digits : List (Fin 10)) : List Char :=
  digits.map fun d : Fin 10 => Nat.digitChar d.val

def digitsNat (digits : List (Fin 10)) : Nat :=
  Nat.ofDigits 10 (digits.reverse.map Fin.val)

structure NumberText where
  first : Fin 10
  whole : List (Fin 10)
  fraction : Option (Mark × List (Fin 10))

section Digits

variable {s : List Char} {digits : List (Fin 10)}

theorem isDigit_of_mem_digitChars {c : Char} (h : c ∈ digitChars digits) : c.isDigit = true := by
  obtain ⟨d, -, rfl⟩ := List.mem_map.mp h
  simp [Nat.isDigit_digitChar]

theorem exists_digits (h : ∀ c ∈ s, c.isDigit = true) : ∃ digits, digitChars digits = s := by
  induction s with
  | nil => exact ⟨[], rfl⟩
  | cons c s ih =>
    obtain ⟨digits, rest⟩ := ih fun c hc => h c (List.mem_cons_of_mem _ hc)
    obtain ⟨small, same⟩ := digitChar_of_isDigit (h c List.mem_cons_self)
    refine ⟨⟨c.toNat - '0'.toNat, small⟩ :: digits, ?_⟩
    rw [digitChars, List.map_cons, same, ← rest]
    rfl

theorem digitsValue_digitChars (digits : List (Fin 10)) :
    digitsValue (digitChars digits) = digitsNat digits := by
  induction digits using List.reverseRecOn with
  | nil => rfl
  | append_singleton digits d ih =>
    have last : (Nat.digitChar d).toNat = '0'.toNat + d := Nat.toNat_digitChar_of_lt_ten d.isLt
    rw [digitChars, List.map_append, List.map_singleton, digitsValue_concat, ← digitChars, ih, last,
      digitsNat, digitsNat, List.reverse_append, List.reverse_singleton, List.singleton_append,
      List.map_cons, Nat.ofDigits_cons]
    simp
    omega

theorem digitsNat_append (front back : List (Fin 10)) :
    digitsNat (front ++ back) = digitsNat front * 10 ^ back.length + digitsNat back := by
  rw [digitsNat, List.reverse_append, List.map_append, Nat.ofDigits_append]
  simp [digitsNat]
  ring

theorem span_digitChars (digits : List (Fin 10)) {rest : List Char}
    (h : ∀ c ∈ rest.head?, c.isDigit = false) :
    (digitChars digits ++ rest).takeWhile Char.isDigit = digitChars digits ∧
      (digitChars digits ++ rest).dropWhile Char.isDigit = rest := by
  induction digits with
  | nil =>
    cases rest with
    | nil => exact ⟨rfl, rfl⟩
    | cons c rest =>
      have stops : c.isDigit = false := h c rfl
      simp [digitChars, stops]
  | cons d digits ih =>
    have isDigit : (Nat.digitChar d).isDigit = true := by simp [Nat.isDigit_digitChar]
    simpa [digitChars, isDigit] using ih

theorem exists_span (s : List Char) : ∃ digits rest, digitChars digits ++ rest = s ∧
    ∀ c ∈ rest.head?, c.isDigit = false := by
  obtain ⟨digits, same⟩ := exists_digits fun c (hc : c ∈ s.takeWhile Char.isDigit) =>
    List.mem_takeWhile_imp hc
  refine ⟨digits, s.dropWhile Char.isDigit, ?_, fun c hc => ?_⟩
  · rw [same, List.takeWhile_append_dropWhile]
  · have stops := List.head?_dropWhile_not Char.isDigit s
    rw [Option.mem_def.mp hc] at stops
    exact stops

end Digits

namespace NumberText

def chars (n : NumberText) : List Char :=
  digitChars (n.first :: n.whole) ++
    n.fraction.elim [] fun (mark, digits) => mark.char :: digitChars digits

/-- The number that is written. -/
def value (n : NumberText) : ℚ :=
  digitsNat (n.first :: n.whole) +
    n.fraction.elim 0 fun (_, digits) => digitsNat digits / 10 ^ digits.length

def decimals (n : NumberText) : List (Fin 10) :=
  n.fraction.elim [] Prod.snd

def numeral (n : NumberText) : Numeral :=
  .ofDigits (digitChars (n.first :: n.whole)) (digitChars n.decimals)

theorem value_numeral (n : NumberText) : n.numeral.value = n.value := by
  have joined (front back : List (Fin 10)) :
      digitChars front ++ digitChars back = digitChars (front ++ back) := List.map_append.symm
  rw [numeral, Numeral.ofDigits, Numeral.value, joined, digitsValue_digitChars, digitsNat_append,
    digitChars, List.length_map, zpow_neg, zpow_natCast, value, decimals]
  rcases n.fraction with _ | ⟨mark, digits⟩
  · simp [digitsNat]
  · push_cast [Option.elim_some]
    field_simp

end NumberText

end Audience.Decimal
