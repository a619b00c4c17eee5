import Mathlib
import Audience.Decimal.Layout
import Audience.Proofs.Decimal.Shortest
import Audience.Proofs.Decimal.Written

/-! # Plain decimals

The plain text of a finite double is a written decimal, without an exponent, and the double is the
nearest one to it. Infinity is a word and not a decimal.
-/

namespace Audience.Decimal

open Binary64

section Digits

variable {s whole decimals : List Char}

theorem digitsValue_append (front back : List Char) :
    digitsValue (front ++ back) = 10 ^ back.length * digitsValue front + digitsValue back :=
  (Nat.ofDigitChars_append 0).trans Nat.ofDigitChars_eq_ofDigitChars_zero

theorem digitsValue_zeros (k : Nat) : digitsValue (List.replicate k '0') = 0 :=
  Nat.ofDigitChars_replicate_zero

theorem digitsValue_toDigits (n : Nat) : digitsValue (Nat.toDigits 10 n) = n :=
  Nat.ofDigitChars_ten_toDigits

theorem exists_whole (some : s ≠ []) (digits : ∀ c ∈ s, c.isDigit = true) :
    ∃ n : NumberText, n.chars = s ∧ n.numeral = .ofDigits s [] := by
  obtain ⟨_ | ⟨first, others⟩, rfl⟩ := exists_digits digits
  · exact absurd rfl some
  · exact ⟨⟨first, others, none⟩, List.append_nil _, rfl⟩

theorem exists_pointed (some : whole ≠ []) (digits : ∀ c ∈ whole ++ decimals, c.isDigit = true) :
    ∃ n : NumberText, n.chars = whole ++ '.' :: decimals ∧
      n.numeral = .ofDigits whole decimals := by
  obtain ⟨front, back⟩ := List.forall_mem_append.mp digits
  obtain ⟨_ | ⟨first, others⟩, rfl⟩ := exists_digits front
  · exact absurd rfl some
  · obtain ⟨decimals, rfl⟩ := exists_digits back
    exact ⟨⟨first, others, .some (.point, decimals)⟩, rfl, rfl⟩

theorem isDigit_of_mem_zeros {k : Nat} {c : Char} (h : c ∈ List.replicate k '0') :
    c.isDigit = true := by
  rw [List.eq_of_mem_replicate h]
  rfl

theorem exists_trailing_zeros (some : s ≠ []) (digits : ∀ c ∈ s, c.isDigit = true) (k : Nat) :
    ∃ n : NumberText, n.chars = s ++ List.replicate k '0' ∧ n.value = digitsValue s * 10 ^ k := by
  obtain ⟨n, chars, numeral⟩ := exists_whole
    (List.append_ne_nil_of_left_ne_nil some (List.replicate k '0'))
    (List.forall_mem_append.mpr ⟨digits, fun _ => isDigit_of_mem_zeros⟩)
  refine ⟨n, chars, ?_⟩
  rw [← NumberText.value_numeral, numeral, Numeral.ofDigits, Numeral.value, List.append_nil,
    digitsValue_append, List.length_replicate, digitsValue_zeros]
  simp [mul_comm]

/-- Zeros in front leave a digit before the point, however many decimals there are. -/
theorem exists_setPoint (digits : ∀ c ∈ s, c.isDigit = true) (k : Nat) :
    ∃ n : NumberText, n.chars = setPoint s k ∧ n.value = digitsValue s * 10 ^ (-k : Int) := by
  rw [setPoint]
  generalize hp : List.replicate (k + 1 - s.length) '0' ++ s = padded
  have length : k < padded.length := by
    rw [← hp, List.length_append, List.length_replicate]
    omega
  have split := List.take_append_drop (padded.length - k) padded
  have front : padded.take (padded.length - k) ≠ [] := by
    rw [← List.length_pos_iff, List.length_take]
    omega
  have all : ∀ c ∈ padded, c.isDigit = true := by
    rw [← hp, List.forall_mem_append]
    exact ⟨fun _ => isDigit_of_mem_zeros, digits⟩
  rw [← split] at all
  obtain ⟨n, chars, numeral⟩ := exists_pointed front all
  refine ⟨n, chars, ?_⟩
  rw [← NumberText.value_numeral, numeral, Numeral.ofDigits, Numeral.value, split,
    List.length_drop, ← hp, digitsValue_append, digitsValue_zeros, Nat.mul_zero, Nat.zero_add, hp,
    Nat.sub_sub_self length.le]

theorem exists_positional (some : s ≠ []) (digits : ∀ c ∈ s, c.isDigit = true) (exponent : Int) :
    ∃ n : NumberText, n.chars = positionalText false s exponent ∧
      n.value = digitsValue s * 10 ^ exponent := by
  rw [positionalText]
  split
  next whole =>
    obtain ⟨n, chars, value⟩ := exists_trailing_zeros some digits exponent.toNat
    refine ⟨n, by simp [chars], ?_⟩
    rw [value, ← zpow_natCast, Int.toNat_of_nonneg whole]
  next broken =>
    obtain ⟨n, chars, value⟩ := exists_setPoint digits (-exponent).toNat
    refine ⟨n, chars, ?_⟩
    rw [value, Int.toNat_of_nonneg (by omega), neg_neg]

end Digits

/-- Every numeral can be written without an exponent. -/
theorem exists_plain (n : Numeral) :
    ∃ t : NumberText, t.chars = Layout.plain.ofNumeral n ∧ t.value = n.value := by
  have digits (c : Char) (h : c ∈ Nat.toDigits 10 n.coefficient) : c.isDigit = true :=
    Nat.isDigit_of_mem_toDigits (by decide) (by decide) h
  have some : Nat.toDigits 10 n.coefficient ≠ [] := List.length_pos_iff.mp Nat.length_toDigits_pos
  obtain ⟨t, chars, value⟩ := exists_positional some digits n.exponent
  rw [digitsValue_toDigits] at value
  exact ⟨t, chars, value⟩

section Text

variable {x : Float}

theorem exists_text_of_isFinite (nonneg : IsNonneg x) (finite : isFinite x = true) :
    ∃ n : NumberText, n.chars = (Layout.plain.text x).toList ∧ IsNearest n.value x := by
  have bits := nonneg.isFinite_iff.mp finite
  have none : quantaOfBits 0 = 0 := rfl
  rw [Layout.text, nonneg.read_eq, if_neg bits]
  rcases Nat.eq_zero_or_pos x.toBits.toNat with zero | pos
  · obtain ⟨n, chars, value⟩ := exists_plain ⟨0, 0⟩
    have same : x = 0 := eq_of_toBits (zero.trans (by decide))
    have nearest : IsNearest n.value 0 := by
      rw [value, Numeral.value, Nat.cast_zero, zero_mul]
      exact isNearest_zero le_rfl (by norm_num)
    rw [zero, none, same]
    exact ⟨n, chars.trans String.toList_ofList.symm, nearest⟩
  · have some : 0 < quantaOfBits x.toBits.toNat := none ▸ strictMono_quantaOfBits pos
    have nearest := isNearest_shortest .up nonneg pos finite
    obtain ⟨n, chars, value⟩ := exists_plain (shortest .up (quantaOfBits x.toBits.toNat))
    rw [← value] at nearest
    generalize quantaOfBits x.toBits.toNat = quanta at *
    obtain ⟨q, rfl⟩ := Nat.exists_eq_succ_of_ne_zero some.ne'
    exact ⟨n, chars.trans String.toList_ofList.symm, nearest⟩

theorem text_of_not_isFinite (nonneg : IsNonneg x) (infinite : isFinite x ≠ true) :
    Layout.plain.text x = "inf" := by
  have bits := not_not.mp (mt nonneg.isFinite_iff.mpr infinite)
  rw [Layout.text, nonneg.read_eq, if_pos bits]
  rfl

end Text

end Audience.Decimal
