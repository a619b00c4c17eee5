import Audience.Decimal.Numeral

/-! # Digits of a fixed count

A number below a power of ten is written with so many digits, zeros in front, in exactly one way,
and the value of the digits is the number.
-/

namespace Audience

/-- The last so many decimal digits of a number, zeros included. -/
def padded : Nat → Nat → List Char
  | 0, _ => []
  | count + 1, n => padded count (n / 10) ++ [Nat.digitChar (n % 10)]

@[simp] theorem length_padded (count n : Nat) : (padded count n).length = count := by
  induction count generalizing n with
  | zero => rfl
  | succ count ih => simp [padded, ih]

theorem all_isDigit_padded (count n : Nat) : (padded count n).all Char.isDigit = true := by
  induction count generalizing n with
  | zero => rfl
  | succ count ih =>
    have last : n % 10 < 10 := Nat.mod_lt _ (by decide)
    simp [padded, ih, Nat.isDigit_digitChar, last]

theorem digitsValue_concat (s : List Char) (c : Char) :
    digitsValue (s ++ [c]) = 10 * digitsValue s + (c.toNat - '0'.toNat) := by
  simp [digitsValue]

theorem digitsValue_padded {count n : Nat} (h : n < tenTo count) :
    digitsValue (padded count n) = n := by
  induction count generalizing n with
  | zero =>
    have zero : n = 0 := Nat.lt_one_iff.mp h
    rw [zero]
    rfl
  | succ count ih =>
    have more : tenTo (count + 1) = tenTo count * 10 := rfl
    have front : n / 10 < tenTo count := by omega
    have last : (Nat.digitChar (n % 10)).toNat = '0'.toNat + n % 10 :=
      Nat.toNat_digitChar_of_lt_ten (Nat.mod_lt _ (by decide))
    rw [padded, digitsValue_concat, ih front, last]
    omega

theorem digitChar_of_isDigit {c : Char} (h : c.isDigit = true) :
    c.toNat - '0'.toNat < 10 ∧ Nat.digitChar (c.toNat - '0'.toNat) = c := by
  obtain ⟨low, high⟩ := Char.isDigit_iff_toNat.mp h
  have zero : '0'.toNat = 48 := rfl
  have nine : '9'.toNat = 57 := rfl
  have small : c.toNat - '0'.toNat < 10 := by omega
  refine ⟨small, Char.toNat_inj.mp ?_⟩
  rw [Nat.toNat_digitChar_of_lt_ten small]
  omega

theorem padded_digitsValue {s : List Char} (h : s.all Char.isDigit = true) :
    digitsValue s < tenTo s.length ∧ padded s.length (digitsValue s) = s := by
  induction hn : s.length generalizing s with
  | zero =>
    obtain rfl := List.length_eq_zero_iff.mp hn
    exact ⟨Nat.one_pos, rfl⟩
  | succ count ih =>
    obtain ⟨front, last, rfl⟩ : ∃ front last, s = front ++ [last] := by
      rcases List.eq_nil_or_concat s with rfl | ⟨front, last, hs⟩
      · cases hn
      · exact ⟨front, last, by rw [hs, List.concat_eq_append]⟩
    rw [List.all_append, Bool.and_eq_true] at h
    obtain ⟨bound, same⟩ := ih h.1 (by simpa using hn)
    obtain ⟨small, digit⟩ := digitChar_of_isDigit (by simpa using h.2)
    have more : tenTo (count + 1) = tenTo count * 10 := rfl
    rw [digitsValue_concat]
    constructor
    · omega
    · have tens : (10 * digitsValue front + (last.toNat - '0'.toNat)) / 10 =
          digitsValue front := by omega
      have ones : (10 * digitsValue front + (last.toNat - '0'.toNat)) % 10 =
          last.toNat - '0'.toNat := by omega
      rw [padded, tens, ones, same, digit]

end Audience
