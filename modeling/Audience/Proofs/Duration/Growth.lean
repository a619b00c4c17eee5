import Mathlib
import Audience.Proofs.Duration.Cascade
import Audience.Proofs.Duration.Exact

/-! # Longer durations

In exact numbers a duration of whole years and months leads at least as far as every one with
smaller parts. Doubles keep this order if none of them is infinite, and if they count the
milliseconds one by one or all parts are whole. An infinite part leaves no number of milliseconds at
all.
-/

namespace Audience.Duration

open Binary64 (IsNearest IsNonneg IsWhole infinityBits value)
open Calendar Decimal Quantity

/-- Whether a duration leads no farther than another one with the same sign. -/
def NoFarther {α : Type} [Quantity α] (d e : Duration α) (t : Int64) : Prop :=
  (d.positive = true → d.applyTo t ≤ e.applyTo t) ∧
    (d.positive = false → e.applyTo t ≤ d.applyTo t)

section Directions

variable {α : Type} [Quantity α] {d e : Duration α} {t : Int64}

theorem noFarther_of_le (same : d.positive = e.positive) (range : inRange t.toInt = true)
    (years : 0 ≤ (toInt64 d.parts.years).toInt)
    (leY : (toInt64 d.parts.years).toInt ≤ (toInt64 e.parts.years).toInt)
    (months : 0 ≤ (toInt64 (monthsTotal d.parts)).toInt)
    (leM : (toInt64 (monthsTotal d.parts)).toInt ≤ (toInt64 (monthsTotal e.parts)).toInt)
    (millis : 0 ≤ (toInt64 (offset d.parts (monthLengthAt (d.monthReached t.toInt)))).toInt)
    (le : (toInt64 (offset d.parts (monthLengthAt (d.monthReached t.toInt)))).toInt ≤
      (toInt64 (offset e.parts (monthLengthAt (e.monthReached t.toInt)))).toInt) :
    NoFarther d e t := by
  have signs : e.sign = d.sign := by rw [sign, sign, same]
  have reached : d.sign * d.monthReached t.toInt ≤ d.sign * e.monthReached t.toInt := by
    rw [monthReached, monthReached, signs]
    exact shiftMonths_along d.sign_eq range years months leY leM
  have order : d.sign * (d.applyTo t).toInt ≤ d.sign * (e.applyTo t).toInt := by
    rw [applyTo_of_nonneg range rfl millis, applyTo_of_nonneg range rfl (millis.trans le), signs]
    exact ofIntClamp_along d.sign_eq reached le
  constructor
  · intro positive
    rw [sign, if_pos positive, Int.one_mul, Int.one_mul] at order
    exact Int64.le_iff_toInt_le.mpr order
  · intro negative
    rw [sign, if_neg (by rw [negative]; exact Bool.false_ne_true)] at order
    exact Int64.le_iff_toInt_le.mpr (by omega)

end Directions

/-- Whether years and months are whole. -/
def HasWholeMonths (p : Parts ℚ) : Prop :=
  (∃ n : ℕ, p.years = n) ∧ ∃ n : ℕ, p.months = n

namespace Spelling

/-- The numbers in a spelling, zero where none is written. -/
def numbers (x : Spelling) : Parts ℚ :=
  x.parts.map fun n => n.elim 0 NumberText.value

def exact (x : Spelling) : Duration ℚ where
  positive := decide (x.sign ≠ some .minus)
  parts := x.numbers

variable {x : Spelling} {d : Duration Float}

theorem numbers_nonneg (x : Spelling) : ∀ q ∈ x.numbers.toList, 0 ≤ q := by
  have nonneg (n : Option NumberText) : 0 ≤ n.elim 0 NumberText.value := by
    cases n with
    | none => exact le_rfl
    | some n =>
      rw [Option.elim_some, ← NumberText.value_numeral]
      exact Numeral.value_nonneg _
  show ∀ q ∈ x.parts.toList.map fun n => n.elim 0 NumberText.value, 0 ≤ q
  rw [List.forall_mem_map]
  exact fun n _ => nonneg n

theorem Denotes.isNearest (h : x.Denotes d) :
    List.Forall₂ IsNearest x.numbers.toList d.parts.toList := by
  show List.Forall₂ _ (x.parts.toList.map fun n => n.elim 0 NumberText.value) _
  rw [List.forall₂_map_left_iff]
  refine h.parts.imp fun n y read => ?_
  cases n with
  | none =>
    obtain rfl : y = 0 := read
    exact Binary64.isNearest_zero le_rfl (by norm_num)
  | some n => exact read

theorem Denotes.positive_eq (h : x.Denotes d) : x.exact.positive = d.positive := by
  have sign := h.sign
  cases positive : d.positive <;> simp_all [Spelling.exact]

theorem Denotes.isWhole (h : x.Denotes d) (whole : HasWholeMonths x.numbers) :
    IsWhole d.parts.years ∧ IsWhole d.parts.months := by
  obtain ⟨⟨y, years⟩, m, months⟩ := whole
  have nearest := h.isNearest
  simp only [Parts.toList, List.forall₂_cons, years, months] at nearest
  exact ⟨nearest.1.exists_natCast, nearest.2.1.exists_natCast⟩

end Spelling

section Exact

variable {p q : Parts ℚ} {d e : Duration ℚ} {t : Int64}

theorem exactMonths_of_whole (h : HasWholeMonths p) : exactMonths p = p.months := by
  obtain ⟨⟨n, years⟩, -⟩ := h
  rw [exactMonths, years, Int.fract_natCast, mul_zero, add_zero]

theorem toInt64_exact_le {a b : ℚ} (nonneg : 0 ≤ a) (le : a ≤ b) :
    (toInt64 a).toInt ≤ (toInt64 b).toInt := by
  rw [toInt64_exact nonneg, toInt64_exact (nonneg.trans le)]
  exact min_le_min_right _ (Int.floor_le_floor le)

theorem toInt64_exact_nonneg {a : ℚ} (nonneg : 0 ≤ a) : 0 ≤ (toInt64 a).toInt := by
  rw [toInt64_exact nonneg]
  exact le_min (Int.floor_nonneg.mpr nonneg) (by decide)

theorem exactMillis_of_whole (h : HasWholeMonths p) (length : Nat) :
    exactMillis p length = (p.days + 7 * p.weeks) * 86400000 + p.hours * 3600000 +
      p.minutes * 60000 + p.seconds * 1000 := by
  obtain ⟨n, months⟩ := h.2
  rw [exactMillis, exactMonths_of_whole h, months, Int.fract_natCast, zero_mul, add_zero]

/-- In exact numbers greater parts lead at least as far. -/
theorem noFarther_exact (same : d.positive = e.positive) (range : inRange t.toInt = true)
    (nonneg : ∀ a ∈ d.parts.toList, 0 ≤ a) (nonneg' : ∀ b ∈ e.parts.toList, 0 ≤ b)
    (le : List.Forall₂ (· ≤ ·) d.parts.toList e.parts.toList)
    (whole : HasWholeMonths d.parts) (whole' : HasWholeMonths e.parts) : NoFarther d e t := by
  have total := exactMonths_of_whole whole
  have total' := exactMonths_of_whole whole'
  have parts := nonneg
  simp only [Parts.toList, List.forall_mem_cons] at parts
  simp only [Parts.toList, List.forall₂_cons] at le
  obtain ⟨y0, m0, w0, d0, h0, min0, s0, -⟩ := parts
  obtain ⟨leY, leM, leW, leD, leH, leMin, leS, -⟩ := le
  have sum {length length' : Nat} :
      exactMillis d.parts length ≤ exactMillis e.parts length' := by
    rw [exactMillis_of_whole whole, exactMillis_of_whole whole']
    linarith
  have positive {length : Nat} : 0 ≤ exactMillis d.parts length := by
    rw [exactMillis_of_whole whole]
    positivity
  have months : 0 ≤ monthsTotal d.parts := by rwa [monthsTotal_exact nonneg, total]
  have leMonths : monthsTotal d.parts ≤ monthsTotal e.parts := by
    rwa [monthsTotal_exact nonneg, monthsTotal_exact nonneg', total, total']
  refine noFarther_of_le same range (toInt64_exact_nonneg y0) (toInt64_exact_le y0 leY)
    (toInt64_exact_nonneg months) (toInt64_exact_le months leMonths) ?_ ?_
  · rw [offset_exact nonneg]
    apply toInt64_exact_nonneg
    exact_mod_cast Binary64.round_nonneg positive
  · rw [offset_exact nonneg, offset_exact nonneg']
    apply toInt64_exact_le
    · exact_mod_cast Binary64.round_nonneg positive
    · exact_mod_cast Binary64.round_le_round sum

end Exact

section Doubles

variable {x y : Spelling} {d e : Duration Float} {p : Parts Float} {t : Int64}

theorem forall₂_value_le {ps qs : List ℚ} {xs ys : List Float} (le : List.Forall₂ (· ≤ ·) ps qs)
    (hx : List.Forall₂ IsNearest ps xs) (hy : List.Forall₂ IsNearest qs ys) :
    List.Forall₂ (fun x y => value x ≤ value y) xs ys := by
  induction le generalizing xs ys with
  | nil =>
    cases hx
    cases hy
    exact .nil
  | cons le _ ih =>
    cases hx with
    | cons hx restX =>
      cases hy with
      | cons hy restY => exact .cons (hx.value_le hy le) (ih restX restY)

theorem isWhole_of_isNearest {ps : List ℚ} {xs : List Float}
    (nearest : List.Forall₂ IsNearest ps xs) (whole : ∀ q ∈ ps, ∃ n : ℕ, q = n) :
    ∀ x ∈ xs, IsWhole x := by
  induction nearest with
  | nil => exact List.forall_mem_nil _
  | cons near _ ih =>
    rw [List.forall_mem_cons] at whole ⊢
    obtain ⟨n, rfl⟩ := whole.1
    exact ⟨near.exists_natCast, ih whole.2⟩

theorem monthsTotal_of_isWhole (nonneg : ∀ x ∈ p.toList, IsNonneg x)
    (finite : p.years.toBits.toNat ≠ infinityBits) (years : IsWhole p.years) :
    monthsTotal p = p.months := by
  simp only [Parts.toList, List.forall_mem_cons] at nonneg
  have nothing : (0 : Float) * ofNat 12 = 0 := zero_mul_ofNat (by decide)
  rw [monthsTotal, fraction_of_isWhole nonneg.1 finite years, nothing,
    nonneg.2.1.isUnsigned.add_zero]

theorem fraction_monthsTotal (nonneg : ∀ x ∈ p.toList, IsNonneg x)
    (finite : ∀ x ∈ p.toList, x.toBits.toNat ≠ infinityBits)
    (years : IsWhole p.years) (months : IsWhole p.months) :
    monthsTotal p = p.months ∧ fraction (monthsTotal p) = 0 := by
  simp only [Parts.toList, List.forall_mem_cons] at finite
  have total := monthsTotal_of_isWhole nonneg finite.1 years
  simp only [Parts.toList, List.forall_mem_cons] at nonneg
  rw [total]
  exact ⟨rfl, fraction_of_isWhole nonneg.2.1 finite.2.1 months⟩

theorem finite_of_forall₂ {xs ys : List Float}
    (le : List.Forall₂ (fun x y => value x ≤ value y) xs ys)
    (nonneg : ∀ x ∈ xs, IsNonneg x) (nonneg' : ∀ y ∈ ys, IsNonneg y)
    (finite : ∀ y ∈ ys, y.toBits.toNat ≠ infinityBits) :
    ∀ x ∈ xs, x.toBits.toNat ≠ infinityBits := by
  induction le with
  | nil => exact List.forall_mem_nil _
  | cons le _ ih =>
    rw [List.forall_mem_cons] at nonneg nonneg' finite ⊢
    exact ⟨Binary64.finite_of_value_le nonneg.1 nonneg'.1 finite.1 le,
      ih nonneg.2 nonneg'.2 finite.2⟩

/-- Greater doubles lead at least as far as their milliseconds are in order. -/
theorem noFarther_of_fixedMillis_le (same : d.positive = e.positive)
    (range : inRange t.toInt = true) (nonneg : ∀ x ∈ d.parts.toList, IsNonneg x)
    (nonneg' : ∀ y ∈ e.parts.toList, IsNonneg y)
    (le : List.Forall₂ (fun x y => value x ≤ value y) d.parts.toList
      e.parts.toList)
    (finite : IsFinite e.parts) (years : IsWhole d.parts.years) (months : IsWhole d.parts.months)
    (years' : IsWhole e.parts.years) (months' : IsWhole e.parts.months)
    (millis : fixedMillis d.parts ≤ fixedMillis e.parts) : NoFarther d e t := by
  have finite' := finite.ne_infinity nonneg'
  obtain ⟨total, left⟩ := fraction_monthsTotal nonneg
    (finite_of_forall₂ le nonneg nonneg' finite') years months
  obtain ⟨total', left'⟩ := fraction_monthsTotal nonneg' finite' years' months'
  have short (t : Int) := monthLengthAt_le t
  have counted : 0 ≤ fixedMillis d.parts :=
    fixedMillis_nonneg fun x part => (nonneg x part).isUnsigned
  simp only [Parts.toList, List.forall_mem_cons, List.forall₂_cons] at nonneg nonneg' le
  refine noFarther_of_le same range nonneg.1.isUnsigned.toInt64_nonneg
    (Binary64.toInt64_le nonneg.1 nonneg'.1 le.1) ?_ ?_ ?_ ?_
  · rw [total]
    exact nonneg.2.1.isUnsigned.toInt64_nonneg
  · rw [total, total']
    exact Binary64.toInt64_le nonneg.2.1 nonneg'.2.1 le.2.1
  · rw [offset_of_whole left (short _)]
    exact counted
  · rw [offset_of_whole left (short _), offset_of_whole left' (short _)]
    exact millis

end Doubles

/-- A duration of whole years and months leads at least as far as one with smaller numbers. This
holds in exact numbers. In doubles it holds unless a part is infinite, if all numbers are whole or
the milliseconds have at most 53 bits, and with too many of them the duration stops at the bound of
64 bits. -/
theorem applyTo_noFarther {x y : Spelling} {d e : Duration Float}
    (hd : Grammar.writtenDuration x.text = .ok d) (he : Grammar.writtenDuration y.text = .ok e)
    (same : d.positive = e.positive) (whole : HasWholeMonths x.numbers)
    (whole' : HasWholeMonths y.numbers)
    (le : List.Forall₂ (· ≤ ·) x.numbers.toList y.numbers.toList) {t : Int64}
    (range : inRange t.toInt = true) :
    NoFarther x.exact y.exact t ∧
      (IsFinite e.parts →
        ((∀ q ∈ x.numbers.toList, ∃ n : ℕ, q = n) ∧ (∀ q ∈ y.numbers.toList, ∃ n : ℕ, q = n) ∨
          fixedMillis e.parts < (2 ^ 53 : ℕ)) → NoFarther d e t) ∧
      (IsFinite e.parts → fixedMillis e.parts = Int64.maxValue.toInt → e.applyTo t =
        Int64.ofIntClamp (e.monthReached t.toInt + e.sign * Int64.maxValue.toInt)) := by
  have denotes := (writtenDuration_spelled x.text).2.2 d hd x rfl
  have denotes' := (writtenDuration_spelled y.text).2.2 e he y rfl
  have nearest := denotes.isNearest
  have nearest' := denotes'.isNearest
  have order := forall₂_value_le le nearest nearest'
  have months := denotes.isWhole whole
  have months' := denotes'.isWhole whole'
  refine ⟨?exact, fun finite counted => ?doubles, fun finite most => ?saturated⟩
  case exact =>
    have signs := denotes.positive_eq.trans (same.trans denotes'.positive_eq.symm)
    exact noFarther_exact signs range x.numbers_nonneg y.numbers_nonneg le whole whole'
  case doubles =>
    refine noFarther_of_fixedMillis_le same range denotes.nonneg denotes'.nonneg order finite
      months.1 months.2 months'.1 months'.2 ?_
    rcases counted with ⟨natural, natural'⟩ | small
    · exact fixedMillis_le_of_whole denotes.nonneg denotes'.nonneg order finite
        (isWhole_of_isNearest nearest natural) (isWhole_of_isNearest nearest' natural')
    · exact fixedMillis_le_of_small denotes.nonneg denotes'.nonneg order finite small
  case saturated =>
    have finite' := finite.ne_infinity denotes'.nonneg
    obtain ⟨-, left⟩ := fraction_monthsTotal denotes'.nonneg finite' months'.1 months'.2
    rw [applyTo_of_whole range left (by rw [most]; decide), most]

theorem applyTo_noFarther_monthAndWeekBack :
    Grammar.writtenDuration "-P1W0,5D" = .ok halfWeeksBack.duration ∧
      Grammar.writtenDuration "-P1M1W0,75DT0,5S" = .ok monthAndWeekBack.duration ∧
      IsFinite monthAndWeekBack.duration.parts ∧
      halfWeeksBack.duration.applyTo 0 = -648000000 ∧
      monthAndWeekBack.duration.applyTo 0 = -3348000500 ∧
      monthAndWeekBack.duration.applyTo 0 ≤ halfWeeksBack.duration.applyTo 0 := by
  have read := halfWeeksBack.writtenDuration_text
  have read' := monthAndWeekBack.writtenDuration_text
  have whole : HasWholeMonths halfWeeksBack.numbers := ⟨⟨0, by decide⟩, 0, by decide⟩
  have whole' : HasWholeMonths monthAndWeekBack.numbers :=
    ⟨⟨0, by decide⟩, 1, by decide +kernel⟩
  have le : List.Forall₂ (· ≤ ·) halfWeeksBack.numbers.toList monthAndWeekBack.numbers.toList := by
    decide +kernel
  have finite : IsFinite monthAndWeekBack.duration.parts := ⟨by decide +kernel, by decide +kernel⟩
  have farther := applyTo_noFarther read read' (by decide) whole whole' le
    (show inRange (0 : Int64).toInt = true by decide)
  rw [show halfWeeksBack.text = "-P1W0,5D" by decide] at read
  rw [show monthAndWeekBack.text = "-P1M1W0,75DT0,5S" by decide] at read'
  exact ⟨read, read', finite, by decide +kernel, by decide +kernel,
    (farther.2.1 finite (.inr (by decide +kernel))).2 (by decide)⟩

/-- More days than a double counts lead nowhere. -/
theorem not_noFarther_endlessDays :
    Grammar.writtenDuration oneDay.text = .ok oneDay.duration ∧
      Grammar.writtenDuration endlessDays.text = .ok endlessDays.duration ∧
      oneDay.duration.positive = endlessDays.duration.positive ∧
      HasWholeMonths oneDay.numbers ∧ HasWholeMonths endlessDays.numbers ∧
      List.Forall₂ (· ≤ ·) oneDay.numbers.toList endlessDays.numbers.toList ∧
      inRange (0 : Int64).toInt = true ∧
      ¬ NoFarther oneDay.duration endlessDays.duration 0 ∧
      oneDay.duration.applyTo 0 = 86400000 ∧ endlessDays.duration.applyTo 0 = 0 := by
  have near : oneDay.duration.applyTo 0 = 86400000 := by decide +kernel
  have nowhere : endlessDays.duration.applyTo 0 = 0 := by decide +kernel
  refine ⟨oneDay.writtenDuration_text, endlessDays.writtenDuration_text, by decide,
    ⟨⟨0, by decide⟩, 0, by decide⟩, ⟨⟨0, by decide⟩, 0, by decide⟩, by decide +kernel, by decide,
    fun noFarther => ?_, near, nowhere⟩
  have order := noFarther.1 (by decide)
  rw [near, nowhere] at order
  exact absurd order (by decide)

/-- Beyond 53 bits a fraction of seconds can turn the sum. -/
example : applyTo ⟨true, ⟨0, 0, 0, 60000000000, 0, 0, 22.4⟩⟩ 0 <
    applyTo ⟨true, ⟨0, 0, 0, 60000000000, 0, 0, (21.6 : Float)⟩⟩ 0 := by
  decide +kernel

end Audience.Duration
