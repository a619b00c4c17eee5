import Mathlib
import Audience.Proofs.Duration.Direction

/-! # Durations in exact numbers

Where numbers are rationals, what the fractions carry from one part to the next adds up to a single
sum, which is rounded once. Only a fraction of a month depends on the calendar, by the length of the
month that the whole months lead to.
-/

namespace Audience

instance : Quantity ℚ where
  ofNat n := n
  truncate x := ((if 0 ≤ x then ⌊x⌋ else ⌈x⌉ : Int) : ℚ)
  roundAway x := ((if 0 ≤ x then ⌊x + 1 / 2⌋ else ⌈x - 1 / 2⌉ : Int) : ℚ)
  toInt64 x := .ofIntClamp (if 0 ≤ x then ⌊x⌋ else ⌈x⌉)

namespace Duration

open Calendar Quantity

/-- The months of a duration with the fraction of its years, in exact numbers. -/
def exactMonths (p : Parts ℚ) : ℚ :=
  p.months + 12 * Int.fract p.years

/-- The milliseconds from days down as one sum, when a month has so many days. -/
def exactMillis (p : Parts ℚ) (length : Nat) : ℚ :=
  (p.days + 7 * p.weeks + Int.fract (exactMonths p) * length) * 86400000 + p.hours * 3600000 +
    p.minutes * 60000 + p.seconds * 1000

/-- Whether an instant lies so many months from another one within the calendar: in the month that
they count to, on the same day or else the last one, at the same time. -/
def IsShifted (t months u : Int) : Prop :=
  ∃ date millis, FallsOn t date millis ∧ HasMonth (date.monthIndex + months) ∧
    FallsOn u (.inMonth (date.monthIndex + months) date.day) millis

section Cascade

variable {x y : ℚ} {p : Parts ℚ}

theorem truncate_exact (h : 0 ≤ x) : truncate x = (⌊x⌋ : ℚ) :=
  congrArg Int.cast (if_pos h)

theorem fraction_exact (h : 0 ≤ x) : fraction x = Int.fract x := by
  rw [fraction, truncate_exact h]
  rfl

theorem roundAway_exact (h : 0 ≤ x) : roundAway x = (round x : ℚ) := by
  rw [round_eq]
  exact congrArg Int.cast (if_pos h)

theorem toInt64_exact (h : 0 ≤ x) : (toInt64 x).toInt = min ⌊x⌋ Int64.maxValue.toInt := by
  have whole : 0 ≤ ⌊x⌋ := Int.floor_nonneg.mpr h
  have low : Int64.minValue.toInt ≤ 0 := by decide
  have high : 0 ≤ Int64.maxValue.toInt := by decide
  have same : toInt64 x = .ofIntClamp ⌊x⌋ := congrArg Int64.ofIntClamp (if_pos h)
  rw [same, Binary64.toInt_ofIntClamp_eq]
  omega

theorem monthsTotal_exact (h : ∀ x ∈ p.toList, 0 ≤ x) : monthsTotal p = exactMonths p := by
  simp only [Parts.toList, List.forall_mem_cons] at h
  rw [monthsTotal, fraction_exact h.1, exactMonths, mul_comm]
  rfl

theorem exactMonths_nonneg (h : ∀ x ∈ p.toList, 0 ≤ x) : 0 ≤ exactMonths p := by
  simp only [Parts.toList, List.forall_mem_cons] at h
  have fraction := Int.fract_nonneg p.years
  rw [exactMonths]
  linarith

theorem carry_nonneg (hx : 0 ≤ x) (y : ℚ) (n : Nat) : 0 ≤ x + Int.fract y * n := by
  have fraction := Int.fract_nonneg y
  positivity

/-- The cascade loses and repeats nothing: it rounds one sum. -/
theorem offset_exact (h : ∀ x ∈ p.toList, 0 ≤ x) (length : Nat) :
    offset p length = (round (exactMillis p length) : ℚ) := by
  have total := exactMonths_nonneg h
  have months := monthsTotal_exact h
  simp only [Parts.toList, List.forall_mem_cons] at h
  obtain ⟨-, -, weeks, days, hours, minutes, seconds, -⟩ := h
  have days0 := carry_nonneg (add_nonneg days (mul_nonneg weeks (Nat.cast_nonneg 7)))
    (exactMonths p) length
  generalize hD : p.days + p.weeks * (7 : ℕ) + Int.fract (exactMonths p) * length = D at days0
  have hours0 := carry_nonneg hours D 24
  generalize hH : p.hours + Int.fract D * (24 : ℕ) = H at hours0
  have minutes0 := carry_nonneg minutes H 60
  generalize hM : p.minutes + Int.fract H * (60 : ℕ) = M at minutes0
  have seconds0 := carry_nonneg seconds M 60
  generalize hS : p.seconds + Int.fract M * (60 : ℕ) = S at seconds0
  have millis0 : 0 ≤ Int.fract S * (1000 : ℕ) :=
    mul_nonneg (Int.fract_nonneg S) (Nat.cast_nonneg 1000)
  have cascade : offset p length = (⌊D⌋ * (86400000 : ℕ) + ⌊H⌋ * (3600000 : ℕ) +
      ⌊M⌋ * (60000 : ℕ) + ⌊S⌋ * (1000 : ℕ) + round (Int.fract S * (1000 : ℕ)) : ℚ) := by
    rw [← roundAway_exact millis0, ← truncate_exact seconds0, ← truncate_exact minutes0,
      ← truncate_exact hours0, ← truncate_exact days0, ← fraction_exact seconds0, ← hS,
      ← fraction_exact minutes0, ← hM, ← fraction_exact hours0, ← hH, ← fraction_exact days0, ← hD,
      ← fraction_exact total, ← months]
    rfl
  have sum : exactMillis p length = ((⌊D⌋ * 86400000 + ⌊H⌋ * 3600000 + ⌊M⌋ * 60000 +
      ⌊S⌋ * 1000 : ℤ) : ℚ) + Int.fract S * (1000 : ℕ) := by
    simp only [exactMillis, Int.fract] at *
    push_cast at *
    linarith
  rw [cascade, sum, round_intCast_add]
  push_cast
  ring

end Cascade

section Shifts

variable {t u s n : Int} {d : Duration ℚ} {t₁ t₂ : Int}

theorem IsShifted.eq (h : IsShifted t n u) : shiftMonths t n = u := by
  obtain ⟨date, millis, falls, stop, moved⟩ := h
  exact (falls.shiftMonths stop).unique moved

theorem IsShifted.inRange (h : IsShifted t n u) : inRange u = true := by
  obtain ⟨date, millis, -, stop, moved⟩ := h
  rw [moved.inRange_iff, Date.monthIndex_inMonth]
  exact stop

theorem IsShifted.le (hs : s = 1 ∨ s = -1) (range : Calendar.inRange t = true)
    (h : IsShifted t (s * n) u) : n ≤ Int64.maxValue.toInt := by
  obtain ⟨date, millis, falls, stop, -⟩ := h
  have start := falls.inRange_iff.mp range
  have high : 12 * (lastYear - firstYear + 1) ≤ Int64.maxValue.toInt := by decide
  rw [HasMonth] at start stop
  rcases hs with rfl | rfl <;> omega

theorem monthReached_exact (h : ∀ x ∈ d.parts.toList, 0 ≤ x) (range : Calendar.inRange t = true)
    (years : IsShifted t (d.sign * (12 * ⌊d.parts.years⌋)) t₁)
    (months : IsShifted t₁ (d.sign * ⌊exactMonths d.parts⌋) t₂) : d.monthReached t = t₂ := by
  have parts := h
  simp only [Parts.toList, List.forall_mem_cons] at parts
  have few := years.le d.sign_eq range
  have few' := months.le d.sign_eq years.inRange
  have y : (toInt64 d.parts.years).toInt = ⌊d.parts.years⌋ := by
    have some := Int.floor_nonneg.mpr parts.1
    rw [toInt64_exact parts.1]
    omega
  have m : (toInt64 (monthsTotal d.parts)).toInt = ⌊exactMonths d.parts⌋ := by
    rw [monthsTotal_exact h, toInt64_exact (exactMonths_nonneg h)]
    omega
  rw [monthReached, y, m, years.eq, months.eq]

theorem applyTo_exact {t : Int64} {date : Date} {millis : Int}
    (h : ∀ x ∈ d.parts.toList, 0 ≤ x) (range : Calendar.inRange t.toInt = true)
    (years : IsShifted t.toInt (d.sign * (12 * ⌊d.parts.years⌋)) t₁)
    (months : IsShifted t₁ (d.sign * ⌊exactMonths d.parts⌋) t₂) (falls : FallsOn t₂ date millis) :
    d.applyTo t = Int64.ofIntClamp (t₂ + d.sign *
      min (round (exactMillis d.parts (daysInMonth date.year date.month)))
        Int64.maxValue.toInt) := by
  have length := falls.monthLengthAt_eq months.inRange
  have whole : 0 ≤ exactMillis d.parts (daysInMonth date.year date.month) := by
    have parts := h
    have fraction := Int.fract_nonneg (exactMonths d.parts)
    simp only [Parts.toList, List.forall_mem_cons] at parts
    obtain ⟨-, -, weeks, days, hours, minutes, seconds, -⟩ := parts
    rw [exactMillis]
    positivity
  have rounded : 0 ≤ round (exactMillis d.parts (daysInMonth date.year date.month)) := by
    rw [round_eq]
    exact Int.floor_nonneg.mpr (by linarith)
  have sum : (toInt64 (offset d.parts (daysInMonth date.year date.month))).toInt =
      min (round (exactMillis d.parts (daysInMonth date.year date.month)))
        Int64.maxValue.toInt := by
    rw [offset_exact h, toInt64_exact (by exact_mod_cast rounded), Int.floor_intCast]
  have reached := monthReached_exact h range years months
  have nonneg : 0 ≤ min (round (exactMillis d.parts (daysInMonth date.year date.month)))
      Int64.maxValue.toInt := le_min rounded (by decide)
  rw [applyTo_of_nonneg range (by rw [reached, length, sum]) nonneg, reached]

end Shifts

/-- In exact numbers a duration that was read adds one sum, rounded once, to the instant that its
whole years and months lead to. A fraction of a month counts by the true length of the month there,
which is known for all of the calendar. The sum stops at the bound of 64 bits before it is added. -/
theorem applyTo_linear {text : String} {d : Duration Float}
    (h : Grammar.writtenDuration text = .ok d) {t : Int64} {t₁ t₂ : Int} {date : Date}
    {millis : Int} (range : inRange t.toInt = true)
    (years : IsShifted t.toInt (d.sign * (12 * ⌊Binary64.value d.parts.years⌋)) t₁)
    (months : IsShifted t₁ (d.sign * ⌊exactMonths (d.parts.map Binary64.value)⌋) t₂)
    (falls : FallsOn t₂ date millis) {sum : Int}
    (rounded : round (exactMillis (d.parts.map Binary64.value)
      (daysInMonth date.year date.month)) = sum) :
    (sum ≤ Int64.maxValue.toInt → Int64.minValue.toInt ≤ t₂ + d.sign * sum →
        t₂ + d.sign * sum ≤ Int64.maxValue.toInt →
          ((d.map Binary64.value).applyTo t).toInt = t₂ + d.sign * sum) ∧
      (d.map Binary64.value).applyTo t =
        Int64.ofIntClamp (t₂ + d.sign * min sum Int64.maxValue.toInt) ∧
      ∀ u date millis, inRange u = true → FallsOn u date millis →
        monthLengthAt u = daysInMonth date.year date.month := by
  obtain ⟨x, denotes⟩ := exists_denotes h
  have nonneg : ∀ x ∈ (d.map Binary64.value).parts.toList, 0 ≤ x := by
    show ∀ x ∈ d.parts.toList.map Binary64.value, 0 ≤ x
    rw [List.forall_mem_map]
    intro y part
    rw [(denotes.nonneg y part).value_eq]
    positivity
  have moved : (d.map Binary64.value).applyTo t =
      Int64.ofIntClamp (t₂ + d.sign * min sum Int64.maxValue.toInt) := by
    rw [← rounded]
    exact applyTo_exact nonneg range years months falls
  refine ⟨fun fits low high => ?_, moved, fun u date millis inside falls =>
    falls.monthLengthAt_eq inside⟩
  rw [moved, min_eq_left fits, Int64.toInt_ofIntClamp low high]

/-- Half a February of a leap year has fourteen and a half days. -/
theorem applyTo_linear_halvesBack :
    Grammar.writtenDuration "-P1,5Y0,5M" = .ok halvesBack.duration ∧
      IsShifted 997401600000 (halvesBack.duration.sign *
        (12 * ⌊Binary64.value halvesBack.duration.parts.years⌋)) 965865600000 ∧
      IsShifted 965865600000 (halvesBack.duration.sign *
        ⌊exactMonths (halvesBack.duration.parts.map Binary64.value)⌋) 950140800000 ∧
      FallsOn 950140800000 ⟨2000, 2, 10⟩ 0 ∧
      ((halvesBack.duration.map Binary64.value).applyTo 997401600000).toInt =
        950140800000 - 1252800000 ∧
      monthLengthAt latest = 31 := by
  have read := halvesBack.writtenDuration_text
  rw [show halvesBack.text = "-P1,5Y0,5M" by decide] at read
  have years : IsShifted 997401600000 (halvesBack.duration.sign *
      (12 * ⌊Binary64.value halvesBack.duration.parts.years⌋)) 965865600000 := by
    have whole : ⌊Binary64.value halvesBack.duration.parts.years⌋ = 1 := by decide +kernel
    rw [whole]
    exact ⟨⟨2001, 8, 10⟩, 0, fallsOn_iff.mpr (by decide), ⟨by decide, by decide⟩,
      fallsOn_iff.mpr (by decide)⟩
  have months : IsShifted 965865600000 (halvesBack.duration.sign *
      ⌊exactMonths (halvesBack.duration.parts.map Binary64.value)⌋) 950140800000 := by
    have whole : ⌊exactMonths (halvesBack.duration.parts.map Binary64.value)⌋ = 6 := by
      decide +kernel
    rw [whole]
    exact ⟨⟨2000, 8, 10⟩, 0, fallsOn_iff.mpr (by decide), ⟨by decide, by decide⟩,
      fallsOn_iff.mpr (by decide)⟩
  have falls : FallsOn 950140800000 ⟨2000, 2, 10⟩ 0 := fallsOn_iff.mpr (by decide)
  have sum : round (exactMillis (halvesBack.duration.parts.map Binary64.value)
      (daysInMonth 2000 2)) = 1252800000 := by decide +kernel
  obtain ⟨moved, -, lengths⟩ :=
    @applyTo_linear _ _ read 997401600000 _ _ _ _ (by decide) years months falls _ sum
  have last : FallsOn latest ⟨262142, 12, 31⟩ 86399999 := fallsOn_iff.mpr (by decide)
  exact ⟨read, years, months, falls, moved (by decide) (by decide) (by decide),
    lengths _ _ _ (by decide) last⟩

/-- Where the sum alone leaves the 64 bits, it stops there, though the instant it leads to would
fit. -/
theorem applyTo_aeon :
    Grammar.writtenDuration "PT9223372036854784S" = .ok aeon.duration ∧
      (∀ x ∈ aeon.duration.parts.toList, Binary64.isFinite x = true) ∧
      inRange (-10000) = true ∧
      IsShifted (-10000) (aeon.duration.sign *
        (12 * ⌊Binary64.value aeon.duration.parts.years⌋)) (-10000) ∧
      IsShifted (-10000) (aeon.duration.sign *
        ⌊exactMonths (aeon.duration.parts.map Binary64.value)⌋) (-10000) ∧
      FallsOn (-10000) ⟨1969, 12, 31⟩ 86390000 ∧
      -10000 + aeon.duration.sign * round (exactMillis (aeon.duration.parts.map Binary64.value)
        (daysInMonth 1969 12)) = 9223372036854774000 ∧
      9223372036854774000 ≤ Int64.maxValue.toInt ∧
      ((aeon.duration.map Binary64.value).applyTo (-10000)).toInt = 9223372036854765807 ∧
      (aeon.duration.applyTo (-10000)).toInt = 9223372036854765807 := by
  have read := aeon.writtenDuration_text
  rw [show aeon.text = "PT9223372036854784S" by decide] at read
  have years : aeon.duration.sign * (12 * ⌊Binary64.value aeon.duration.parts.years⌋) = 0 := by
    decide +kernel
  have months : aeon.duration.sign *
      ⌊exactMonths (aeon.duration.parts.map Binary64.value)⌋ = 0 := by
    decide +kernel
  have falls : FallsOn (-10000) ⟨1969, 12, 31⟩ 86390000 := fallsOn_iff.mpr (by decide)
  have stays : IsShifted (-10000) 0 (-10000) :=
    ⟨_, _, falls, ⟨by decide, by decide⟩, fallsOn_iff.mpr (by decide)⟩
  rw [years, months]
  exact ⟨read, by decide +kernel, by decide, stays, stays, falls, by decide +kernel, by decide,
    by decide +kernel, by decide +kernel⟩

end Duration

end Audience
