import Mathlib
import Audience.Decimal.Shortest
import Audience.Proofs.Decimal.Reading

/-! # Shortest decimals

The shortest decimal of a double lies in the double's rounding interval, so that it reads back as
the double. The search for it ends in time: the last grid is finer than any rounding interval.
-/

namespace Audience.Decimal

open Binary64

section Intervals

variable {bits : Nat}

theorem Interval.around_quantaOfBits (pos : 0 < bits) :
    Interval.around (quantaOfBits bits) =
      { low := 2 * (quantaOfBits (bits - 1) + quantaOfBits bits)
        value := 4 * quantaOfBits bits
        high := 2 * (quantaOfBits bits + quantaOfBits (bits + 1))
        closed := decide (bits % 2 = 0) } := by
  obtain ⟨s, m, significand, rfl⟩ := exists_significand bits
  have spare := significand.spare_eq
  have quanta := quantaOfBits_significand significand.1 significand.2.le
  have above := significand.quantaOfBits_succ
  have below := significand.quantaOfBits_pred (significand.pos pos)
  have shifted : quantaOfBits (s * hiddenBit + m) >>> s = m := by
    rw [quanta, Nat.shiftRight_eq_div_pow, Nat.mul_div_cancel _ (Nat.two_pow_pos s)]
  have even : (s * hiddenBit + m) % 2 = m % 2 := by
    have hidden : hiddenBit % 2 = 0 := rfl
    simp [Nat.add_mod, Nat.mul_mod, hidden]
  rw [← quanta] at spare
  simp only [Interval.around, spare, shifted, even, Nat.shiftLeft_eq, Interval.mk.injEq, true_and,
    and_true]
  constructor
  · split at below
    next least =>
      obtain ⟨t, rfl⟩ := Nat.exists_eq_succ_of_ne_zero least.2.ne'
      rw [if_pos least, pow_succ]
      rw [Nat.succ_sub_one] at below
      omega
    next other =>
      rw [if_neg other]
      omega
  · omega

end Intervals

section Grids

theorem quarters_eq : 1 <<< (quantaLog + 2) = 2 ^ (quantaLog + 2) := by
  rw [Nat.shiftLeft_eq, Nat.one_mul]

theorem Grid.ratio_ofExponent (exponent : Int) :
    ((Grid.ofExponent exponent).num : ℚ) / (Grid.ofExponent exponent).den =
      10 ^ exponent * (4 * 2 ^ quantaLog) := by
  have quarters : ((1 <<< (quantaLog + 2) : ℕ) : ℚ) = 4 * 2 ^ quantaLog := by
    rw [cast_shiftLeft, pow_add]
    ring
  rw [ofExponent]
  split
  next whole =>
    rw [Nat.cast_mul, quarters, Numeral.cast_tenTo, Nat.cast_one, div_one, mul_comm, ← zpow_natCast,
      Int.toNat_of_nonneg whole]
  next broken =>
    have scale : ((10 : ℚ) ^ (-exponent).toNat)⁻¹ = 10 ^ exponent := by
      rw [← zpow_natCast, Int.toNat_of_nonneg (by omega), zpow_neg, inv_inv]
    rw [quarters, Numeral.cast_tenTo, div_eq_mul_inv, scale, mul_comm]

theorem Grid.pos_ofExponent (exponent : Int) :
    0 < (Grid.ofExponent exponent).num ∧ 0 < (Grid.ofExponent exponent).den := by
  have quarters : 0 < 1 <<< (quantaLog + 2) := quarters_eq ▸ Nat.two_pow_pos _
  have power (n : Nat) : 0 < tenTo n := Nat.pow_pos (by decide)
  rw [ofExponent]
  split
  · exact ⟨Nat.mul_pos quarters (power _), Nat.one_pos⟩
  · exact ⟨quarters, power _⟩

theorem Grid.cast_step (step : Nat) (exponent : Int) :
    (step * (Grid.ofExponent exponent).num : ℚ) =
      (⟨step, exponent⟩ : Numeral).value * 2 ^ quantaLog * 4 * (Grid.ofExponent exponent).den := by
  have ratio := Grid.ratio_ofExponent exponent
  have den : (0 : ℚ) < (Grid.ofExponent exponent).den :=
    Nat.cast_pos.mpr (Grid.pos_ofExponent exponent).2
  rw [div_eq_iff den.ne'] at ratio
  rw [ratio, Numeral.value]
  ring

variable {i : Interval} {g : Grid} {tie : Tie} {step : Nat}

theorem Tie.choose_eq (tie : Tie) (below : Nat) :
    tie.choose below = below ∨ tie.choose below = below + 1 := by
  rcases tie with _ | _
  · rcases Nat.mod_two_eq_zero_or_one below with even | odd
    · exact .inl (by rw [choose, even, Nat.add_zero])
    · exact .inr (by rw [choose, odd])
  · exact .inr rfl

theorem contains_of_onGrid? (h : i.onGrid? tie g = some step) : i.contains g step = true := by
  rw [Interval.onGrid?] at h
  generalize i.value * g.den / g.num = below at h
  cases low : i.contains g below <;> cases high : i.contains g (below + 1) <;>
    simp only [low, high] at h
  case false.false => cases h
  case false.true =>
    cases h
    exact high
  case true.false =>
    cases h
    exact low
  case true.true =>
    split at h
    · cases h
      exact low
    · cases h
      exact high
    · cases h
      rcases tie.choose_eq below with same | next
      · rw [same, low]
      · rw [next, high]

theorem onGrid?_isSome (den : 0 < g.den) (num : 0 < g.num)
    (fine : i.low * g.den + g.num ≤ i.value * g.den) (high : i.value < i.high) :
    (i.onGrid? tie g).isSome := by
  have sum := Nat.div_add_mod' (i.value * g.den) g.num
  have small := Nat.mod_lt (i.value * g.den) num
  have top : i.value * g.den < i.high * g.den := Nat.mul_lt_mul_of_pos_right high den
  have inside : i.contains g (i.value * g.den / g.num) = true := by
    simp only [Interval.contains]
    split <;> simp <;> omega
  simp only [Interval.onGrid?, inside]
  split
  · split <;> rfl
  · rfl
  next outside _ => cases outside
  next outside _ => cases outside

/-- Points of a grid in the rounding interval of a double are rounded to it. -/
theorem beats_of_contains {bits : Nat} {exponent : Int} (pos : 0 < bits)
    (h : (Interval.around (quantaOfBits bits)).contains (Grid.ofExponent exponent) step = true)
    {other : Nat} (ne : other ≠ bits) :
    Beats ((⟨step, exponent⟩ : Numeral).value * 2 ^ quantaLog) bits other := by
  have scaled := Grid.cast_step step exponent
  have den : (0 : ℚ) < (Grid.ofExponent exponent).den :=
    Nat.cast_pos.mpr (Grid.pos_ofExponent exponent).2
  generalize Grid.ofExponent exponent = g at *
  rw [Interval.around_quantaOfBits pos] at h
  generalize (⟨step, exponent⟩ : Numeral).value * 2 ^ quantaLog = q at *
  have unscale {a b : ℚ} : 2 * a * g.den ≤ b * 4 * g.den ↔ a ≤ 2 * b := by
    rw [mul_le_mul_iff_left₀ den]
    constructor <;> intro <;> linarith
  have unscale' {a b : ℚ} : b * 4 * g.den ≤ 2 * a * g.den ↔ 2 * b ≤ a := by
    rw [mul_le_mul_iff_left₀ den]
    constructor <;> intro <;> linarith
  simp only [Interval.contains, decide_eq_true_eq] at h
  split at h
  next even =>
    obtain ⟨low, high⟩ := Bool.and_eq_true_iff.mp h
    rw [decide_eq_true_eq] at low high
    qify at low high
    rw [scaled, unscale] at low
    rw [scaled, unscale'] at high
    exact beats_of_halfways low high (.inl even) ne
  next odd =>
    obtain ⟨low, high⟩ := Bool.and_eq_true_iff.mp h
    rw [decide_eq_true_eq] at low high
    qify at low high
    rw [scaled, ← not_le, unscale', not_le] at low
    rw [scaled, ← not_le, unscale, not_le] at high
    exact beats_of_halfways low.le high.le (.inr ⟨low, high⟩) ne

end Grids

section Search

variable {quanta : Nat}

/-- The last grid that is searched is finer than half of a double's distance to the next. -/
theorem finest_grid (pos : 0 < quanta) (bound : quanta < 2 ^ (1024 + quantaLog)) :
    (Grid.ofExponent (coarsest quanta - 23)).num ≤
      2 ^ spare quanta * (Grid.ofExponent (coarsest quanta - 23)).den := by
  have short : quanta.log2 < 1024 + quantaLog := (Nat.log2_lt pos.ne').mpr bound
  rw [spare, coarsest, Grid.ofExponent, quarters_eq]
  have unit : quantaLog = 1074 := rfl
  generalize quanta.log2 = length, quantaLog = log at *
  split
  next whole =>
    generalize he : (((length : Int) - log) * 30103 / 100000 + 2 - 23).toNat = exponent
    have scale : 10 ^ exponent ≤ 2 ^ (length - 52 - (log + 2)) := ten_pow_le_two_pow (by omega)
    calc 2 ^ (log + 2) * tenTo exponent ≤ 2 ^ (log + 2) * 2 ^ (length - 52 - (log + 2)) :=
          Nat.mul_le_mul_left _ scale
      _ = 2 ^ (length - 52) * 1 := by rw [← pow_add, Nat.add_sub_cancel' (by omega), Nat.mul_one]
  next broken =>
    generalize he : (-(((length : Int) - log) * 30103 / 100000 + 2 - 23)).toNat = exponent
    have scale : 2 ^ (log + 2 - (length - 52)) ≤ 10 ^ exponent := two_pow_le_ten_pow (by omega)
    calc 2 ^ (log + 2) ≤ 2 ^ (length - 52 + (log + 2 - (length - 52))) :=
          Nat.pow_le_pow_right (by decide) (by omega)
      _ = 2 ^ (length - 52) * 2 ^ (log + 2 - (length - 52)) := pow_add _ _ _
      _ ≤ 2 ^ (length - 52) * tenTo exponent := Nat.mul_le_mul_left _ scale

theorem isSome_finest (tie : Tie) {bits : Nat} (pos : 0 < bits) (bound : bits < infinityBits) :
    ((Interval.around (quantaOfBits bits)).onGrid? tie
      (Grid.ofExponent (coarsest (quantaOfBits bits) - 23))).isSome := by
  have none : quantaOfBits 0 = 0 := rfl
  have some : 0 < quantaOfBits bits := none ▸ strictMono_quantaOfBits pos
  have range : quantaOfBits bits < 2 ^ (1024 + quantaLog) := by
    rw [pow_add, ← quantaOfBits_infinity]
    exact strictMono_quantaOfBits bound
  have above : quantaOfBits bits < quantaOfBits (bits + 1) :=
    strictMono_quantaOfBits (Nat.lt_succ_self bits)
  have below := two_pow_spare_le pos
  have fine := finest_grid some range
  obtain ⟨num, den⟩ := Grid.pos_ofExponent (coarsest (quantaOfBits bits) - 23)
  rw [Interval.around_quantaOfBits pos]
  generalize Grid.ofExponent _ = g at *
  refine onGrid?_isSome den num ?_ (by simp only; omega)
  calc 2 * (quantaOfBits (bits - 1) + quantaOfBits bits) * g.den + g.num
      ≤ 2 * (quantaOfBits (bits - 1) + quantaOfBits bits) * g.den +
          2 ^ spare (quantaOfBits bits) * g.den := Nat.add_le_add_left fine _
    _ = (2 ^ spare (quantaOfBits bits) + 2 * quantaOfBits (bits - 1) +
          2 * quantaOfBits bits) * g.den := by ring
    _ ≤ 4 * quantaOfBits bits * g.den := Nat.mul_le_mul_right _ (by omega)

theorem exists_shortest (tie : Tie) {bits : Nat} (pos : 0 < bits) (bound : bits < infinityBits) :
    ∃ step exponent, shortest tie (quantaOfBits bits) = ⟨step, exponent⟩ ∧
      (Interval.around (quantaOfBits bits)).contains (Grid.ofExponent exponent) step = true := by
  simp only [shortest]
  generalize found : List.findSome? _ _ = result
  rcases result with _ | m
  · have missed := List.findSome?_eq_none_iff.mp found 23 (by decide)
    rw [Option.map_eq_none_iff] at missed
    have met := isSome_finest tie pos bound
    rw [← Nat.cast_ofNat, missed] at met
    cases met
  · obtain ⟨k, -, attempt⟩ := List.exists_of_findSome?_eq_some found
    obtain ⟨step, point, rfl⟩ := Option.map_eq_some_iff.mp attempt
    exact ⟨step, _, rfl, contains_of_onGrid? point⟩

/-- The shortest decimal of a double reads back as the double. -/
theorem isNearest_shortest (tie : Tie) {x : Float} (nonneg : IsNonneg x) (pos : 0 < x.toBits.toNat)
    (finite : isFinite x = true) :
    IsNearest (shortest tie (quantaOfBits x.toBits.toNat)).value x := by
  have bound := Nat.lt_of_le_of_ne nonneg (nonneg.isFinite_iff.mp finite)
  obtain ⟨step, exponent, same, inside⟩ := exists_shortest tie pos bound
  rw [same, isNearest_iff_beats nonneg]
  intro bits _ ne
  exact beats_of_contains pos inside ne

end Search

end Audience.Decimal
