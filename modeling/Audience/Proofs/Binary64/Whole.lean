import Mathlib
import Audience.Proofs.Binary64.Rounding

/-! # Whole doubles and fractions

Numbers of up to 53 bits are doubles, so that no whole number with so few bits is rounded off. A
double is its whole part and its fraction, and both are doubles too. Adding less than a whole number
leads no farther than adding it, even where the sum is rounded up.
-/

namespace Audience.Binary64

open Float.Model Float.Model.UnpackedFloat

section Exact

variable {x y : Float} {q : ℚ} {m n : Nat}

theorem exists_quantaOfBits (s : Nat) (h : m < 2 * hiddenBit) :
    ∃ bits, quantaOfBits bits = m * 2 ^ s := by
  induction s generalizing m with
  | zero => exact ⟨0 * hiddenBit + m, quantaOfBits_significand (.inl rfl) h.le⟩
  | succ s ih =>
    rcases Nat.lt_or_ge m hiddenBit with small | full
    · obtain ⟨bits, quanta⟩ := ih (Nat.mul_lt_mul_of_pos_left small Nat.two_pos)
      exact ⟨bits, by rw [quanta, pow_succ]; ring⟩
    · exact ⟨(s + 1) * hiddenBit + m, quantaOfBits_significand (.inr full) h.le⟩

theorem IsNearest.value_eq (h : IsNearest q x) (s : Nat) (fits : m < 2 * hiddenBit)
    (quanta : q * 2 ^ quantaLog = (m * 2 ^ s : ℕ)) (hy : IsNonneg y) (bound : q ≤ value y) :
    value x = q := by
  obtain ⟨bits, same⟩ := exists_quantaOfBits s fits
  have two : (0 : ℚ) < 2 ^ quantaLog := by positivity
  have small : bits ≤ infinityBits := by
    refine le_trans (strictMono_quantaOfBits.le_iff_le.mp ?_) hy
    rw [hy.value_eq, le_div_iff₀ two, quanta, ← same] at bound
    exact_mod_cast bound
  have nonneg := isNonneg_signed small
  have exactly : value (signed false bits) = q := by
    rw [nonneg.value_eq, toBits_signed small, same, ← quanta, mul_div_cancel_right₀ _ two.ne']
  rw [h.unique (exactly ▸ isNearest_value nonneg), exactly]

theorem quanta_natCast (n : Nat) : (n : ℚ) * 2 ^ quantaLog = (n * 2 ^ quantaLog : ℕ) := by
  push_cast
  rfl

theorem lt_infinity (h : n ≤ 2 ^ 64) : (n : ℚ) < value (signed false infinityBits) := by
  have grows {a b : Nat} (le : a < b) : 2 ^ a < 2 ^ b := Nat.pow_lt_pow_right (by decide) le
  have less := Nat.lt_of_le_of_lt h (grows (show 64 < 1024 by decide))
  have quanta : n * 2 ^ quantaLog < quantaOfBits infinityBits := by
    rw [quantaOfBits_infinity]
    exact Nat.mul_lt_mul_of_pos_right less (Nat.two_pow_pos quantaLog)
  rw [(isNonneg_signed le_rfl).value_eq, toBits_signed le_rfl, lt_div_iff₀ (by positivity),
    quanta_natCast]
  exact_mod_cast quanta

theorem ne_infinity_of_lt (hx : IsNonneg x) (hy : IsNonneg y) (h : value x < value y) :
    x.toBits.toNat ≠ infinityBits := by
  intro infinite
  exact h.not_ge ((value_le_iff hy hx).mpr (infinite ▸ hy))

theorem IsNearest.value_natCast (h : IsNearest n x) (small : n ≤ 2 ^ 53) : value x = n := by
  have bound := (lt_infinity (small.trans (by decide))).le
  rcases small.lt_or_eq with fits | rfl
  · exact h.value_eq quantaLog fits (quanta_natCast n) (isNonneg_signed le_rfl) bound
  · refine h.value_eq (53 + quantaLog) (show 1 < 2 * hiddenBit by decide) ?_
      (isNonneg_signed le_rfl) bound
    rw [quanta_natCast, Nat.one_mul, pow_add]

theorem value_ofNat (h : n ≤ 2 ^ 53) : value (ofNat n) = n :=
  (isNearest_ofNat n).value_natCast h

theorem value_zero : value 0 = 0 := by
  decide +kernel

end Exact

section Parts

variable {x y : Float} {n : Nat}

theorem IsNonneg.value_eq_natCast (h : IsNonneg x) :
    value x = (quantaOfBits x.toBits.toNat : ℚ) / (2 ^ quantaLog : ℕ) := by
  rw [h.value_eq]
  push_cast
  rfl

theorem IsNonneg.floor_value (h : IsNonneg x) :
    ⌊value x⌋ = (quantaOfBits x.toBits.toNat / 2 ^ quantaLog : ℕ) := by
  rw [h.value_eq_natCast, ← Int.cast_natCast, Rat.floor_intCast_div_natCast]
  rfl

/-- The whole part and the fraction of a double are counted with as few bits as the double. -/
theorem exists_parts (bits : Nat) :
    (∃ s m, m < 2 * hiddenBit ∧
      quantaOfBits bits / 2 ^ quantaLog * 2 ^ quantaLog = m * 2 ^ s) ∧
    ∃ s m, m < 2 * hiddenBit ∧ quantaOfBits bits % 2 ^ quantaLog = m * 2 ^ s := by
  obtain ⟨s, m, significand, rfl⟩ := exists_significand bits
  rw [quantaOfBits_significand significand.1 significand.2.le]
  rcases Nat.lt_or_ge s quantaLog with finer | coarser
  · obtain ⟨k, hk⟩ := Nat.exists_eq_add_of_lt finer
    have scale : 2 ^ quantaLog = 2 ^ (k + 1) * 2 ^ s := by
      rw [hk, ← pow_add]
      congr 1
      omega
    rw [scale, Nat.mul_div_mul_right _ _ (Nat.two_pow_pos s), Nat.mul_mod_mul_right, ← scale]
    exact ⟨⟨quantaLog, _, (Nat.div_le_self _ _).trans_lt significand.2, rfl⟩,
      s, _, (Nat.mod_le _ _).trans_lt significand.2, rfl⟩
  · have multiple : 2 ^ quantaLog ∣ m * 2 ^ s :=
      Dvd.dvd.mul_left (Nat.pow_dvd_pow 2 coarser) m
    rw [Nat.div_mul_cancel multiple, Nat.mod_eq_zero_of_dvd multiple]
    exact ⟨⟨s, m, significand.2, rfl⟩, 0, 0, by decide, rfl⟩

theorem IsNonneg.truncate_eq (h : IsNonneg x) :
    truncate x = if x.toBits.toNat = infinityBits then x
      else ofNat (quantaOfBits x.toBits.toNat / 2 ^ quantaLog) := by
  by_cases infinite : x.toBits.toNat = infinityBits
  · rw [truncate, h.read_eq, if_pos infinite, if_pos infinite]
  · rw [truncate, h.read_eq, if_neg infinite, if_neg infinite, ← Nat.shiftRight_eq_div_pow]
    rfl

theorem IsNonneg.truncate (h : IsNonneg x) : IsNonneg (truncate x) := by
  rw [h.truncate_eq]
  split
  · exact h
  · exact (isNearest_ofNat _).nonneg

theorem IsNonneg.value_truncate (h : IsNonneg x) : value (Binary64.truncate x) = ⌊value x⌋ := by
  obtain ⟨⟨s, m, fits, quanta⟩, -⟩ := exists_parts x.toBits.toNat
  have whole : (⌊value x⌋ : ℚ) = (quantaOfBits x.toBits.toNat / 2 ^ quantaLog : ℕ) := by
    rw [h.floor_value]
    rfl
  rw [h.truncate_eq]
  split
  next infinite =>
    obtain ⟨c, multiple⟩ : ∃ c, quantaOfBits infinityBits = c * 2 ^ quantaLog :=
      ⟨_, quantaOfBits_infinity⟩
    rw [whole, h.value_eq_natCast, infinite, multiple, Nat.mul_div_cancel _ (Nat.two_pow_pos _),
      Nat.cast_mul, mul_div_cancel_right₀ _ (by positivity)]
  next finite =>
    rw [whole]
    refine (isNearest_ofNat _).value_eq s fits ?_ h (whole ▸ Int.floor_le _)
    rw [quanta_natCast, quanta]

theorem IsNonneg.value_sub_truncate (h : IsNonneg x) (finite : x.toBits.toNat ≠ infinityBits) :
    IsNonneg (x - Binary64.truncate x) ∧
      value (x - Binary64.truncate x) = Int.fract (value x) := by
  obtain ⟨-, s, m, fits, quanta⟩ := exists_parts x.toBits.toNat
  have difference := isNearest_sub h h.truncate finite (h.value_truncate ▸ Int.floor_le _)
  rw [h.value_truncate, Int.self_sub_floor] at difference
  refine ⟨difference.nonneg, difference.value_eq s fits ?_ h ?_⟩
  · rw [h.value_eq_natCast, Int.fract_div_natCast_eq_div_natCast_mod, ← quanta]
    push_cast
    rw [div_mul_cancel₀ _ (by positivity)]
  · have floor : (0 : ℚ) ≤ ⌊value x⌋ := by
      rw [h.floor_value]
      positivity
    rw [← Int.self_sub_floor]
    linarith

theorem IsNonneg.toInt64_eq (h : IsNonneg x) :
    (toInt64 x).toInt = min ⌊value x⌋ Int64.maxValue.toInt := by
  by_cases infinite : x.toBits.toNat = infinityBits
  · have most := lt_infinity (n := 2 ^ 63) (by decide)
    have same : x = signed false infinityBits :=
      eq_of_toBits (infinite.trans (toBits_signed le_rfl).symm)
    have above : Int64.maxValue.toInt ≤ ⌊value x⌋ := by
      rw [Int.le_floor, same]
      refine le_trans ?_ most.le
      exact_mod_cast (show Int64.maxValue.toInt ≤ (2 ^ 63 : ℕ) by decide)
    rw [toInt64, h.read_eq, if_pos infinite, min_eq_right above]
    rfl
  · have floor : ((quantaOfBits x.toBits.toNat >>> quantaLog : ℕ) : Int) = ⌊value x⌋ := by
      rw [h.floor_value, Nat.shiftRight_eq_div_pow]
    have low : Int64.minValue.toInt ≤ 0 := by decide
    have nonneg : 0 ≤ ⌊value x⌋ := Int.floor_nonneg.mpr h.value_nonneg
    rw [toInt64, h.read_eq, if_neg infinite]
    simp only [floor, Bool.false_eq_true, if_false]
    rw [toInt_ofIntClamp_eq, min_comm, max_eq_right]
    exact le_min (low.trans nonneg) (by decide)

theorem toInt64_le (hx : IsNonneg x) (hy : IsNonneg y) (h : value x ≤ value y) :
    (toInt64 x).toInt ≤ (toInt64 y).toInt := by
  rw [hx.toInt64_eq, hy.toInt64_eq]
  exact min_le_min_right _ (Int.floor_le_floor h)

theorem IsNonneg.roundAway_eq (h : IsNonneg x) (finite : x.toBits.toNat ≠ infinityBits) :
    IsNearest (round (value x)) (roundAway x) := by
  have half : round (value x) =
      ((2 * quantaOfBits x.toBits.toNat + 2 ^ quantaLog) / 2 ^ (quantaLog + 1) : ℕ) := by
    have sum : value x + 1 / 2 = ((2 * quantaOfBits x.toBits.toNat + 2 ^ quantaLog : ℕ) : ℤ) /
        (2 ^ (quantaLog + 1) : ℕ) := by
      rw [h.value_eq]
      push_cast
      rw [pow_succ]
      field_simp
    rw [round_eq, sum, Rat.floor_intCast_div_natCast]
    rfl
  rw [roundAway, h.read_eq, if_neg finite, half]
  simp only [Nat.shiftLeft_eq, Nat.one_mul, Nat.shiftRight_eq_div_pow]
  exact isNearest_ofNat _

theorem IsNearest.exists_natCast (h : IsNearest n x) : ∃ k : ℕ, value x = k := by
  rcases Nat.lt_or_ge n (2 ^ 53) with small | large
  · exact ⟨n, h.value_natCast small.le⟩
  · have order := (isNearest_ofNat (2 ^ 53 - 1)).value_le h (Nat.cast_le.mpr (by omega))
    rw [value_ofNat (by decide), h.nonneg.value_eq, le_div_iff₀ (by positivity),
      quanta_natCast] at order
    have above : (2 ^ 53 - 1) * 2 ^ quantaLog ≤ quantaOfBits x.toBits.toNat := by
      exact_mod_cast order
    rcases quantaOfBits_grid x.toBits.toNat quantaLog with ⟨k, multiple⟩ | ⟨-, less⟩
    · refine ⟨k, ?_⟩
      rw [h.nonneg.value_eq_natCast, multiple, Nat.cast_mul,
        mul_div_cancel_right₀ _ (by positivity)]
    · have small := Nat.lt_of_mul_lt_mul_right (above.trans_lt less)
      exact absurd small (by decide)

end Parts

section Sums

variable {x y : Float} {n : Nat}

/-- Doubles next to each other: the greater one is preferred only from halfway on. -/
theorem IsNearest.exists_gap {q : ℚ} (h : IsNearest q x) (pos : 0 < x.toBits.toNat) :
    ∃ s m, IsSignificand s m ∧ quantaOfBits x.toBits.toNat = (m + 1) * 2 ^ s ∧
      2 * (quantaOfBits x.toBits.toNat : ℚ) ≤ 2 * (q * 2 ^ quantaLog) + 2 ^ s := by
  obtain ⟨s, m, significand, bits⟩ := exists_significand (x.toBits.toNat - 1)
  have same : x.toBits.toNat = s * hiddenBit + m + 1 := by omega
  have quanta : quantaOfBits (s * hiddenBit + m) = m * 2 ^ s :=
    quantaOfBits_significand significand.1 significand.2.le
  have succ := significand.quantaOfBits_succ
  rw [quanta, ← Nat.succ_mul, ← same] at succ
  refine ⟨s, m, significand, succ, ?_⟩
  have below : s * hiddenBit + m < x.toBits.toNat := by omega
  have beats := (isNearest_iff_beats h.nonneg).mp h _ (below.le.trans h.nonneg) below.ne
  have halfway := (abs_sub_le_iff_of_gt (quantaOfBits_cast_lt below)).mp beats.le
  have gap : (quantaOfBits x.toBits.toNat : ℚ) = quantaOfBits (s * hiddenBit + m) + 2 ^ s := by
    rw [quanta, succ]
    push_cast
    ring
  linarith

theorem add_step_le {a b p : Nat} (ha : p ∣ a) (hb : p ∣ b) (less : a < b) :
    a + p ≤ b := by
  obtain ⟨i, rfl⟩ := ha
  obtain ⟨j, rfl⟩ := hb
  have order := Nat.lt_of_mul_lt_mul_left less
  calc p * i + p = p * (i + 1) := (Nat.mul_succ p i).symm
    _ ≤ p * j := Nat.mul_le_mul_left p order

theorem IsNonneg.quanta_eq (h : IsNonneg x) :
    (quantaOfBits x.toBits.toNat : ℚ) = value x * 2 ^ quantaLog := by
  rw [h.value_eq, div_mul_cancel₀ _ (by positivity)]

/-- Where doubles are no coarser than two, adding less than a whole number leads no farther than
adding it, though the sum is rounded. -/
theorem value_add_le (hx : IsNonneg x) (hy : IsNonneg y) (small : value x < (2 ^ 53 : ℕ))
    (few : n ≤ 64) (less : value y < n) : value (x + y) ≤ value x + n := by
  by_contra! more
  have nearest := isNearest_add hx hy
  have two : (0 : ℚ) < 2 ^ quantaLog := by positivity
  have above : quantaOfBits x.toBits.toNat + n * 2 ^ quantaLog <
      quantaOfBits (x + y).toBits.toNat := by
    have scaled := mul_lt_mul_of_pos_right more two
    rw [add_mul, ← hx.quanta_eq, ← nearest.nonneg.quanta_eq, quanta_natCast] at scaled
    exact_mod_cast scaled
  have under : quantaOfBits y.toBits.toNat < n * 2 ^ quantaLog := by
    have scaled := mul_lt_mul_of_pos_right less two
    rw [← hy.quanta_eq, quanta_natCast] at scaled
    exact_mod_cast scaled
  have bound : quantaOfBits x.toBits.toNat < 2 ^ 53 * 2 ^ quantaLog := by
    have scaled := mul_lt_mul_of_pos_right small two
    rw [← hx.quanta_eq, quanta_natCast] at scaled
    exact_mod_cast scaled
  have pos : 0 < (x + y).toBits.toNat := by
    have some := Nat.zero_lt_of_lt above
    by_contra! zero
    rw [Nat.le_zero.mp zero] at some
    exact some.ne rfl
  obtain ⟨s, m, significand, quanta, half⟩ := nearest.exists_gap pos
  rw [add_mul, ← hx.quanta_eq, ← hy.quanta_eq] at half
  replace half : 2 * quantaOfBits (x + y).toBits.toNat ≤
      2 * (quantaOfBits x.toBits.toNat + quantaOfBits y.toBits.toNat) + 2 ^ s := by
    exact_mod_cast half
  have few' : n * 2 ^ quantaLog ≤ 64 * 2 ^ quantaLog := Nat.mul_le_mul_right _ few
  have whole : 2 ^ quantaLog ∣ n * 2 ^ quantaLog := Nat.dvd_mul_left _ _
  have gridX := quantaOfBits_grid x.toBits.toNat
  have gridY := quantaOfBits_grid y.toBits.toNat
  generalize quantaOfBits x.toBits.toNat = a at *
  generalize quantaOfBits y.toBits.toNat = b at *
  generalize quantaOfBits (x + y).toBits.toNat = c at *
  rcases s with _ | r
  · -- Without a coarser step the sum is exact.
    rw [pow_zero] at half
    omega
  · have hidden : hiddenBit = 2 ^ 52 := rfl
    have full := significand.1.resolve_left (Nat.succ_ne_zero r)
    have many : (hiddenBit + 1) * 2 ^ (r + 1) ≤ c := by
      rw [quanta]
      exact Nat.mul_le_mul_right _ (by omega)
    have even : 2 ^ r ∣ c := by
      rw [quanta, pow_succ']
      exact (Nat.dvd_mul_left _ 2).mul_left (m + 1)
    rw [pow_succ', hidden] at many
    rw [pow_succ'] at half
    have fine : 2 ^ r ∣ 2 ^ quantaLog := by
      apply pow_dvd_pow
      by_contra! coarse
      have step : 2 * 2 ^ quantaLog ≤ 2 ^ r := by
        rw [← pow_succ']
        exact Nat.pow_le_pow_right Nat.two_pos coarse
      omega
    replace whole := fine.trans whole
    rcases gridX r with ⟨k, rfl⟩ | ⟨-, lessX⟩
    · have gap := add_step_le ((Nat.dvd_mul_left _ k).add whole) even above
      omega
    · rcases gridY r with ⟨k, rfl⟩ | ⟨-, lessY⟩
      · have gap := add_step_le (Nat.dvd_mul_left _ k) whole under
        omega
      · rw [hidden] at lessX lessY
        omega

end Sums

section Floats

variable {x : Float} {n : Nat}

theorem truncate_ofNat (h : n < 2 ^ 53) : truncate (ofNat n) = ofNat n := by
  have nonneg := (isNearest_ofNat n).nonneg
  apply eq_of_value nonneg.truncate nonneg
  rw [nonneg.value_truncate, value_ofNat h.le, Int.floor_natCast, Int.cast_natCast]

theorem toInt64_ofNat (h : n < 2 ^ 53) : (toInt64 (ofNat n)).toInt = n := by
  have high : ((2 ^ 53 : ℕ) : Int) ≤ Int64.maxValue.toInt := by decide
  rw [(isNearest_ofNat n).nonneg.toInt64_eq, value_ofNat h.le, Int.floor_natCast]
  omega

theorem sub_self_of_isNonneg (h : IsNonneg x) (finite : x.toBits.toNat ≠ infinityBits) :
    x - x = 0 := by
  have difference := isNearest_sub h h finite le_rfl
  rw [sub_self] at difference
  exact difference.unique (isNearest_zero le_rfl (by norm_num))

theorem ofNat_sub_self (h : n < 2 ^ 53) : ofNat n - ofNat n = 0 := by
  have nonneg := (isNearest_ofNat n).nonneg
  refine sub_self_of_isNonneg nonneg (ne_infinity_of_lt nonneg (isNonneg_signed le_rfl) ?_)
  rw [value_ofNat h.le]
  exact lt_infinity (h.le.trans (by decide))

theorem IsUnsigned.add_zero (h : IsUnsigned x) : x + 0 = x := by
  have zero : (0 : Float).toModel.unpack = .zero .positive := by rfl
  have unsigned := unsigned_unpack h
  have same : UnpackedFloat.add .binary64 x.toModel.unpack (.zero .positive) =
      x.toModel.unpack := by
    cases unpacked : x.toModel.unpack with
    | zero s =>
      rw [unpacked] at unsigned
      obtain rfl : s = .positive := unsigned
      rfl
    | _ => rfl
  show Float.ofModel (.pack (UnpackedFloat.add .binary64 x.toModel.unpack _)) = x
  rw [zero, same, ofModel_pack_unpack]

end Floats

end Audience.Binary64
