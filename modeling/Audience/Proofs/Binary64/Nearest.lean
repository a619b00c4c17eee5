import Mathlib
import Audience.Proofs.Binary64.Bits

/-! # The nearest double

A quotient is rounded to the double nearest to it, and to the even one of two that are equally near.
Too great a quotient goes to infinity, as if this were the next power of two. There is one such
double for every number, and a greater number has no smaller one.
-/

namespace Audience.Binary64

section Quotients

variable {num den : Nat}

theorem le_divNearest (pos : 0 < den) {a : Nat} (h : den * a ≤ num) :
    a ≤ divNearest num den := by
  obtain ⟨-, high⟩ := divNearest_bounds num pos
  by_contra! less
  have step : den * (divNearest num den + 1) ≤ den * a := Nat.mul_le_mul_left den less
  rw [Nat.mul_succ] at step
  omega

theorem divNearest_le (pos : 0 < den) {a : Nat} (h : num ≤ den * a) :
    divNearest num den ≤ a := by
  obtain ⟨low, -⟩ := divNearest_bounds num pos
  by_contra! more
  have step : den * (a + 1) ≤ den * divNearest num den := Nat.mul_le_mul_left den more
  rw [Nat.mul_succ] at step
  omega

theorem divNearest_even_of_tie (num : Nat) (pos : 0 < den)
    (tie : 2 * (den * divNearest num den) = 2 * num + den ∨
      2 * num = 2 * (den * divNearest num den) + den) : divNearest num den % 2 = 0 := by
  have sum := Nat.div_add_mod num den
  have small := Nat.mod_lt num pos
  unfold divNearest at tie ⊢
  simp only [] at tie ⊢
  split at tie
  · omega
  · split at tie
    · rw [Nat.mul_succ] at tie
      omega
    next below above =>
      rw [if_neg below, if_neg above]
      omega

/-- No other natural number is as near to a quotient, unless it lies as far on the other side. -/
theorem divNearest_nearest (num : Nat) (pos : 0 < den) {k : Nat} (other : k ≠ divNearest num den) :
    |(num : ℚ) / den - divNearest num den| < |(num : ℚ) / den - k| ∨
      |(num : ℚ) / den - divNearest num den| = |(num : ℚ) / den - k| ∧
        divNearest num den % 2 = 0 := by
  obtain ⟨low, high⟩ := divNearest_bounds num pos
  have even := divNearest_even_of_tie num pos
  generalize divNearest num den = m at *
  have den0 : (0 : ℚ) < den := Nat.cast_pos.mpr pos
  have scaled : ((num : ℚ) / den) * den = num := div_mul_cancel₀ _ den0.ne'
  generalize (num : ℚ) / den = x at *
  have half : |x - m| ≤ 1 / 2 := by
    qify at low high
    rw [abs_le]
    constructor <;> nlinarith
  have apart : (1 : ℚ) ≤ |(m : ℚ) - k| := by
    have differ : (m : ℤ) - k ≠ 0 := sub_ne_zero.mpr (by exact_mod_cast other.symm)
    exact_mod_cast Int.one_le_abs differ
  have triangle : |(m : ℚ) - k| ≤ |x - m| + |x - k| := by
    rw [abs_sub_comm x m]
    exact abs_sub_le _ _ _
  rcases half.lt_or_eq with less | tie
  · left
    linarith
  · have tied : m % 2 = 0 := by
      apply even
      rcases (abs_eq (by norm_num)).mp tie with above | below
      · right
        qify
        nlinarith
      · left
        qify
        nlinarith
    rcases (show |x - m| ≤ |x - k| by linarith).lt_or_eq with less | same
    · exact .inl less
    · exact .inr ⟨same, tied⟩

end Quotients

/-- Whether one double is preferred to another for a number of quanta: it is nearer, or as near
and even. -/
def Beats (q : ℚ) (bits other : Nat) : Prop :=
  |q - quantaOfBits bits| < |q - quantaOfBits other| ∨
    |q - quantaOfBits bits| = |q - quantaOfBits other| ∧ bits % 2 = 0

/-- The double that a number from zero on is rounded to. No other one is nearer, infinity included,
and where another one is as near, this one is even. -/
structure IsNearest (q : ℚ) (x : Float) : Prop where
  nonneg : IsNonneg x
  nearest : ∀ y, IsNonneg y → y ≠ x →
    |q - value x| < |q - value y| ∨ |q - value x| = |q - value y| ∧ x.toBits.toNat % 2 = 0

section Beats

variable {q : ℚ} {bits other : Nat}

theorem abs_sub_le_iff_of_lt {a b p : ℚ} (h : a < b) :
    |p - a| ≤ |p - b| ↔ 2 * p ≤ a + b := by
  rcases abs_cases (p - a) with ⟨ha, _⟩ | ⟨ha, _⟩ <;>
    rcases abs_cases (p - b) with ⟨hb, _⟩ | ⟨hb, _⟩ <;> rw [ha, hb] <;> constructor <;> intro <;>
      linarith

theorem abs_sub_le_iff_of_gt {a b p : ℚ} (h : b < a) :
    |p - a| ≤ |p - b| ↔ a + b ≤ 2 * p := by
  rcases abs_cases (p - a) with ⟨ha, _⟩ | ⟨ha, _⟩ <;>
    rcases abs_cases (p - b) with ⟨hb, _⟩ | ⟨hb, _⟩ <;> rw [ha, hb] <;> constructor <;> intro <;>
      linarith

theorem Beats.le (h : Beats q bits other) :
    |q - quantaOfBits bits| ≤ |q - quantaOfBits other| :=
  h.elim le_of_lt fun tie => tie.1.le

theorem quantaOfBits_cast_lt (h : bits < other) : (quantaOfBits bits : ℚ) < quantaOfBits other :=
  Nat.cast_lt.mpr (strictMono_quantaOfBits h)

theorem eq_of_beats {greatest : Nat} (h : bits ≤ greatest) (h' : other ≤ greatest)
    (first : ∀ b ≤ greatest, b ≠ bits → Beats q bits b)
    (second : ∀ b ≤ greatest, b ≠ other → Beats q other b) : bits = other := by
  wlog less : bits < other generalizing bits other
  · rcases Nat.lt_or_eq_of_le (Nat.le_of_not_lt less) with more | same
    · exact (this h' h second first more).symm
    · exact same.symm
  have forward := first other h' less.ne'
  have backward := second bits h less.ne
  have same := le_antisymm forward.le backward.le
  have even : bits % 2 = 0 ∧ other % 2 = 0 :=
    ⟨(forward.resolve_left same.not_lt).2, (backward.resolve_left same.not_gt).2⟩
  have between : bits < bits + 1 ∧ bits + 1 < other := by omega
  have low := quantaOfBits_cast_lt between.1
  have high := quantaOfBits_cast_lt between.2
  have halfway := (abs_sub_le_iff_of_gt (low.trans high)).mp same.ge
  have before := (abs_sub_le_iff_of_lt low).mp (first (bits + 1) (by omega) (by omega)).le
  linarith

theorem le_of_beats {p : ℚ} {greatest : Nat} (le : p ≤ q) (h : bits ≤ greatest)
    (h' : other ≤ greatest) (first : ∀ b ≤ greatest, b ≠ bits → Beats p bits b)
    (second : ∀ b ≤ greatest, b ≠ other → Beats q other b) : bits ≤ other := by
  by_contra! less
  have order := quantaOfBits_cast_lt less
  have above := (abs_sub_le_iff_of_gt order).mp (first other h' less.ne).le
  have below := (abs_sub_le_iff_of_lt order).mp (second bits h less.ne').le
  have same : p = q := by linarith
  subst same
  exact less.ne' (eq_of_beats h h' first second)

end Beats

section Halfways

variable {q : ℚ} {bits s m : Nat}

/-- Between the points halfway to both neighbours, a double beats all others. The points themselves
belong to it if it is even. -/
theorem beats_of_halfways
    (low : (quantaOfBits (bits - 1) + quantaOfBits bits : ℚ) ≤ 2 * q)
    (high : 2 * q ≤ (quantaOfBits bits + quantaOfBits (bits + 1) : ℚ))
    (ends : bits % 2 = 0 ∨ (quantaOfBits (bits - 1) + quantaOfBits bits : ℚ) < 2 * q ∧
      2 * q < (quantaOfBits bits + quantaOfBits (bits + 1) : ℚ)) {other : Nat} (ne : other ≠ bits) :
    Beats q bits other := by
  have mono {a b : Nat} (h : a ≤ b) : (quantaOfBits a : ℚ) ≤ quantaOfBits b :=
    Nat.cast_le.mpr (strictMono_quantaOfBits.monotone h)
  rcases Nat.lt_or_gt_of_ne ne with less | more
  · have order := quantaOfBits_cast_lt less
    have below := mono (Nat.le_sub_one_of_lt less)
    have near := (abs_sub_le_iff_of_gt order).mpr (by linarith)
    rcases ends with even | ⟨strict, -⟩
    · exact near.lt_or_eq.imp_right fun tie => ⟨tie, even⟩
    · left
      by_contra! far
      have halfway := (abs_sub_le_iff_of_lt order).mp far
      linarith
  · have order := quantaOfBits_cast_lt more
    have above := mono (Nat.succ_le_of_lt more)
    have near := (abs_sub_le_iff_of_lt order).mpr (by linarith)
    rcases ends with even | ⟨-, strict⟩
    · exact near.lt_or_eq.imp_right fun tie => ⟨tie, even⟩
    · left
      by_contra! far
      have halfway := (abs_sub_le_iff_of_gt order).mp far
      linarith

theorem IsSignificand.spare_eq (h : IsSignificand s m) : spare (m * 2 ^ s) = s := by
  have hidden : hiddenBit = 2 ^ 52 := rfl
  obtain ⟨normal, small⟩ := h
  rw [hidden] at normal small
  rw [spare]
  rcases normal with rfl | normal
  · rw [pow_zero, Nat.mul_one]
    rcases eq_or_ne m 0 with rfl | nonzero
    · rw [Nat.log2_zero]
    · have short : m.log2 < 53 := (Nat.log2_lt nonzero).mpr small
      omega
  · have nonzero : m * 2 ^ s ≠ 0 :=
      (Nat.mul_pos (Nat.lt_of_lt_of_le (Nat.two_pow_pos 52) normal) (Nat.two_pow_pos s)).ne'
    have length : (m * 2 ^ s).log2 = 52 + s := by
      rw [Nat.log2_eq_iff nonzero]
      constructor
      · rw [pow_add]
        exact Nat.mul_le_mul_right _ normal
      · rw [show 52 + s + 1 = 53 + s from by omega, pow_add]
        exact Nat.mul_lt_mul_of_pos_right small (Nat.two_pow_pos s)
    omega

/-- Below a power of two the doubles lie twice as close. -/
theorem IsSignificand.quantaOfBits_pred (h : IsSignificand s m) (pos : 0 < m) :
    quantaOfBits (s * hiddenBit + m - 1) +
      (if m = hiddenBit ∧ 0 < s then 2 ^ (s - 1) else 2 ^ s) =
        quantaOfBits (s * hiddenBit + m) := by
  have hidden : 0 < hiddenBit := by decide
  obtain ⟨normal, small⟩ := h
  split
  next least =>
    obtain ⟨rfl, scaled⟩ := least
    obtain ⟨t, rfl⟩ := Nat.exists_eq_succ_of_ne_zero scaled.ne'
    have finer : IsSignificand t (2 * hiddenBit - 1) := ⟨.inr (by omega), by omega⟩
    have before : t.succ * hiddenBit + hiddenBit = t * hiddenBit + (2 * hiddenBit - 1) + 1 := by
      rw [Nat.succ_mul]
      omega
    rw [before, Nat.add_sub_cancel, finer.quantaOfBits_succ]
    rfl
  next other =>
    have same : IsSignificand s (m - 1) := ⟨by omega, by omega⟩
    have before : s * hiddenBit + m = s * hiddenBit + (m - 1) + 1 := by omega
    rw [before, Nat.add_sub_cancel, same.quantaOfBits_succ]

theorem IsSignificand.pos (h : IsSignificand s m) (pos : 0 < s * hiddenBit + m) : 0 < m := by
  rcases h.1 with rfl | normal
  · omega
  · exact Nat.lt_of_lt_of_le (by decide) normal

theorem two_pow_spare_le (pos : 0 < bits) :
    2 ^ spare (quantaOfBits bits) + 2 * quantaOfBits (bits - 1) ≤ 2 * quantaOfBits bits := by
  obtain ⟨s, m, significand, rfl⟩ := exists_significand bits
  have below := significand.quantaOfBits_pred (significand.pos pos)
  have quanta := quantaOfBits_significand significand.1 significand.2.le
  have spare := significand.spare_eq
  rw [← quanta] at spare
  rw [spare]
  split at below
  next least =>
    obtain ⟨t, rfl⟩ := Nat.exists_eq_succ_of_ne_zero least.2.ne'
    rw [Nat.succ_sub_one] at below
    rw [pow_succ]
    omega
  next =>
    have step := Nat.two_pow_pos s
    omega

end Halfways

section Rounding

variable {num den : Nat}

theorem spare_bounds (num : Nat) (pos : 0 < den) :
    (spare (num / den) = 0 ∨ den * 2 ^ spare (num / den) * hiddenBit ≤ num) ∧
      num ≤ den * 2 ^ spare (num / den) * (2 * hiddenBit) := by
  have bits : hiddenBit = 2 ^ 52 := rfl
  generalize hs : spare (num / den) = s
  rw [spare] at hs
  constructor
  · rcases Nat.eq_zero_or_pos s with zero | more
    · exact .inl zero
    · right
      have log : (num / den).log2 = 52 + s := by omega
      have least : 2 ^ (52 + s) ≤ num / den := by
        rw [← log]
        refine Nat.log2_self_le fun zero => ?_
        rw [zero, Nat.log2_zero] at log
        omega
      calc den * 2 ^ s * hiddenBit = den * 2 ^ (52 + s) := by rw [bits, pow_add]; ring
        _ ≤ den * (num / den) := Nat.mul_le_mul_left den least
        _ ≤ num := Nat.mul_div_le num den
  · have most : num / den < 2 ^ (53 + s) :=
      Nat.lt_of_lt_of_le Nat.lt_log2_self (Nat.pow_le_pow_right (by decide) (by omega))
    calc num ≤ den * 2 ^ (53 + s) := by
          rw [Nat.mul_comm]
          exact ((Nat.div_lt_iff_lt_mul pos).mp most).le
      _ = den * 2 ^ s * (2 * hiddenBit) := by rw [bits, pow_add]; ring

section Steps

variable {s m : Nat}

theorem quantaOfBits_divNearest (num : Nat) (pos : 0 < den) (hs : spare (num / den) = s)
    (hm : divNearest num (den * 2 ^ s) = m) : quantaOfBits (s * hiddenBit + m) = m * 2 ^ s := by
  obtain ⟨low, high⟩ := spare_bounds num pos
  rw [hs] at low high
  have step : 0 < den * 2 ^ s := Nat.mul_pos pos (Nat.two_pow_pos s)
  apply quantaOfBits_significand
  · rw [← hm]
    exact low.imp_right (le_divNearest step)
  · rw [← hm]
    exact divNearest_le step high

theorem abs_sub_steps (num : Nat) (pos : 0 < den) (s : Nat) (k : ℚ) :
    |(num : ℚ) / den - k * 2 ^ s| = |(num : ℚ) / (den * 2 ^ s : ℕ) - k| * 2 ^ s := by
  have den0 : (0 : ℚ) < den := Nat.cast_pos.mpr pos
  have two : (0 : ℚ) < 2 ^ s := by positivity
  rw [← abs_of_pos two, ← abs_mul, abs_of_pos two]
  congr 1
  push_cast
  field_simp

theorem abs_sub_divNearest_steps (num : Nat) (pos : 0 < den)
    (hm : divNearest num (den * 2 ^ s) = m) {k : Nat} (ne : k ≠ m) :
    |(num : ℚ) / den - m * 2 ^ s| < |(num : ℚ) / den - k * 2 ^ s| ∨
      |(num : ℚ) / den - m * 2 ^ s| = |(num : ℚ) / den - k * 2 ^ s| ∧ m % 2 = 0 := by
  have step : 0 < den * 2 ^ s := Nat.mul_pos pos (Nat.two_pow_pos s)
  have two : (0 : ℚ) < 2 ^ s := by positivity
  have nearest := divNearest_nearest num step (hm ▸ ne)
  rw [hm] at nearest
  rw [abs_sub_steps num pos, abs_sub_steps num pos]
  exact nearest.imp (fun nearer => mul_lt_mul_of_pos_right nearer two)
    fun ⟨same, tied⟩ => ⟨by rw [same], tied⟩

theorem beats_of_divNearest (num : Nat) (pos : 0 < den) (hs : spare (num / den) = s)
    (hm : divNearest num (den * 2 ^ s) = m) {other : Nat} (ne : other ≠ s * hiddenBit + m) :
    Beats (num / den) (s * hiddenBit + m) other := by
  have even : hiddenBit % 2 = 0 := rfl
  have quanta := quantaOfBits_divNearest num pos hs hm
  have nearest {k : Nat} (ne : k ≠ m) := abs_sub_divNearest_steps num pos hm ne
  rw [Beats, quanta]
  push_cast
  rcases quantaOfBits_grid other s with ⟨k, multiple⟩ | ⟨scaled, less⟩
  · have differ : k ≠ m := by
      rintro rfl
      exact ne (strictMono_quantaOfBits.injective (multiple.trans quanta.symm))
    rw [multiple]
    push_cast
    exact (nearest differ).imp_right fun ⟨same, tied⟩ =>
      ⟨same, by simp [Nat.add_mod, Nat.mul_mod, even, tied]⟩
  · -- The other double is below all that the quotient can be rounded to.
    have above : (hiddenBit : ℚ) * 2 ^ s ≤ num / den := by
      have low := (spare_bounds num pos).1
      rw [hs] at low
      replace low := low.resolve_left scaled.ne'
      qify at low
      rw [le_div_iff₀ (Nat.cast_pos.mpr pos)]
      linarith
    have close : |(num : ℚ) / den - m * 2 ^ s| ≤ |(num : ℚ) / den - hiddenBit * 2 ^ s| := by
      rcases eq_or_ne hiddenBit m with rfl | differ
      · exact le_rfl
      · exact (nearest differ).elim le_of_lt fun tie => tie.1.le
    left
    qify at less
    rw [abs_of_nonneg (sub_nonneg.mpr above)] at close
    rw [abs_of_nonneg (sub_nonneg.mpr (less.le.trans above))]
    linarith

end Steps

theorem cast_shiftLeft (n k : Nat) : ((n <<< k : ℕ) : ℚ) = n * 2 ^ k := by
  rw [Nat.shiftLeft_eq]
  push_cast
  rfl

/-- A quotient is rounded to the double that beats all others, infinity included. -/
theorem beats_of_bitsOfRatio (num : Nat) (pos : 0 < den) {other : Nat}
    (bound : other ≤ infinityBits) (ne : other ≠ bitsOfRatio num den) :
    Beats (num / den * 2 ^ quantaLog) (bitsOfRatio num den) other := by
  have beats := @beats_of_divNearest _ _ _ (num <<< quantaLog) pos rfl rfl
  rw [cast_shiftLeft, ← div_mul_eq_mul_div] at beats
  simp only [bitsOfRatio, Nat.shiftLeft_eq den] at ne ⊢
  generalize spare (num <<< quantaLog / den) * hiddenBit + _ = bits at *
  rcases Nat.lt_or_ge infinityBits bits with overflow | finite
  · rw [Nat.min_eq_left overflow.le] at ne ⊢
    -- The quotient lies behind infinity, where all other doubles are farther off.
    have less := quantaOfBits_cast_lt (Nat.lt_of_le_of_ne bound ne)
    have greater := quantaOfBits_cast_lt overflow
    have behind := (abs_sub_le_iff_of_gt greater).mp (beats overflow.ne).le
    left
    rw [abs_of_nonneg (by linarith), abs_of_nonneg (by linarith)]
    linarith
  · rw [Nat.min_eq_right finite] at ne ⊢
    exact beats ne

end Rounding

section Nearest

variable {p q : ℚ} {x y : Float}

theorem isNearest_iff_beats (h : IsNonneg x) :
    IsNearest q x ↔ ∀ bits ≤ infinityBits, bits ≠ x.toBits.toNat →
      Beats (q * 2 ^ quantaLog) x.toBits.toNat bits := by
  have two : (0 : ℚ) < 2 ^ quantaLog := by positivity
  have distance {y : Float} (hy : IsNonneg y) : |q - value y| =
      |q * 2 ^ quantaLog - quantaOfBits y.toBits.toNat| / 2 ^ quantaLog := by
    rw [hy.value_eq, ← abs_of_pos two, ← abs_div, abs_of_pos two, sub_div,
      mul_div_cancel_right₀ _ two.ne']
  constructor
  · rintro ⟨-, nearest⟩ bits bound ne
    have nonneg := isNonneg_signed bound
    have same : (signed false bits).toBits.toNat = bits := toBits_signed bound
    have nearer := nearest (signed false bits) nonneg (by rintro rfl; exact ne same.symm)
    rwa [distance h, distance nonneg, same, div_lt_div_iff_of_pos_right two,
      div_left_inj' two.ne'] at nearer
  · intro beats
    refine ⟨h, fun y hy ne => ?_⟩
    rw [distance h, distance hy, div_lt_div_iff_of_pos_right two, div_left_inj' two.ne']
    exact beats _ hy fun same => ne (eq_of_toBits same)

theorem bitsOfRatio_le (num den : Nat) : bitsOfRatio num den ≤ infinityBits := by
  rw [bitsOfRatio]
  exact Nat.min_le_left _ _

theorem isNearest_ofRatio (num : Nat) {den : Nat} (pos : 0 < den) :
    IsNearest (num / den) (ofRatio num den) := by
  have bound := bitsOfRatio_le num den
  rw [ofRatio, isNearest_iff_beats (isNonneg_signed bound), toBits_signed bound]
  intro bits below ne
  exact beats_of_bitsOfRatio num pos below ne

theorem isNearest_ofNat (n : Nat) : IsNearest n (ofNat n) := by
  have nearest := isNearest_ofRatio n Nat.one_pos
  rwa [Nat.cast_one, div_one] at nearest

theorem isNearest_value (h : IsNonneg x) : IsNearest (value x) x := by
  refine ⟨h, fun y hy ne => .inl ?_⟩
  rw [sub_self, abs_zero, abs_pos, sub_ne_zero]
  exact fun same => ne (eq_of_value hy h same.symm)

theorem isNearest_zero (nonneg : 0 ≤ q) (h : q * 2 ^ quantaLog ≤ 1 / 2) : IsNearest q 0 := by
  have zero : (0 : Float) = signed false 0 := by decide
  have bound : 0 ≤ infinityBits := Nat.zero_le _
  rw [zero, isNearest_iff_beats (isNonneg_signed bound), toBits_signed bound]
  intro bits _ ne
  have none : quantaOfBits 0 = 0 := rfl
  have one : (1 : ℚ) ≤ quantaOfBits bits := by
    exact_mod_cast strictMono_quantaOfBits (Nat.pos_of_ne_zero ne)
  have scaled : 0 ≤ q * 2 ^ quantaLog := by positivity
  rw [Beats, none, Nat.cast_zero, sub_zero, abs_of_nonneg scaled, abs_sub_comm,
    abs_of_nonneg (by linarith)]
  rcases (show q * 2 ^ quantaLog ≤ quantaOfBits bits - q * 2 ^ quantaLog by linarith).lt_or_eq with
    less | same
  · exact .inl less
  · exact .inr ⟨same, rfl⟩

theorem isNonneg_zero : IsNonneg 0 :=
  (isNearest_zero le_rfl (by norm_num)).nonneg

theorem isNearest_infinity (h : quantaOfBits infinityBits ≤ q * 2 ^ quantaLog) :
    IsNearest q (signed false infinityBits) := by
  rw [isNearest_iff_beats (isNonneg_signed le_rfl), toBits_signed le_rfl]
  intro bits bound ne
  have less := quantaOfBits_cast_lt (Nat.lt_of_le_of_ne bound ne)
  left
  rw [abs_of_nonneg (by linarith), abs_of_nonneg (by linarith)]
  linarith

theorem IsNearest.unique (hx : IsNearest q x) (hy : IsNearest q y) : x = y := by
  have beats := (isNearest_iff_beats hx.nonneg).mp hx
  have beats' := (isNearest_iff_beats hy.nonneg).mp hy
  exact eq_of_toBits (eq_of_beats hx.nonneg hy.nonneg beats beats')

theorem IsNearest.value_le (hx : IsNearest p x) (hy : IsNearest q y) (h : p ≤ q) :
    value x ≤ value y := by
  have beats := (isNearest_iff_beats hx.nonneg).mp hx
  have beats' := (isNearest_iff_beats hy.nonneg).mp hy
  rw [value_le_iff hx.nonneg hy.nonneg]
  have scaled : p * 2 ^ quantaLog ≤ q * 2 ^ quantaLog :=
    mul_le_mul_of_nonneg_right h (by positivity)
  exact le_of_beats scaled hx.nonneg hy.nonneg beats beats'

end Nearest

end Audience.Binary64
