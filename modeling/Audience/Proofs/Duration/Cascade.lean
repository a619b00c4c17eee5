import Mathlib
import Audience.Proofs.Binary64.Counting
import Audience.Proofs.Duration.Offset

/-! # The parts below days

Every part below days takes over the fraction of the part before it, and of the last fraction the
milliseconds are rounded. What a fraction adds to the parts below it is never more than one whole
part. So durations with greater parts have no fewer milliseconds, as long as doubles count these
one by one.
-/

namespace Audience.Duration

open Binary64

/-- A part below days: how many of it are one of the part before, and its milliseconds. -/
structure Place where
  part : Float
  count : Nat
  millis : Nat

namespace Place

def carried (x : Place) (left : Float) : Float :=
  x.part + left * ofNat x.count

structure IsUsual (x : Place) : Prop where
  nonneg : IsNonneg x.part
  finite : x.part.toBits.toNat ≠ infinityBits
  count : x.count = 24 ∨ x.count = 60
  pos : 0 < x.millis
  millis : x.millis ≤ 3600000

end Place

/-- A sum of milliseconds with those of some more places, and of the fraction before them. -/
def addPlaces : List Place → Float → Float → Float
  | [], left, sum => sum + roundAway (left * ofNat 1000)
  | x :: rest, left, sum =>
    addPlaces rest (fraction (x.carried left))
      (sum + truncate (x.carried left) * ofNat x.millis)

/-- The milliseconds of some places and of the fraction before them, where no sum is rounded. -/
def countPlaces : List Place → Float → Int
  | [], left => round (value (left * ofNat 1000))
  | x :: rest, left =>
    ⌊value (x.carried left)⌋ * x.millis + countPlaces rest (fraction (x.carried left))

/-- Places with parts that are no greater than those of others. The part before them has so many
milliseconds. -/
inductive NoLonger : Nat → List Place → List Place → Prop
  | nil : NoLonger 1000 [] []
  | cons {x y : Place} {rest rest' : List Place} (hx : x.IsUsual) (hy : y.IsUsual)
      (count : x.count = y.count) (millis : x.millis = y.millis)
      (le : value x.part ≤ value y.part) (h : NoLonger y.millis rest rest') {unit : Nat}
      (whole : y.count * y.millis = unit) : NoLonger unit (x :: rest) (y :: rest')

def places (p : Parts Float) : List Place :=
  [⟨p.hours, 24, 3600000⟩, ⟨p.minutes, 60, 60000⟩, ⟨p.seconds, 60, 1000⟩]

def allDays (p : Parts Float) : Float :=
  p.days + p.weeks * ofNat 7

section Fractions

variable {x c : Float} {n : Nat}

theorem value_fraction (h : IsNonneg x) (finite : x.toBits.toNat ≠ infinityBits) :
    value (fraction x) = Int.fract (value x) :=
  (h.value_sub_truncate finite).2

theorem isFraction_fraction (h : IsNonneg x) (finite : x.toBits.toNat ≠ infinityBits) :
    IsFraction (fraction x) where
  nonneg := (h.value_sub_truncate finite).1
  less := by
    rw [value_fraction h finite]
    exact Int.fract_lt_one _

theorem value_mul_lt (h : IsFraction c) (usual : n = 24 ∨ n = 60) : value (c * ofNat n) < n := by
  refine h.value_mul_lt (by omega) ?_
  rcases usual with rfl | rfl <;> decide +kernel

end Fractions

section Places

variable {x y : Place} {b c : Float}

theorem Place.IsUsual.small (h : x.IsUsual) : x.count < 2 ^ 53 := by
  have usual := h.count
  omega

theorem isNearest_carried (h : x.IsUsual) (hc : IsFraction c) :
    IsNearest (value x.part + value (c * ofNat x.count)) (x.carried c) :=
  isNearest_add h.nonneg (isNearest_mul_ofNat hc.nonneg hc.finite h.small).nonneg

theorem part_le_carried (h : x.IsUsual) (hc : IsFraction c) :
    value x.part ≤ value (x.carried c) := by
  have nonneg := (isNearest_mul_ofNat hc.nonneg hc.finite h.small).nonneg.value_nonneg
  exact (isNearest_value h.nonneg).value_le (isNearest_carried h hc) (by linarith)

theorem finite_carried (h : x.IsUsual) (hc : IsFraction c) :
    (x.carried c).toBits.toNat ≠ infinityBits := by
  have nonneg : IsNonneg (signed false (infinityBits - 1)) := isNonneg_signed (by decide)
  have bits : (signed false (infinityBits - 1)).toBits.toNat = infinityBits - 1 :=
    toBits_signed (by decide)
  have sum := isNearest_add nonneg (isNearest_ofNat 60).nonneg
  have part : value x.part ≤ value (signed false (infinityBits - 1)) := by
    rw [value_le_iff h.nonneg nonneg, bits]
    exact Nat.le_sub_one_of_lt (lt_of_le_of_ne h.nonneg h.finite)
  have carry : value (c * ofNat x.count) ≤ value (ofNat 60) := by
    have less := value_mul_lt hc h.count
    have most : (x.count : ℚ) ≤ 60 := by
      rcases h.count with few | many
      · rw [few]
        norm_num
      · rw [many]
        norm_num
    rw [value_ofNat (by decide)]
    exact (less.trans_le most).le
  have order := (isNearest_carried h hc).value_le sum (add_le_add part carry)
  refine ne_infinity_of_lt (isNearest_carried h hc).nonneg (isNonneg_signed le_rfl)
    (order.trans_lt ?_)
  decide +kernel

theorem carried_le (hx : x.IsUsual) (hy : y.IsUsual) (count : x.count = y.count)
    (le : value x.part ≤ value y.part) (hb : IsFraction b) (hc : IsFraction c)
    (order : value b ≤ value c) : value (x.carried b) ≤ value (y.carried c) := by
  have before := isNearest_mul_ofNat hb.nonneg hb.finite hx.small
  have after := isNearest_mul_ofNat hc.nonneg hc.finite hy.small
  rw [count] at before
  have product := before.value_le after (mul_le_mul_of_nonneg_right order y.count.cast_nonneg)
  rw [← count] at product
  exact (isNearest_carried hx hb).value_le (isNearest_carried hy hc)
    (add_le_add le (count ▸ product))

/-- Whatever is carried, it is not more than one of the part before. -/
theorem carried_le_add (h : x.IsUsual) (small : value x.part < (2 ^ 53 : ℕ)) (hc : IsFraction c) :
    value (x.carried c) ≤ value x.part + x.count := by
  have usual := h.count
  exact value_add_le h.nonneg (isNearest_mul_ofNat hc.nonneg hc.finite h.small).nonneg small
    (by omega) (value_mul_lt hc h.count)

end Places

section Counts

/-- A whole part more outweighs all that follows, and with the same whole parts the fractions
decide. -/
theorem floor_mul_add_le {p q : ℚ} {a b unit : Int} {n : Nat} (le : p ≤ q + n)
    (same : Int.fract p ≤ Int.fract q → a ≤ b) (more : a ≤ unit + b) (nonneg : 0 ≤ unit) :
    ⌊p⌋ * unit + a ≤ (⌊q⌋ + n) * unit + b := by
  have floors : ⌊p⌋ ≤ ⌊q⌋ + n := by
    rw [← Int.floor_add_natCast]
    exact Int.floor_le_floor le
  rcases floors.eq_or_lt with equal | less
  · have fractions : Int.fract p ≤ Int.fract q := by
      rw [Int.fract, Int.fract, equal]
      push_cast
      linarith
    rw [equal]
    exact add_le_add_right (same fractions) _
  · have step : (⌊p⌋ + 1) * unit ≤ (⌊q⌋ + n) * unit := mul_le_mul_of_nonneg_right less nonneg
    linarith

variable {unit : Nat} {xs ys : List Place} {b c : Float}

theorem NoLonger.isUsual (h : NoLonger unit xs ys) :
    (∀ x ∈ xs, x.IsUsual) ∧ ∀ y ∈ ys, y.IsUsual := by
  induction h with
  | nil => exact ⟨List.forall_mem_nil _, List.forall_mem_nil _⟩
  | cons hx hy _ _ _ _ _ ih =>
    rw [List.forall_mem_cons, List.forall_mem_cons]
    exact ⟨⟨hx, ih.1⟩, hy, ih.2⟩

/-- Greater parts make no fewer milliseconds, and what any fraction adds is not more than one of
the part before. -/
theorem NoLonger.countPlaces_le (h : NoLonger unit xs ys)
    (small : ∀ y ∈ ys, value y.part < (2 ^ 53 : ℕ)) (hb : IsFraction b) (hc : IsFraction c) :
    (value b ≤ value c → countPlaces xs b ≤ countPlaces ys c) ∧
      countPlaces xs b ≤ unit + countPlaces ys c := by
  induction h generalizing b c with
  | nil =>
    have before := isNearest_mul_ofNat hb.nonneg hb.finite (show 1000 < 2 ^ 53 by decide)
    have after := isNearest_mul_ofNat hc.nonneg hc.finite (show 1000 < 2 ^ 53 by decide)
    simp only [countPlaces]
    constructor
    · intro order
      apply round_le_round
      exact before.value_le after (mul_le_mul_of_nonneg_right order (Nat.cast_nonneg _))
    · have most := hb.value_mul_le (show 1000 < 2 ^ 53 by decide)
      have nonneg := round_nonneg after.nonneg.value_nonneg
      have rounded := round_le_round most
      rw [round_natCast] at rounded
      omega
  | @cons x y rest rest' hx hy count millis le h unit whole ih =>
    rw [List.forall_mem_cons] at small
    have before := isNearest_carried hx hb
    have after := isNearest_carried hy hc
    obtain ⟨same, more⟩ := ih small.2 (isFraction_fraction before.nonneg (finite_carried hx hb))
      (isFraction_fraction after.nonneg (finite_carried hy hc))
    rw [value_fraction before.nonneg (finite_carried hx hb),
      value_fraction after.nonneg (finite_carried hy hc)] at same
    have level {n : Nat} (near : value (x.carried b) ≤ value (y.carried c) + n) :=
      floor_mul_add_le near same more y.millis.cast_nonneg
    simp only [countPlaces, millis]
    constructor
    · intro order
      have next := level (n := 0) (by
        rw [Nat.cast_zero, add_zero]
        exact carried_le hx hy count le hb hc order)
      rwa [Int.natCast_zero, Int.add_zero] at next
    · have next := level (n := y.count) (by
        have most := carried_le_add hx (le.trans_lt small.1) hb
        have least := part_le_carried hy hc
        rw [count] at most
        linarith)
      rw [← whole]
      push_cast
      linarith

end Counts

section Offsets

variable {xs ys : List Place} {c sum : Float} {n : Int}

theorem counts_addPlaces (usual : ∀ x ∈ xs, x.IsUsual) (hc : IsFraction c) (h : Counts sum n) :
    Counts (addPlaces xs c sum) (n + countPlaces xs c) := by
  induction xs generalizing c sum n with
  | nil =>
    have product := isNearest_mul_ofNat hc.nonneg hc.finite (show 1000 < 2 ^ 53 by decide)
    have finite := finite_of_le product.nonneg (by decide) (hc.value_mul_le (by decide))
    exact h.add (counts_of_isNearest (product.nonneg.roundAway_eq finite)
      (round_nonneg product.nonneg.value_nonneg))
  | cons x rest ih =>
    rw [List.forall_mem_cons] at usual
    have carried := isNearest_carried usual.1 hc
    have finite := finite_carried usual.1 hc
    have small : x.millis < 2 ^ 53 := Nat.lt_of_le_of_lt usual.1.millis (by decide)
    rw [countPlaces, ← Int.add_assoc]
    exact ih usual.2 (isFraction_fraction carried.nonneg finite)
      (h.add (counts_truncate_mul carried.nonneg finite small))

theorem countPlaces_nonneg (usual : ∀ x ∈ xs, x.IsUsual) (hc : IsFraction c) :
    0 ≤ countPlaces xs c := by
  have nothing : Counts 0 0 :=
    counts_of_isNearest (isNearest_zero (by norm_num) (by norm_num)) le_rfl
  have least := (counts_addPlaces usual hc nothing).least
  rwa [zero_add] at least

theorem part_lt_of_countPlaces (usual : ∀ x ∈ xs, x.IsUsual) (hc : IsFraction c)
    (small : countPlaces xs c < (2 ^ 53 : ℕ)) : ∀ x ∈ xs, value x.part < (2 ^ 53 : ℕ) := by
  induction xs generalizing c with
  | nil =>
    intro x none
    cases none
  | cons x rest ih =>
    rw [List.forall_mem_cons] at usual ⊢
    have carried := (isNearest_carried usual.1 hc).nonneg
    have left := isFraction_fraction carried (finite_carried usual.1 hc)
    have below := countPlaces_nonneg usual.2 left
    have whole : 0 ≤ ⌊value (x.carried c)⌋ := Int.floor_nonneg.mpr carried.value_nonneg
    have millis : (1 : Int) ≤ x.millis := by exact_mod_cast usual.1.pos
    have grows : ⌊value (x.carried c)⌋ ≤ ⌊value (x.carried c)⌋ * x.millis :=
      le_mul_of_one_le_right whole millis
    rw [countPlaces] at small
    refine ⟨?_, ih usual.2 left (by omega)⟩
    have most : ⌊value (x.carried c)⌋ < ((2 ^ 53 : ℕ) : Int) := by omega
    exact (part_le_carried usual.1 hc).trans_lt (by exact_mod_cast Int.floor_lt.mp most)

end Offsets

section Whole

variable {x : Float} {xs ys : List Place} {sum sum' : Float} {unit : Nat}

theorem fraction_of_isWhole (h : IsNonneg x) (finite : x.toBits.toNat ≠ infinityBits)
    (whole : IsWhole x) : fraction x = 0 := by
  obtain ⟨n, same⟩ := whole
  apply eq_of_value (isFraction_fraction h finite).nonneg isNonneg_zero
  rw [value_fraction h finite, same, Int.fract_natCast, value_zero]

theorem carried_zero {x : Place} (usual : x.IsUsual) : x.carried 0 = x.part := by
  have nothing : (0 : Float) * ofNat x.count = 0 := by
    rcases usual.count with few | many
    · rw [few]
      decide +kernel
    · rw [many]
      decide +kernel
  rw [Place.carried, nothing, usual.nonneg.isUnsigned.add_zero]

/-- Without fractions all sums are in the order of the parts, rounded or not. -/
theorem NoLonger.addPlaces_le (h : NoLonger unit xs ys) (whole : ∀ x ∈ xs, IsWhole x.part)
    (whole' : ∀ y ∈ ys, IsWhole y.part) (hx : IsNonneg sum) (hy : IsNonneg sum')
    (order : value sum ≤ value sum') :
    IsNonneg (addPlaces xs 0 sum) ∧ IsNonneg (addPlaces ys 0 sum') ∧
      value (addPlaces xs 0 sum) ≤ value (addPlaces ys 0 sum') := by
  induction h generalizing sum sum' with
  | nil =>
    have nothing : roundAway (0 * ofNat 1000) = 0 := by decide +kernel
    simp only [addPlaces, nothing, hx.isUnsigned.add_zero, hy.isUnsigned.add_zero]
    exact ⟨hx, hy, order⟩
  | @cons x y rest rest' usual usual' count millis le h unit _ ih =>
    rw [List.forall_mem_cons] at whole whole'
    simp only [addPlaces, carried_zero usual, carried_zero usual',
      fraction_of_isWhole usual.nonneg usual.finite whole.1,
      fraction_of_isWhole usual'.nonneg usual'.finite whole'.1]
    have product {z : Place} (usual : z.IsUsual) :
        IsNearest (⌊value z.part⌋ * z.millis) (truncate z.part * ofNat z.millis) :=
      isNearest_truncate_mul usual.nonneg usual.finite
        (Nat.lt_of_le_of_lt usual.millis (by decide))
    have floors : (⌊value x.part⌋ : ℚ) * x.millis ≤ ⌊value y.part⌋ * y.millis := by
      rw [millis]
      exact mul_le_mul_of_nonneg_right (by exact_mod_cast Int.floor_le_floor le)
        y.millis.cast_nonneg
    have before := isNearest_add hx (product usual).nonneg
    have after := isNearest_add hy (product usual').nonneg
    exact ih whole.2 whole'.2 before.nonneg after.nonneg
      (before.value_le after (add_le_add order ((product usual).value_le (product usual') floors)))

end Whole

section Durations

variable {p q : Parts Float} {length : Nat}

theorem offset_eq_addPlaces (unsigned : ∀ x ∈ p.toList, IsUnsigned x)
    (whole : fraction (monthsTotal p) = 0) (short : length ≤ 31) :
    offset p length =
      addPlaces (places p) (fraction (allDays p)) (truncate (allDays p) * ofNat 86400000) := by
  simp only [Parts.toList, List.forall_mem_cons] at unsigned
  have days : IsUnsigned (allDays p) :=
    unsigned.2.2.2.1.add (unsigned.2.2.1.mul (isUnsigned_ofNat 7))
  have same : allDays p + fraction (monthsTotal p) * ofNat length = allDays p := by
    rw [whole, zero_mul_ofNat short, days.add_zero]
  calc offset p length = addPlaces (places p)
        (fraction (allDays p + fraction (monthsTotal p) * ofNat length))
        (truncate (allDays p + fraction (monthsTotal p) * ofNat length) * ofNat 86400000) := rfl
    _ = _ := by rw [same]

/-- Whether no part of a duration is infinite, nor its days with those of its weeks. -/
structure IsFinite (p : Parts Float) : Prop where
  parts : ∀ x ∈ p.toList, isFinite x = true
  days : isFinite (allDays p) = true

theorem IsFinite.ne_infinity (finite : IsFinite p) (nonneg : ∀ x ∈ p.toList, IsNonneg x) :
    ∀ x ∈ p.toList, x.toBits.toNat ≠ infinityBits :=
  fun x part => (nonneg x part).isFinite_iff.mp (finite.parts x part)

theorem fixedMillis_eq (unsigned : ∀ x ∈ p.toList, IsUnsigned x) :
    fixedMillis p = (toInt64 (addPlaces (places p) (fraction (allDays p))
      (truncate (allDays p) * ofNat 86400000))).toInt := by
  have zero := isNonneg_zero.isUnsigned
  have whole : fraction (monthsTotal { p with years := (0 : Float), months := 0 }) = 0 := by
    show fraction ((0 : Float) + fraction 0 * Binary64.ofNat 12) = 0
    decide +kernel
  simp only [Parts.toList, List.forall_mem_cons] at unsigned
  have none : ∀ x ∈ Parts.toList { p with years := (0 : Float), months := 0 }, IsUnsigned x := by
    simp only [Parts.toList, List.forall_mem_cons]
    exact ⟨zero, zero, unsigned.2.2⟩
  rw [fixedMillis, offset_eq_addPlaces none whole (Nat.zero_le 31)]
  rfl

theorem isWhole_places (whole : ∀ x ∈ p.toList, IsWhole x) : ∀ x ∈ places p, IsWhole x.part := by
  simp only [Parts.toList, places, List.forall_mem_cons] at whole ⊢
  obtain ⟨-, -, -, -, hours, minutes, seconds, -⟩ := whole
  exact ⟨hours, minutes, seconds, List.forall_mem_nil _⟩

theorem isWhole_allDays (nonneg : ∀ x ∈ p.toList, IsNonneg x)
    (finite : p.weeks.toBits.toNat ≠ infinityBits) (whole : ∀ x ∈ p.toList, IsWhole x) :
    IsWhole (allDays p) := by
  simp only [Parts.toList, List.forall_mem_cons] at nonneg whole
  obtain ⟨-, -, ⟨weeks, sameW⟩, ⟨days, sameD⟩, -⟩ := whole
  have product := isNearest_mul_ofNat nonneg.2.2.1 finite (show 7 < 2 ^ 53 by decide)
  rw [sameW, ← Nat.cast_mul] at product
  obtain ⟨n, same⟩ := product.exists_natCast
  have sum := isNearest_add nonneg.2.2.2.1 product.nonneg
  rw [sameD, same, ← Nat.cast_add] at sum
  exact sum.exists_natCast

variable (hp : ∀ x ∈ p.toList, IsNonneg x) (hq : ∀ y ∈ q.toList, IsNonneg y)
  (le : List.Forall₂ (fun x y => value x ≤ value y) p.toList q.toList) (finite : IsFinite q)

include hp hq le finite

theorem noLonger_places : NoLonger 86400000 (places p) (places q) := by
  have parts := finite.ne_infinity hq
  simp only [Parts.toList, List.forall_mem_cons, List.forall₂_cons] at hp hq le parts
  have usual {x y : Float} (hx : IsNonneg x) (hy : IsNonneg y) (le : value x ≤ value y)
      (finite : y.toBits.toNat ≠ infinityBits) {count millis : Nat}
      (often : count = 24 ∨ count = 60) (pos : 0 < millis) (few : millis ≤ 3600000) :
      Place.IsUsual ⟨x, count, millis⟩ ∧ Place.IsUsual ⟨y, count, millis⟩ :=
    ⟨⟨hx, finite_of_value_le hx hy finite le, often, pos, few⟩, ⟨hy, finite, often, pos, few⟩⟩
  obtain ⟨-, -, -, -, hours, minutes, seconds, -⟩ := hp
  obtain ⟨-, -, -, -, hours', minutes', seconds', -⟩ := hq
  obtain ⟨-, -, -, -, leH, leM, leS, -⟩ := le
  obtain ⟨-, -, -, -, finiteH, finiteM, finiteS, -⟩ := parts
  have h := usual hours hours' leH finiteH (.inl rfl) (by decide) (Nat.le_refl 3600000)
  have m := usual minutes minutes' leM finiteM (.inr rfl) (by decide)
    (show 60000 ≤ 3600000 by decide)
  have s := usual seconds seconds' leS finiteS (.inr rfl) (by decide)
    (show 1000 ≤ 3600000 by decide)
  have seconds := NoLonger.cons s.1 s.2 rfl rfl leS .nil (show 60 * 1000 = 60000 by decide)
  have minutes := NoLonger.cons m.1 m.2 rfl rfl leM seconds (show 60 * 60000 = 3600000 by decide)
  exact .cons h.1 h.2 rfl rfl leH minutes (show 24 * 3600000 = 86400000 by decide)

theorem allDays_le : IsNonneg (allDays p) ∧ IsNonneg (allDays q) ∧
    value (allDays p) ≤ value (allDays q) := by
  have parts := finite.ne_infinity hq
  simp only [Parts.toList, List.forall_mem_cons, List.forall₂_cons] at hp hq le parts
  have small : 7 < 2 ^ 53 := by decide
  have before := isNearest_mul_ofNat hp.2.2.1
    (finite_of_value_le hp.2.2.1 hq.2.2.1 parts.2.2.1 le.2.2.1) small
  have after := isNearest_mul_ofNat hq.2.2.1 parts.2.2.1 small
  have weeks := before.value_le after (mul_le_mul_of_nonneg_right le.2.2.1 (Nat.cast_nonneg 7))
  have sum := isNearest_add hp.2.2.2.1 before.nonneg
  have sum' := isNearest_add hq.2.2.2.1 after.nonneg
  exact ⟨sum.nonneg, sum'.nonneg, sum.value_le sum' (add_le_add le.2.2.2.1 weeks)⟩

theorem fixedMillis_le_of_small (small : fixedMillis q < (2 ^ 53 : ℕ)) :
    fixedMillis p ≤ fixedMillis q := by
  obtain ⟨nonneg, nonneg', order⟩ := allDays_le hp hq le finite
  have chain := noLonger_places hp hq le finite
  obtain ⟨usual, usual'⟩ := chain.isUsual
  have finiteQ := nonneg'.isFinite_iff.mp finite.days
  have finiteP := finite_of_value_le nonneg nonneg' finiteQ order
  have left := isFraction_fraction nonneg finiteP
  have left' := isFraction_fraction nonneg' finiteQ
  have millis : 86400000 < 2 ^ 53 := by decide
  have counts := counts_addPlaces usual left (counts_truncate_mul nonneg finiteP millis)
  have counts' := counts_addPlaces usual' left' (counts_truncate_mul nonneg' finiteQ millis)
  rw [fixedMillis_eq fun x part => (hq x part).isUnsigned, counts'.nonneg.toInt64_eq] at small
  rw [fixedMillis_eq fun x part => (hp x part).isUnsigned,
    fixedMillis_eq fun x part => (hq x part).isUnsigned]
  -- The sum of the greater parts is exact, so that they are few, and the other sum is exact too.
  have most : ((2 ^ 53 : ℕ) : Int) ≤ Int64.maxValue.toInt := by decide
  have total := counts'.exactly (.inl (by
    have few : ⌊value _⌋ < ((2 ^ 53 : ℕ) : Int) := lt_of_not_ge fun many =>
      absurd small (not_lt.mpr (le_min many most))
    exact_mod_cast Int.floor_lt.mp few))
  rw [total, Int.floor_intCast] at small
  have days := (counts_truncate_mul nonneg' finiteQ millis).least
  have parts := part_lt_of_countPlaces usual' left' (by omega)
  obtain ⟨same, more⟩ := chain.countPlaces_le parts left left'
  rw [value_fraction nonneg finiteP, value_fraction nonneg' finiteQ] at same
  have sum := floor_mul_add_le (n := 0) (by rwa [Nat.cast_zero, add_zero]) same more
    (Int.natCast_nonneg _)
  rw [Int.natCast_zero, Int.add_zero] at sum
  have total' := counts.exactly (.inr (by omega))
  apply toInt64_le counts.nonneg counts'.nonneg
  rw [total, total']
  exact_mod_cast sum

theorem fixedMillis_le_of_whole (whole : ∀ x ∈ p.toList, IsWhole x)
    (whole' : ∀ y ∈ q.toList, IsWhole y) : fixedMillis p ≤ fixedMillis q := by
  obtain ⟨nonneg, nonneg', order⟩ := allDays_le hp hq le finite
  have chain := noLonger_places hp hq le finite
  have finiteQ := nonneg'.isFinite_iff.mp finite.days
  have finiteP := finite_of_value_le nonneg nonneg' finiteQ order
  have millis : 86400000 < 2 ^ 53 := by decide
  have product := isNearest_truncate_mul nonneg finiteP millis
  have product' := isNearest_truncate_mul nonneg' finiteQ millis
  have floors : (⌊value (allDays p)⌋ : ℚ) * (86400000 : ℕ) ≤
      ⌊value (allDays q)⌋ * (86400000 : ℕ) :=
    mul_le_mul_of_nonneg_right (by exact_mod_cast Int.floor_le_floor order) (Nat.cast_nonneg _)
  have weeks : p.weeks ∈ p.toList ∧ q.weeks ∈ q.toList := by simp [Parts.toList]
  have finiteW := finite.ne_infinity hq _ weeks.2
  have leW : value p.weeks ≤ value q.weeks := by
    simp only [Parts.toList, List.forall₂_cons] at le
    exact le.2.2.1
  have days := isWhole_allDays hp
    (finite_of_value_le (hp _ weeks.1) (hq _ weeks.2) finiteW leW) whole
  have days' := isWhole_allDays hq finiteW whole'
  obtain ⟨left, right, sum⟩ := chain.addPlaces_le (isWhole_places whole) (isWhole_places whole')
    product.nonneg product'.nonneg (product.value_le product' floors)
  rw [fixedMillis_eq fun x part => (hp x part).isUnsigned,
    fixedMillis_eq fun x part => (hq x part).isUnsigned, fraction_of_isWhole nonneg finiteP days,
    fraction_of_isWhole nonneg' finiteQ days']
  exact toInt64_le left right sum

end Durations

end Audience.Duration
