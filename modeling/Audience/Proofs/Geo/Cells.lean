import Audience.Geo.Geohash

/-! # Cells and their halves

The two halves of a cell share it out: every point of the cell is a point of exactly one half, the
one that a step towards the point leads to. So a run of halvings ends around a point exactly when it
starts around it and each of its bits is the one that leads towards the point. All of this rests on
the order of numbers and on midpoints that lie between the bounds.
-/

namespace Audience.Geo

variable {α : Type} [Bisectable α]

/-- Bounds in their order, within those of longitudes. -/
structure Range.IsOrdered (r : Range α) : Prop where
  west : Bisectable.ofInt (-180) ≤ r.low
  low_le_high : r.low ≤ r.high
  east : r.high ≤ Bisectable.ofInt 180

structure Cell.IsOrdered (c : Cell α) : Prop where
  lat : c.lat.IsOrdered
  lon : c.lon.IsOrdered

/-- Numbers in an order, with midpoints that lie between two numbers as far as longitudes go. -/
class LawfulBisectable (α : Type) [Bisectable α] : Prop where
  le_trans {a b c : α} : a ≤ b → b ≤ c → a ≤ c
  isOrdered_globe : (Cell.globe : Cell α).IsOrdered
  middle_bounds {r : Range α} : r.IsOrdered → r.low ≤ r.middle ∧ r.middle ≤ r.high

open LawfulBisectable

namespace Range

/-- A range holds its lower bound and the numbers from there to its upper bound. -/
def Holds (r : Range α) (x : α) : Prop :=
  r.low ≤ x ∧ ¬ r.high ≤ x

variable [LawfulBisectable α] {r : Range α} {x : α}

theorem IsOrdered.half (h : r.IsOrdered) (upper : Bool) : (r.half upper).IsOrdered := by
  obtain ⟨above, below⟩ := middle_bounds h
  cases upper with
  | true => exact ⟨le_trans h.west above, below, h.east⟩
  | false => exact ⟨h.west, above, le_trans below h.east⟩

theorem IsOrdered.half_holds_iff (h : r.IsOrdered) (upper : Bool) :
    (r.half upper).Holds x ↔ r.Holds x ∧ (upper = true ↔ r.middle ≤ x) := by
  obtain ⟨above, below⟩ := middle_bounds h
  cases upper with
  | true =>
    constructor
    · rintro ⟨low, high⟩
      exact ⟨⟨le_trans above low, high⟩, iff_of_true rfl low⟩
    · rintro ⟨⟨-, high⟩, side⟩
      exact ⟨side.mp rfl, high⟩
  | false =>
    constructor
    · rintro ⟨low, high⟩
      exact ⟨⟨low, fun beyond => high (le_trans below beyond)⟩,
        iff_of_false Bool.false_ne_true high⟩
    · rintro ⟨⟨low, -⟩, side⟩
      exact ⟨low, fun more => Bool.false_ne_true (side.mpr more)⟩

end Range

namespace Cell

/-- A cell holds its southern and western edges but not the other two. -/
def Holds (c : Cell α) (p : Point α) : Prop :=
  c.lat.Holds p.lat ∧ c.lon.Holds p.lon

section Steps

variable [DecidableLE α] {c : Cell α} {cutLon : Bool} {p : Point α}

def turn (c : Cell α) (cutLon : Bool) (p : Point α) : Bool :=
  if cutLon then decide (c.lon.middle ≤ p.lon) else decide (c.lat.middle ≤ p.lat)

theorem towards_succ (n : Nat) : c.towards cutLon p (n + 1) =
    c.turn cutLon p :: (c.half cutLon (c.turn cutLon p)).towards (!cutLon) p n :=
  rfl

theorem length_towards (n : Nat) : (c.towards cutLon p n).length = n := by
  induction n generalizing c cutLon with
  | zero => rfl
  | succ n ih => rw [towards_succ, List.length_cons, ih]

theorem take_towards {m n : Nat} (h : m ≤ n) :
    (c.towards cutLon p n).take m = c.towards cutLon p m := by
  induction m generalizing c cutLon n with
  | zero => rfl
  | succ m ih =>
    obtain ⟨n, rfl⟩ := Nat.exists_eq_add_of_le' h
    rw [← Nat.add_assoc, towards_succ, towards_succ, List.take_succ_cons, ih (by omega)]

end Steps

section Lawful

variable [LawfulBisectable α] {c : Cell α} {cutLon : Bool} {p : Point α}

theorem IsOrdered.half (h : c.IsOrdered) (cutLon upper : Bool) :
    (c.half cutLon upper).IsOrdered := by
  cases cutLon with
  | true => exact ⟨h.lat, h.lon.half upper⟩
  | false => exact ⟨h.lat.half upper, h.lon⟩

theorem IsOrdered.follow (h : c.IsOrdered) (cutLon : Bool) (bits : List Bool) :
    (c.follow cutLon bits).IsOrdered := by
  induction bits generalizing c cutLon with
  | nil => exact h
  | cons upper rest ih => exact ih (h.half cutLon upper) (!cutLon)

variable [DecidableLE α]

theorem IsOrdered.half_holds_iff (h : c.IsOrdered) (cutLon upper : Bool) :
    (c.half cutLon upper).Holds p ↔ c.Holds p ∧ upper = c.turn cutLon p := by
  cases cutLon with
  | true =>
    have side : upper = c.turn true p ↔ (upper = true ↔ c.lon.middle ≤ p.lon) := by
      rw [Bool.eq_iff_iff, turn, if_pos rfl, decide_eq_true_iff]
    rw [side, Holds, Holds, and_assoc]
    exact and_congr_right fun _ => h.lon.half_holds_iff upper
  | false =>
    have side : upper = c.turn false p ↔ (upper = true ↔ c.lat.middle ≤ p.lat) := by
      rw [Bool.eq_iff_iff, turn, if_neg Bool.false_ne_true, decide_eq_true_iff]
    rw [side, Holds, Holds, and_right_comm]
    exact and_congr_left fun _ => h.lat.half_holds_iff upper

/-- A run of halvings leads to a cell that holds a point exactly when it sets out from one and every
bit is the one towards the point. -/
theorem IsOrdered.follow_holds_iff (h : c.IsOrdered) (cutLon : Bool) (bits : List Bool) :
    (c.follow cutLon bits).Holds p ↔ c.Holds p ∧ bits = c.towards cutLon p bits.length := by
  induction bits generalizing c cutLon with
  | nil => exact (and_iff_left rfl).symm
  | cons upper rest ih =>
    have step := h.half_holds_iff (p := p) cutLon upper
    rw [Cell.follow, ih (h.half cutLon upper), step, List.length_cons, towards_succ,
      List.cons.injEq, and_assoc]
    refine and_congr_right fun _ => and_congr_right ?_
    rintro rfl
    exact Iff.rfl

end Lawful

end Cell

end Audience.Geo
