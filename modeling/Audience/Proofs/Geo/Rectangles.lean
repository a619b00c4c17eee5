import Mathlib
import Audience.Proofs.Geo.Chords

/-! # Rectangles as rings

The four corners of a box, taken as a ring, enclose what the box contains but for its top and right
edges. A ray meets the two level sides nowhere and the two upright ones at their own longitude:
along an upright side the difference of longitudes is zero, so nothing is left to be rounded.
-/

namespace Audience.Geo

open Binary64

section Sides

variable {p : Point Float}

theorem straddles_iff_value {e : Point Float × Point Float} (hp : isFinite p.lat = true)
    (ha : isFinite e.1.lat = true) (hb : isFinite e.2.lat = true) : straddles p e = true ↔
      value e.1.lat ≤ value p.lat ∧ value p.lat < value e.2.lat ∨
        value e.2.lat ≤ value p.lat ∧ value p.lat < value e.1.lat := by
  have below {x : Float} (hx : isFinite x = true) : p.lat < x ↔ value p.lat < value x := by
    rw [lt_iff, and_iff_right (ne_nan_of_isFinite hp), and_iff_right (ne_nan_of_isFinite hx)]
  have exactly : straddles p e = straddles (⟨value p.lat, 0⟩ : Point ℚ)
      (⟨value e.1.lat, 0⟩, ⟨value e.2.lat, 0⟩) := by
    rw [straddles, straddles, decide_eq_decide.mpr (below ha), decide_eq_decide.mpr (below hb)]
  rw [exactly, straddles_iff]

theorem crosses_level (y x z : Float) : crosses p (⟨y, x⟩, ⟨y, z⟩) = false := by
  rw [crosses, bne_self_eq_false, Bool.false_and]

theorem crosses_upright {x y z : Float} (hx : isFinite x = true) (hlat : isFinite p.lat = true)
    (hy : isFinite y = true) (hz : isFinite z = true) (hsub : isFinite (y - z) = true) :
    crosses p (⟨y, x⟩, ⟨z, x⟩) = (straddles p (⟨y, x⟩, ⟨z, x⟩) && decide (p.lon < x)) := by
  rw [crosses_eq]
  cases straddled : straddles p (⟨y, x⟩, ⟨z, x⟩) with
  | false => rfl
  | true =>
    have apart : value (y - z) ≠ 0 := by
      intro none
      have level := sub_ne_zero_of_straddles_double straddled
      rw [beq_iff.mpr ⟨ne_nan_of_isFinite hsub, by decide, none.trans value_zero.symm⟩] at level
      cases level
    have near : |value p.lat - value z| ≤ |value y - value z| := by
      rcases (straddles_iff_value hlat hy hz).mp straddled with ⟨south, north⟩ | ⟨south, north⟩
      · rw [abs_of_nonpos (by linarith), abs_of_nonpos (by linarith)]
        linarith
      · rw [abs_of_nonneg (by linarith), abs_of_nonneg (by linarith)]
        linarith
    have offset := ((isZero_sub_self hx).mul
      (isFinite_sub_of_abs_le hlat hz hy hz hsub near)).div hsub apart
    obtain ⟨number, same⟩ := offset.value_add hx
    have meets : p.lon < meeting p (⟨y, x⟩, ⟨z, x⟩) ↔ p.lon < x := by
      rw [meeting, lt_iff, lt_iff, same, and_iff_right number,
        and_iff_right (ne_nan_of_isFinite hx)]
    rw [decide_eq_decide.mpr meets]

end Sides

namespace Box

/-- The corners of a box, from the southwest eastward. -/
def corners {α : Type} (b : Box α) : List (Point α) :=
  [⟨b.bottom, b.left⟩, ⟨b.bottom, b.right⟩, ⟨b.top, b.right⟩, ⟨b.top, b.left⟩]

/-- Finite sides in their order, not too far apart for the distance to be finite. -/
structure IsProper (b : Box Float) : Prop where
  top : isFinite b.top = true
  right : isFinite b.right = true
  bottom : isFinite b.bottom = true
  left : isFinite b.left = true
  height : isFinite (b.top - b.bottom) = true
  bottom_lt_top : b.bottom < b.top
  left_lt_right : b.left < b.right

variable {b : Box Float} {p : Point Float}

theorem IsProper.drop (h : b.IsProper) : isFinite (b.bottom - b.top) = true :=
  isFinite_sub_of_abs_le h.bottom h.top h.top h.bottom h.height (abs_sub_comm _ _).le

def levels (b : Box Float) (p : Point Float) : Bool :=
  b.bottom ≤ p.lat && p.lat < b.top

theorem levels_iff : b.levels p = true ↔ b.bottom ≤ p.lat ∧ p.lat < b.top := by
  rw [levels, Bool.and_eq_true, decide_eq_true_iff, decide_eq_true_iff]

theorem IsProper.straddles_eq (h : b.IsProper) (hlat : isFinite p.lat = true) (x : Float) :
    straddles p (⟨b.top, x⟩, ⟨b.bottom, x⟩) = b.levels p := by
  obtain ⟨-, -, order⟩ := lt_iff.mp h.bottom_lt_top
  have number := ne_nan_of_isFinite hlat
  rw [Bool.eq_iff_iff, straddles_iff_value hlat h.top h.bottom, levels_iff, le_iff, lt_iff,
    and_iff_right number, and_iff_right number, and_iff_right (ne_nan_of_isFinite h.bottom),
    and_iff_right (ne_nan_of_isFinite h.top)]
  refine or_iff_right_of_imp fun ⟨above, below⟩ => ?_
  linarith

theorem IsProper.crosses_upright (h : b.IsProper) (hlat : isFinite p.lat = true) {x : Float}
    (hx : isFinite x = true) :
    crosses p (⟨b.top, x⟩, ⟨b.bottom, x⟩) = (b.levels p && decide (p.lon < x)) ∧
      crosses p (⟨b.bottom, x⟩, ⟨b.top, x⟩) = (b.levels p && decide (p.lon < x)) := by
  have upward := straddles_swap p (⟨b.top, x⟩, ⟨b.bottom, x⟩)
  rw [Prod.swap_prod_mk] at upward
  rw [Geo.crosses_upright hx hlat h.top h.bottom h.height,
    Geo.crosses_upright hx hlat h.bottom h.top h.drop, upward, h.straddles_eq hlat]
  exact ⟨rfl, rfl⟩

/-- A ray crosses the left and the right side of a box where they lie east of the point. -/
theorem IsProper.countP_corners (h : b.IsProper) (hlat : isFinite p.lat = true) :
    ∀ ring ∈ [b.corners, b.corners.reverse], (edges ring).countP (crosses p) =
      (b.levels p && decide (p.lon < b.left)).toNat +
        (b.levels p && decide (p.lon < b.right)).toNat := by
  obtain ⟨downLeft, upLeft⟩ := h.crosses_upright hlat h.left
  obtain ⟨downRight, upRight⟩ := h.crosses_upright hlat h.right
  intro ring listed
  generalize (b.levels p && decide (p.lon < b.left)) = left at *
  generalize (b.levels p && decide (p.lon < b.right)) = right at *
  rcases List.mem_pair.mp listed with rfl | rfl
  · have around : edges b.corners = [(⟨b.top, b.left⟩, ⟨b.bottom, b.left⟩),
        (⟨b.bottom, b.left⟩, ⟨b.bottom, b.right⟩), (⟨b.bottom, b.right⟩, ⟨b.top, b.right⟩),
        (⟨b.top, b.right⟩, ⟨b.top, b.left⟩)] := rfl
    rw [around]
    simp only [List.countP_cons, List.countP_nil, downLeft, upRight, crosses_level]
    cases left <;> cases right <;> rfl
  · have around : edges b.corners.reverse = [(⟨b.bottom, b.left⟩, ⟨b.top, b.left⟩),
        (⟨b.top, b.left⟩, ⟨b.top, b.right⟩), (⟨b.top, b.right⟩, ⟨b.bottom, b.right⟩),
        (⟨b.bottom, b.right⟩, ⟨b.bottom, b.left⟩)] := rfl
    rw [around]
    simp only [List.countP_cons, List.countP_nil, upLeft, downRight, crosses_level]
    cases left <;> cases right <;> rfl

/-- The corners of a box, in either orientation and from any of them on. -/
def IsCorners (b : Box Float) (ring : List (Point Float)) : Prop :=
  b.corners ~r ring ∨ b.corners.reverse ~r ring

theorem IsProper.encloses_iff (h : b.IsProper) (hlat : isFinite p.lat = true)
    (hlon : isFinite p.lon = true) {ring : List (Point Float)} (corners : b.IsCorners ring) :
    encloses ring p = true ↔
      (b.bottom ≤ p.lat ∧ p.lat < b.top) ∧ b.left ≤ p.lon ∧ p.lon < b.right := by
  obtain ⟨base, listed, n, rfl⟩ : ∃ base ∈ [b.corners, b.corners.reverse],
      ∃ n, base.rotate n = ring := by
    rcases corners with ⟨n, turned⟩ | ⟨n, turned⟩
    · exact ⟨_, List.mem_cons_self, n, turned⟩
    · exact ⟨_, List.mem_cons_of_mem _ List.mem_cons_self, n, turned⟩
  have four : 3 ≤ base.length := by
    rcases List.mem_pair.mp listed with rfl | rfl <;> exact Nat.le_succ 3
  have number := ne_nan_of_isFinite hlon
  have west : b.left ≤ p.lon ↔ ¬ p.lon < b.left := by
    rw [lt_iff_not_le number (ne_nan_of_isFinite h.left), not_not]
  have order : p.lon < b.left → p.lon < b.right := by
    rw [lt_iff, lt_iff]
    rintro ⟨-, -, less⟩
    exact ⟨number, ne_nan_of_isFinite h.right, less.trans (lt_iff.mp h.left_lt_right).2.2⟩
  rw [encloses_rotate four, encloses_eq four, h.countP_corners hlat base listed,
    decide_eq_true_iff, ← levels_iff, west]
  by_cases left : p.lon < b.left
  · simp only [left, order left, not_true, false_and, and_false, iff_false]
    cases b.levels p <;> decide
  · by_cases right : p.lon < b.right <;> cases b.levels p <;> simp [left, right]

/-- On the top or on the right edge of a box. -/
def IsOnFarEdge (b : Box Float) (p : Point Float) : Prop :=
  (p.lat == b.top) = true ∧ b.left ≤ p.lon ∧ p.lon ≤ b.right ∨
    (p.lon == b.right) = true ∧ b.bottom ≤ p.lat ∧ p.lat ≤ b.top

theorem IsProper.contains_iff (h : b.IsProper) (hlat : isFinite p.lat = true) :
    b.contains p = true ↔
      (b.bottom ≤ p.lat ∧ p.lat ≤ b.top) ∧ b.left ≤ p.lon ∧ p.lon ≤ b.right := by
  have number := ne_nan_of_isFinite hlat
  obtain ⟨numberLeft, numberRight, order⟩ := lt_iff.mp h.left_lt_right
  have outside : ¬ (p.lat < b.bottom ∨ b.top < p.lat) ↔ b.bottom ≤ p.lat ∧ p.lat ≤ b.top := by
    rw [not_or, lt_iff_not_le number (ne_nan_of_isFinite h.bottom),
      lt_iff_not_le (ne_nan_of_isFinite h.top) number, not_not, not_not]
  have sides : b.left ≤ b.right := le_iff.mpr ⟨numberLeft, numberRight, order.le⟩
  rw [contains, if_pos sides, ← outside]
  split
  next beyond => simp [beyond]
  next within =>
    rw [and_iff_right within, Bool.and_eq_true, decide_eq_true_iff, decide_eq_true_iff]

/-- The top and the right edge belong to the box, but do not lie short of these two sides. -/
theorem IsProper.within_of_isOnFarEdge (h : b.IsProper) (edge : b.IsOnFarEdge p) :
    ((b.bottom ≤ p.lat ∧ p.lat ≤ b.top) ∧ b.left ≤ p.lon ∧ p.lon ≤ b.right) ∧
      ¬ (p.lat < b.top ∧ p.lon < b.right) := by
  rcases edge with ⟨level, west, east⟩ | ⟨level, south, north⟩
  · obtain ⟨within, notShort⟩ := bounds_of_beq h.bottom_lt_top level
    exact ⟨⟨within, west, east⟩, fun short => notShort short.1⟩
  · obtain ⟨within, notShort⟩ := bounds_of_beq h.left_lt_right level
    exact ⟨⟨⟨south, north⟩, within⟩, fun short => notShort short.2⟩

end Box

/-- A ring of the corners of a box encloses the points of the box that are neither on its top nor on
its right edge, whichever corner it starts from and in whichever direction it runs. So it tells the
same as the box everywhere else, and on these two edges only the box contains the points. -/
theorem encloses_corners_iff {b : Box Float} {p : Point Float} (proper : b.IsProper)
    (hlat : isFinite p.lat = true) (hlon : isFinite p.lon = true) {ring : List (Point Float)}
    (corners : b.IsCorners ring) :
    (encloses ring p = true ↔
      (b.bottom ≤ p.lat ∧ p.lat < b.top) ∧ b.left ≤ p.lon ∧ p.lon < b.right) ∧
    (b.IsOnFarEdge p → b.contains p = true ∧ encloses ring p = false) ∧
    (¬ b.IsOnFarEdge p → encloses ring p = b.contains p) := by
  have ring_iff := proper.encloses_iff hlat hlon corners
  have box_iff := proper.contains_iff hlat
  refine ⟨ring_iff, fun edge => ?_, fun off => ?_⟩
  · have within := proper.within_of_isOnFarEdge edge
    refine ⟨box_iff.mpr within.1, Bool.eq_false_iff.mpr fun enclosed => ?_⟩
    obtain ⟨⟨-, north⟩, -, east⟩ := ring_iff.mp enclosed
    exact within.2 ⟨north, east⟩
  · rw [Bool.eq_iff_iff, ring_iff, box_iff]
    constructor
    · rintro ⟨⟨south, north⟩, west, east⟩
      exact ⟨⟨south, le_iff_lt_or_beq.mpr (.inl north)⟩, west, le_iff_lt_or_beq.mpr (.inl east)⟩
    · rintro ⟨⟨south, north⟩, west, east⟩
      refine ⟨⟨south, ?_⟩, west, ?_⟩
      · exact (le_iff_lt_or_beq.mp north).resolve_right fun level => off (.inl ⟨level, west, east⟩)
      · exact (le_iff_lt_or_beq.mp east).resolve_right fun level => off (.inr ⟨level, south, north⟩)

/-- Clockwise from the third corner on, at a point on the top edge and at one within. -/
theorem encloses_corners_iff_square :
    let b : Box Float := ⟨10, 10, 0, 0⟩
    let ring := b.corners.reverse.rotate 2
    b.IsProper ∧ b.IsCorners ring ∧ b.IsOnFarEdge ⟨10, 5⟩ ∧ ¬ b.IsOnFarEdge ⟨5, 0⟩ ∧
      (b.contains ⟨10, 5⟩ = true ∧ encloses ring ⟨10, 5⟩ = false) ∧
      encloses ring ⟨5, 0⟩ = b.contains ⟨5, 0⟩ ∧ encloses ring ⟨5, 0⟩ = true := by
  intro b ring
  have proper : b.IsProper := by constructor <;> decide +kernel
  have corners : b.IsCorners ring := .inr ⟨2, rfl⟩
  have edge : b.IsOnFarEdge ⟨10, 5⟩ := .inl (by decide +kernel)
  have off : ¬ b.IsOnFarEdge ⟨5, 0⟩ := not_or.mpr (by decide +kernel)
  have onTop := encloses_corners_iff (p := ⟨10, 5⟩) proper (by decide +kernel) (by decide +kernel)
    corners
  have within := encloses_corners_iff (p := ⟨5, 0⟩) proper (by decide +kernel) (by decide +kernel)
    corners
  exact ⟨proper, corners, edge, off, onTop.2.1 edge, within.2.2 off,
    within.1.mpr (by decide +kernel)⟩

end Audience.Geo
