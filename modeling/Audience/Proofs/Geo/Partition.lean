import Mathlib
import Audience.Proofs.Binary64.Midpoint
import Audience.Proofs.Geo.Names

/-! # Cells of one length

The texts of one length name cells that share out the globe, each point lying in the cell of the
text that it is encoded as and in no other. Doubles share it out as exact numbers do, for the
rounded middle of two bounds never leaves the range between them.
-/

namespace Audience.Geo

section Lawful

variable {α : Type} [Bisectable α] [DecidableLE α] {p : Point α}

theorem take_encode (p : Point α) {m n : Nat} (h : m ≤ n) :
    (Geohash.encode p m).text.toList = (Geohash.encode p n).text.toList.take m := by
  obtain ⟨s, spells, -, encoded⟩ := exists_encode p n
  have shorter := spells.take m
  rw [Cell.take_towards (Nat.mul_le_mul_left 5 h)] at shorter
  rw [encoded, Geohash.encode, shorter.textOfBits_eq, String.toList_ofList, String.toList_ofList]

variable [LawfulBisectable α]

/-- A point of the globe lies in the one cell that is named by the text it is encoded as. -/
theorem exists_parse_holds_iff {text : String} {n : Nat} (inside : Cell.globe.Holds p) :
    (text.length = n ∧ (∀ c ∈ text.toList, c ∈ alphabet) ∧
      ∃ g, Geohash.parse text = .ok g ∧ g.cell.Holds p) ↔ text = (Geohash.encode p n).text := by
  constructor
  · rintro ⟨rfl, letters, g, read, holds⟩
    obtain ⟨bits, spells⟩ := exists_spelled letters
    have named := spells.parse_eq (α := α)
    rw [String.ofList_toList, read] at named
    obtain rfl := Except.ok.inj named
    have way := (LawfulBisectable.isOrdered_globe.follow_holds_iff true bits).mp holds
    have encoded := spells.encode_eq way.2
    rw [String.length_toList, String.ofList_toList] at encoded
    rw [encoded]
  · rintro rfl
    obtain ⟨s, spells, length, encoded⟩ := exists_encode p n
    rw [encoded]
    refine ⟨by rw [String.length_ofList, length], by simpa using spells.mem_alphabet, _,
      spells.parse_eq, ?_⟩
    rw [LawfulBisectable.isOrdered_globe.follow_holds_iff, Cell.length_towards]
    exact ⟨inside, rfl⟩

end Lawful

section Doubles

open Binary64

theorem value_ofInt_bounds : value (Float.ofInt (-180)) = -180 ∧ value (Float.ofInt 180) = 180 := by
  decide +kernel

theorem isFinite_of_mem {x : Float} (west : Float.ofInt (-180) ≤ x) (east : x ≤ Float.ofInt 180) :
    isFinite x = true ∧ |value x| ≤ 2 ^ 63 := by
  obtain ⟨-, number, low⟩ := le_iff.mp west
  obtain ⟨-, -, high⟩ := le_iff.mp east
  rw [value_ofInt_bounds.1] at low
  rw [value_ofInt_bounds.2] at high
  have small : |value x| ≤ 180 := abs_le.mpr ⟨low, high⟩
  exact ⟨isFinite_of_abs_le number (small.trans (by norm_num)), small.trans (by norm_num)⟩

theorem Range.IsOrdered.middle_double {r : Range Float} (h : r.IsOrdered) :
    r.low ≤ r.middle ∧ r.middle ≤ r.high := by
  obtain ⟨finiteLow, smallLow⟩ := isFinite_of_mem h.west (le_trans_double h.low_le_high h.east)
  obtain ⟨finiteHigh, smallHigh⟩ := isFinite_of_mem (le_trans_double h.west h.low_le_high) h.east
  obtain ⟨numberLow, numberHigh, order⟩ := le_iff.mp h.low_le_high
  obtain ⟨number, above, below⟩ := value_midpoint finiteLow finiteHigh smallLow smallHigh order
  exact ⟨le_iff.mpr ⟨numberLow, number, above⟩, le_iff.mpr ⟨number, numberHigh, below⟩⟩

instance : LawfulBisectable Float where
  le_trans := le_trans_double
  isOrdered_globe := ⟨by constructor <;> decide +kernel, by constructor <;> decide +kernel⟩
  middle_bounds := Range.IsOrdered.middle_double

theorem Range.IsOrdered.holds_iff {r : Range Float} (h : r.IsOrdered) {x : Float}
    (number : read x ≠ .nan) : r.Holds x ↔ r.low ≤ x ∧ x < r.high := by
  obtain ⟨-, numberHigh, -⟩ := le_iff.mp h.low_le_high
  rw [Holds, lt_iff_not_le number numberHigh]

/-- The point lies in the cell or on its southern or western edge. -/
def Cell.Covers (c : Cell Float) (p : Point Float) : Prop :=
  (c.lat.low ≤ p.lat ∧ p.lat < c.lat.high) ∧ c.lon.low ≤ p.lon ∧ p.lon < c.lon.high

theorem Cell.IsOrdered.holds_iff {c : Cell Float} (h : c.IsOrdered) {p : Point Float}
    (lat : read p.lat ≠ .nan) (lon : read p.lon ≠ .nan) : c.Holds p ↔ c.Covers p :=
  and_congr (h.lat.holds_iff lat) (h.lon.holds_iff lon)

end Doubles

/-- The texts of one length name cells with every point of the globe in exactly one of them, the one
named by the text that the point is encoded as, and shorter texts for a point begin longer ones. -/
theorem existsUnique_cell_covers (p : Point Float) (n : Nat) (south : -90 ≤ p.lat)
    (north : p.lat < 90) (west : -180 ≤ p.lon) (east : p.lon < 180) :
    (∀ text : String, (text.length = n ∧ (∀ c ∈ text.toList, c ∈ alphabet) ∧
        ∃ g : Geohash Float, Geohash.parse text = .ok g ∧ g.cell.Covers p) ↔
      text = (Geohash.encode p n).text) ∧
    ∀ m ≤ n, (Geohash.encode p m).text.toList = (Geohash.encode p n).text.toList.take m := by
  have globe : (Cell.globe : Cell Float) = ⟨⟨-90, 90⟩, ⟨-180, 180⟩⟩ := by decide +kernel
  have lat := (Binary64.le_iff.mp south).2.1
  have lon := (Binary64.le_iff.mp west).2.1
  have inside : Cell.globe.Holds p := by
    rw [LawfulBisectable.isOrdered_globe.holds_iff lat lon, globe]
    exact ⟨⟨south, north⟩, west, east⟩
  refine ⟨fun text => ?_, fun m h => take_encode p h⟩
  rw [← exists_parse_holds_iff inside]
  refine and_congr_right fun _ => and_congr_right fun _ => exists_congr fun g =>
    and_congr_right fun read => ?_
  obtain ⟨bits, -, rfl⟩ := parse_iff.mp read
  exact ((LawfulBisectable.isOrdered_globe.follow true bits).holds_iff lat lon).symm

theorem existsUnique_cell_covers_u09tv :
    (Geohash.encode (⟨48.8566, 2.3522⟩ : Point Float) 5).text = "u09tv" ∧
      (∀ text : String, (text.length = 5 ∧ (∀ c ∈ text.toList, c ∈ alphabet) ∧
          ∃ g : Geohash Float, Geohash.parse text = .ok g ∧ g.cell.Covers ⟨48.8566, 2.3522⟩) ↔
        text = "u09tv") ∧
      (Geohash.encode (⟨48.8566, 2.3522⟩ : Point Float) 3).text.toList =
        "u09tv".toList.take 3 := by
  have text : (Geohash.encode (⟨48.8566, 2.3522⟩ : Point Float) 5).text = "u09tv" := by
    decide +kernel
  obtain ⟨unique, shorter⟩ := existsUnique_cell_covers ⟨48.8566, 2.3522⟩ 5 (by decide +kernel)
    (by decide +kernel) (by decide +kernel) (by decide +kernel)
  rw [text] at unique shorter
  exact ⟨text, unique, shorter 3 (by decide)⟩

end Audience.Geo
