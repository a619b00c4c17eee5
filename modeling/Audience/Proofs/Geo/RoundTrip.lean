import Mathlib
import Audience.Proofs.Geo.Names

/-! # Reading what was encoded

A geohash has its cell and the text that spells the way to it, so reading the text leads to the
same cell whatever the numbers are. Back from a text to itself it takes midpoints strictly between
the bounds, as those of the rationals are: then the center of a cell lies in the cell, and the bits
of the text are the ones that lead towards it.
-/

namespace Audience.Geo

section Exact

instance : Bisectable ℚ where
  ofInt := (↑)
  midpoint low high := (high + low) / 2

/-- Bounds with numbers between them. -/
def Cell.IsProper (c : Cell ℚ) : Prop :=
  c.lat.low < c.lat.high ∧ c.lon.low < c.lon.high

theorem Range.middle_eq (r : Range ℚ) : r.middle = (r.high + r.low) / 2 :=
  rfl

theorem Range.low_lt_middle {r : Range ℚ} (h : r.low < r.high) : r.low < r.middle := by
  rw [r.middle_eq]
  linarith

theorem Range.middle_lt_high {r : Range ℚ} (h : r.low < r.high) : r.middle < r.high := by
  rw [r.middle_eq]
  linarith

theorem Range.half_low_lt_high {r : Range ℚ} (h : r.low < r.high) (upper : Bool) :
    (r.half upper).low < (r.half upper).high := by
  cases upper with
  | true => exact middle_lt_high h
  | false => exact low_lt_middle h

theorem Cell.isProper_globe : Cell.globe.IsProper := by
  refine ⟨?_, ?_⟩ <;> decide +kernel

theorem Cell.IsProper.follow {c : Cell ℚ} (h : c.IsProper) (cutLon : Bool) (bits : List Bool) :
    (c.follow cutLon bits).IsProper := by
  induction bits generalizing c cutLon with
  | nil => exact h
  | cons upper rest ih =>
    refine ih ?_ (!cutLon)
    cases cutLon with
    | true => exact ⟨h.1, Range.half_low_lt_high h.2 upper⟩
    | false => exact ⟨Range.half_low_lt_high h.1 upper, h.2⟩

theorem Cell.IsProper.holds_center {c : Cell ℚ} (h : c.IsProper) : c.Holds c.center :=
  ⟨⟨(Range.low_lt_middle h.1).le, (Range.middle_lt_high h.1).not_ge⟩,
    (Range.low_lt_middle h.2).le, (Range.middle_lt_high h.2).not_ge⟩

instance : LawfulBisectable ℚ where
  le_trans := le_trans
  isOrdered_globe := ⟨by constructor <;> decide +kernel, by constructor <;> decide +kernel⟩
  middle_bounds {r} h := by
    have order := h.low_le_high
    rw [r.middle_eq]
    constructor <;> linarith

end Exact

/-- A geohash is read back from its text as it is, and in exact arithmetic the center of a cell is
encoded as the text that it was read from. -/
theorem parse_encode_encode_center :
    (∀ (p : Point Float) (n : Nat), (Geohash.encode p n).text.length = n ∧
      (∀ c ∈ (Geohash.encode p n).text.toList, c ∈ alphabet) ∧
      Geohash.parse (Geohash.encode p n).text = .ok (Geohash.encode p n)) ∧
    ∀ (h : String) (g : Geohash Float), Geohash.parse h = .ok g →
      ∃ e : Geohash ℚ, Geohash.parse h = .ok e ∧ e.text = g.text ∧
        e.text = String.ofList (Text.lowercase h.toList) ∧
        Geohash.encode e.cell.center e.text.length = e := by
  constructor
  · intro p n
    obtain ⟨s, spells, length, encoded⟩ := exists_encode p n
    rw [encoded]
    exact ⟨by rw [String.length_ofList, length], by simpa using spells.mem_alphabet,
      spells.parse_eq⟩
  · intro h g read
    obtain ⟨bits, spells, rfl⟩ := parse_iff.mp read
    refine ⟨_, parse_iff.mpr ⟨bits, spells, rfl⟩, rfl, rfl, ?_⟩
    have inside := (Cell.isProper_globe.follow true bits).holds_center
    rw [LawfulBisectable.isOrdered_globe.follow_holds_iff] at inside
    rw [String.length_ofList]
    exact spells.encode_eq inside.2

theorem parse_encode_encode_center_ezs42 :
    Geohash.parse "EZS42" = .ok (Geohash.encode (⟨42.605, -5.603⟩ : Point Float) 5) ∧
      ∃ e : Geohash ℚ, Geohash.parse "EZS42" = .ok e ∧ e.text = "ezs42" ∧
        Geohash.encode e.cell.center 5 = e := by
  have read : Geohash.parse "EZS42" = .ok (Geohash.encode (⟨42.605, -5.603⟩ : Point Float) 5) := by
    decide +kernel
  obtain ⟨e, exactly, -, lowered, again⟩ := parse_encode_encode_center.2 _ _ read
  have text : e.text = "ezs42" := lowered.trans (by decide +kernel)
  rw [text] at again
  exact ⟨read, e, exactly, text, again⟩

end Audience.Geo
