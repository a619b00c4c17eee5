import Mathlib
import Audience.Evaluation
import Audience.Proofs.Geo.Partition
import Audience.Proofs.Reading.Keywords
import Audience.Proofs.Reading.Literals

/-! # Cells of prefixes

Every bit keeps a part of the cell so far, so what lies in a cell, its edges included, lies in the
cells of all prefixes of the text that names it. The center of a cell lies in the cell, though it is
rounded. So a record that keeps a geohash is inside of every box that a prefix of it names.
-/

namespace Audience.Geo

section Lawful

variable {α : Type} [Bisectable α] [LawfulBisectable α]

/-- A range spans its two bounds and the numbers between them. -/
def Range.Spans (r : Range α) (x : α) : Prop :=
  r.low ≤ x ∧ x ≤ r.high

theorem Range.IsOrdered.spans_of_half {r : Range α} {x : α} (h : r.IsOrdered) {upper : Bool}
    (inside : (r.half upper).Spans x) : r.Spans x := by
  obtain ⟨above, below⟩ := LawfulBisectable.middle_bounds h
  cases upper with
  | true => exact ⟨LawfulBisectable.le_trans above inside.1, inside.2⟩
  | false => exact ⟨inside.1, LawfulBisectable.le_trans inside.2 below⟩

namespace Cell

/-- A cell spans its edges and what lies between them. -/
def Spans (c : Cell α) (p : Point α) : Prop :=
  c.lat.Spans p.lat ∧ c.lon.Spans p.lon

variable {c : Cell α} {p : Point α} {cutLon : Bool}

theorem IsOrdered.spans_center (h : c.IsOrdered) : c.Spans c.center :=
  ⟨LawfulBisectable.middle_bounds h.lat, LawfulBisectable.middle_bounds h.lon⟩

theorem IsOrdered.spans_of_half (h : c.IsOrdered) {upper : Bool}
    (inside : (c.half cutLon upper).Spans p) : c.Spans p := by
  cases cutLon with
  | true => exact ⟨inside.1, h.lon.spans_of_half inside.2⟩
  | false => exact ⟨h.lat.spans_of_half inside.1, inside.2⟩

theorem IsOrdered.spans_of_follow (h : c.IsOrdered) {bits : List Bool}
    (inside : (c.follow cutLon bits).Spans p) : c.Spans p := by
  induction bits generalizing c cutLon with
  | nil => exact inside
  | cons upper rest ih => exact h.spans_of_half (ih (h.half cutLon upper) inside)

theorem IsOrdered.spans_of_follow_append (h : c.IsOrdered) {bits more : List Bool}
    (inside : (c.follow cutLon (bits ++ more)).Spans p) : (c.follow cutLon bits).Spans p := by
  induction bits generalizing c cutLon with
  | nil => exact h.spans_of_follow inside
  | cons upper rest ih => exact ih (h.half cutLon upper) inside

end Cell

end Lawful

section Texts

variable {s t : List Char} {bits : List Bool}

/-- Where all characters are of the alphabet, no lower case depends on the characters around it. -/
theorem isPrefix_lowercaseAfter {before : List Char}
    (letters : ∀ x ∈ Text.lowercaseAfter before (s ++ t), x ∈ alphabet) (before' : List Char) :
    Text.lowercaseAfter before' s <+: Text.lowercaseAfter before (s ++ t) := by
  induction s generalizing before before' with
  | nil => exact List.nil_prefix
  | cons c s ih =>
    simp only [List.cons_append, Text.lowercaseAfter] at letters ⊢
    rw [List.forall_mem_append] at letters
    by_cases sigma : c = '\u03a3'
    · -- Neither form of the small letter is of the alphabet.
      have small := letters.1
      rw [if_pos sigma] at small
      split at small <;> exact absurd (small _ (List.mem_singleton_self _)) (by decide)
    · rw [if_neg sigma, if_neg sigma, List.prefix_append_right_inj]
      exact ih letters.2 (c :: before')

theorem Spells.of_prefix (h : Spells (Text.lowercase t) bits) (initial : s <+: t) :
    ∃ first more, bits = first ++ more ∧ Spells (Text.lowercase s) first := by
  obtain ⟨rest, rfl⟩ := initial
  have lowered := List.prefix_iff_eq_take.mp (isPrefix_lowercaseAfter h.mem_alphabet [])
  refine ⟨_, _, (List.take_append_drop (5 * (Text.lowercase s).length) bits).symm, ?_⟩
  have first := h.take (Text.lowercase s).length
  rwa [Text.lowercase, Text.lowercase, ← lowered] at first

end Texts

section Boxes

theorem Cell.Spans.box_contains {c : Cell Float} {p : Point Float} (h : c.Spans p) :
    c.box.contains p = true := by
  obtain ⟨⟨south, north⟩, west, east⟩ := h
  have lat : ¬ (p.lat < c.box.bottom ∨ c.box.top < p.lat) := by
    rintro (below | above)
    · exact absurd (Binary64.le_iff.mp south).2.2 (Binary64.lt_iff.mp below).2.2.not_ge
    · exact absurd (Binary64.le_iff.mp north).2.2 (Binary64.lt_iff.mp above).2.2.not_ge
  have ordered : c.box.left ≤ c.box.right := Binary64.le_trans_double west east
  rw [Box.contains, if_neg lat, if_pos ordered, Bool.and_eq_true, decide_eq_true_iff,
    decide_eq_true_iff]
  exact ⟨west, east⟩

end Boxes

open Grammar

theorem readMember_inside_box {kc kl : Bool} {c : Context} {text : String} {g : Geohash Float}
    (field : c.source.isRoot = false) (read : Geohash.parse text = .ok g) :
    (builtin kc kl).readMember c "inside" (.object [("geobox", .string text)]) =
      .ok (.inside c (.box g.cell.box)) := by
  have literal : (builtin kc kl).readLiteral c (.object [("geobox", .string text)]) =
      .ok (.area (.box g.cell.box)) := by
    refine (readLiteral_word c (.string text) .box).trans ?_
    rw [LiteralWord.read, readBox, geohash, read]
    rfl
  refine (readMember_name c _ .inside).trans ?_
  rw [Keyword.read, readAgainst, requireField, field, literal]
  rfl

/-- A stored geohash lies in the box of each of its prefixes, in whatever letter case: the box
contains the center of its cell, and a field that holds the geohash is inside of the box. -/
theorem box_contains_center_of_prefix {h g : String} {whole : Geohash Float}
    (read : Geohash.parse h = .ok whole)
    (initial : ∃ s, s <+: h.toList ∧ Text.lowercase g.toList = Text.lowercase s) :
    ∃ part : Geohash Float, Geohash.parse g = .ok part ∧
      part.cell.box.contains whole.cell.center = true ∧
      ∀ (kc kl : Bool) (c : Context) (parent : Source) (path : Path),
        c.source = .field parent path → c.source.fullPath.isCustomDate = false →
        ∃ a : Criterion,
          (builtin kc kl).readMember c "inside" (.object [("geobox", .string g)]) = .ok a ∧
          ∀ (p : Profile) (now : Int64) (record : Json),
            .string h ∈ Json.values (record.at? c.source.fullPath) →
            a.holds p now record = true := by
  obtain ⟨bits, spells, rfl⟩ := parse_iff.mp read
  obtain ⟨s, front, lowered⟩ := initial
  obtain ⟨first, more, rfl, spells'⟩ := spells.of_prefix front
  have part : Geohash.parse g =
      .ok (⟨_, Cell.globe.follow true first⟩ : Geohash Float) :=
    parse_iff.mpr ⟨first, lowered ▸ spells', rfl⟩
  have globe : (Cell.globe : Cell Float).IsOrdered := LawfulBisectable.isOrdered_globe
  have inside := (globe.spans_of_follow_append
    (globe.follow true (first ++ more)).spans_center).box_contains
  refine ⟨_, part, inside, ?criterion⟩
  case criterion =>
    intro kc kl c parent path field plain
    refine ⟨_, readMember_inside_box (by rw [field]; rfl) part, fun p now record held => ?_⟩
    have point : Point.ofJson? (.string h) =
        some ((Cell.globe : Cell Float).follow true (first ++ more)).center := by
      rw [Point.ofJson?, read]
    have held : .string h ∈ p.valuesOf now record c.source := by
      rw [field] at held plain ⊢
      rwa [Profile.valuesOf, Json.valuesAt, plain, if_neg Bool.false_ne_true]
    rw [Criterion.holds, List.any_eq_true]
    exact ⟨_, List.mem_filterMap.mpr ⟨_, held, point⟩, inside⟩

def inParis : Profile where
  installation := .object [("place", .string "u09tvw")]

theorem box_contains_center_of_prefix_u09 :
    let place := (Context.root .installation).child (.field (.root .installation) ["place"])
    ∃ whole part : Geohash Float, Geohash.parse "u09tvw" = .ok whole ∧
      Geohash.parse "U09" = .ok part ∧ part.cell.box.contains whole.cell.center = true ∧
      ∃ a : Criterion,
        strict.readMember place "inside" (.object [("geobox", .string "U09")]) = .ok a ∧
        a.holds inParis 0 inParis.installation = true := by
  intro place
  have read : Geohash.parse "u09tvw" =
      .ok (Geohash.encode (⟨48.8566, 2.3522⟩ : Point Float) 6) := by
    decide +kernel
  obtain ⟨part, read', inside, criteria⟩ := box_contains_center_of_prefix (g := "U09") read
    ⟨"u09".toList, by decide, by decide +kernel⟩
  obtain ⟨a, criterion, holds⟩ := criteria false false place _ _ rfl (by decide)
  have held : Json.values (inParis.installation.at? place.source.fullPath) =
      [.string "u09tvw"] := by cbv
  exact ⟨_, part, read, read', inside, a, criterion,
    holds inParis 0 _ (held ▸ List.mem_singleton_self _)⟩

end Audience.Geo
