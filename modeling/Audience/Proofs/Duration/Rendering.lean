import Mathlib
import Audience.Proofs.Decimal.Layout
import Audience.Proofs.Duration.Reading

/-! # Rendering durations

A duration that was read is written with all of its parts, and reads back as itself unless a part is
infinite. An infinite part is written as a word, which no spelling of a duration has in it.
-/

namespace Audience.Duration

open Decimal

section Parts

variable {n : Option NumberText} {x y : Float}

theorem IsRead.nonneg (h : IsRead n x) : Binary64.IsNonneg x := by
  rcases n with _ | n
  · obtain rfl : x = 0 := h
    exact Binary64.isNonneg_zero
  · exact Binary64.IsNearest.nonneg h

theorem IsRead.unique (hx : IsRead n x) (hy : IsRead n y) : x = y := by
  rcases n with _ | n
  · exact Eq.trans hx (Eq.symm hy)
  · exact Binary64.IsNearest.unique hx hy

theorem notMem_marked {mark : Char} (h : mark ≠ 'i') (n : Option NumberText) :
    'i' ∉ marked mark n := by
  have digits (ds : List (Fin 10)) : 'i' ∉ digitChars ds := fun mem =>
    absurd (isDigit_of_mem_digitChars mem) (by decide)
  rcases n with _ | ⟨first, others, fraction⟩
  · simp [marked]
  · rcases fraction with _ | ⟨_ | _, decimals⟩ <;>
      simp [marked, NumberText.chars, Mark.char, digits, h.symm]

theorem eq_of_toList {α : Type} {p q : Parts α} (h : p.toList = q.toList) : p = q := by
  rcases p with ⟨⟩
  rcases q with ⟨⟩
  simpa [Parts.toList] using h

end Parts

namespace Spelling

variable {x : Spelling} {d e : Duration Float}

theorem Denotes.nonneg (h : x.Denotes d) : ∀ y ∈ d.parts.toList, Binary64.IsNonneg y := by
  have parts := h.parts
  generalize x.parts.toList = ns, d.parts.toList = ys at parts
  induction parts with
  | nil => simp
  | cons read _ ih => exact List.forall_mem_cons.mpr ⟨read.nonneg, ih⟩

theorem Denotes.unique (hd : x.Denotes d) (he : x.Denotes e) : d = e := by
  obtain ⟨positive, parts⟩ := d
  obtain ⟨positive', parts'⟩ := e
  have unique : Relator.RightUnique IsRead := fun _ _ _ => IsRead.unique
  obtain rfl : parts = parts' :=
    eq_of_toList (List.right_unique_forall₂' unique hd.parts he.parts)
  have signs : positive = false ↔ positive' = false := hd.sign.trans he.sign.symm
  have same : positive = positive' := by
    cases positive <;> cases positive' <;> simp_all
  rw [same]

theorem notMem_chars (x : Spelling) : 'i' ∉ x.chars := by
  obtain ⟨sign, date, time⟩ := x
  have signed : 'i' ∉ sign.elim [] (fun sign => [sign.char]) := by
    rcases sign with _ | _ | _ <;> decide
  have timed : 'i' ∉ time.elim [] TimeText.chars := by
    rcases time with _ | _
    · simp
    · simp [TimeText.chars, notMem_marked]
  simp [chars, DateText.chars, notMem_marked, signed, timed]

/-- A duration with finite parts is spelled by its text. -/
theorem exists_of_isFinite (nonneg : ∀ y ∈ d.parts.toList, Binary64.IsNonneg y)
    (finite : ∀ y ∈ d.parts.toList, Binary64.isFinite y = true) :
    ∃ x : Spelling, x.text = d.text ∧ x.Denotes d := by
  have inhabited : Nonempty NumberText := ⟨⟨0, [], none⟩⟩
  have written (y : Float) (h : y ∈ d.parts.toList) :=
    exists_text_of_isFinite (nonneg y h) (finite y h)
  choose! number chars nearest using written
  obtain ⟨positive, ⟨years, months, weeks, days, hours, minutes, seconds⟩⟩ := d
  simp only [Parts.toList, List.forall_mem_cons] at chars nearest
  refine ⟨{ sign := some (if positive then .plus else .minus)
            date := ⟨number years, number months, number weeks, number days⟩
            time := some ⟨number hours, number minutes, number seconds⟩ }, ?_, ?_, ?_⟩
  · rw [text_eq_iff]
    simp only [Spelling.chars, DateText.chars, TimeText.chars, spelled_cons, spelled_nil, marked,
      Option.elim_some, chars, Duration.text, String.toList_append]
    cases positive <;> simp [Sign.char]
  · cases positive <;> simp
  · simpa [parts, Parts.toList, IsRead] using nearest

end Spelling

theorem mem_text (d : Duration Float) {x : Float} (part : x ∈ d.parts.toList) {c : Char}
    (h : c ∈ (Layout.plain.text x).toList) : c ∈ d.text.toList := by
  simp only [Parts.toList, List.mem_cons, List.not_mem_nil, or_false] at part
  simp only [text, String.toList_append, List.mem_append]
  rcases part with rfl | rfl | rfl | rfl | rfl | rfl | rfl <;> simp [h]

theorem exists_denotes {text : String} {d : Duration Float}
    (h : Grammar.writtenDuration text = .ok d) : ∃ x : Spelling, x.Denotes d := by
  by_contra! none
  have unspelled (x : Spelling) (same : x.text = text) : False := by
    rw [← same, x.writtenDuration_text] at h
    cases h
    exact none x x.denotes_duration
  rw [Spelling.writtenDuration_of_unspelled unspelled] at h
  cases h

theorem writtenDuration_infinite {d : Duration Float} {x : Float} (part : x ∈ d.parts.toList)
    (nonneg : Binary64.IsNonneg x) (infinite : Binary64.isFinite x ≠ true) :
    Grammar.writtenDuration d.text = .error (.badInput (.writtenDuration d.text)) := by
  refine Spelling.writtenDuration_of_unspelled fun y same => ?_
  rw [Spelling.text_eq_iff] at same
  refine y.notMem_chars (same ▸ mem_text d part ?_)
  rw [text_of_not_isFinite nonneg infinite]
  decide

/-- A duration that was read is written as itself. The exception is an infinite part, with which no
duration is read. -/
theorem writtenDuration_rendered {text : String} {d : Duration Float}
    (h : Grammar.writtenDuration text = .ok d) :
    ((∃ e, Grammar.writtenDuration d.text = .ok e) ↔
        ∀ x ∈ d.parts.toList, Binary64.isFinite x = true) ∧
      (∀ e, Grammar.writtenDuration d.text = .ok e → e = d) ∧
      ((∃ x ∈ d.parts.toList, Binary64.isFinite x = false) →
        Grammar.writtenDuration d.text = .error (.badInput (.writtenDuration d.text))) := by
  obtain ⟨x, denotes⟩ := exists_denotes h
  by_cases finite : ∀ y ∈ d.parts.toList, Binary64.isFinite y = true
  · obtain ⟨y, same, denotes⟩ := Spelling.exists_of_isFinite denotes.nonneg finite
    have read : Grammar.writtenDuration d.text = .ok d := by
      rw [← same, y.writtenDuration_text, y.denotes_duration.unique denotes]
    refine ⟨⟨fun _ => finite, fun _ => ⟨d, read⟩⟩, ?_, ?_⟩
    · intro e read'
      rw [read] at read'
      cases read'
      rfl
    · rintro ⟨y, part, infinite⟩
      rw [finite y part] at infinite
      cases infinite
  · have infinite := finite
    push Not at infinite
    obtain ⟨y, part, infinite⟩ := infinite
    have refused := writtenDuration_infinite part (denotes.nonneg y part) infinite
    refine ⟨⟨?_, fun all => absurd all finite⟩, ?_, fun _ => refused⟩
    · rintro ⟨e, read⟩
      rw [refused] at read
      cases read
    · intro e read
      rw [refused] at read
      cases read

theorem writtenDuration_rendered_endless :
    (Grammar.writtenDuration "-P0,5YT3M" = .ok ⟨false, ⟨0.5, 0, 0, 0, 0, 3, 0⟩⟩ ∧
      text ⟨false, ⟨0.5, 0, 0, 0, 0, 3, 0⟩⟩ = "-P0.5Y0M0W0DT0H3M0S" ∧
      Grammar.writtenDuration "-P0.5Y0M0W0DT0H3M0S" = .ok ⟨false, ⟨0.5, 0, 0, 0, 0, 3, 0⟩⟩) ∧
    Grammar.writtenDuration endless.text = .ok endless.duration ∧
      endless.duration.text = "+PinfY0M0W0DT0H0M0S" ∧
      Grammar.writtenDuration "+PinfY0M0W0DT0H0M0S" =
        .error (.badInput (.writtenDuration "+PinfY0M0W0DT0H0M0S")) := by
  constructor
  · have read := halfYearBack.writtenDuration_text
    rw [text_halfYearBack, duration_halfYearBack] at read
    have half : Layout.plain.text 0.5 = "0.5" := by decide +kernel
    have three : Layout.plain.text 3 = "3" := by decide +kernel
    have zero : Layout.plain.text 0 = "0" := by decide +kernel
    have shown : text ⟨false, ⟨0.5, 0, 0, 0, 0, 3, 0⟩⟩ = "-P0.5Y0M0W0DT0H3M0S" := by
      simp only [text, half, three, zero]
      decide
    have finite : ∀ x ∈ (⟨0.5, 0, 0, 0, 0, 3, 0⟩ : Parts Float).toList,
        Binary64.isFinite x = true := by decide +kernel
    obtain ⟨accepted, same, -⟩ := writtenDuration_rendered read
    rw [shown] at accepted same
    obtain ⟨e, again⟩ := accepted.mpr finite
    exact ⟨read, shown, same e again ▸ again⟩
  · have read := endless.writtenDuration_text
    have shown : endless.duration.text = "+PinfY0M0W0DT0H0M0S" := by decide +kernel
    have infinite : Binary64.isFinite endless.duration.parts.years = false := by decide +kernel
    have refused := (writtenDuration_rendered read).2.2 ⟨_, List.mem_cons_self, infinite⟩
    rw [shown] at refused
    exact ⟨read, shown, refused⟩

end Audience.Duration
