import Audience.Proofs.Geo.Cells

/-! # Names of cells

A text of the alphabet spells bits, five with each character, and every run of bits that divides
into fives is spelled by one text. Such a text is in lower case already. It names the cell that its
bits lead to, and a point is encoded as the text that spells the way towards it.
-/

namespace Audience.Geo

/-- A text of the alphabet with the bits it stands for. -/
inductive Spells : List Char → List Bool → Prop where
  | nil : Spells [] []
  | cons {n s bits} (value : n < 32) (rest : Spells s bits) :
      Spells (charOfValue n :: s) (bitsOfValue n ++ bits)

section Values

theorem valueOfBits_bitsOfValue : ∀ n < 32, valueOfBits (bitsOfValue n) = n := by
  decide

theorem bitsOfValue_valueOfBits : ∀ a b c d e, valueOfBits [a, b, c, d, e] < 32 ∧
    bitsOfValue (valueOfBits [a, b, c, d, e]) = [a, b, c, d, e] := by
  decide

theorem idxOf?_charOfValue : ∀ n < 32, alphabet.idxOf? (charOfValue n) = some n := by
  decide +kernel

theorem alphabet_eq : alphabet = (List.range 32).map charOfValue := by
  decide

theorem mem_alphabet_iff {c : Char} : c ∈ alphabet ↔ ∃ n < 32, charOfValue n = c := by
  simp only [alphabet_eq, List.mem_map, List.mem_range]

theorem charOfValue_ne_sigma : ∀ n < 32, charOfValue n ≠ '\u03a3' := by
  decide

theorem lowerChar_charOfValue : ∀ n < 32, Text.lowerChar (charOfValue n) = [charOfValue n] := by
  decide

end Values

section Spells

variable {s : List Char} {bits : List Bool}

namespace Spells

theorem length_bits (h : Spells s bits) : bits.length = 5 * s.length := by
  induction h with
  | nil => rfl
  | cons _ _ ih =>
    rw [List.length_append, ih, List.length_cons, Nat.mul_succ, Nat.add_comm]
    rfl

theorem mem_alphabet (h : Spells s bits) : ∀ c ∈ s, c ∈ alphabet := by
  induction h with
  | nil => nofun
  | cons value _ ih => exact List.forall_mem_cons.mpr ⟨mem_alphabet_iff.mpr ⟨_, value, rfl⟩, ih⟩

theorem bitsOfText_eq (h : Spells s bits) : bitsOfText s = .ok bits := by
  induction h with
  | nil => rfl
  | cons value _ ih =>
    rw [bitsOfText, idxOf?_charOfValue _ value, ih]
    rfl

theorem textOfBits_eq (h : Spells s bits) : textOfBits bits = s := by
  induction h with
  | nil => rfl
  | @cons n _ _ value _ ih =>
    have first := valueOfBits_bitsOfValue n value
    rw [bitsOfValue] at first ⊢
    simp only [List.cons_append, List.nil_append, textOfBits, first, ih]

theorem lowercaseAfter_eq (h : Spells s bits) (before : List Char) :
    Text.lowercaseAfter before s = s := by
  induction h generalizing before with
  | nil => rfl
  | cons value _ ih =>
    rw [Text.lowercaseAfter, if_neg (charOfValue_ne_sigma _ value),
      lowerChar_charOfValue _ value, ih]
    rfl

theorem take (h : Spells s bits) (m : Nat) : Spells (s.take m) (bits.take (5 * m)) := by
  induction h generalizing m with
  | nil =>
    rw [List.take_nil, List.take_nil]
    exact .nil
  | @cons n _ _ value _ ih =>
    cases m with
    | zero => exact .nil
    | succ m =>
      have five : (bitsOfValue n).length = 5 := rfl
      rw [List.take_succ_cons, Nat.mul_succ, Nat.add_comm, ← five, List.take_length_add_append,
        five]
      exact .cons value (ih m)

end Spells

theorem exists_spells {k : Nat} (h : bits.length = 5 * k) : ∃ s, Spells s bits := by
  induction k generalizing bits with
  | zero =>
    obtain rfl := List.length_eq_zero_iff.mp h
    exact ⟨[], .nil⟩
  | succ k ih =>
    match bits, h with
    | a :: b :: c :: d :: e :: rest, h =>
      have fewer : rest.length = 5 * k := by simpa [Nat.mul_succ] using h
      obtain ⟨s, spells⟩ := ih fewer
      obtain ⟨value, five⟩ := bitsOfValue_valueOfBits a b c d e
      refine ⟨charOfValue (valueOfBits [a, b, c, d, e]) :: s, ?_⟩
      have whole := Spells.cons value spells
      rwa [five] at whole

theorem eq_charOfValue_of_idxOf? {c : Char} {n : Nat} (h : alphabet.idxOf? c = some n) :
    n < 32 ∧ c = charOfValue n := by
  obtain ⟨bound, found, -⟩ := List.idxOf?_eq_some_iff.mp h
  refine ⟨bound, ?_⟩
  rw [charOfValue, List.getElem?_eq_getElem bound, Option.getD_some, ← found]

/-- Only texts of the alphabet have bits, and only those they spell. -/
theorem bitsOfText_iff : bitsOfText s = .ok bits ↔ Spells s bits := by
  refine ⟨fun h => ?_, Spells.bitsOfText_eq⟩
  induction s generalizing bits with
  | nil =>
    obtain rfl : [] = bits := by simpa [bitsOfText] using h
    exact .nil
  | cons c s ih =>
    rw [bitsOfText] at h
    cases found : alphabet.idxOf? c with
    | none => simp [found] at h
    | some n =>
      obtain ⟨value, rfl⟩ := eq_charOfValue_of_idxOf? found
      cases more : bitsOfText s with
      | error _ => simp [found, more, Functor.map, Except.map] at h
      | ok others =>
        obtain rfl : bitsOfValue n ++ others = bits := by
          simpa [found, more, Functor.map, Except.map] using h
        exact .cons value (ih more)

theorem exists_spelled (h : ∀ c ∈ s, c ∈ alphabet) : ∃ bits, Spells s bits := by
  induction s with
  | nil => exact ⟨[], .nil⟩
  | cons c s ih =>
    obtain ⟨first, others⟩ := List.forall_mem_cons.mp h
    obtain ⟨n, value, rfl⟩ := mem_alphabet_iff.mp first
    obtain ⟨bits, spells⟩ := ih others
    exact ⟨_, .cons value spells⟩

theorem bitsOfText_eq_ok_iff :
    (∃ bits, bitsOfText s = .ok bits) ↔ ∀ c ∈ s, c ∈ alphabet := by
  simp only [bitsOfText_iff]
  exact ⟨fun ⟨_, spells⟩ => spells.mem_alphabet, exists_spelled⟩

end Spells

section Geohashes

variable {α : Type} [Bisectable α] {s : List Char} {bits : List Bool}

theorem Spells.lowercase_eq (h : Spells s bits) : Text.lowercase s = s :=
  h.lowercaseAfter_eq []

/-- A text names a cell if its lower case spells a way there. -/
theorem parse_iff {text : String} {g : Geohash α} :
    Geohash.parse text = .ok g ↔ ∃ bits, Spells (Text.lowercase text.toList) bits ∧
      g = ⟨String.ofList (Text.lowercase text.toList), Cell.globe.follow true bits⟩ := by
  simp only [← bitsOfText_iff, Geohash.parse]
  cases bitsOfText (Text.lowercase text.toList) with
  | error c => simp [Functor.map, Except.map]
  | ok bits => simp [Functor.map, Except.map, eq_comm]

theorem Spells.parse_eq (h : Spells s bits) : Geohash.parse (α := α) (String.ofList s) =
    .ok ⟨String.ofList s, Cell.globe.follow true bits⟩ := by
  have lowered : Text.lowercase (String.ofList s).toList = s := by
    rw [String.toList_ofList, h.lowercase_eq]
  exact parse_iff.mpr ⟨bits, by rwa [lowered], by rw [lowered]⟩

variable [DecidableLE α]

/-- A text whose bits all lead towards a point is the one that the point is encoded as. -/
theorem Spells.encode_eq {p : Point α} (h : Spells s bits)
    (way : bits = Cell.globe.towards true p bits.length) :
    Geohash.encode p s.length = ⟨String.ofList s, Cell.globe.follow true bits⟩ := by
  rw [h.length_bits] at way
  rw [Geohash.encode, ← way, h.textOfBits_eq]

theorem exists_encode (p : Point α) (n : Nat) :
    ∃ s, Spells s (Cell.globe.towards true p (5 * n)) ∧ s.length = n ∧ Geohash.encode p n =
      ⟨String.ofList s, Cell.globe.follow true (Cell.globe.towards true p (5 * n))⟩ := by
  have length : (Cell.globe.towards true p (5 * n)).length = 5 * n := Cell.length_towards _
  obtain ⟨s, spells⟩ := exists_spells length
  obtain rfl : s.length = n := by
    have five := spells.length_bits
    omega
  exact ⟨s, spells, rfl, spells.encode_eq (by rw [length])⟩

end Geohashes

end Audience.Geo
