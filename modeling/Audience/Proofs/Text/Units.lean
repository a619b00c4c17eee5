import Mathlib
import Audience.Json.Comparison

/-! # Texts by blocks of characters

The order of texts by UTF-16 units is an order by characters. No character's units begin those of
another, so the first character that differs decides. It decides by its block, as the surrogates
stand between the characters of one unit, and by its code point within the block.
-/

namespace Audience

namespace Text

/-- The blocks of characters in their order: below the surrogates, beyond sixteen bits, and above
the surrogates. -/
def block (c : Char) : Nat :=
  if c.toNat < 0xd800 then 0 else if 0x10000 ≤ c.toNat then 1 else 2

/-- Characters in the order of their blocks, those of one block by code point. -/
def compareChars : Char → Char → Ordering :=
  compareLex (compareOn block) (compareOn Char.toNat)

section Characters

variable {a b : Char}

theorem toNat_bounds (c : Char) : c.toNat < 0xd800 ∨ 0xe000 ≤ c.toNat ∧ c.toNat < 0x110000 :=
  c.valid.imp id fun h => ⟨h.1, h.2⟩

theorem block_of_short (h : a.toNat < 0x10000) : block a = if a.toNat < 0xd800 then 0 else 2 := by
  rw [block, if_neg (Nat.not_le_of_lt h)]

theorem block_of_long (h : 0x10000 ≤ a.toNat) : block a = 1 := by
  rw [block, if_neg (by omega), if_pos h]

theorem compareChars_of_block_lt (h : block a < block b) : compareChars a b = .lt := by
  rw [compareChars, compareLex, compareOn, Nat.compare_eq_lt.mpr h]
  rfl

theorem compareChars_of_block_gt (h : block b < block a) : compareChars a b = .gt := by
  rw [compareChars, compareLex, compareOn, Nat.compare_eq_gt.mpr h]
  rfl

theorem compareChars_of_block_eq (h : block a = block b) :
    compareChars a b = compare a.toNat b.toNat := by
  rw [compareChars, compareLex, compareOn, compareOn, Nat.compare_eq_eq.mpr h]
  rfl

theorem compareChars_short (ha : a.toNat < 0x10000) (hb : b.toNat < 0x10000) :
    compareChars a b = compare a.toNat b.toNat := by
  rcases Nat.lt_trichotomy (block a) (block b) with less | same | more
  · have order : a.toNat < b.toNat := by
      rw [block_of_short ha, block_of_short hb] at less
      split at less <;> split at less <;> omega
    rw [compareChars_of_block_lt less, Nat.compare_eq_lt.mpr order]
  · exact compareChars_of_block_eq same
  · have order : b.toNat < a.toNat := by
      rw [block_of_short ha, block_of_short hb] at more
      split at more <;> split at more <;> omega
    rw [compareChars_of_block_gt more, Nat.compare_eq_gt.mpr order]

/-- The first unit of two counts the steps of 1024 code points, and the second those within. -/
theorem compare_surrogates (m n : Nat) :
    (compare (0xd800 + m / 0x400) (0xd800 + n / 0x400)).then
      (compare (0xdc00 + m % 0x400) (0xdc00 + n % 0x400)) = compare m n := by
  rcases Nat.lt_trichotomy (m / 0x400) (n / 0x400) with less | same | more
  · have order : m < n := by omega
    rw [Nat.compare_eq_lt.mpr (Nat.add_lt_add_left less _), Nat.compare_eq_lt.mpr order]
    rfl
  · rw [same, Nat.compare_eq_eq.mpr rfl, Ordering.eq_then]
    rcases Nat.lt_trichotomy (m % 0x400) (n % 0x400) with less | equal | more
    · rw [Nat.compare_eq_lt.mpr (Nat.add_lt_add_left less _), Nat.compare_eq_lt.mpr (by omega)]
    · rw [equal, Nat.compare_eq_eq.mpr rfl, Nat.compare_eq_eq.mpr (by omega)]
    · rw [Nat.compare_eq_gt.mpr (Nat.add_lt_add_left more _), Nat.compare_eq_gt.mpr (by omega)]
  · have order : n < m := by omega
    rw [Nat.compare_eq_gt.mpr (Nat.add_lt_add_left more _), Nat.compare_eq_gt.mpr order]
    rfl

theorem compareChars_long (ha : 0x10000 ≤ a.toNat) (hb : 0x10000 ≤ b.toNat) :
    compareChars a b = compare (a.toNat - 0x10000) (b.toNat - 0x10000) := by
  rw [compareChars_of_block_eq ((block_of_long ha).trans (block_of_long hb).symm)]
  rcases Nat.lt_trichotomy a.toNat b.toNat with less | same | more
  · rw [Nat.compare_eq_lt.mpr less, Nat.compare_eq_lt.mpr (by omega)]
  · rw [same, Nat.compare_eq_eq.mpr rfl, Nat.compare_eq_eq.mpr rfl]
  · rw [Nat.compare_eq_gt.mpr more, Nat.compare_eq_gt.mpr (by omega)]

theorem compareLex_units_append (a b : Char) (s t : List Nat) :
    List.compareLex compare (units a ++ s) (units b ++ t) =
      (compareChars a b).then (List.compareLex compare s t) := by
  have boundsA := toNat_bounds a
  have boundsB := toNat_bounds b
  rcases Nat.lt_or_ge a.toNat 0x10000 with shortA | longA <;>
    rcases Nat.lt_or_ge b.toNat 0x10000 with shortB | longB
  · rw [units, units, if_pos shortA, if_pos shortB, compareChars_short shortA shortB]
    exact List.compareLex_cons_cons
  · -- The unit is compared with a leading surrogate.
    rw [units, units, if_pos shortA, if_neg (Nat.not_lt.mpr longB), List.singleton_append,
      List.cons_append, List.compareLex_cons_cons]
    rcases boundsA with below | above
    · rw [Nat.compare_eq_lt.mpr (by omega), compareChars_of_block_lt]
      · rfl
      · rw [block_of_short shortA, if_pos below, block_of_long longB]
        exact Nat.zero_lt_one
    · rw [Nat.compare_eq_gt.mpr (by omega), compareChars_of_block_gt]
      · rfl
      · rw [block_of_short shortA, if_neg (by omega), block_of_long longB]
        exact Nat.one_lt_two
  · rw [units, units, if_neg (Nat.not_lt.mpr longA), if_pos shortB, List.singleton_append,
      List.cons_append, List.compareLex_cons_cons]
    rcases boundsB with below | above
    · rw [Nat.compare_eq_gt.mpr (by omega), compareChars_of_block_gt]
      · rfl
      · rw [block_of_short shortB, if_pos below, block_of_long longA]
        exact Nat.zero_lt_one
    · rw [Nat.compare_eq_lt.mpr (by omega), compareChars_of_block_lt]
      · rfl
      · rw [block_of_short shortB, if_neg (by omega), block_of_long longA]
        exact Nat.one_lt_two
  · rw [units, units, if_neg (Nat.not_lt.mpr longA), if_neg (Nat.not_lt.mpr longB),
      compareChars_long longA longB, ← compare_surrogates, Ordering.then_assoc]
    simp only [List.cons_append, List.nil_append, List.compareLex_cons_cons]

end Characters

theorem units_ne_nil (c : Char) : units c ≠ [] := by
  rw [units]
  split <;> exact List.cons_ne_nil _ _

theorem compareLex_flatMap_units (s t : List Char) :
    List.compareLex compare (s.flatMap units) (t.flatMap units) =
      List.compareLex compareChars s t := by
  induction s generalizing t with
  | nil =>
    cases t with
    | nil => rfl
    | cons b t =>
      obtain ⟨u, us, first⟩ := List.exists_cons_of_ne_nil (units_ne_nil b)
      rw [List.flatMap_cons, first]
      rfl
  | cons a s ih =>
    cases t with
    | nil =>
      obtain ⟨u, us, first⟩ := List.exists_cons_of_ne_nil (units_ne_nil a)
      rw [List.flatMap_cons, first]
      rfl
    | cons b t =>
      rw [List.flatMap_cons, List.flatMap_cons, compareLex_units_append, ih,
        List.compareLex_cons_cons]

theorem compareUnits_eq (x y : String) :
    compareUnits x y = List.compareLex compareChars x.toList y.toList :=
  compareLex_flatMap_units x.toList y.toList

instance : Std.TransCmp compareChars :=
  inferInstanceAs (Std.TransCmp (compareLex (compareOn block) (compareOn Char.toNat)))

instance : Std.LawfulEqCmp compareChars where
  eq_of_compare {a b} h := by
    have code : compareOn Char.toNat a b = .eq := (Ordering.then_eq_eq.mp h).2
    exact Char.toNat_inj.mp (Nat.compare_eq_eq.mp code)

theorem compareLex_append_self (s : List Char) {t : List Char} (h : t ≠ []) :
    List.compareLex compareChars s (s ++ t) = .lt := by
  induction s with
  | nil =>
    obtain ⟨c, t, rfl⟩ := List.exists_cons_of_ne_nil h
    rfl
  | cons a s ih =>
    have same : compareChars a a = .eq := Std.ReflCmp.compare_self
    rw [List.cons_append, List.compareLex_cons_cons, same, Ordering.eq_then, ih]

end Text

open Text

/-- Texts are ordered by their first characters that differ, block by block, and this is a total
order in which no two texts are equal and a proper initial part comes first. -/
theorem compare?_texts (x y : String) :
    Json.compare? (.string x) (.string y) =
        some (List.compareLex compareChars x.toList y.toList) ∧
      Json.compare? (.string y) (.string x) =
        (Json.compare? (.string x) (.string y)).map Ordering.swap ∧
      (Json.compare? (.string x) (.string y) = some .eq ↔ x = y) ∧
      (∀ z, Json.compare? (.string x) (.string y) ≠ some .gt →
        Json.compare? (.string y) (.string z) ≠ some .gt →
          Json.compare? (.string x) (.string z) ≠ some .gt) ∧
      (x.toList <+: y.toList → x ≠ y → Json.compare? (.string x) (.string y) = some .lt) := by
  have order (v w : String) : Json.compare? (.string v) (.string w) =
      some (List.compareLex compareChars v.toList w.toList) := congrArg some (compareUnits_eq v w)
  simp only [order, Option.map_some, Option.some.injEq, ne_eq]
  refine ⟨trivial, ?swap, ?equal, ?trans, ?initial⟩
  case swap => exact Std.OrientedCmp.eq_swap
  case equal => rw [Std.LawfulEqCmp.compare_eq_iff_eq, String.toList_inj]
  case trans =>
    intro z first second
    simp only [← Ordering.isLE_iff_ne_gt] at first second ⊢
    exact Std.TransCmp.isLE_trans first second
  case initial =>
    rintro ⟨rest, whole⟩ differ
    have more : rest ≠ [] := by
      rintro rfl
      rw [List.append_nil, String.toList_inj] at whole
      exact differ whole
    rw [← whole]
    exact compareLex_append_self _ more

/-- A character of two units comes before the full-width ones of one. -/
theorem compare?_texts_fullWidth :
    Json.compare? (.string "a") (.string "a😀") = some .lt ∧
      Json.compare? (.string "a😀") (.string "a～") = some .lt ∧
      Json.compare? (.string "a") (.string "a～") ≠ some .gt := by
  have second : Json.compare? (.string "a😀") (.string "a～") = some .lt := by decide +kernel
  obtain ⟨-, -, -, trans, initial⟩ := compare?_texts "a" "a😀"
  have first := initial (by decide) (by decide)
  refine ⟨first, second, trans "a～" ?_ ?_⟩
  · rw [first]
    decide
  · rw [second]
    decide

end Audience
