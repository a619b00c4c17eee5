import Mathlib
import Audience.Proofs.Binary64.Differences
import Audience.Proofs.Geo.Rings

/-! # Chords and bounds of a ring

A chord cuts a ring into two, each of which walks along the chord once, in opposite directions. A
ray therefore crosses the chord once for either part or for neither, and what it crosses otherwise
is shared out. A ring that is walked around comes back to the latitude it set out from, so a ray
that meets all of the ring at some latitude crosses it an even number of times.
-/

namespace Audience.Geo

section Walks

variable {β : Type}

theorem odd_add (m n : ℕ) :
    decide ((m + n) % 2 = 1) = (decide (m % 2 = 1) ^^ decide (n % 2 = 1)) := by
  rcases Nat.mod_two_eq_zero_or_one m with hm | hm <;>
    rcases Nat.mod_two_eq_zero_or_one n with hn | hn <;> simp [Nat.add_mod, hm, hn]

theorem odd_add_cancel (m n d : ℕ) :
    decide ((m + n) % 2 = 1) = (decide ((m + d) % 2 = 1) ^^ decide ((n + d) % 2 = 1)) := by
  rw [odd_add m n, odd_add m d, odd_add n d]
  cases decide (m % 2 = 1) <;> cases decide (n % 2 = 1) <;> cases decide (d % 2 = 1) <;> rfl

theorem odd_countP_walk (side : β → Bool) (v w : β) (s : List β) :
    decide ((walk v (s ++ [w])).countP (fun e => side e.2 != side e.1) % 2 = 1) =
      (side w != side v) := by
  induction s generalizing v with
  | nil => cases h : side v <;> cases h' : side w <;> simp [walk, h, h']
  | cons x s ih =>
    rw [List.cons_append, walk, List.countP_cons, odd_add, ih]
    cases side v <;> cases side w <;> cases side x <;> rfl

theorem even_countP_edges (side : β → Bool) (ring : List β) :
    (edges ring).countP (fun e => side e.2 != side e.1) % 2 = 0 := by
  cases ring with
  | nil => rfl
  | cons v s =>
    have home := odd_countP_walk side v v s
    rw [bne_self_eq_false, decide_eq_false_iff_not] at home
    rw [(edges_cons_perm v s).countP_eq]
    omega

theorem mem_of_mem_walk {v : β} {s : List β} {e : β × β} (h : e ∈ walk v s) :
    e.1 ∈ v :: s ∧ e.2 ∈ s := by
  induction s generalizing v with
  | nil => cases h
  | cons w s ih =>
    rcases List.mem_cons.mp h with rfl | h
    · exact ⟨List.mem_cons_self, List.mem_cons_self⟩
    · exact ⟨List.mem_cons_of_mem _ (ih h).1, List.mem_cons_of_mem _ (ih h).2⟩

theorem mem_of_mem_edges {ring : List β} {e : β × β} (h : e ∈ edges ring) :
    e.1 ∈ ring ∧ e.2 ∈ ring := by
  rcases List.eq_nil_or_concat' ring with rfl | ⟨s, v, rfl⟩
  · cases h
  · rw [edges_concat] at h
    obtain ⟨first, second⟩ := mem_of_mem_walk h
    refine ⟨?_, second⟩
    rcases List.mem_cons.mp first with last | first
    · rw [last]
      exact List.mem_append_right _ (List.mem_singleton_self v)
    · exact first

end Walks

section Exact

variable {K : Type} [Field K] [LinearOrder K] {p : Point K}

/-- A chord between two points that are not neighbours cuts what a ring encloses into two. -/
theorem encloses_chord (u w : Point K) {b c : List (Point K)} (hb : b ≠ []) (hc : c ≠ []) :
    encloses (u :: (b ++ w :: c)) p =
      (encloses (u :: (b ++ [w])) p ^^ encloses (w :: (c ++ [u])) p) := by
  have lb := List.length_pos_of_ne_nil hb
  have lc := List.length_pos_of_ne_nil hc
  have whole : (edges (u :: (b ++ w :: c))).countP (crosses p) =
      (walk u (b ++ [w])).countP (crosses p) + (walk w (c ++ [u])).countP (crosses p) := by
    rw [(edges_cons_perm u _).countP_eq, List.append_assoc, List.cons_append, walk_append,
      List.countP_append]
  have part (u w : Point K) (b : List (Point K)) :
      (edges (u :: (b ++ [w]))).countP (crosses p) =
        (walk u (b ++ [w])).countP (crosses p) + (crosses p (w, u)).toNat := by
    rw [(edges_cons_perm u _).countP_eq, List.append_assoc, List.singleton_append, walk_append,
      List.countP_append]
    cases h : crosses p (w, u) <;> simp [walk, h]
  have chord : crosses p (u, w) = crosses p (w, u) := crosses_swap p (w, u)
  have long {s : List (Point K)} (pos : 0 < s.length) (u w : Point K) :
      3 ≤ (u :: (s ++ [w])).length := by
    simp only [List.length_cons, List.length_append, List.length_nil]
    omega
  have longer : 3 ≤ (u :: (b ++ w :: c)).length := by
    simp only [List.length_cons, List.length_append]
    omega
  rw [encloses_eq (long lb u w), encloses_eq (long lc w u), encloses_eq longer, whole, part, part,
    chord]
  exact odd_add_cancel _ _ _

end Exact

section Straddling

variable {K : Type} [LinearOrder K] {p : Point K}

theorem straddles_iff {edge : Point K × Point K} : straddles p edge = true ↔
    edge.1.lat ≤ p.lat ∧ p.lat < edge.2.lat ∨ edge.2.lat ≤ p.lat ∧ p.lat < edge.1.lat := by
  rw [straddles, bne_iff_ne, ne_eq, decide_eq_decide, ← not_lt, ← not_lt]
  tauto

end Straddling

section Arcs

variable {β : Type} {ring : List β} {i j : ℕ}

/-- The points of a ring from one position to another, both included, past the end if need be. -/
def arc (ring : List β) (i j : ℕ) : List β :=
  if i ≤ j then (ring.drop i).take (j - i + 1) else ring.drop i ++ ring.take (j + 1)

theorem exists_eq_append_cons (h : i < ring.length) :
    ∃ a v c, ring = a ++ v :: c ∧ a.length = i :=
  ⟨ring.take i, ring[i], ring.drop (i + 1), by simp, List.length_take_of_le h.le⟩

theorem exists_arcs (h : i < j) (hj : j < ring.length) :
    ∃ a u b w c, ring = a ++ u :: (b ++ w :: c) ∧ a.length = i ∧ i + b.length + 1 = j ∧
      arc ring i j = u :: (b ++ [w]) ∧ arc ring j i = w :: (c ++ a ++ [u]) := by
  obtain ⟨front, w, c, rfl, size⟩ := exists_eq_append_cons hj
  obtain ⟨a, u, b, rfl, hi⟩ := exists_eq_append_cons (h.trans_eq size.symm)
  rw [List.length_append, List.length_cons] at size
  refine ⟨a, u, b, w, c, by simp, hi, by omega, ?_, ?_⟩
  · have around : a ++ u :: b ++ w :: c = a ++ (u :: (b ++ [w]) ++ c) := by simp
    rw [arc, if_pos h.le, around, List.drop_left' hi, List.take_left']
    simp only [List.length_cons, List.length_append, List.length_nil]
    omega
  · have first : a ++ u :: b ++ w :: c = a ++ [u] ++ (b ++ w :: c) := by simp
    rw [arc, if_neg h.not_ge, List.drop_left' (by simp; omega), first,
      List.take_left' (by simp; omega)]
    simp

end Arcs

section Exact

variable {K : Type} [Field K] [LinearOrder K] {p : Point K} {ring : List (Point K)}

theorem encloses_arcs {i j : ℕ} (h : i + 1 < j) (hj : j < ring.length)
    (ends : i = 0 → j + 1 ≠ ring.length) :
    encloses ring p = (encloses (arc ring i j) p ^^ encloses (arc ring j i) p) := by
  obtain ⟨a, u, b, w, c, rfl, hi, hb, first, second⟩ :=
    exists_arcs (Nat.lt_of_succ_lt h) hj
  simp only [List.length_append, List.length_cons] at hj ends
  have inner : b ≠ [] := by
    rintro rfl
    rw [List.length_nil] at hb
    omega
  have outer : c ++ a ≠ [] := by
    intro none
    obtain ⟨rfl, rfl⟩ := List.append_eq_nil_iff.mp none
    simp only [List.length_nil] at hi ends
    omega
  rw [first, second, ← encloses_chord u w inner outer]
  have turned : a ++ u :: (b ++ w :: c) ~r u :: (b ++ w :: (c ++ a)) := by
    have halves := List.rotate_append_length_eq a (u :: (b ++ w :: c))
    rw [List.cons_append, List.append_assoc, List.cons_append] at halves
    exact ⟨_, halves⟩
  obtain ⟨n, turned⟩ := turned
  rw [← turned, encloses_rotate]
  simp only [List.length_append, List.length_cons]
  omega

/-- Strictly outside of the least box around the points of a ring. -/
def IsBeyond (ring : List (Point K)) (p : Point K) : Prop :=
  (∀ v ∈ ring, p.lat < v.lat) ∨ (∀ v ∈ ring, v.lat < p.lat) ∨
    (∀ v ∈ ring, p.lon < v.lon) ∨ ∀ v ∈ ring, v.lon < p.lon

theorem encloses_of_even (even : (edges ring).countP (crosses p) % 2 = 0) :
    encloses ring p = false := by
  rw [encloses, even, Bool.and_eq_false_iff]
  exact .inr rfl

theorem encloses_of_not_crosses (h : ∀ e ∈ edges ring, crosses p e = false) :
    encloses ring p = false := by
  apply encloses_of_even
  rw [List.countP_eq_zero.mpr fun e he => Bool.eq_false_iff.mp (h e he)]

variable [IsStrictOrderedRing K]

/-- A straddling edge meets the latitude between its ends. -/
theorem meeting_mem_segment {edge : Point K × Point K} (h : straddles p edge = true) :
    meeting p edge ∈ segment K edge.1.lon edge.2.lon := by
  have ne := sub_ne_zero_of_straddles h
  obtain ⟨a, b⟩ := edge
  have nonneg : 0 ≤ (p.lat - b.lat) / (a.lat - b.lat) ∧
      0 ≤ (a.lat - p.lat) / (a.lat - b.lat) := by
    rcases straddles_iff.mp h with ⟨south, north⟩ | ⟨south, north⟩
    · exact ⟨div_nonneg_of_nonpos (by linarith) (by linarith),
        div_nonneg_of_nonpos (by linarith) (by linarith)⟩
    · exact ⟨div_nonneg (by linarith) (by linarith), div_nonneg (by linarith) (by linarith)⟩
  refine ⟨_, _, nonneg.1, nonneg.2, ?_, ?_⟩
  · rw [← add_div, sub_add_sub_cancel', div_self ne]
  · simp only [meeting, smul_eq_mul]
    field_simp
    ring

theorem encloses_of_isBeyond (h : IsBeyond ring p) : encloses ring p = false := by
  have between {S : Set K} (convex : Convex K S) (inside : ∀ v ∈ ring, v.lon ∈ S)
      {e : Point K × Point K} (he : e ∈ edges ring) (straddled : straddles p e = true) :
      meeting p e ∈ S :=
    convex.segment_subset (inside _ (mem_of_mem_edges he).1) (inside _ (mem_of_mem_edges he).2)
      (meeting_mem_segment straddled)
  rcases h with south | north | west | east
  case inr.inr.inl =>
    -- Each edge is crossed that passes the latitude, and a ring passes it an even number of times.
    apply encloses_of_even
    have all : ∀ e ∈ edges ring, crosses p e = true ↔ straddles p e = true := by
      intro e he
      rw [crosses_eq, Bool.and_eq_true, decide_eq_true_iff]
      exact and_iff_left_of_imp (between (convex_Ioi p.lon) west he)
    rw [List.countP_congr all]
    exact even_countP_edges (fun v => decide (p.lat < v.lat)) ring
  all_goals
    refine encloses_of_not_crosses fun e he => Bool.eq_false_iff.mpr fun crossed => ?_
    rw [crosses_eq, Bool.and_eq_true, decide_eq_true_iff, straddles_iff] at crossed
    obtain ⟨first, second⟩ := mem_of_mem_edges he
    obtain ⟨straddled, below⟩ := crossed
  case inl => rcases straddled with ⟨low, -⟩ | ⟨low, -⟩ <;> linarith [south _ first, south _ second]
  case inr.inl =>
    rcases straddled with ⟨-, high⟩ | ⟨-, high⟩ <;> linarith [north _ first, north _ second]
  case inr.inr.inr =>
    exact absurd below (between (convex_Iio p.lon) east he (straddles_iff.mpr straddled)).not_gt

end Exact

section Doubles

/-- No straddling edge of doubles is level, not even by rounding. -/
theorem sub_ne_zero_of_straddles_double {p : Point Float} {edge : Point Float × Point Float}
    (h : straddles p edge = true) : (edge.1.lat - edge.2.lat == 0) = false := by
  rw [Bool.eq_false_iff]
  intro level
  obtain ⟨first, second, same⟩ := Binary64.value_eq_of_sub_eq_zero level
  have side : p.lat < edge.1.lat ↔ p.lat < edge.2.lat := by
    rw [Binary64.lt_iff, Binary64.lt_iff, same, and_iff_right first, and_iff_right second]
  rw [straddles, decide_eq_decide.mpr side, bne_self_eq_false] at h
  cases h

end Doubles

/-- In exact arithmetic a chord cuts what a ring encloses into two, and a ring encloses nothing
beyond the least box around its points. Nothing is divided by zero, rounded or not. -/
theorem encloses_arcs_beyond :
    (∀ (ring : List (Point ℚ)) (p : Point ℚ) (i j : ℕ), i < ring.length → j < ring.length →
      i ≠ j → (i + 1) % ring.length ≠ j → (j + 1) % ring.length ≠ i →
      encloses ring p = (encloses (arc ring i j) p ^^ encloses (arc ring j i) p)) ∧
    (∀ (ring : List (Point ℚ)) (p : Point ℚ), IsBeyond ring p → encloses ring p = false) ∧
    (∀ (p : Point ℚ) (edge : Point ℚ × Point ℚ), straddles p edge = true →
      edge.1.lat - edge.2.lat ≠ 0) ∧
    ∀ (p : Point Float) (edge : Point Float × Point Float), straddles p edge = true →
      (edge.1.lat - edge.2.lat == 0) = false := by
  refine ⟨fun ring p i j hi hj ne next next' => ?arcs, fun ring p => encloses_of_isBeyond,
    fun p edge => sub_ne_zero_of_straddles, fun p edge => sub_ne_zero_of_straddles_double⟩
  have chord {i j : ℕ} (h : i < j) (hj : j < ring.length) (next : (i + 1) % ring.length ≠ j)
      (next' : (j + 1) % ring.length ≠ i) :
      encloses ring p = (encloses (arc ring i j) p ^^ encloses (arc ring j i) p) := by
    rw [Nat.mod_eq_of_lt (by omega)] at next
    refine encloses_arcs (by omega) hj fun zero last => next' ?_
    rw [last, Nat.mod_self, zero]
  rcases ne.lt_or_gt with before | after
  · exact chord before hj next next'
  · rw [Bool.xor_comm]
    exact chord after hi next' next

theorem encloses_arcs_beyond_dart :
    let ring : List (Point ℚ) := dart Int.cast
    let edge : Point Float × Point Float := (⟨0, 0⟩, ⟨8, 4⟩)
    encloses ring ⟨1, 1⟩ =
        (encloses (arc ring 3 1) ⟨1, 1⟩ ^^ encloses (arc ring 1 3) ⟨1, 1⟩) ∧
      encloses ring ⟨1, -1⟩ = false ∧
      straddles (⟨1, 1⟩ : Point ℚ) (⟨0, 0⟩, ⟨8, 4⟩) = true ∧ (0 - 8 : ℚ) ≠ 0 ∧
      straddles ⟨1, 1⟩ edge = true ∧ (edge.1.lat - edge.2.lat == 0) = false := by
  intro ring edge
  obtain ⟨arcs, beyond, exactly, rounded⟩ := encloses_arcs_beyond
  have west : IsBeyond ring ⟨1, -1⟩ := .inr (.inr (.inl (by decide +kernel)))
  have straddled : straddles (⟨1, 1⟩ : Point ℚ) (⟨0, 0⟩, ⟨8, 4⟩) = true := by decide +kernel
  have straddled' : straddles ⟨1, 1⟩ edge = true := by decide +kernel
  exact ⟨arcs ring ⟨1, 1⟩ 3 1 (by decide) (by decide) (by decide) (by decide) (by decide),
    beyond ring ⟨1, -1⟩ west, straddled, exactly _ _ straddled, straddled',
    rounded _ _ straddled'⟩

end Audience.Geo
