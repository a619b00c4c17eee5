import Mathlib
import Audience.Geo.Basic

/-! # Writings of a ring

A ring can be written from any of its points on, in either direction, and with points repeated in
place. Its edges stay what they are but for their order, their direction and edges without length,
and none of these counts among the edges that a ray crosses. Only the direction needs exact
arithmetic: rounded, the two ends of an edge do not play the same part.
-/

namespace Audience.Geo

section Walks

variable {β : Type}

def walk (v : β) : List β → List (β × β)
  | [] => []
  | w :: s => (v, w) :: walk w s

theorem walk_append (v w : β) (s t : List β) :
    walk v (s ++ w :: t) = walk v (s ++ [w]) ++ walk w t := by
  induction s generalizing v with
  | nil => rfl
  | cons x s ih => simp only [List.cons_append, walk, ih]

theorem zip_eq_walk (v : β) (s : List β) : (v :: s).zip s = walk v s := by
  induction s generalizing v with
  | nil => rfl
  | cons w s ih => rw [List.zip_cons_cons, ih, walk]

/-- The edges of a ring are those of the walk around it from its last point. -/
theorem edges_concat (s : List β) (v : β) : edges (s ++ [v]) = walk v (s ++ [v]) := by
  rw [edges, List.getLast?_concat]
  exact zip_eq_walk v _

theorem edges_cons_perm (v : β) (s : List β) : (edges (v :: s)).Perm (walk v (s ++ [v])) := by
  rcases List.eq_nil_or_concat' s with rfl | ⟨s, w, rfl⟩
  · exact .refl _
  · have around : edges (v :: (s ++ [w])) = (w, v) :: walk v (s ++ [w]) := edges_concat (v :: s) w
    have home : walk v (s ++ [w] ++ [v]) = walk v (s ++ [w]) ++ [(w, v)] := by
      rw [List.append_assoc]
      exact walk_append v w s [v]
    rw [around, home]
    exact (List.perm_append_singleton _ _).symm

theorem edges_rotate_perm (ring : List β) (n : ℕ) :
    (edges (ring.rotate n)).Perm (edges ring) := by
  induction n generalizing ring with
  | zero => rw [List.rotate_zero]
  | succ n ih =>
    cases ring with
    | nil => rw [List.rotate_nil]
    | cons v s =>
      rw [List.rotate_cons_succ]
      refine (ih _).trans ?_
      rw [edges_concat]
      exact (edges_cons_perm v s).symm

theorem walk_reverse (v w : β) (s : List β) :
    walk w (s.reverse ++ [v]) = ((walk v (s ++ [w])).map Prod.swap).reverse := by
  induction s generalizing v with
  | nil => rfl
  | cons x s ih =>
    rw [List.reverse_cons, List.append_assoc, List.singleton_append, walk_append, ih]
    simp only [List.cons_append, walk, List.map_cons, List.reverse_cons, Prod.swap_prod_mk]

theorem edges_reverse_perm (ring : List β) :
    (edges ring.reverse).Perm ((edges ring).map Prod.swap) := by
  cases ring with
  | nil => exact .refl _
  | cons v s =>
    rw [List.reverse_cons, edges_concat, walk_reverse]
    exact (List.reverse_perm _).trans ((edges_cons_perm v s).symm.map _)

section Counting

variable {q : β × β → Bool} {v : β}

theorem countP_edges_append_comm (s t : List β) :
    (edges (s ++ t)).countP q = (edges (t ++ s)).countP q := by
  rw [← List.rotate_append_length_eq t s]
  exact (edges_rotate_perm _ _).countP_eq q

theorem countP_edges_cons_self (nothing : q (v, v) = false) (s : List β) :
    (edges (v :: v :: s)).countP q = (edges (v :: s)).countP q := by
  rw [(edges_cons_perm v (v :: s)).countP_eq, (edges_cons_perm v s).countP_eq, List.cons_append,
    walk, List.countP_cons_of_neg (Bool.not_eq_true _ ▸ nothing)]

theorem countP_edges_replicate (nothing : q (v, v) = false) (before after : List β) (n : ℕ) :
    (edges (before ++ List.replicate (n + 1) v ++ after)).countP q =
      (edges (before ++ v :: after)).countP q := by
  have first (s : List β) :
      (edges (List.replicate (n + 1) v ++ s)).countP q = (edges (v :: s)).countP q := by
    induction n with
    | zero => rfl
    | succ n ih =>
      rw [List.replicate_succ, List.cons_append, ← ih, List.replicate_succ, List.cons_append,
        countP_edges_cons_self nothing]
  rw [List.append_assoc, countP_edges_append_comm, List.append_assoc, first,
    countP_edges_append_comm before, List.cons_append]

end Counting

end Walks

section Rings

variable {α : Type} [Add α] [Sub α] [Mul α] [Div α] [LT α] [DecidableLT α] {p : Point α}

theorem encloses_eq {ring : List (Point α)} (h : 3 ≤ ring.length) :
    encloses ring p = decide ((edges ring).countP (crosses p) % 2 = 1) := by
  rw [encloses, decide_eq_true h, Bool.true_and]

theorem encloses_congr {ring ring' : List (Point α)} (h : 3 ≤ ring.length)
    (h' : 3 ≤ ring'.length)
    (same : (edges ring').countP (crosses p) = (edges ring).countP (crosses p)) :
    encloses ring' p = encloses ring p := by
  rw [encloses_eq h, encloses_eq h', same]

theorem crosses_self (v : Point α) : crosses p (v, v) = false := by
  rw [crosses, bne_self_eq_false, Bool.false_and]

theorem encloses_rotate {ring : List (Point α)} (h : 3 ≤ ring.length) (n : ℕ) :
    encloses (ring.rotate n) p = encloses ring p :=
  encloses_congr h (by rwa [List.length_rotate]) ((edges_rotate_perm ring n).countP_eq _)

theorem encloses_replicate {before after : List (Point α)} {v : Point α}
    (h : 3 ≤ (before ++ v :: after).length) (n : ℕ) :
    encloses (before ++ List.replicate (n + 1) v ++ after) p =
      encloses (before ++ v :: after) p := by
  refine encloses_congr h ?_ (countP_edges_replicate (crosses_self v) before after n)
  simp only [List.length_append, List.length_cons, List.length_replicate] at h ⊢
  omega

theorem encloses_append_replicate {v : Point α} {s : List (Point α)} (h : 3 ≤ (v :: s).length)
    (n : ℕ) : encloses (v :: s ++ List.replicate n v) p = encloses (v :: s) p := by
  refine encloses_congr h (by simp only [List.length_append]; omega) ?_
  rw [countP_edges_append_comm]
  have copies := countP_edges_replicate (crosses_self (p := p) v) [] s n
  rwa [List.nil_append, List.nil_append, List.replicate_succ', List.append_assoc] at copies

end Rings

section Edges

variable {α : Type} [LT α] [DecidableLT α]

/-- Whether an edge passes from one side of a point's latitude to the other. -/
def straddles (p : Point α) (edge : Point α × Point α) : Bool :=
  decide (p.lat < edge.2.lat) != decide (p.lat < edge.1.lat)

theorem straddles_swap (p : Point α) (edge : Point α × Point α) :
    straddles p edge.swap = straddles p edge :=
  bne_comm

variable [Add α] [Sub α] [Mul α] [Div α]

/-- The longitude at which the line of an edge meets a point's latitude. -/
def meeting (p : Point α) (edge : Point α × Point α) : α :=
  (edge.1.lon - edge.2.lon) * (p.lat - edge.2.lat) / (edge.1.lat - edge.2.lat) + edge.2.lon

theorem crosses_eq (p : Point α) (edge : Point α × Point α) :
    crosses p edge = (straddles p edge && decide (p.lon < meeting p edge)) :=
  rfl

end Edges

section Exact

variable {K : Type} [Field K] {p : Point K} {edge : Point K × Point K}

theorem meeting_swap (h : edge.1.lat - edge.2.lat ≠ 0) : meeting p edge.swap = meeting p edge := by
  have back : edge.2.lat - edge.1.lat ≠ 0 := by
    rwa [← neg_sub, neg_ne_zero]
  simp only [meeting, Prod.fst_swap, Prod.snd_swap]
  field_simp
  ring

variable [LinearOrder K]

theorem sub_ne_zero_of_straddles (h : straddles p edge = true) :
    edge.1.lat - edge.2.lat ≠ 0 := by
  intro level
  rw [straddles, sub_eq_zero.mp level, bne_self_eq_false] at h
  cases h

theorem crosses_swap (p : Point K) (edge : Point K × Point K) :
    crosses p edge.swap = crosses p edge := by
  rw [crosses_eq, crosses_eq, straddles_swap]
  cases h : straddles p edge with
  | false => rfl
  | true => rw [meeting_swap (sub_ne_zero_of_straddles h)]

theorem encloses_reverse {ring : List (Point K)} (h : 3 ≤ ring.length) :
    encloses ring.reverse p = encloses ring p := by
  refine encloses_congr h (by rwa [List.length_reverse]) ?_
  rw [(edges_reverse_perm ring).countP_eq, List.countP_map]
  exact congrFun (congrArg List.countP (funext (crosses_swap p))) _

end Exact

/-- A ring encloses the same points from whichever of its points it is written, with copies of a
point beside it and with copies of the first point at the end; in exact arithmetic also
backwards. -/
theorem encloses_retraced :
    (∀ (ring : List (Point Float)) (p : Point Float), 3 ≤ ring.length →
      (∀ n, encloses (ring.rotate n) p = encloses ring p) ∧
      (∀ before v after n, ring = before ++ v :: after →
        encloses (before ++ List.replicate (n + 1) v ++ after) p = encloses ring p) ∧
      ∀ v ∈ ring.head?, ∀ n, encloses (ring ++ List.replicate n v) p = encloses ring p) ∧
    ∀ (ring : List (Point ℚ)) (p : Point ℚ), 3 ≤ ring.length →
      encloses ring.reverse p = encloses ring p := by
  refine ⟨fun ring p enough => ⟨encloses_rotate enough, ?copies, ?closed⟩,
    fun ring p enough => encloses_reverse enough⟩
  case copies =>
    rintro before v after n rfl
    exact encloses_replicate enough n
  case closed =>
    intro v first n
    obtain ⟨s, rfl⟩ := List.head?_eq_some_iff.mp first
    exact encloses_append_replicate enough n

def dart {α : Type} (number : ℤ → α) : List (Point α) :=
  [⟨number 0, number 0⟩, ⟨number 8, number 4⟩, ⟨number 0, number 8⟩, ⟨number 2, number 4⟩]

theorem encloses_retraced_dart :
    let ring := dart Float.ofInt
    let first := (⟨Float.ofInt 0, Float.ofInt 0⟩ : Point Float)
    let notch := (⟨Float.ofInt 2, Float.ofInt 4⟩ : Point Float)
    encloses ring ⟨1, 1⟩ = true ∧ encloses (ring.rotate 3) ⟨1, 1⟩ = true ∧
      encloses (ring.take 3 ++ List.replicate 3 notch ++ []) ⟨1, 1⟩ = true ∧
      encloses (ring ++ List.replicate 1 first) ⟨1, 1⟩ = true ∧
      encloses (dart Int.cast).reverse (⟨1, 1⟩ : Point ℚ) = true := by
  intro ring first notch
  have inside : encloses ring ⟨1, 1⟩ = true := by decide +kernel
  have exactly : encloses (dart Int.cast) (⟨1, 1⟩ : Point ℚ) = true := by decide +kernel
  obtain ⟨rotate, copies, closed⟩ := encloses_retraced.1 ring ⟨1, 1⟩ (by decide)
  refine ⟨inside, (rotate 3).trans inside, (copies (ring.take 3) notch [] 2 rfl).trans inside,
    (closed first rfl 1).trans inside, ?_⟩
  exact (encloses_retraced.2 (dart Int.cast) ⟨1, 1⟩ (by decide)).trans exactly

end Audience.Geo
