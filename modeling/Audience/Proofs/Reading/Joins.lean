import Mathlib
import Audience.Proofs.Reading.Written

/-! # Joins

The kinds of record form a star with the installation in the middle. What is written about a
record of some kind is read under the joins on the way to it, which is as short as the star
allows, and the joins on any branch of a tree keep to the edges of the star.
-/

namespace Audience

namespace Root

/-- The edges of the star: one end of an edge, and only one, is the installation. -/
def Adjacent (r s : Root) : Prop :=
  ¬ (r = .installation ↔ s = .installation)

instance : DecidableRel Adjacent := fun r s =>
  inferInstanceAs (Decidable ¬ (r = .installation ↔ s = .installation))

theorem Adjacent.ne {r s : Root} (h : Adjacent r s) : r ≠ s := by
  rintro rfl
  exact h Iff.rfl

theorem adjacent_of_ne {r s : Root} (ne : r ≠ s) (hub : r = .installation ∨ s = .installation) :
    Adjacent r s := by
  rcases hub with rfl | rfl
  · exact fun h => ne (h.mp rfl).symm
  · exact fun h => ne (h.mpr rfl)

/-- The ways along the edges of the star, each told by the kinds that it comes to. -/
inductive Way : Root → Root → List Root → Prop where
  | here {r} : Way r r []
  | step {r s t way} (edge : Adjacent r s) (h : Way s t way) : Way r t (s :: way)

/-- How many edges lie between two kinds. -/
def distance (r s : Root) : Nat :=
  if r = s then 0 else if Adjacent r s then 1 else 2

theorem Way.distance_le {r s : Root} {way : List Root} (h : Way r s way) :
    distance r s ≤ way.length := by
  cases h with
  | here => simp [distance]
  | @step _ t _ way edge h =>
    cases h with
    | here => simp [distance, edge.ne, edge]
    | step =>
      have bound : distance r s ≤ 2 := by
        unfold distance
        split
        · exact Nat.zero_le 2
        · split <;> decide
      exact Nat.le_trans bound (by simp)

end Root

/-- A criterion under one join for each kind on a way that starts in a context. -/
def Criterion.joined (c : Context) (a : Criterion) : List Root → Criterion
  | [] => a
  | r :: way => .join (c.child (.root r)) (a.joined (c.child (.root r)) way)

/-- The branches of a tree from its top downwards, each with the criteria that it passes. -/
inductive Criterion.Branch : Criterion → List Criterion → Prop where
  | top {a} : Branch a [a]
  | down {a b path} (hb : b ∈ a.children) (h : Branch b path) : Branch a (a :: path)

def Criterion.joinSource? : Criterion → Option Source
  | .join c _ => some c.source
  | _ => none

/-- A join leads from the record of the context it was written in to a neighbour in the star. -/
theorem Written.exists_adjacent {c d : Context} {a b : Criterion} (h : Written c a)
    (hj : a = .join d b) :
    ∃ target, d.source = .root target ∧ Root.Adjacent c.source.record target := by
  induction h with
  | field _ _ ih => simpa [Context.child] using ih hj
  | stay _ ih => exact ih hj
  | @join _ target _ ne hub =>
    cases hj
    exact ⟨target, rfl, Root.adjacent_of_ne ne hub⟩
  | _ => cases hj

/-- Where a criterion leaves those below it: at the record that it joins, and else where it
stands itself. -/
theorem Written.children_step {c : Context} {a b : Criterion} (h : Written c a)
    (hb : b ∈ a.children) :
    ∃ d, Written d b ∧
      (a.joinSource? = none ∧ d.source.record = c.source.record ∨
        ∃ target, a.joinSource? = some (.root target) ∧
          Root.Adjacent c.source.record target ∧ d.source.record = target) := by
  obtain ⟨d, hd⟩ := exists_part hb
  refine ⟨d, h.part hd, ?_⟩
  cases hj : a.isJoin with
  | false =>
    refine .inl ⟨?_, hd.record_context.trans (h.record_context hj)⟩
    cases a <;> first | rfl | cases hj
  | true =>
    cases hd with
    | join =>
      obtain ⟨target, ht, edge⟩ := h.exists_adjacent rfl
      exact .inr ⟨target, congrArg some ht, edge, by rw [ht]; rfl⟩
    | _ => cases hj

theorem Criterion.Branch.exists_roots {c : Context} {a : Criterion} {path : List Criterion}
    (h : a.Branch path) (ha : Written c a) :
    ∃ roots : List Root, path.filterMap joinSource? = roots.map .root ∧
      (c.source.record :: roots).IsChain Root.Adjacent := by
  induction h generalizing c with
  | @top a =>
    cases hj : a.joinSource? with
    | none => exact ⟨[], by simp [hj], .singleton _⟩
    | some s =>
      cases a <;> cases hj
      obtain ⟨target, ht, edge⟩ := ha.exists_adjacent rfl
      exact ⟨[target], by simp [joinSource?, ht], .cons_cons edge (.singleton _)⟩
  | down hb _ ih =>
    obtain ⟨d, hd, ⟨hj, same⟩ | ⟨target, hj, edge, there⟩⟩ := ha.children_step hb
    · obtain ⟨roots, hr, chain⟩ := ih hd
      exact ⟨roots, by simp [hj, hr], same ▸ chain⟩
    · obtain ⟨roots, hr, chain⟩ := ih hd
      exact ⟨target :: roots, by simp [hj, hr], .cons_cons edge (there ▸ chain)⟩

namespace Grammar

variable {kc kl : Bool}

/-- A record of some kind is read as one in its own context, under the joins on a shortest way
to its kind. -/
theorem readMembers_record (c : Context) (target : Root) :
    ∃ way there, Root.Way c.source.record target way ∧
      way.length = Root.distance c.source.record target ∧ there.source = .root target ∧
      ∀ body, (builtin kc kl).readMembers c [(target.name, .object body)] =
        (·.joined c way) <$> (builtin kc kl).readMembers there body := by
  have read (body : Members) : (builtin kc kl).readMembers c [(target.name, .object body)] =
      (Keyword.record target).read (builtin kc kl) c (.object body) :=
    readMembers_keyword c _ (.record target)
  simp only [read, Keyword.read]
  by_cases same : c.source.record = target
  · refine ⟨[], c.child (.root target), same ▸ .here, by simp [Root.distance, same], rfl, ?_⟩
    intro body
    rw [if_pos same]
    exact (id_map _).symm
  by_cases hub : c.source.record = .installation ∨ target = .installation
  · have edge := Root.adjacent_of_ne same hub
    refine ⟨[target], c.child (.root target), .step edge .here, ?_, rfl, ?_⟩
    · simp [Root.distance, same, edge]
    · intro body
      rw [if_neg same, if_pos hub]
      rfl
  · rw [not_or] at hub
    have out := Root.adjacent_of_ne hub.1 (.inr rfl)
    have back := Root.adjacent_of_ne (Ne.symm hub.2) (.inl rfl)
    refine ⟨[.installation, target], (c.child (.root .installation)).child (.root target),
      .step out (.step back .here), ?_, rfl, ?_⟩
    · simp [Root.distance, same, Root.Adjacent, hub.1, hub.2]
    · intro body
      rw [if_neg same, if_neg (not_or.mpr hub)]
      rfl

theorem readMembers_leaf {c : Context} {target : Root} (ne : c.source.record ≠ target)
    (here : c.source.record ≠ .installation) (there : target ≠ .installation) (value : Json) :
    (builtin kc kl).readMembers c [(target.name, value)] =
      (builtin kc kl).readMembers c
        [(Root.installation.name, .object [(target.name, value)])] := by
  have hub : (builtin kc kl).readMembers c
        [(Root.installation.name, .object [(target.name, value)])] =
      .join (c.child (.root .installation)) <$>
        (builtin kc kl).readMembers (c.child (.root .installation)) [(target.name, value)] := by
    refine (readMembers_keyword c _ (.record .installation)).trans ?_
    simp [Keyword.read, here, readObject]
  rw [hub]
  refine (readMembers_keyword c value (.record target)).trans ?_
  rw [show target.name = (Keyword.record target).name from rfl, readMembers_keyword]
  simp [Keyword.read, ne, here, there, Ne.symm there, Context.child, Source.record]

/-- What is written about a record is read at such a record, under as many joins as it is away
and by way of the installation; between two leaves of the star the way through the installation
may be written out. On every branch of a tree, the record that it is about and those that it joins
change at every step, to or from the installation. -/
theorem joins_along_star (kc kl : Bool) :
    (∀ (c : Context) (target : Root), ∃ way there, Root.Way c.source.record target way ∧
      way.length = Root.distance c.source.record target ∧ there.source = .root target ∧
      ∀ body, (builtin kc kl).readMembers c [(target.name, .object body)] =
        (·.joined c way) <$> (builtin kc kl).readMembers there body) ∧
    (∀ (c : Context) (target : Root), c.source.record ≠ target →
      c.source.record ≠ .installation → target ≠ .installation →
        ∀ value, (builtin kc kl).readMembers c [(target.name, value)] =
          (builtin kc kl).readMembers c
            [(Root.installation.name, .object [(target.name, value)])]) ∧
    ∀ r document a, (builtin kc kl).read r document = .ok a → ∀ path, a.Branch path →
      ∃ roots : List Root, path.filterMap Criterion.joinSource? = roots.map .root ∧
        (r :: roots).IsChain (· ≠ ·) ∧ (r :: roots).IsChain Root.Adjacent := by
  refine ⟨readMembers_record, fun _ _ ne here there => readMembers_leaf ne here there, ?_⟩
  intro r document a h path hp
  obtain ⟨roots, hr, chain⟩ := hp.exists_roots (read_written h)
  exact ⟨roots, hr, chain.imp fun _ _ edge => edge.ne, chain⟩

def payingDocument : Json :=
  .object [("user", .object [(".plan", .object [("eq", .string "pro")])])]

def payingPlan : Criterion :=
  let user := ((Context.root .event).child (.root .installation)).child (.root .user)
  .equals (user.child (.field (.root .user) ["plan"])) (.string "pro")

def payingUser : Criterion :=
  .join (((Context.root .event).child (.root .installation)).child (.root .user)) payingPlan

def paying : Criterion :=
  .join ((Context.root .event).child (.root .installation)) payingUser

theorem joins_along_star_paying :
    Root.event ≠ .user ∧ Root.event ≠ .installation ∧ Root.user ≠ .installation ∧
      strict.readMembers (.root .event) [("user", .null)] =
        strict.readMembers (.root .event) [("installation", .object [("user", .null)])] ∧
      strict.read .event payingDocument = .ok paying ∧
      paying.Branch [paying, payingUser, payingPlan] ∧
      ∃ roots : List Root,
        [paying, payingUser, payingPlan].filterMap Criterion.joinSource? = roots.map .root ∧
          (Root.event :: roots).IsChain (· ≠ ·) ∧ (Root.event :: roots).IsChain Root.Adjacent := by
  have read : strict.read .event payingDocument = .ok paying := by cbv
  have branch : paying.Branch [paying, payingUser, payingPlan] :=
    .down (List.mem_singleton.mpr rfl) (.down (List.mem_singleton.mpr rfl) .top)
  obtain ⟨-, leaf, branches⟩ := joins_along_star false false
  have apart : Root.event ≠ .user ∧ Root.event ≠ .installation ∧ Root.user ≠ .installation := by
    decide
  exact ⟨apart.1, apart.2.1, apart.2.2,
    leaf (.root .event) .user apart.1 apart.2.1 apart.2.2 .null, read, branch,
    branches _ _ _ read _ branch⟩

end Grammar

end Audience
