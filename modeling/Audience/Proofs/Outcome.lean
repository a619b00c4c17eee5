import Mathlib.Data.List.Forall2
import Audience.Error

/-! # Laws of outcomes

Reading succeeds where each of its steps does, and a list is read where each of its items is.
-/

namespace Audience.Outcome

variable {α β : Type}

theorem map_eq_ok_iff {f : α → β} {o : Outcome α} {b : β} :
    f <$> o = .ok b ↔ ∃ a, o = .ok a ∧ f a = b := by
  cases o <;> simp [Functor.map, Except.map]

theorem bind_eq_ok_iff {o : Outcome α} {f : α → Outcome β} {b : β} :
    o >>= f = .ok b ↔ ∃ a, o = .ok a ∧ f a = .ok b := by
  cases o <;> simp [bind, Except.bind]

@[simp] theorem pure_eq (a : α) : (pure a : Outcome α) = .ok a := rfl

@[simp] theorem map_ok (f : α → β) (a : α) : f <$> (.ok a : Outcome α) = .ok (f a) := rfl

@[simp] theorem ok_bind (a : α) (f : α → Outcome β) : (.ok a : Outcome α) >>= f = f a := rfl

@[simp] theorem error_bind (e : Error) (f : α → Outcome β) :
    (.error e : Outcome α) >>= f = .error e := rfl

@[simp] theorem map_fault (f : α → β) (x : Fault) : f <$> (fault x : Outcome α) = fault x := rfl

@[simp] theorem fault_bind (x : Fault) (f : α → Outcome β) :
    (fault x : Outcome α) >>= f = fault x := rfl

theorem mem_of_mapM_eq_ok {f : α → Outcome β} {as : List α} {bs : List β}
    (h : as.mapM f = .ok bs) : ∀ b ∈ bs, ∃ a ∈ as, f a = .ok b := by
  induction as generalizing bs with
  | nil =>
    simp only [List.mapM_nil, pure_eq, Except.ok.injEq] at h
    simp [← h]
  | cons a as ih =>
    simp only [List.mapM_cons, bind_eq_ok_iff, pure_eq, Except.ok.injEq] at h
    obtain ⟨b, hb, rest, hrest, rfl⟩ := h
    intro x hx
    rcases List.mem_cons.mp hx with rfl | hx
    · exact ⟨a, List.mem_cons_self, hb⟩
    · obtain ⟨y, hy, hxy⟩ := ih hrest x hx
      exact ⟨y, List.mem_cons_of_mem _ hy, hxy⟩

def Succeeds (o : Outcome α) : Prop :=
  ∃ a, o = .ok a

@[simp] theorem succeeds_ok (a : α) : Succeeds (.ok a) := ⟨a, rfl⟩

@[simp] theorem not_succeeds_error (e : Error) : ¬ Succeeds (.error e : Outcome α) := nofun

@[simp] theorem not_succeeds_fault (f : Fault) : ¬ Succeeds (fault f : Outcome α) := nofun

@[simp] theorem succeeds_map {f : α → β} {o : Outcome α} : Succeeds (f <$> o) ↔ Succeeds o := by
  cases o <;> simp [Succeeds, Functor.map, Except.map]

theorem succeeds_bind {o : Outcome α} {f : α → Outcome β} :
    Succeeds (o >>= f) ↔ ∃ a, o = .ok a ∧ Succeeds (f a) := by
  cases o <;> simp [Succeeds, bind, Except.bind]

theorem succeeds_both {γ : Type} {o : Outcome α} {o' : Outcome β} {f : α → β → γ} :
    Succeeds (do let a ← o; let b ← o'; return f a b) ↔ Succeeds o ∧ Succeeds o' := by
  cases o <;> cases o' <;> simp

theorem succeeds_mapM {f : α → Outcome β} {as : List α} :
    Succeeds (as.mapM f) ↔ ∀ a ∈ as, Succeeds (f a) := by
  induction as with
  | nil => simp
  | cons a as ih =>
    simp only [List.mapM_cons, succeeds_bind, pure_eq, succeeds_ok, and_true, List.forall_mem_cons,
      ← ih]
    constructor
    · rintro ⟨b, hb, bs, hbs⟩
      exact ⟨⟨b, hb⟩, bs, hbs⟩
    · rintro ⟨⟨b, hb⟩, bs, hbs⟩
      exact ⟨b, hb, bs, hbs⟩

theorem mapM_eq_map {ι : Type} {f : ι → Outcome β} {g : ι → Outcome α} {k : α → β} {is : List ι}
    (h : ∀ i ∈ is, f i = k <$> g i) : is.mapM f = List.map k <$> is.mapM g := by
  induction is with
  | nil => rfl
  | cons i is ih =>
    rw [List.forall_mem_cons] at h
    rw [List.mapM_cons, List.mapM_cons, h.1, ih h.2]
    simp only [map_bind, bind_map_left, pure_eq, map_ok, List.map_cons]

section Coincide

/-- Outcomes that fail with one error, and otherwise give related results. -/
inductive Coincide (R : α → β → Prop) : Outcome α → Outcome β → Prop where
  | ok {a b} (h : R a b) : Coincide R (.ok a) (.ok b)
  | error {e} : Coincide R (.error e) (.error e)

theorem coincide_map {γ : Type} {R : α → β → Prop} {f : γ → α} {g : γ → β}
    (h : ∀ c, R (f c) (g c)) (o : Outcome γ) : Coincide R (f <$> o) (g <$> o) := by
  cases o with
  | ok c => exact .ok (h c)
  | error e => exact .error

end Coincide

section Agree

variable {γ δ : Type}

/-- Outcomes that fail together, if not with one error, and otherwise give related results. -/
inductive Agree (R : α → β → Prop) : Outcome α → Outcome β → Prop where
  | ok {a b} (h : R a b) : Agree R (.ok a) (.ok b)
  | error {e e'} : Agree R (.error e) (.error e')

variable {R : α → β → Prop} {S : γ → δ → Prop} {o : Outcome α} {o' : Outcome β}

theorem agree_refl {R : α → α → Prop} (h : ∀ a, R a a) (o : Outcome α) : Agree R o o := by
  cases o with
  | ok a => exact .ok (h a)
  | error e => exact .error

theorem agree_map {f : γ → α} {g : γ → β} (h : ∀ c, R (f c) (g c)) (o : Outcome γ) :
    Agree R (f <$> o) (g <$> o) := by
  cases o with
  | ok c => exact .ok (h c)
  | error e => exact .error

theorem agree_bind {f : γ → Outcome α} {g : γ → Outcome β} (h : ∀ c, Agree R (f c) (g c))
    (o : Outcome γ) : Agree R (o >>= f) (o >>= g) := by
  cases o with
  | ok c => exact h c
  | error e => exact .error

namespace Agree

theorem succeeds (h : Agree R o o') : Succeeds o ↔ Succeeds o' := by
  cases h <;> simp

theorem results (h : Agree R o o') {a : α} {b : β} (ha : o = .ok a) (hb : o' = .ok b) : R a b := by
  cases h with
  | ok h =>
    cases ha
    cases hb
    exact h
  | error => cases ha

theorem mono {S : α → β → Prop} (h : Agree R o o') (hRS : ∀ {a b}, R a b → S a b) :
    Agree S o o' := by
  cases h with
  | ok h => exact .ok (hRS h)
  | error => exact .error

theorem map (h : Agree R o o') {f : α → γ} {g : β → δ} (hfg : ∀ {a b}, R a b → S (f a) (g b)) :
    Agree S (f <$> o) (g <$> o') := by
  cases h with
  | ok h => exact .ok (hfg h)
  | error => exact .error

theorem bind (h : Agree R o o') {f : α → Outcome γ} {g : β → Outcome δ}
    (hfg : ∀ {a b}, R a b → Agree S (f a) (g b)) : Agree S (o >>= f) (o' >>= g) := by
  cases h with
  | ok h => exact hfg h
  | error => exact .error

theorem trans {T : α → γ → Prop} {S : β → γ → Prop} {o'' : Outcome γ} (h : Agree R o o')
    (h' : Agree S o' o'') (hRS : ∀ {a b c}, R a b → S b c → T a c) : Agree T o o'' := by
  cases h with
  | ok h =>
    cases h' with
    | ok h' => exact .ok (hRS h h')
  | error =>
    cases h' with
    | error => exact .error

theorem mapM {f : γ → Outcome α} {g : δ → Outcome β} {cs : List γ} {ds : List δ}
    (h : List.Forall₂ S cs ds) (hfg : ∀ c ∈ cs, ∀ {d}, S c d → Agree R (f c) (g d)) :
    Agree (List.Forall₂ R) (cs.mapM f) (ds.mapM g) := by
  induction h with
  | nil => exact .ok .nil
  | @cons c d cs ds head _ ih =>
    rw [List.forall_mem_cons] at hfg
    rw [List.mapM_cons, List.mapM_cons]
    exact (hfg.1 head).bind fun hab => (ih hfg.2).bind fun rest => .ok (.cons hab rest)

theorem mapM_same {f : γ → Outcome α} {g : γ → Outcome β} {cs : List γ}
    (h : ∀ c ∈ cs, Agree R (f c) (g c)) : Agree (List.Forall₂ R) (cs.mapM f) (cs.mapM g) := by
  refine .mapM (List.forall₂_same.mpr fun _ _ => rfl) fun c hc {_} same => ?_
  subst same
  exact h c hc

theorem mapM_perm {f : γ → Outcome α} {cs ds : List γ} (order : cs.Perm ds) :
    Agree List.Perm (cs.mapM f) (ds.mapM f) := by
  induction order with
  | nil => exact .ok .nil
  | cons c _ ih =>
    rw [List.mapM_cons, List.mapM_cons]
    exact (agree_refl (fun _ => rfl) (f c)).bind fun same => ih.bind fun rest =>
      .ok (same ▸ rest.cons _)
  | swap c d ds =>
    simp only [List.mapM_cons]
    cases f c <;> cases f d <;> cases ds.mapM f <;> constructor
    exact .swap ..
  | trans _ _ ih ih' => exact ih.trans ih' .trans

end Agree

end Agree

section KeptBy

/-- Whatever the first outcome gives, the second gives too. -/
def KeptBy (o o' : Outcome α) : Prop :=
  ∀ a, o = .ok a → o' = .ok a

namespace KeptBy

variable {o o' : Outcome α}

theorem refl (o : Outcome α) : KeptBy o o := fun _ h => h

theorem of_error (e : Error) (o' : Outcome α) : KeptBy (.error e) o' := nofun

theorem of_fault (f : Fault) (o' : Outcome α) : KeptBy (fault f) o' := nofun

theorem map (h : KeptBy o o') (f : α → β) : KeptBy (f <$> o) (f <$> o') := by
  intro b hb
  obtain ⟨a, ha, rfl⟩ := map_eq_ok_iff.mp hb
  rw [h a ha, map_ok]

theorem bind {k k' : α → Outcome β} (h : KeptBy o o') (hk : ∀ a, KeptBy (k a) (k' a)) :
    KeptBy (o >>= k) (o' >>= k') := by
  intro b hb
  obtain ⟨a, ha, hb⟩ := bind_eq_ok_iff.mp hb
  rw [h a ha, ok_bind, hk a b hb]

theorem mapM {ι : Type} {f f' : ι → Outcome α} {is : List ι}
    (h : ∀ i ∈ is, KeptBy (f i) (f' i)) : KeptBy (is.mapM f) (is.mapM f') := by
  induction is with
  | nil => exact refl _
  | cons i is ih =>
    rw [List.forall_mem_cons] at h
    rw [List.mapM_cons, List.mapM_cons]
    exact h.1.bind fun a => (ih h.2).map (a :: ·)

end KeptBy

end KeptBy

section Becomes

/-- Where the first outcome is a result, the second is it too, or else the given error. -/
def Becomes (x : Option Error) (o o' : Outcome α) : Prop :=
  Succeeds o → o' = x.elim o .error

namespace Becomes

variable {x : Option Error} {o o' : Outcome α}

theorem of_eq (h : o' = o) : Becomes none o o' := fun _ => h

theorem map (h : Becomes x o o') (f : α → β) : Becomes x (f <$> o) (f <$> o') := by
  intro succeeds
  rw [h (succeeds_map.mp succeeds)]
  cases x <;> rfl

theorem bind (h : Becomes x o o') (f : α → Outcome β) : Becomes x (o >>= f) (o' >>= f) := by
  intro succeeds
  obtain ⟨a, rfl, -⟩ := succeeds_bind.mp succeeds
  rw [h (succeeds_ok a)]
  cases x <;> rfl

theorem after {f f' : α → Outcome β} (h : ∀ a, Becomes x (f a) (f' a)) :
    Becomes x (o >>= f) (o >>= f') := by
  intro succeeds
  obtain ⟨a, rfl, succeeds⟩ := succeeds_bind.mp succeeds
  exact h a succeeds

theorem mapM {f : α → Outcome β} {a a' : α} (h : Becomes x (f a) (f a')) (front back : List α) :
    Becomes x ((front ++ a :: back).mapM f) ((front ++ a' :: back).mapM f) := by
  simp only [List.mapM_append, List.mapM_cons]
  exact after fun _ => (h.bind _).bind _

end Becomes

end Becomes

end Audience.Outcome
