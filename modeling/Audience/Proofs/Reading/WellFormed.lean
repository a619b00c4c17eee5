import Audience.Proofs.Reading.Written

/-! # Well-formed segments

A criterion asks certain sources of its context, contexts grow down a tree from the record that
the segment is about, and what is known of presence comes from the presence around it. All of
this holds of every criterion at every place of a tree that was read.
-/

namespace Audience

namespace Source

/-- Fields are folded and have a path, and figures are derived from the installation. -/
def IsSound : Source → Prop
  | .root _ => True
  | .field parent path => path ≠ [] ∧ (∀ outer front, parent ≠ .field outer front) ∧ parent.IsSound
  | .lastActivity parent | .sinceDate parent _ | .elapsedTime parent _ | .geoLocation parent
  | .geoDate parent => parent = .root .installation

def presenceFlag? : Source → Option Bool
  | .root _ => none
  | .sinceDate _ present | .elapsedTime _ present => some present
  | .field parent _ | .lastActivity parent | .geoLocation parent | .geoDate parent =>
    parent.presenceFlag?

theorem IsSound.project {s : Source} (h : s.IsSound) {path : Path} (ne : path ≠ []) :
    (s.project path).IsSound := by
  cases s with
  | field parent front =>
    obtain ⟨-, folded, sound⟩ := h
    exact ⟨by simp [ne], folded, sound⟩
  | _ => exact ⟨ne, nofun, h⟩

@[simp] theorem presenceFlag?_project (s : Source) (path : Path) :
    (s.project path).presenceFlag? = s.presenceFlag? := by
  cases s <;> rfl

end Source

namespace Context

def chain (c : Context) : List Source :=
  c.source :: c.ancestors

@[simp] theorem chain_root (r : Root) : (root r).chain = [.root r] := rfl

@[simp] theorem chain_child (c : Context) (s : Source) : (c.child s).chain = s :: c.chain := rfl

theorem chain_suffix_child (c : Context) (s : Source) : c.chain <:+ (c.child s).chain :=
  List.suffix_cons s c.chain

/-- A context below a kind of record, under presence with a flag or under none. -/
structure IsSound (r : Root) (flag : Option Bool) (c : Context) : Prop where
  sources : ∀ s ∈ c.chain, s.IsSound
  bottom : c.chain.getLast? = some (.root r)
  presence : ∀ present ∈ c.source.presenceFlag?, flag = some present

theorem IsSound.root (r : Root) : (Context.root r).IsSound r none where
  sources := by simp [Source.IsSound]
  bottom := rfl
  presence := nofun

theorem IsSound.child {r : Root} {flag flag' : Option Bool} {c : Context} {s : Source}
    (h : c.IsSound r flag) (hs : s.IsSound)
    (hf : ∀ present ∈ s.presenceFlag?, flag' = some present) : (c.child s).IsSound r flag' where
  sources := by
    rw [chain_child, List.forall_mem_cons]
    exact ⟨hs, h.sources⟩
  bottom := by
    rw [chain_child, chain, List.getLast?_cons_cons]
    exact h.bottom
  presence := hf

theorem IsSound.field {r : Root} {flag : Option Bool} {c : Context} {path : Path}
    (h : c.IsSound r flag) (ne : path ≠ []) :
    (c.child (c.source.project path)).IsSound r flag :=
  h.child ((h.sources _ List.mem_cons_self).project ne)
    (by simpa using h.presence)

end Context

namespace Criterion

/-- What a criterion asks of its context and of the parts that it always has. -/
def IsPlaced : Criterion → Prop
  | .matchAll c => c.source.isRoot = true
  | .equals c _ | .compares c _ _ | .any c _ | .all c _ | .inside c _ => c.source.isRoot = false
  | .startsWith c literal => c.source.isRoot = false ∧ ∃ s, literal = .string s
  | .geo c _ _ | .presence c _ _ _ | .subscription c _ => c.source = .root .installation
  | .lastActivity c comparison => c.source = .root .installation ∧ comparison.isSome
  | .join c _ => ∃ r, c.source = .root r
  | .not _ _ | .and _ _ | .or _ _ | .unknown _ _ _ => True

def presence? : Criterion → Option Bool
  | .presence _ present _ _ => some present
  | _ => none

/-- The criteria of a tree, each with the flag of the innermost presence above it. -/
inductive Node (a : Criterion) : Option Bool → Criterion → Prop where
  | top : Node a none a
  | child {flag b d} (h : Node a flag b) (hd : d ∈ b.children) :
      Node a (b.presence?.or flag) d

/-- A tree about a kind of record whose criteria all stand where they may. -/
structure WellFormed (r : Root) (a : Criterion) : Prop where
  placed : ∀ flag b, Node a flag b → b.IsPlaced
  sources : ∀ flag b, Node a flag b → ∀ s ∈ b.context.chain, s.IsSound
  presence : ∀ flag b, Node a flag b →
    ∀ present ∈ b.context.source.presenceFlag?, flag = some present
  bottom : ∀ flag b, Node a flag b → b.context.chain.getLast? = some (.root r)
  grows : ∀ flag b d, Node a flag b → d ∈ b.children → b.context.chain <:+ d.context.chain

end Criterion

theorem Written.isPlaced {c : Context} {a : Criterion} (h : Written c a) : a.IsPlaced := by
  induction h with
  | field _ _ ih | stay _ ih => exact ih
  | startsWith field => exact ⟨field, _, rfl⟩
  | lastActivity installation => exact ⟨installation, rfl⟩
  | join => exact ⟨_, rfl⟩
  | not | and | or | unknown => trivial
  | _ => assumption

theorem Written.chain_suffix {c : Context} {a : Criterion} (h : Written c a) :
    c.chain <:+ a.context.chain := by
  induction h with
  | field _ _ ih | stay _ ih => exact (Context.chain_suffix_child _ _).trans ih
  | join => exact Context.chain_suffix_child _ _
  | _ => exact List.suffix_rfl

theorem Written.context_isSound {r : Root} {flag : Option Bool} {c : Context} {a : Criterion}
    (h : Written c a) (hc : c.IsSound r flag) : a.context.IsSound r flag := by
  induction h with
  | field ne _ ih => exact ih (hc.field ne)
  | stay _ ih => exact ih (hc.child trivial nofun)
  | join => exact hc.child trivial nofun
  | _ => exact hc

/-- A part stands below the criterion that it is a part of, under the presence of that. -/
theorem Part.context_isSound {r : Root} {flag : Option Bool} {a b : Criterion} {c : Context}
    (h : Part a c b) (placed : a.IsPlaced) (ha : a.context.IsSound r flag) :
    c.IsSound r (a.presence?.or flag) := by
  cases h with
  | location | date => exact ha.child placed ha.presence
  | comparison => exact ha.child placed.1 ha.presence
  | since | elapsed => exact ha.child placed (by rintro _ ⟨⟩; rfl)
  | _ => exact ha

theorem Part.chain_suffix {a b : Criterion} {c : Context} (h : Part a c b) :
    a.context.chain <:+ c.chain := by
  cases h with
  | location | date | comparison | since | elapsed => exact Context.chain_suffix_child _ _
  | _ => exact List.suffix_rfl

def Criterion.Stands (r : Root) (flag : Option Bool) (a : Criterion) : Prop :=
  ∃ c, Written c a ∧ c.IsSound r flag

namespace Criterion

variable {r : Root} {flag : Option Bool} {a b : Criterion}

theorem Stands.child (h : a.Stands r flag) (hb : b ∈ a.children) :
    b.Stands r (a.presence?.or flag) ∧ a.context.chain <:+ b.context.chain := by
  obtain ⟨c, hc, sound⟩ := h
  obtain ⟨d, hd⟩ := exists_part hb
  have hbd := hc.part hd
  exact ⟨⟨d, hbd, hd.context_isSound hc.isPlaced (hc.context_isSound sound)⟩,
    hd.chain_suffix.trans hbd.chain_suffix⟩

theorem Node.stands (h : Node a flag b) (ha : a.Stands r none) : b.Stands r flag := by
  induction h with
  | top => exact ha
  | child _ hd ih => exact (ih.child hd).1

theorem Stands.wellFormed (h : a.Stands r none) : a.WellFormed r where
  placed _ _ hb := by
    obtain ⟨c, hc, -⟩ := hb.stands h
    exact hc.isPlaced
  sources _ _ hb := by
    obtain ⟨c, hc, sound⟩ := hb.stands h
    exact (hc.context_isSound sound).sources
  presence _ _ hb := by
    obtain ⟨c, hc, sound⟩ := hb.stands h
    exact (hc.context_isSound sound).presence
  bottom _ _ hb := by
    obtain ⟨c, hc, sound⟩ := hb.stands h
    exact (hc.context_isSound sound).bottom
  grows _ _ _ hb hd := ((hb.stands h).child hd).2

end Criterion

end Audience
