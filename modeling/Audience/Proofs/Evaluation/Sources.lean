import Audience.Evaluation

/-! # Folded sources

A field of a field can be kept as one source with the longer path or as two that lie in each other.
The two are different trees, with different parents, but nothing that looks at a source tells them
apart: neither its name nor its record, its path or its values. This is so wherever fields are
folded in a source, as long as none of them has an empty path, which would leave two dots in a name.
-/

namespace Audience

theorem Path.text_append {front back : Path} (hf : front ≠ []) (hb : back ≠ []) :
    Path.text (front ++ back) = Path.text front ++ "." ++ Path.text back :=
  String.intercalate_append_of_ne_nil hf hb

namespace Source

/-- Whether every field in a source has a path of at least one key. -/
def HasPaths : Source → Prop
  | .root _ => True
  | .field parent path => path ≠ [] ∧ parent.HasPaths
  | .lastActivity parent | .sinceDate parent _ | .elapsedTime parent _ | .geoLocation parent
  | .geoDate parent => parent.HasPaths

/-- Sources that nothing tells apart but their parents. -/
structure Alike (s t : Source) : Prop where
  name : s.name = t.name
  record : s.record = t.record
  fullPath : s.fullPath = t.fullPath
  values : ∀ (p : Profile) (now : Int64) (record : Json),
    p.valuesOf now record s = p.valuesOf now record t

namespace Alike

theorem refl (s : Source) : Alike s s :=
  ⟨rfl, rfl, rfl, fun _ _ _ => rfl⟩

theorem trans {s t u : Source} (h : Alike s t) (h' : Alike t u) : Alike s u where
  name := h.name.trans h'.name
  record := h.record.trans h'.record
  fullPath := h.fullPath.trans h'.fullPath
  values p now record := (h.values p now record).trans (h'.values p now record)

theorem field {s t : Source} (h : Alike s t) (path : Path) :
    Alike (.field s path) (.field t path) where
  name := by simp only [Source.name, h.name]
  record := h.record
  fullPath := by simp only [Source.fullPath, h.fullPath]
  values _ _ _ := by simp only [Profile.valuesOf, Source.fullPath, h.fullPath]

end Alike

theorem alike_project {s : Source} (paths : s.HasPaths) {path : Path} (ne : path ≠ []) :
    Alike (s.project path) (.field s path) := by
  cases s with
  | field parent front =>
    obtain ⟨hf, -⟩ := paths
    refine ⟨?_, rfl, fullPath_project .., fun p now record => ?_⟩
    · simp only [project, name, Path.text_append hf ne, String.append_assoc]
    · exact congrArg record.valuesAt (fullPath_project (.field parent front) path)
  | _ => exact .refl _

theorem fullPath_of_ne_field {s : Source} (h : ∀ parent path, s ≠ .field parent path) :
    s.fullPath = [] := by
  cases s with
  | field parent path => exact absurd rfl (h parent path)
  | _ => rfl

/-- Folding the next field of a source cannot be seen: name, record, path and values are those of
the field around the source, and the path goes on from the source unless that is no field. -/
theorem project_eq_field (s : Source) (paths : s.HasPaths) {path : Path} (ne : path ≠ []) :
    (s.project path).name = (field s path).name ∧
      (s.project path).record = s.record ∧ (field s path).record = s.record ∧
      (s.project path).fullPath = s.fullPath ++ path ∧
      (field s path).fullPath = s.fullPath ++ path ∧
      ((∀ parent front, s ≠ field parent front) → s.fullPath = []) ∧
      ∀ (p : Profile) (now : Int64) (record : Json),
        p.valuesOf now record (s.project path) = p.valuesOf now record (field s path) :=
  have alike := alike_project paths ne
  ⟨alike.name, record_project s path, rfl, fullPath_project s path, rfl, fullPath_of_ne_field,
    alike.values⟩

def positionCenter : Source :=
  .field (.field (.geoLocation (.root .installation)) ["position"]) ["center"]

theorem project_eq_field_positionCenter :
    positionCenter.HasPaths ∧ ["lat"] ≠ [] ∧
      positionCenter.project ["lat"] ≠ field positionCenter ["lat"] ∧
      (positionCenter.project ["lat"]).name = (field positionCenter ["lat"]).name ∧
      (positionCenter.project ["lat"]).fullPath = ["position", "center", "lat"] := by
  have paths : positionCenter.HasPaths := by simp [positionCenter, HasPaths]
  have ne : ["lat"] ≠ [] := by simp
  have same := positionCenter.project_eq_field paths ne
  exact ⟨paths, ne, by decide, same.1, same.2.2.2.1⟩

/-- The source with every field folded into the field it lies in. -/
def folded : Source → Source
  | .root r => .root r
  | .field parent path => parent.folded.project path
  | .lastActivity parent => .lastActivity parent.folded
  | .sinceDate parent present => .sinceDate parent.folded present
  | .elapsedTime parent present => .elapsedTime parent.folded present
  | .geoLocation parent => .geoLocation parent.folded
  | .geoDate parent => .geoDate parent.folded

theorem HasPaths.project {s : Source} (paths : s.HasPaths) {path : Path} (ne : path ≠ []) :
    (s.project path).HasPaths := by
  cases s with
  | field parent front => exact ⟨List.append_ne_nil_of_right_ne_nil front ne, paths.2⟩
  | _ => exact ⟨ne, paths⟩

theorem HasPaths.folded {s : Source} (paths : s.HasPaths) : s.folded.HasPaths := by
  induction s with
  | root => exact paths
  | field parent path ih => exact (ih paths.2).project paths.1
  | sinceDate parent present ih | elapsedTime parent present ih => exact ih paths
  | _ parent ih => exact ih paths

/-- However the fields of a source are mixed, folded or not, it is alike the folded one. -/
theorem alike_folded {s : Source} (paths : s.HasPaths) : Alike s.folded s := by
  induction s with
  | root => exact .refl _
  | field parent path ih =>
    exact (alike_project paths.2.folded paths.1).trans ((ih paths.2).field path)
  | sinceDate parent present ih | elapsedTime parent present ih =>
    exact ⟨rfl, (ih paths).record, rfl, fun _ _ _ => rfl⟩
  | _ parent ih => exact ⟨rfl, (ih paths).record, rfl, fun _ _ _ => rfl⟩

end Source

end Audience
