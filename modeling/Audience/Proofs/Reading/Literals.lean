import Audience.Proofs.Outcome
import Audience.Proofs.Reading.Basic

/-! # Literals by their words

A literal that is an object has one key, which is one of six words, empty, or unknown to the
built-in rules. How a literal is read does not depend on the context it stands in.
-/

namespace Audience

inductive LiteralWord where
  | date
  | duration
  | point
  | box
  | circle
  | polygon
  deriving DecidableEq, Repr

namespace LiteralWord

def list : List LiteralWord :=
  [.date, .duration, .point, .box, .circle, .polygon]

def name : LiteralWord → String
  | date => "date"
  | duration => "duration"
  | point => "geolocation"
  | box => "geobox"
  | circle => "geocircle"
  | polygon => "geopolygon"

open Grammar in
def read (value : Json) (w : LiteralWord) : Outcome Literal :=
  match w with
  | date => readDate w.name value
  | duration => readDuration w.name value
  | point => .point <$> readPoint value
  | box => (.area ∘ .box) <$> readBox w.name value
  | circle => (.area ∘ .circle) <$> readCircle w.name value
  | polygon => (.area ∘ .polygon) <$> readRing w.name value

theorem name_ne_empty (w : LiteralWord) : w.name ≠ "" := by
  cases w <;> decide

theorem builtinLiterals_read (w : LiteralWord) (c : Context) (value : Json)
    (scope : Scope (sizeOf value)) :
    Grammar.builtinLiterals.read c w.name value scope = some <$> w.read value := by
  cases w <;> exact Rule.first_of_answer rfl

theorem builtinLiterals_names :
    Grammar.builtinLiterals.exact.map (·.1) = list.map name := rfl

theorem builtinLiterals_read_of_ne {key : String} (c : Context) (value : Json)
    (scope : Scope (sizeOf value)) (h : ∀ w : LiteralWord, key ≠ w.name) :
    Grammar.builtinLiterals.read c key value scope = .ok none := by
  have hl : Grammar.builtinLiterals.exact.lookup key = none := by
    rw [List.lookup_eq_none_iff]
    intro entry hentry
    have hm := List.mem_map_of_mem (f := (·.1)) hentry
    rw [builtinLiterals_names] at hm
    obtain ⟨w, -, hw⟩ := List.mem_map.mp hm
    simpa [← hw] using h w
  rw [Registry.read, Registry.rulesFor, hl]
  rfl

end LiteralWord

/-- A key that neither a built-in rule for literals nor the check for empty keys answers. -/
structure IsUnknownWord (key : String) : Prop where
  ne_empty : key ≠ ""
  ne_name : ∀ w : LiteralWord, key ≠ w.name

inductive WordForm : String → Prop where
  | empty : WordForm ""
  | word (w : LiteralWord) : WordForm w.name
  | unknown {key : String} (h : IsUnknownWord key) : WordForm key

theorem wordForm (key : String) : WordForm key := by
  by_cases he : key = ""
  · exact he ▸ .empty
  by_cases hn : ∃ w : LiteralWord, key = w.name
  · obtain ⟨w, rfl⟩ := hn
    exact .word w
  exact .unknown ⟨he, fun w hw => hn ⟨w, hw⟩⟩

namespace Grammar

variable {kc kl : Bool} {g : Grammar} (c : Context) (value : Json)

@[simp] theorem readLiteral_null : g.readLiteral c .null = .ok .null := by
  rw [readLiteral]

@[simp] theorem readLiteral_bool (b : Bool) : g.readLiteral c (.bool b) = .ok (.bool b) := by
  rw [readLiteral]

@[simp] theorem readLiteral_number (n : Number) :
    g.readLiteral c (.number n) = .ok (.number n) := by
  rw [readLiteral]

@[simp] theorem readLiteral_string (s : String) :
    g.readLiteral c (.string s) = .ok (.string s) := by
  rw [readLiteral]

@[simp] theorem readLiteral_array (items : List Json) :
    g.readLiteral c (.array items) = fault .arrayLiteral := by
  rw [readLiteral]

theorem readLiteral_object {members : Members} (h : members.length ≠ 1) :
    g.readLiteral c (.object members) = fault (.literalKeys members.length) := by
  rw [readLiteral]
  rintro key value rfl
  exact h rfl

@[simp] theorem readLiteral_empty :
    g.readLiteral c (.object [("", value)]) = fault .emptyLiteralKey := by
  rw [readLiteral, if_pos rfl]

theorem readLiteral_of_ne {key : String} (h : key ≠ "") :
    g.readLiteral c (.object [(key, value)]) =
      match g.literals.read c key value (g.scope (sizeOf value)) with
      | .error e => .error e
      | .ok (some literal) => .ok literal
      | .ok none =>
        if g.keepUnknownLiterals then .ok (.unknown key value)
        else .error (.unknownLiteral key value) := by
  rw [readLiteral, if_neg h]
  rfl

theorem readLiteral_of_answer {key : String} {o : Outcome Literal} (ne : key ≠ "")
    (h : g.literals.read c key value (g.scope (sizeOf value)) = some <$> o) :
    g.readLiteral c (.object [(key, value)]) = o := by
  rw [readLiteral_of_ne c value ne, h]
  cases o <;> rfl

@[simp] theorem readLiteral_word (w : LiteralWord) :
    (builtin kc kl).readLiteral c (.object [(w.name, value)]) = w.read value :=
  readLiteral_of_answer c value w.name_ne_empty (w.builtinLiterals_read c value _)

theorem readLiteral_unknown {key : String} (h : IsUnknownWord key) :
    (builtin kc kl).readLiteral c (.object [(key, value)]) =
      if kl then .ok (.unknown key value) else .error (.unknownLiteral key value) := by
  rw [readLiteral_of_ne c value h.ne_empty]
  simp only [builtin, LiteralWord.builtinLiterals_read_of_ne _ _ _ h.ne_name]
  rfl

end Grammar

end Audience
