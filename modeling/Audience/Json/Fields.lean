import Audience.Json.Document

/-! # Records with known fields

A record is read from an object by the names of its fields, or from a list by their order. It
may leave out fields at the end of a list, or anywhere in an object, but give none twice;
what an object has besides is not looked at. The same holds of values and of documents
as written, which is where giving a field twice can be seen.
-/

namespace Audience.Json

class Readable (β : Type) where
  members? : β → Option (List (String × β))
  items? : β → Option (List β)
  value? : β → Option Json
  isNull : β → Bool

instance : Readable Json where
  members?
    | .object members => some members
    | _ => none
  items?
    | .array items => some items
    | _ => none
  value? := some
  isNull := isNull

/-- A part of a document, with the number of levels that it may still nest. -/
structure Part where
  depth : Nat
  document : Document

instance : Readable Part where
  members? p :=
    match p.depth, p.document with
    | depth + 1, .object entries =>
      entries.mapM fun (key, d) => (·, ⟨depth, d⟩) <$> Document.text? key
    | _, _ => none
  items? p :=
    match p.depth, p.document with
    | depth + 1, .array items => some (items.map (⟨depth, ·⟩))
    | _, _ => none
  value? p := Document.value? p.depth p.document
  isNull p :=
    match p.document with
    | .null => true
    | _ => false

section

variable {β : Type}

/-- The only member that goes by one of some names: a second one is refused. -/
def only? (names : List String) (members : List (String × β)) : Option (Option β) :=
  match members.filter fun (key, _) => names.contains key with
  | [] => some none
  | [(_, b)] => some (some b)
  | _ => none

/-- The fields of a record, by the names that each of them goes by. -/
def fields? [Readable β] (names : List (List String)) (b : β) : Option (List (Option β)) :=
  match Readable.members? b, Readable.items? b with
  | some members, _ => names.mapM fun names => only? names members
  | none, some items =>
    if items.length ≤ names.length then
      some (items.map some ++ List.replicate (names.length - items.length) none)
    else none
  | none, none => none

def orElse {γ : Type} (default : γ) (decode : β → Option γ) : Option β → Option γ
  | none => some default
  | some b => decode b

variable [Readable β]

def int64? (b : β) : Option Int64 :=
  (Readable.value? b).bind asInt64?

def bool? (b : β) : Option Bool :=
  (Readable.value? b).bind asBool?

def string? (b : β) : Option String :=
  (Readable.value? b).bind asString?

/-- A field that may be null. -/
def nullable? {γ : Type} (decode : β → Option γ) (b : β) : Option (Option γ) :=
  if Readable.isNull b then some none else some <$> decode b

def list? {γ : Type} (decode : β → Option γ) (b : β) : Option (List γ) :=
  (Readable.items? b).bind (·.mapM decode)

end

end Audience.Json
