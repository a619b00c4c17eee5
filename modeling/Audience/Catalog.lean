import Std.Data.HashMap
import Audience.Evaluation
import Audience.Grammar.Criteria

/-! # Catalogs of segments

A catalog keeps named segments under identifiers that are drawn elsewhere. Every segment is read
once, when it is registered, and numbered in the order of registrations; numbers are never used
again.
-/

namespace Audience

structure Segment (ι : Type) where
  id : ι
  name : String
  /-- The document that the criterion was read from. -/
  document : Json
  criterion : Criterion
  /-- The number of segments registered before. It has no bound here: a counter of 64 bits would
  start again only after more registrations than any run makes. -/
  sequence : Nat

structure Catalog (ι : Type) [BEq ι] [Hashable ι] where
  grammar : Grammar
  segments : Std.HashMap ι (Segment ι)
  /-- The number of the next segment, without a bound as the numbers of segments are. -/
  next : Nat

namespace Catalog

variable {ι : Type} [BEq ι] [Hashable ι]

def empty (g : Grammar) : Catalog ι :=
  ⟨g, ∅, 0⟩

/-- Registers a segment about installations under a new identifier. A document that is not read
leaves the catalog as it is. -/
def register (c : Catalog ι) (id : ι) (name : String) (document : Json) :
    Outcome ι × Catalog ι :=
  match c.grammar.read .installation document with
  | .error e => (.error e, c)
  | .ok criterion =>
    let segment := { id, name, document, criterion, sequence := c.next }
    (.ok id, { c with segments := c.segments.insert id segment, next := c.next + 1 })

def get? (c : Catalog ι) (id : ι) : Option (Segment ι) :=
  c.segments[id]?

/-- Takes a segment out of the catalog, and tells what it was. -/
def remove (c : Catalog ι) (id : ι) : Option (Segment ι) × Catalog ι :=
  (c.get? id, { c with segments := c.segments.erase id })

/-- All segments, in the order of registration. -/
def list (c : Catalog ι) : List (Segment ι) :=
  (c.segments.toList.map (·.2)).mergeSort fun s t => s.sequence ≤ t.sequence

def size (c : Catalog ι) : Nat :=
  c.segments.size

def isEmpty (c : Catalog ι) : Bool :=
  c.segments.isEmpty

/-- The identifiers of the segments that a profile belongs to, in the order of registration. The
clock is read again for every segment. -/
def matching (c : Catalog ι) (p : Profile) (clock : Nat → Int64) : List ι :=
  (c.list.zipIdx.filter fun (s, reading) => p.belongsTo (clock reading) s.criterion).map (·.1.id)

end Catalog

end Audience
