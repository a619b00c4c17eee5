import Mathlib
import Audience.Command.Basic
import Audience.Proofs.Catalog.History

/-! # Commands that agree

Listing the segments of a file goes through a catalog: every document is registered under an
identifier that is drawn for it, the identifiers of the matching segments are looked up again, and
their names are reported. What is reported is what evaluating the documents one by one would tell.
-/

namespace Audience

variable {ι : Type} [BEq ι] [Hashable ι]

section Registration

open Catalog (Keeps drawn)

variable {g : Grammar} {c : Catalog ι} {calls : List (Catalog.Call ι)} {draw : Nat → ι}
  {members : Members}

namespace Command

variable [LawfulBEq ι]

end Command

end Registration

namespace Command

section Run

variable {strict : Bool} {given : Option String} {environment : List (String × String)}
  {clock now : Int64} {draw : Nat → ι} {segment segments data : Input} {members : Members}
  {p : Profile}

end Run

end Command

end Audience
