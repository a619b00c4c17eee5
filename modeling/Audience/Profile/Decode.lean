import Audience.Json.Fields
import Audience.Profile.Basic

/-! # Reading profiles

Every field of a profile may be left out. Dates and times are whole numbers of 64 bits.
-/

namespace Audience

open Json

variable {β : Type} [Readable β]

def Presence.decode? (b : β) : Option Presence := do
  let [fromDate, untilDate, elapsedTime] ←
      fields? [["fromDate"], ["untilDate"], ["elapsedTime"]] b
    | none
  return {
    fromDate := ← fromDate.bind int64?
    untilDate := ← untilDate.bind int64?
    elapsedTime := ← elapsedTime.bind int64? }

def Profile.decode? (b : β) : Option Profile := do
  let [installation, user, events, presence, lastOpened] ←
      fields? [["installation"], ["user"], ["events", "allEvents"], ["presenceInfo"],
        ["lastAppOpenDate"]] b
    | none
  return {
    installation := ← orElse .emptyObject Readable.value? installation
    user := ← orElse none (nullable? Readable.value?) user
    events := ← orElse [] (list? Readable.value?) events
    presence := ← orElse none (nullable? Presence.decode?) presence
    lastOpened := ← orElse 0 int64? lastOpened }

/-- Reads a profile straight from its text. -/
def Profile.parse? (text : String) : Option Profile :=
  (Document.parse? text).bind fun d => Profile.decode? (β := Part) ⟨Document.depthLimit, d⟩

end Audience
