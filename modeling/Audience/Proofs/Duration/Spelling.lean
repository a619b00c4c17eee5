import Mathlib
import Audience.Duration.Written
import Audience.Proofs.Binary64.Nearest
import Audience.Proofs.Decimal.Written

/-! # Spellings of durations

A duration is spelled by an optional sign, a `P`, the parts of its date, and perhaps a `T` with the
parts of its time. Every part may be missing, and an `M` counts months before the `T` and minutes
behind it.
-/

namespace Audience.Duration

open Decimal

inductive Sign where
  | plus
  | minus
  deriving DecidableEq

def Sign.char : Sign → Char
  | .plus => '+'
  | .minus => '-'

structure DateText where
  years : Option NumberText
  months : Option NumberText
  weeks : Option NumberText
  days : Option NumberText

structure TimeText where
  hours : Option NumberText
  minutes : Option NumberText
  seconds : Option NumberText

structure Spelling where
  sign : Option Sign
  date : DateText
  time : Option TimeText

def marked (mark : Char) (n : Option NumberText) : List Char :=
  n.elim [] fun n => n.chars ++ [mark]

/-- Parts with their marks, one after the other. -/
def spelled (fields : List (Char × Option NumberText)) : List Char :=
  fields.flatMap fun (mark, n) => marked mark n

@[simp] theorem spelled_nil : spelled [] = [] :=
  rfl

@[simp] theorem spelled_cons (mark : Char) (n : Option NumberText)
    (fields : List (Char × Option NumberText)) :
    spelled ((mark, n) :: fields) = marked mark n ++ spelled fields :=
  rfl

def DateText.chars (date : DateText) : List Char :=
  spelled [('Y', date.years), ('M', date.months), ('W', date.weeks), ('D', date.days)]

def TimeText.chars (time : TimeText) : List Char :=
  'T' :: spelled [('H', time.hours), ('M', time.minutes), ('S', time.seconds)]

def IsRead : Option NumberText → Float → Prop
  | some n, x => Binary64.IsNearest n.value x
  | none, x => x = 0

namespace Spelling

def chars (x : Spelling) : List Char :=
  x.sign.elim [] (fun sign => [sign.char]) ++
    'P' :: (x.date.chars ++ x.time.elim [] TimeText.chars)

def text (x : Spelling) : String :=
  String.ofList x.chars

def parts (x : Spelling) : Parts (Option NumberText) where
  years := x.date.years
  months := x.date.months
  weeks := x.date.weeks
  days := x.date.days
  hours := x.time.bind TimeText.hours
  minutes := x.time.bind TimeText.minutes
  seconds := x.time.bind TimeText.seconds

/-- The duration that a spelling stands for: each part is the double nearest to its number. -/
structure Denotes (x : Spelling) (d : Duration Float) : Prop where
  sign : d.positive = false ↔ x.sign = some .minus
  parts : List.Forall₂ IsRead x.parts.toList d.parts.toList

theorem text_eq_iff {x : Spelling} {text : String} : x.text = text ↔ x.chars = text.toList := by
  rw [Spelling.text, ← String.toList_inj, String.toList_ofList]

end Spelling

def halfYearBack : Spelling where
  sign := some .minus
  date := ⟨some ⟨0, [], some (.comma, [5])⟩, none, none, none⟩
  time := some ⟨none, some ⟨3, [], none⟩, none⟩

def halfWeeksBack : Spelling where
  sign := some .minus
  date := ⟨none, none, some ⟨1, [], none⟩, some ⟨0, [], some (.comma, [5])⟩⟩
  time := none

def endless : Spelling where
  sign := none
  date := ⟨some ⟨1, List.replicate 309 0, none⟩, none, none, none⟩
  time := none

def halvesBack : Spelling where
  sign := some .minus
  date := ⟨some ⟨1, [], some (.comma, [5])⟩, some ⟨0, [], some (.comma, [5])⟩, none, none⟩
  time := none

/-- The first whole number of seconds with more milliseconds than 64 bits count that a double
keeps. -/
def aeon : Spelling where
  sign := none
  date := ⟨none, none, none, none⟩
  time := some ⟨none, none, some ⟨9, [2, 2, 3, 3, 7, 2, 0, 3, 6, 8, 5, 4, 7, 8, 4], none⟩⟩

def monthAndWeekBack : Spelling where
  sign := some .minus
  date := ⟨none, some ⟨1, [], none⟩, some ⟨1, [], none⟩, some ⟨0, [], some (.comma, [7, 5])⟩⟩
  time := some ⟨none, none, some ⟨0, [], some (.comma, [5])⟩⟩

def oneDay : Spelling where
  sign := none
  date := ⟨none, none, none, some ⟨1, [], none⟩⟩
  time := none

/-- More days than a double can count. -/
def endlessDays : Spelling where
  sign := none
  date := ⟨none, none, none, some ⟨1, List.replicate 309 0, none⟩⟩
  time := none

end Audience.Duration
