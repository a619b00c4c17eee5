import Audience.Text.CaseTables

/-! # Lower case

Every character of a text is mapped to its lower case. Two characters need more than the
simple mapping: a dotted capital I keeps its dot as a mark of its own, and a capital sigma
takes its final form at the end of a word.
-/

namespace Audience.Text

/-- Whether the nearest character that casing does not look through has case. -/
def meetsCased (s : List Char) : Bool :=
  match s.dropWhile isCaseIgnorable with
  | [] => false
  | c :: _ => isCased c

def lowerChar (c : Char) : List Char :=
  if c.toNat < 0x80 then [c.toLower]
  else if c = '\u0130' then ['i', '\u0307']
  else match lowerRuns.find? (·.contains c) with
    | some run => [Char.ofNat (c.toNat + run.offset).toNat]
    | none => [c]

def lowercaseAfter (before : List Char) : List Char → List Char
  | [] => []
  | c :: rest =>
    let lowered :=
      if c = '\u03a3' then [if meetsCased before && !meetsCased rest then '\u03c2' else '\u03c3']
      else lowerChar c
    lowered ++ lowercaseAfter (c :: before) rest

def lowercase (s : List Char) : List Char :=
  lowercaseAfter [] s

end Audience.Text
