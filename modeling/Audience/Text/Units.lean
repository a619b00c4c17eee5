/-! # Order of texts by UTF-16 units

A character beyond the sixteen-bit plane is two surrogate units, which sort below the
characters from U+E000 on.
-/

namespace Audience.Text

def units (c : Char) : List Nat :=
  if c.toNat < 0x10000 then [c.toNat]
  else
    let n := c.toNat - 0x10000
    [0xd800 + n / 0x400, 0xdc00 + n % 0x400]

/-- Texts in the lexicographic order of their units; a proper initial part comes first. -/
def compareUnits (x y : String) : Ordering :=
  List.compareLex compare (x.toList.flatMap units) (y.toList.flatMap units)

end Audience.Text
