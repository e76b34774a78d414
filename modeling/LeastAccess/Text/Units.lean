/-!
# UTF-16 units

A text as the units of UTF-16: one for a character of the basic plane, and a pair for any other.
-/

namespace LeastAccess.Text

/-- The units of one character. -/
def charUnits (c : Char) : List Nat :=
  if c.toNat < 0x10000 then [c.toNat]
  else [0xD800 + (c.toNat - 0x10000) / 0x400, 0xDC00 + (c.toNat - 0x10000) % 0x400]

/-- The units of a text. -/
def units (cs : List Char) : List Nat := cs.flatMap charUnits

/-- The start of a text that has a number of units. Half of a pair shows as a replacement character. -/
def takeUnits : Nat → List Char → List Char
  | _, [] => []
  | n, c :: rest =>
    if (charUnits c).length ≤ n then c :: takeUnits (n - (charUnits c).length) rest
    else if n = 0 then [] else ['\ufffd']

end LeastAccess.Text
