/-!
# Hexadecimal digits
-/

namespace FormulaDrawing

/-- The value of a hexadecimal digit of either case. -/
def hexValue? (c : Char) : Option Nat :=
  if '0' ≤ c && c ≤ '9' then some (c.toNat - '0'.toNat)
  else if 'a' ≤ c && c ≤ 'f' then some (c.toNat - 'a'.toNat + 10)
  else if 'A' ≤ c && c ≤ 'F' then some (c.toNat - 'A'.toNat + 10)
  else none

/-- A byte as two lower case digits. -/
def hexByte (n : UInt8) : List Char :=
  [(n.toNat / 16).digitChar, (n.toNat % 16).digitChar]

end FormulaDrawing
