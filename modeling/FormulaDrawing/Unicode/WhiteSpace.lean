import FormulaDrawing.Unicode.Ranges

/-!
# The property White_Space

The characters skipped between the parts of a formula, and trimmed to decide whether a text is
blank.
-/

namespace FormulaDrawing.Unicode

/-- The code points with the property White_Space. -/
def whiteSpace : List (Nat × Nat) :=
  [(0x9, 0xD), (0x20, 0x20), (0x85, 0x85), (0xA0, 0xA0), (0x1680, 0x1680), (0x2000, 0x200A),
   (0x2028, 0x2029), (0x202F, 0x202F), (0x205F, 0x205F), (0x3000, 0x3000)]

/-- Whether a character has the property White_Space. -/
def isWhiteSpace (c : Char) : Bool := inRanges whiteSpace c.toNat

/-- Whether a text holds nothing but white space. -/
def isBlank (s : String) : Bool := s.toList.all isWhiteSpace

end FormulaDrawing.Unicode
