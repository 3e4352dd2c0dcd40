import FormulaDrawing.Formula.Basic

/-!
# Frames

What a reader of LaTeX has begun and not finished is a stack of frames: sequences that run to a
closing character, and arguments that a structure still waits for. Every frame weighs one towards
the nesting limit.
-/

namespace FormulaDrawing.Latex

/-- How a sequence inside a formula closes. -/
inductive Closer where
  | brace
  | parenthesis
  | bar
  /-- Closes the index of a root. -/
  | bracket
deriving DecidableEq, Repr

namespace Closer

/-- The character that closes the sequence. -/
def char : Closer → Char
  | .brace => '}'
  | .parenthesis => ')'
  | .bar => '|'
  | .bracket => ']'

end Closer

/-- What an argument is for. -/
inductive Slot where
  | script (side : ScriptSide)
  | numerator
  | denominator (numerator : Formula)
  | radicand (index : Option Formula)
  | lowerLimit (operator : BigOperator) (upper : Option Formula)
  | upperLimit (operator : BigOperator) (lower : Option Formula)
  | approach
deriving Repr

/-- One unfinished structure. -/
inductive Frame where
  | sequence (closer : Closer) (items : Array Formula)
  | argument (slot : Slot)
deriving Repr

/-- Whether the lookahead closes some sequence of the stack, innermost or not. The end of the text
closes every sequence. -/
def closesAny (frames : List Frame) : Option Char → Bool
  | none => true
  | some c =>
    frames.any fun
      | .sequence closer _ => closer.char == c
      | .argument _ => false

namespace Slot

/-- The structure that an argument completes if nothing more belongs to it. -/
def fill (x : Formula) : Slot → Formula
  | .script side => .script side x
  | .numerator => .fraction x .missing
  | .denominator n => .fraction n x
  | .radicand index => .root index x
  | .lowerLimit op upper => .bigOperator op (some x) upper
  | .upperLimit op lower => .bigOperator op lower (some x)
  | .approach => .limit (some x)

end Slot

end FormulaDrawing.Latex
