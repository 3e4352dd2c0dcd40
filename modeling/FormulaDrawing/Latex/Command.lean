import FormulaDrawing.Formula.Basic
import FormulaDrawing.Formula.Symbols

/-!
# Commands

What a command name after a backslash calls for. A name that is not known stands for its own text.
-/

namespace FormulaDrawing.Latex

inductive Command where
  | fraction
  | root
  | bigOperator (operator : BigOperator)
  | limit
  /-- Sizes the delimiter after it; a dot after it is an invisible delimiter. -/
  | sizing
  /-- White space without a character of its own. -/
  | space
  /-- Text taken literally from the braces after it; without braces the command is its own text. -/
  | rawText (name : String)
  | leaf (leaf : Leaf)
deriving DecidableEq, Repr

namespace Command

/-- The commands with a meaning in the grammar. -/
def structural : List (String × Command) :=
  [("frac", .fraction), ("dfrac", .fraction), ("tfrac", .fraction),
   ("sqrt", .root),
   ("int", .bigOperator .integral), ("sum", .bigOperator .sum),
   ("lim", .limit),
   ("left", .sizing), ("right", .sizing),
   ("quad", .space), ("qquad", .space),
   ("text", .rawText "text"), ("mathrm", .rawText "mathrm"), ("textrm", .rawText "textrm")]

/-- The leaf of a command without a meaning in the grammar. -/
def leafOfName (name : String) : Leaf :=
  match greekLetter? name with
  | some glyph => .greek glyph
  | none =>
    if isFunctionName name then .function name
    else
      match substitution? name with
      | some (.operator c) => .operator c
      | some (.symbol c) => .text (String.singleton c)
      | none => .text name

/-- The command of a name. -/
def ofName (name : String) : Command :=
  match structural.lookup name with
  | some command => command
  | none => .leaf (leafOfName name)

end Command

/-- The characters that after a backslash make white space or a line break. -/
def spacingCharacters : List Char := [',', ';', ':', '!', ' ', '\\']

end FormulaDrawing.Latex
