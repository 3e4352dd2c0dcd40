/-!
# Symbols

The tables behind commands: Greek letters, functions written by name, single glyph substitutions,
and the operators of plain text.
-/

namespace FormulaDrawing

/-- What a command for a single glyph stands for. -/
inductive Substitution where
  /-- Spaced like a binary operator or a relation. -/
  | operator (c : Char)
  /-- Laid out as plain text. -/
  | symbol (c : Char)
deriving DecidableEq, Repr

/-- The commands for Greek letters. -/
def greekLetters : List (String × Char) :=
  [("alpha", '\u03B1'), ("beta", '\u03B2'), ("gamma", '\u03B3'), ("delta", '\u03B4'),
   ("epsilon", '\u03F5'), ("varepsilon", '\u03B5'), ("zeta", '\u03B6'), ("eta", '\u03B7'),
   ("theta", '\u03B8'), ("vartheta", '\u03D1'), ("iota", '\u03B9'), ("kappa", '\u03BA'),
   ("lambda", '\u03BB'), ("mu", '\u03BC'), ("nu", '\u03BD'), ("xi", '\u03BE'),
   ("omicron", '\u03BF'), ("pi", '\u03C0'), ("rho", '\u03C1'), ("sigma", '\u03C3'),
   ("tau", '\u03C4'), ("upsilon", '\u03C5'), ("phi", '\u03D5'), ("varphi", '\u03C6'),
   ("chi", '\u03C7'), ("psi", '\u03C8'), ("omega", '\u03C9'),
   ("Gamma", '\u0393'), ("Delta", '\u0394'), ("Theta", '\u0398'), ("Lambda", '\u039B'),
   ("Xi", '\u039E'), ("Pi", '\u03A0'), ("Sigma", '\u03A3'), ("Upsilon", '\u03A5'),
   ("Phi", '\u03A6'), ("Psi", '\u03A8'), ("Omega", '\u03A9')]

/-- The functions written by name. -/
def functionNames : List String :=
  ["sin", "cos", "tan", "cot", "sec", "csc", "arcsin", "arccos", "arctan", "sinh", "cosh", "tanh",
   "log", "ln", "lg", "exp", "min", "max", "sup", "inf", "det", "dim", "ker", "deg", "gcd", "arg"]

/-- The commands for single glyphs. -/
def substitutions : List (String × Substitution) :=
  [("cdot", .operator '\u00B7'), ("times", .operator '\u00D7'), ("div", .operator '\u00F7'),
   ("pm", .operator '\u00B1'), ("mp", .operator '\u2213'),
   ("neq", .operator '\u2260'), ("ne", .operator '\u2260'),
   ("leq", .operator '\u2264'), ("le", .operator '\u2264'),
   ("geq", .operator '\u2265'), ("ge", .operator '\u2265'),
   ("approx", .operator '\u2248'), ("equiv", .operator '\u2261'), ("in", .operator '\u2208'),
   ("to", .operator '\u2192'), ("rightarrow", .operator '\u2192'),
   ("leftarrow", .operator '\u2190'),
   ("Rightarrow", .operator '\u21D2'), ("implies", .operator '\u21D2'),
   ("infty", .symbol '\u221E'), ("partial", .symbol '\u2202'), ("nabla", .symbol '\u2207'),
   ("cdots", .symbol '\u22EF'), ("ldots", .symbol '\u2026'), ("dots", .symbol '\u2026')]

/-- The Greek letter of a command. -/
def greekLetter? (name : String) : Option Char := greekLetters.lookup name

/-- Whether a command is a function written by name. -/
def isFunctionName (name : String) : Bool := functionNames.contains name

/-- The glyph of a command for a single glyph. -/
def substitution? (name : String) : Option Substitution := substitutions.lookup name

/-- The operator that a character of plain text stands for: the star and the slash become the signs
of multiplication and division. -/
def normalizeOperator? (c : Char) : Option Char :=
  if c = '*' then some '\u00D7'
  else if c = '/' then some '\u00F7'
  else if ['+', '-', '=', '<', '>', '\u00D7', '\u00F7'].contains c then some c
  else none

end FormulaDrawing
