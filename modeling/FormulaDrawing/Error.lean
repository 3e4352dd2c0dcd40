/-!
# Errors

Everything that can go wrong, as causes. `Error.message` holds the wording.

A fault found in a text has a position there, which a report may add behind its message. Messages
stand without it, and `withoutPosition` cuts it off: a quoted text that ends like a position loses
that end too.
-/

namespace FormulaDrawing

/-- How far a JSON text was from being one: it broke the grammar, it ended early, or it is
well formed and says something that was not asked for. -/
inductive JsonProblem where
  | malformed
  | ended
  | mistyped
deriving DecidableEq, Repr

/-- The option that layout cannot work with. -/
inductive OptionProblem where
  /-- The font size, as written. -/
  | fontSize (shown : String)
  /-- The stroke width, as written. -/
  | strokeWidth (shown : String)
  | origin
  | nestingLimit
deriving DecidableEq, Repr

inductive Error where
  /-- An expression of white space only. -/
  | emptyExpression
  /-- A host value that is no string; holds the name of its kind. -/
  | notText (kind : String)
  /-- Reading would nest to `depth`, past `limit`. -/
  | nestingTooDeep (depth limit : Nat)
  /-- A layout without anything to draw. -/
  | nothingToDraw
  /-- Options text that does not decode. -/
  | undecodableOptions (problem : JsonProblem)
  /-- Options text with a colour that is none. -/
  | invalidColor (text : String)
  /-- Options that decode to unusable values. -/
  | invalidOptions (problem : OptionProblem)
deriving DecidableEq, Repr

namespace OptionProblem

def message : OptionProblem → String
  | .fontSize shown => "font size must be positive, got " ++ shown
  | .strokeWidth shown => "stroke width must be positive, got " ++ shown
  | .origin => "origin must be finite"
  | .nestingLimit => "nesting limit must be at least 1"

end OptionProblem

namespace JsonProblem

def message : JsonProblem → String
  | .malformed => "malformed JSON"
  | .ended => "JSON ended early"
  | .mistyped => "unexpected value"

end JsonProblem

/-! ## Positions -/

namespace Position

/-- What follows a word. -/
def afterWord? : List Char → List Char → Option (List Char)
  | [], cs => some cs
  | _ :: _, [] => none
  | w :: ws, c :: cs => if c = w then afterWord? ws cs else none

/-- Counts of lines and columns stay below this. -/
def countBound : Nat := UInt64.size

/-- What follows a count. -/
def afterCount? (cs : List Char) : Option (List Char) :=
  let digits := cs.takeWhile Char.isDigit
  let count := digits.foldl (fun n c => n * 10 + (c.toNat - '0'.toNat)) 0
  if digits.isEmpty || countBound ≤ count then none else some (cs.dropWhile Char.isDigit)

/-- What follows a position. -/
def after? (cs : List Char) : Option (List Char) := do
  let cs ← afterWord? " at line ".toList cs
  let cs ← afterCount? cs
  let cs ← afterWord? " column ".toList cs
  afterCount? cs

/-- A text up to the position that it ends with, if it does. -/
def cut : List Char → List Char
  | [] => []
  | c :: cs => if after? (c :: cs) = some [] then [] else c :: cut cs

end Position

/-- A message without a position at its end. -/
def withoutPosition (message : String) : String := String.ofList (Position.cut message.toList)

namespace Error

def message : Error → String
  | .emptyExpression => "Invalid input: empty expression"
  | .notText kind => "Invalid input: expected a string expression, got " ++ kind
  | .nestingTooDeep depth limit =>
    "Nesting depth " ++ toString depth ++ " exceeds limit of " ++ toString limit
  | .nothingToDraw => "Generation error: layout produced no drawable primitives"
  | .undecodableOptions problem => "Options error: " ++ problem.message
  | .invalidColor text => "Options error: " ++ withoutPosition ("invalid color: " ++ text)
  | .invalidOptions problem => "Invalid options: " ++ problem.message

end Error

end FormulaDrawing
