import FormulaDrawing.Error
import FormulaDrawing.Latex.Machine

/-!
# Reading LaTeX

`Latex.parse` reads a whole source and never fails: a source that nests too deep becomes its own
text. `Latex.Reader` is the reader as an object that can be used again; a failed read leaves it
where it stopped, one level deeper than it was.
-/

namespace FormulaDrawing.Latex

/-- The nesting limit where none is given. -/
def defaultLimit : Nat := 64

/-- What is left to read, how deep the reader is, and how deep it may go. -/
structure Reader where
  rest : List Char
  depth : Nat
  limit : Nat
deriving DecidableEq, Repr

namespace Reader

/-- A fresh reader. -/
def ofSource (source : String) (limit : Nat) : Reader := ⟨source.toList, 0, limit⟩

/-- Read to the end of the text, and go on from where that left the reader. -/
def read (r : Reader) : Except Error Formula × Reader :=
  match run ⟨r.depth, r.limit⟩ .initial r.rest with
  | .complete items => (.ok (.equation items), { r with rest := [] })
  | .tooDeep depth rest =>
    (.error (.nestingTooDeep depth r.limit), { r with rest := rest, depth := r.depth + 1 })

/-- The answers of one reader used several times. -/
def readTimes (r : Reader) : Nat → List (Except Error Formula)
  | 0 => []
  | n + 1 =>
    let (answer, r) := r.read
    answer :: r.readTimes n

end Reader

/-- The formula of a source, or the error that its nesting is. -/
def read (source : String) (limit : Nat) : Except Error Formula :=
  (Reader.ofSource source limit).read.1

/-- The formula of a source; a source that nests too deep is its own text. -/
def parse (source : String) (limit : Nat := defaultLimit) : Formula :=
  match read source limit with
  | .ok formula => formula
  | .error _ => .equation [.text source]

end FormulaDrawing.Latex
