import FormulaDrawing.Scalar
import FormulaDrawing.Unicode.Grapheme

/-!
# Text measurement

Layout asks a measure for the size of every run of text. `Measure.estimate` approximates glyphs by
a fixed advance per grapheme cluster; a host with font metrics brings a measure of its own.
-/

namespace FormulaDrawing

/-- The size of a run of text, and how far below its top the baseline lies. -/
structure Metrics (α : Type) where
  width : α
  height : α
  baseline : α
deriving DecidableEq, Repr

/-- A measure gives the metrics of a text at a font size. -/
abbrev Measure (α : Type) := String → α → Metrics α

namespace Measure

variable {α : Type} [Scalar α]

/-- An advance per grapheme cluster and a baseline, both as fractions of the font size. -/
def estimate (widthFactor baselineFactor : α) : Measure α := fun text fontSize =>
  { width := ((Unicode.graphemeCount text : Nat) : α) * fontSize * widthFactor
    height := fontSize
    baseline := fontSize * baselineFactor }

/-- The measure where the host brings none. -/
def standard : Measure α := estimate 0.6 0.25

/-- The same metrics for every text. -/
def fixed (metrics : Metrics α) : Measure α := fun _ _ => metrics

/-- A square for every code point, with the baseline at a fraction of the font size. -/
def squares (baselineFactor : α) : Measure α := fun text fontSize =>
  { width := ((text.length : Nat) : α) * fontSize
    height := fontSize
    baseline := fontSize * baselineFactor }

end Measure

end FormulaDrawing
