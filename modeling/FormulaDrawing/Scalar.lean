import FormulaDrawing.Binary.Arithmetic

/-!
# Scalars

Layout and drawing are written once, over any type of scalars. The program runs them on 32 bit
numbers, where every operation rounds once; on rationals the same definitions are exact.
-/

namespace FormulaDrawing

/-- The arithmetic that geometry needs. -/
class Scalar (α : Type) extends Add α, Sub α, Mul α, Div α, Neg α, Max α, Min α, NatCast α,
    OfScientific α where
  isFinite : α → Bool
  isPositive : α → Bool

namespace Scalar

/-- Numbers of a binary format: positive means above zero, so not-a-number is not. -/
instance (f : Format) : Scalar (Binary f) where
  isFinite := Binary.isFinite
  isPositive x := (Binary.zero false : Binary f).lt x

/-- Exact scalars. -/
instance : Scalar Rat where
  toMax := Rat.instMax
  toMin := Rat.instMin
  isFinite _ := true
  isPositive q := decide (0 < q)

end Scalar

end FormulaDrawing
