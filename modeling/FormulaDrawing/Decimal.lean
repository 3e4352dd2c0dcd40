/-!
# Decimals

A decimal is a count of units of a power of ten. `Decimal.positional` writes it in plain
positional notation, never with an exponent.
-/

namespace FormulaDrawing

/-- `digits` units of `10 ^ exponent`. -/
structure Decimal where
  digits : Nat
  exponent : Int
deriving DecidableEq, Repr

namespace Decimal

/-- The rational that a decimal stands for. -/
def value (d : Decimal) : Rat :=
  (d.digits : Rat) * (10 : Rat) ^ d.exponent

/-- The decimal digits of a natural number, most significant first. -/
def digitsOf (n : Nat) : List Char := Nat.toDigits 10 n

/-- Positional notation: zeros stand in for the units of a positive exponent, a point divides off
the places of a negative one, and at least one digit stands before the point. -/
def positional (d : Decimal) : String :=
  let ds := digitsOf d.digits
  if 0 ≤ d.exponent then
    String.ofList (ds ++ List.replicate d.exponent.toNat '0')
  else
    let places := (-d.exponent).toNat
    let padded := List.replicate (places + 1 - ds.length) '0' ++ ds
    let whole := padded.length - places
    String.ofList (padded.take whole ++ '.' :: padded.drop whole)

end Decimal

end FormulaDrawing
