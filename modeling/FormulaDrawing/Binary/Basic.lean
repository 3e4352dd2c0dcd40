/-!
# Binary floating point numbers

A number of a binary format is not-a-number, or a sign with an *ordinal*: the place of its
magnitude among the magnitudes of the format, counted upwards from zero. The greatest ordinal is
infinity, so the order of magnitudes is the order of ordinals, and a magnitude has one form only.

`Format.magnitude` gives the rational that an ordinal stands for. It is also defined at the
ordinal of infinity, where it is the next power of two: the value at which rounding overflows.
-/

namespace FormulaDrawing

-- powers of naturals are the core library's own, whatever monoids are in scope
attribute [local instance (high)] instPowNat

/-- A binary format: how many fraction bits a number stores, the exponent of the least unit, and
how many exponents its finite numbers have. -/
structure Format where
  fractionBits : Nat
  leastExponent : Int
  exponents : Nat
deriving DecidableEq, Repr

namespace Format

/-- The 32 bit format. -/
def single : Format := ⟨23, -149, 255⟩

/-- The 64 bit format. -/
def double : Format := ⟨52, -1074, 2047⟩

/-- The ordinal of infinity, the greatest of the format. -/
def infinity (f : Format) : Nat :=
  f.exponents * 2 ^ f.fractionBits

/-- The integer significand of an ordinal: below the first full binade the ordinal itself, above
it the fraction bits after a leading one. -/
def significand (f : Format) (k : Nat) : Nat :=
  if k < 2 ^ f.fractionBits then k else 2 ^ f.fractionBits + k % 2 ^ f.fractionBits

/-- The exponent of the unit in which an ordinal's significand counts. -/
def exponent (f : Format) (k : Nat) : Int :=
  f.leastExponent + ((k / 2 ^ f.fractionBits - 1 : Nat) : Int)

/-- The rational that an ordinal stands for. -/
def magnitude (f : Format) (k : Nat) : Rat :=
  (f.significand k : Rat) * (2 : Rat) ^ f.exponent k

end Format

/-- A number of a binary format. -/
inductive Binary (f : Format) where
  | nan
  | signed (negative : Bool) (ordinal : Fin (f.infinity + 1))
deriving DecidableEq

/-- Numbers of the 32 bit format. -/
abbrev Single := Binary .single

/-- Numbers of the 64 bit format. -/
abbrev Double := Binary .double

namespace Binary

variable {f : Format}

instance : Inhabited (Binary f) := ⟨.signed false 0⟩

/-- The number with a sign and an ordinal; ordinals past infinity are infinite. -/
def ofOrdinal (negative : Bool) (k : Nat) : Binary f :=
  .signed negative ⟨min k f.infinity, by omega⟩

/-- Infinity with a sign. -/
def infinite (negative : Bool) : Binary f := .signed negative (Fin.last _)

/-- Zero with a sign. -/
def zero (negative : Bool) : Binary f := .signed negative 0

def isNaN : Binary f → Bool
  | .nan => true
  | .signed _ _ => false

def isFinite : Binary f → Bool
  | .nan => false
  | .signed _ k => k.val < f.infinity

def isInfinite : Binary f → Bool
  | .nan => false
  | .signed _ k => k.val == f.infinity

/-- Both zeros are zero. -/
def isZero : Binary f → Bool
  | .nan => false
  | .signed _ k => k.val == 0

/-- The place of a number on the line of numbers; both zeros have the place 0. -/
def place (negative : Bool) (k : Nat) : Int :=
  if negative then -(k : Int) else k

/-- The rational that a signed ordinal stands for. -/
def rational (negative : Bool) (k : Fin (f.infinity + 1)) : Rat :=
  if negative then -f.magnitude k.val else f.magnitude k.val

/-- The value of a finite number. -/
def toRat? : Binary f → Option Rat
  | .nan => none
  | .signed s k => if k.val < f.infinity then some (rational s k) else none

/-- The order of numbers; nothing is below or above not-a-number. -/
def lt : Binary f → Binary f → Bool
  | .signed s j, .signed t k => place s j < place t k
  | _, _ => false

/-- Numeric equality: the zeros are equal, and not-a-number equals nothing. -/
def equal : Binary f → Binary f → Bool
  | .signed s j, .signed t k => place s j == place t k
  | _, _ => false

/-- The greater number; the other one where one is not a number. -/
def greater (x y : Binary f) : Binary f :=
  if x.isNaN then y
  else if y.isNaN then x
  else if x.lt y then y
  else x

/-- The lesser number; the other one where one is not a number. -/
def lesser (x y : Binary f) : Binary f :=
  if x.isNaN then y
  else if y.isNaN then x
  else if y.lt x then y
  else x

end Binary

end FormulaDrawing
