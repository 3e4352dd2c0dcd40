import FormulaDrawing.Binary.Basic

/-!
# Rounding and arithmetic

Every operation on numbers computes the exact rational result and rounds it once, to the nearest
number of the format, ties to the even ordinal (`Binary.ofRat`). What remains are the cases
without an exact rational result: not-a-number, the infinities, and the sign of a zero.
-/

namespace FormulaDrawing

-- powers of naturals are the core library's own, whatever monoids are in scope
attribute [local instance (high)] instPowNat

/-- The nearest integer to `n / d`; of two equally near ones the even one. -/
def roundHalfEven (n d : Nat) : Nat :=
  let q := n / d
  let r := n % d
  if 2 * r < d then q
  else if d < 2 * r then q + 1
  else q + q % 2

/-- The greatest exponent `e` with `2 ^ e ≤ n / d`, for positive `n` and `d`. -/
def binaryOrder (n d : Nat) : Int :=
  let e : Int := (n.log2 : Int) - d.log2
  if d * 2 ^ e.toNat ≤ n * 2 ^ (-e).toNat then e else e - 1

/-- The ordinal nearest to `n / d`. The significand counts in units of the exponent at which it
fills the fraction bits; a significand rounded up to the next power of two carries into the
exponent by itself, because ordinals run on across binades. -/
def Format.nearest (f : Format) (n d : Nat) : Nat :=
  if n = 0 then 0
  else
    let e := max f.leastExponent (binaryOrder n d - f.fractionBits)
    let m := roundHalfEven (n * 2 ^ (-e).toNat) (d * 2 ^ e.toNat)
    (e - f.leastExponent).toNat * 2 ^ f.fractionBits + m

namespace Binary

variable {f : Format}

/-- The number nearest to a rational; `negativeZero` is the sign of a zero. -/
def ofRat (negativeZero : Bool) (q : Rat) : Binary f :=
  ofOrdinal (if q = 0 then negativeZero else decide (q < 0)) (f.nearest q.num.natAbs q.den)

def ofNat (n : Nat) : Binary f := ofRat false n

def neg : Binary f → Binary f
  | .nan => .nan
  | .signed s k => .signed (!s) k

def abs : Binary f → Binary f
  | .nan => .nan
  | .signed _ k => .signed false k

/-- Infinities of opposite signs have no sum. A zero sum is negative only if both parts are. -/
def add : Binary f → Binary f → Binary f
  | .signed s j, .signed t k =>
    if j.val = f.infinity then
      if k.val = f.infinity && s != t then .nan else .signed s j
    else if k.val = f.infinity then .signed t k
    else ofRat (s && t) (rational s j + rational t k)
  | _, _ => .nan

def sub (x y : Binary f) : Binary f := add x (neg y)

/-- Zero times infinity has no value. -/
def mul : Binary f → Binary f → Binary f
  | .signed s j, .signed t k =>
    if j.val = f.infinity || k.val = f.infinity then
      if j.val = 0 || k.val = 0 then .nan else infinite (s != t)
    else ofRat (s != t) (rational s j * rational t k)
  | _, _ => .nan

/-- Neither zero by zero nor infinity by infinity has a value; anything else by zero is
infinite. -/
def div : Binary f → Binary f → Binary f
  | .signed s j, .signed t k =>
    if j.val = f.infinity then
      if k.val = f.infinity then .nan else infinite (s != t)
    else if k.val = f.infinity then zero (s != t)
    else if k.val = 0 then
      if j.val = 0 then .nan else infinite (s != t)
    else ofRat (s != t) (rational s j / rational t k)
  | _, _ => .nan

/-- The nearest integer, a half away from zero. -/
def round : Binary f → Binary f
  | .nan => .nan
  | .signed s k =>
    if k.val = f.infinity then .signed s k
    else
      let n := (f.magnitude k.val + 1 / 2).floor
      ofRat s (if s then -(n : Rat) else n)

/-- The nearest number of another format. -/
def convert {g : Format} : Binary f → Binary g
  | .nan => .nan
  | .signed s k => if k.val = f.infinity then infinite s else ofRat s (rational s k)

instance : Add (Binary f) := ⟨add⟩
instance : Sub (Binary f) := ⟨sub⟩
instance : Mul (Binary f) := ⟨mul⟩
instance : Div (Binary f) := ⟨div⟩
instance : Neg (Binary f) := ⟨neg⟩
instance : Max (Binary f) := ⟨greater⟩
instance : Min (Binary f) := ⟨lesser⟩
instance : NatCast (Binary f) := ⟨ofNat⟩

/-- A decimal constant stands for the number nearest to it. -/
instance : OfScientific (Binary f) :=
  ⟨fun mantissa isNegative exponent =>
    ofRat false (OfScientific.ofScientific mantissa isNegative exponent)⟩

end Binary

end FormulaDrawing
