import FormulaDrawing.Binary.Arithmetic
import FormulaDrawing.Decimal

/-!
# Numbers as text

A finite number is written with the fewest digits that read back to it. The rationals that round
to an ordinal form an interval, bounded half way to the neighbours; the ends belong to it if the
ordinal is even. The search runs over the grids of multiples of powers of ten, coarsest first, and
stops at the first grid with a point in the interval.

Reading accepts a sign, the names of infinity and not-a-number in any case, and digits with an
optional point and exponent.
-/

namespace FormulaDrawing

namespace Format

/-- Whether a positive rational rounds to a positive ordinal. -/
def roundsTo (f : Format) (q : Rat) (k : Nat) : Bool :=
  let low := (f.magnitude (k - 1) + f.magnitude k) / 2
  let high := (f.magnitude k + f.magnitude (k + 1)) / 2
  if k % 2 = 0 then decide (low ≤ q ∧ q ≤ high) else decide (low < q ∧ q < high)

/-- The multiple of `10 ^ grid` that rounds to an ordinal and lies nearest to its magnitude; the
upper one of two equally near. -/
def onGrid? (f : Format) (k : Nat) (grid : Int) : Option Decimal :=
  let unit := (10 : Rat) ^ grid
  let v := f.magnitude k
  let n := (v / unit).floor.toNat
  let below := (n : Rat) * unit
  let above := ((n + 1 : Nat) : Rat) * unit
  match f.roundsTo below k, f.roundsTo above k with
  | true, true => some ⟨if v - below < above - v then n else n + 1, grid⟩
  | true, false => some ⟨n, grid⟩
  | false, true => some ⟨n + 1, grid⟩
  | false, false => none

/-- The search for the coarsest grid, `steps` grids deep. -/
def searchGrids (f : Format) (k : Nat) : Nat → Int → Decimal
  | 0, grid => ⟨(f.magnitude k / (10 : Rat) ^ grid).floor.toNat, grid⟩
  | steps + 1, grid =>
    match f.onGrid? k grid with
    | some d => d
    | none => searchGrids f k steps (grid - 1)

/-- The shortest decimal that rounds to a positive ordinal. The search starts above the leading
digit, and ends at the latest on the grid of the least exponent, of which every magnitude is a
point. -/
def shortest (f : Format) (k : Nat) : Decimal :=
  let grid : Int := (Decimal.digitsOf (f.magnitude k).floor.toNat).length
  f.searchGrids k (grid - f.leastExponent).toNat grid

end Format

namespace Binary

variable {f : Format}

/-- The shortest positional text that reads back. -/
def toText : Binary f → String
  | .nan => "NaN"
  | .signed s k =>
    let unsigned :=
      if k.val = f.infinity then "inf"
      else if k.val = 0 then "0"
      else (f.shortest k.val).positional
    if s then "-" ++ unsigned else unsigned

/-- A written number of a greater decimal order than this counts as infinite, and one whose order
is below the negation counts as zero. -/
def greatestOrder : Int := 400

/-- The number nearest to a written decimal. -/
def ofDecimal (negative : Bool) (d : Decimal) : Binary f :=
  let order := d.exponent + (Decimal.digitsOf d.digits).length
  if d.digits = 0 then zero negative
  else if greatestOrder < order then infinite negative
  else if order < -greatestOrder then zero negative
  else ofRat negative (if negative then -d.value else d.value)

/-- The number that decimal digits write. -/
def numeral (ds : List Char) : Nat :=
  ds.foldl (fun n c => n * 10 + (c.toNat - '0'.toNat)) 0

/-- An exponent: an optional sign and at least one digit. -/
def exponentOfText? : List Char → Option Int
  | '-' :: ds => if ds.isEmpty || !ds.all Char.isDigit then none else some (-(numeral ds : Int))
  | '+' :: ds => if ds.isEmpty || !ds.all Char.isDigit then none else some (numeral ds)
  | ds => if ds.isEmpty || !ds.all Char.isDigit then none else some (numeral ds)

/-- An unsigned number: a name, or digits with an optional point and exponent. -/
def unsignedOfText? (negative : Bool) (cs : List Char) : Option (Binary f) :=
  let name := String.ofList (cs.map Char.toLower)
  if name = "inf" || name = "infinity" then some (infinite negative)
  else if name = "nan" then some .nan
  else
    let whole := cs.takeWhile Char.isDigit
    let afterWhole := cs.dropWhile Char.isDigit
    let (places, rest) :=
      match afterWhole with
      | '.' :: tail => (tail.takeWhile Char.isDigit, tail.dropWhile Char.isDigit)
      | _ => ([], afterWhole)
    if whole.isEmpty && places.isEmpty then none
    else
      let exponent? :=
        match rest with
        | [] => some 0
        | c :: tail => if c = 'e' || c = 'E' then exponentOfText? tail else none
      exponent?.map fun e => ofDecimal negative ⟨numeral (whole ++ places), e - places.length⟩

/-- The number that a text writes. -/
def ofText? (s : String) : Option (Binary f) :=
  match s.toList with
  | '-' :: cs => unsignedOfText? true cs
  | '+' :: cs => unsignedOfText? false cs
  | cs => unsignedOfText? false cs

end Binary

end FormulaDrawing
