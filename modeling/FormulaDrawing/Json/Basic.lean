import FormulaDrawing.Binary.Arithmetic

/-!
# JSON values

Numbers keep the distinction that their text makes: naturals and negative integers that fit in 64
bits are exact, and everything else is a 64 bit floating point number.

The functions at the end are the rules by which records and variants are read from values. A
variant is a string, or an object whose single key names it; a record is an object, whose unknown
members do not matter, or the array of its fields in order. The fields of a variant are an object.
-/

namespace FormulaDrawing

/-- A JSON number. `negative n` stands for `-n`. -/
inductive Numeral where
  | natural (n : Nat)
  | negative (n : Nat)
  | real (x : Double)
deriving DecidableEq

namespace Numeral

/-- The nearest number of a format. -/
def toBinary {f : Format} : Numeral → Binary f
  | .natural n => .ofNat n
  | .negative n => .neg (.ofNat n)
  | .real x => x.convert

end Numeral

inductive Json where
  | null
  | bool (b : Bool)
  | number (n : Numeral)
  | string (s : String)
  | array (items : List Json)
  | object (members : List (String × Json))

namespace Json

instance : Inhabited Json := ⟨.null⟩

/-- The name of a value's kind. -/
def kindName : Json → String
  | .null => "null"
  | .bool _ => "boolean"
  | .number _ => "number"
  | .string _ => "string"
  | .array _ => "array"
  | .object _ => "object"

def natural (n : Nat) : Json := .number (.natural n)

/-- A number of any format; one that is not finite has no JSON number and is null. -/
def ofBinary {f : Format} (x : Binary f) : Json :=
  if x.isFinite then .number (.real x.convert) else .null

def ofChar (c : Char) : Json := .string (String.singleton c)

def ofOption {α : Type} (encode : α → Json) : Option α → Json
  | none => .null
  | some x => encode x

/-- A variant with a payload. -/
def tagged (name : String) (payload : Json) : Json := .object [(name, payload)]

/-! ## Reading values -/

def toString? : Json → Option String
  | .string s => some s
  | _ => none

/-- Any number, rounded to the format. -/
def toBinary? {f : Format} : Json → Option (Binary f)
  | .number n => some n.toBinary
  | _ => none

/-- The value of a member. -/
def member? (name : String) : Json → Option Json
  | .object members => members.lookup name
  | _ => none

/-- The name of a variant without a payload. -/
def unitName? : Json → Option String
  | .string name => some name
  | .object [(name, .null)] => some name
  | _ => none

/-- The fields of an object, in the order of their names: `none` where a field is absent, and
nothing at all if the value is no object. -/
def fields? (names : List String) : Json → Option (List (Option Json))
  | .object members => some (names.map fun name => members.lookup name)
  | _ => none

/-- The fields of a record, which may be an array of exactly these fields too. -/
def record? (names : List String) : Json → Option (List (Option Json))
  | .array items => if items.length = names.length then some (items.map some) else none
  | j => j.fields? names

end Json

end FormulaDrawing
