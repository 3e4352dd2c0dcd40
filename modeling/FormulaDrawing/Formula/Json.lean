import FormulaDrawing.Formula.Basic
import FormulaDrawing.Json.Basic

/-!
# Formulas as JSON

A node is a variant, tagged with the name of its kind. Reading is lenient in what does not matter:
an absent optional part is null, and unknown members are ignored.
-/

namespace FormulaDrawing.Formula

/-! ## Writing -/

mutual

def toJson : Formula → Json
  | .leaf (.number s) => .tagged "Number" (.string s)
  | .leaf (.letter c) => .tagged "Variable" (.ofChar c)
  | .leaf (.operator c) => .tagged "Operator" (.ofChar c)
  | .leaf (.greek c) => .tagged "Greek" (.ofChar c)
  | .leaf (.function s) => .tagged "Function" (.string s)
  | .leaf (.text s) => .tagged "Text" (.string s)
  | .fraction n d =>
    .tagged "Fraction" (.object [("numerator", n.toJson), ("denominator", d.toJson)])
  | .script .superscript x => .tagged "Superscript" x.toJson
  | .script .subscript x => .tagged "Subscript" x.toJson
  | .root i x => .tagged "Sqrt" (.object [("index", toJsonOption i), ("content", x.toJson)])
  | .bigOperator .integral l u =>
    .tagged "Integral" (.object [("lower", toJsonOption l), ("upper", toJsonOption u)])
  | .bigOperator .sum l u =>
    .tagged "Sum" (.object [("lower", toJsonOption l), ("upper", toJsonOption u)])
  | .limit a => .tagged "Limit" (.object [("approach", toJsonOption a)])
  | .group xs => .tagged "Group" (.array (toJsonList xs))
  | .delimited .parentheses xs => .tagged "Parentheses" (.array (toJsonList xs))
  | .delimited .bars xs => .tagged "Absolute" (.array (toJsonList xs))
  | .equation xs => .tagged "Equation" (.array (toJsonList xs))

def toJsonOption : Option Formula → Json
  | none => .null
  | some x => x.toJson

def toJsonList : List Formula → List Json
  | [] => []
  | x :: xs => x.toJson :: toJsonList xs

end

/-! ## Reading -/

/-- A field that may be absent or null: nothing where it is neither nor a formula. -/
def optionalField : Option (Option (Option Formula)) → Option (Option Formula)
  | none => some none
  | some field => field

/-- A field that must be there. -/
def requiredField : Option (Option (Option Formula)) → Option Formula
  | some (some (some x)) => some x
  | _ => none

/-- The formula of a variant that holds fields. -/
@[simp]
def ofFields? (fields : List (String × Option (Option Formula))) : String → Option Formula
  | "Fraction" => do
    let n ← requiredField (fields.lookup "numerator")
    let d ← requiredField (fields.lookup "denominator")
    pure (.fraction n d)
  | "Sqrt" => do
    let i ← optionalField (fields.lookup "index")
    let x ← requiredField (fields.lookup "content")
    pure (.root i x)
  | "Integral" => do
    let l ← optionalField (fields.lookup "lower")
    let u ← optionalField (fields.lookup "upper")
    pure (.bigOperator .integral l u)
  | "Sum" => do
    let l ← optionalField (fields.lookup "lower")
    let u ← optionalField (fields.lookup "upper")
    pure (.bigOperator .sum l u)
  | "Limit" => do
    let a ← optionalField (fields.lookup "approach")
    pure (.limit a)
  | _ => none

mutual

/-- The formula of a value. -/
def ofJson? : Json → Option Formula
  | .object members => ofObject? members
  | _ => none

/-- The formula of an object, whose single key names the variant. -/
def ofObject? : List (String × Json) → Option Formula
  | [(name, payload)] => ofVariant? name payload
  | _ => none

/-- The formula of a variant's name and payload. -/
@[simp]
def ofVariant? (name : String) : Json → Option Formula
  | .string s =>
    match name, s.toList with
    | "Number", _ => some (.number s)
    | "Function", _ => some (.function s)
    | "Text", _ => some (.text s)
    | "Variable", [c] => some (.letter c)
    | "Operator", [c] => some (.operator c)
    | "Greek", [c] => some (.greek c)
    | _, _ => none
  | .object members =>
    match name with
    | "Superscript" => (ofObject? members).map (.script .superscript)
    | "Subscript" => (ofObject? members).map (.script .subscript)
    | _ => ofFields? (ofMembers members) name
  | .array items =>
    match name with
    | "Group" => (ofList? items).map .group
    | "Parentheses" => (ofList? items).map (.delimited .parentheses)
    | "Absolute" => (ofList? items).map (.delimited .bars)
    | "Equation" => (ofList? items).map .equation
    | _ => none
  | _ => none

/-- The formulas of an array. -/
def ofList? : List Json → Option (List Formula)
  | [] => some []
  | j :: js => do
    let x ← ofJson? j
    let xs ← ofList? js
    pure (x :: xs)

/-- A value as an optional field. -/
def ofOptional? : Json → Option (Option Formula)
  | .null => some none
  | .object members => (ofObject? members).map some
  | _ => none

/-- Each member of an object as an optional field. -/
def ofMembers : List (String × Json) → List (String × Option (Option Formula))
  | [] => []
  | (name, j) :: rest => (name, ofOptional? j) :: ofMembers rest

end

end FormulaDrawing.Formula
