import FormulaDrawing.Json.Reader
import FormulaDrawing.Options.Basic

/-!
# Reading options

Options are read from JSON in one pass over the tokens: an object whose unknown members are
skipped, or an array of the options in the order of `Field.all`. Options that are left out keep
their defaults; an option given twice is an error. The first problem from the left is reported.
-/

namespace FormulaDrawing.Options

/-- The options by name, in the order of the array form. -/
inductive Field where
  | fontFamily
  | fontSize
  | color
  | strokeWidth
  | handwriting
  | seed
  | originX
  | originY
  | nestingLimit
deriving DecidableEq, Repr

namespace Field

def all : List Field :=
  [.fontFamily, .fontSize, .color, .strokeWidth, .handwriting, .seed, .originX, .originY,
   .nestingLimit]

def name : Field → String
  | .fontFamily => "fontFamily"
  | .fontSize => "fontSize"
  | .color => "color"
  | .strokeWidth => "strokeWidth"
  | .handwriting => "handwritingVariance"
  | .seed => "jitterSeed"
  | .originX => "originX"
  | .originY => "originY"
  | .nestingLimit => "maxNestingDepth"

/-- The option of a name. -/
def ofName? (s : String) : Option Field := all.find? fun field => field.name == s

end Field

/-! ## Values -/

/-- Reading fails with a problem of the text, wrapped as an error. -/
def fail {β : Type} (problem : JsonProblem) : Except Error β := .error (.undecodableOptions problem)

/-- A token of the wrong kind: its own problem if it has one, and no value at all if it is
punctuation. -/
def mistyped {β : Type} : Token → Except Error β
  | .number (.error problem) _ => fail problem
  | .string (.error problem) _ => fail problem
  | .broken problem => fail problem
  | .closeBrace | .closeBracket | .colon | .comma => fail .malformed
  | _ => fail .mistyped

def readString : Token → Except Error String
  | .string (.ok s) _ => .ok s
  | t => mistyped t

def readSingle : Token → Except Error Single
  | .number (.ok n) _ => .ok n.toBinary
  | t => mistyped t

def readBool : Token → Except Error Bool
  | .bool b => .ok b
  | t => mistyped t

/-- Naturals only: neither a sign nor a point nor an exponent. -/
def readNatural : Token → Except Error Nat
  | .number (.ok (.natural n)) _ => .ok n
  | t => mistyped t

def readColor (t : Token) : Except Error Color := do
  let s ← readString t
  match Color.ofHex? s with
  | some c => pure c
  | none => .error (.invalidColor s)

/-- The only option that may be null. -/
def readSeed : Token → Except Error (Option UInt64)
  | .null => .ok none
  | t => (readNatural t).map fun n => some (UInt64.ofNat n)

/-- Set an option from the token of its value. -/
def set (o : Options) (t : Token) : Field → Except Error Options
  | .fontFamily => do pure { o with fontFamily := ← readString t }
  | .fontSize => do pure { o with fontSize := ← readSingle t }
  | .color => do pure { o with color := ← readColor t }
  | .strokeWidth => do pure { o with strokeWidth := ← readSingle t }
  | .handwriting => do pure { o with handwriting := ← readBool t }
  | .seed => do pure { o with seed := ← readSeed t }
  | .originX => do pure { o with originX := ← readSingle t }
  | .originY => do pure { o with originY := ← readSingle t }
  | .nestingLimit => do pure { o with nestingLimit := ← readNatural t }

/-! ## The text -/

/-- What the reader expects next. -/
inductive Expected where
  | start
  /-- The first key of the object, or its end. -/
  | keyOrEnd
  | key
  /-- The colon after a key: of an option, or unknown. -/
  | colon (field : Option Field)
  | value (field : Field)
  /-- The rest of a value that does not matter. -/
  | skipping (b : Json.Builder)
  /-- A comma between members, or the end of the object. -/
  | comma
  /-- The first item of the array, or its end. -/
  | itemOrEnd
  /-- An item, with the options left to give. -/
  | item (left : List Field)
  /-- A comma between items, or the end of the array. -/
  | itemComma (left : List Field)
  /-- The end of the text. -/
  | finish

/-- The reader: the options so far, which of them were given, and what comes next. -/
structure Reader where
  options : Options
  given : List Field
  expected : Expected

namespace Reader

def initial : Reader := ⟨{}, [], .start⟩

def expect (r : Reader) (expected : Expected) : Reader := { r with expected }

/-- A key: one that was given before is an error. -/
def takeKey (r : Reader) : Token → Except Error Reader
  | .string (.ok name) _ =>
    match Field.ofName? name with
    | some field =>
      if r.given.contains field then fail .mistyped
      else .ok ⟨r.options, field :: r.given, .colon (some field)⟩
    | none => .ok (r.expect (.colon none))
  | .string (.error problem) _ => fail problem
  | _ => fail .malformed

/-- The next item of the array. -/
def takeItem (r : Reader) (t : Token) : List Field → Except Error Reader
  | field :: left => do
    let options ← r.options.set t field
    pure ⟨options, r.given, .itemComma left⟩
  | [] => fail .malformed

/-- One token. -/
def take (r : Reader) (t : Token) : Except Error Reader :=
  match r.expected, t with
  | .start, .openBrace => .ok (r.expect .keyOrEnd)
  | .start, .openBracket => .ok (r.expect .itemOrEnd)
  | .start, t => mistyped t
  | .keyOrEnd, .closeBrace => .ok (r.expect .finish)
  | .keyOrEnd, t => r.takeKey t
  | .key, t => r.takeKey t
  | .colon (some field), .colon => .ok (r.expect (.value field))
  | .colon none, .colon => .ok (r.expect (.skipping .initial))
  | .colon _, _ => fail .malformed
  | .value field, t => do
    let options ← r.options.set t field
    pure ⟨options, r.given, .comma⟩
  | .skipping b, t =>
    match b.take true t with
    | .error problem => fail problem
    | .ok (.more b) => .ok (r.expect (.skipping b))
    | .ok (.whole _) => .ok (r.expect .comma)
  | .comma, .comma => .ok (r.expect .key)
  | .comma, .closeBrace => .ok (r.expect .finish)
  | .comma, _ => fail .malformed
  | .itemOrEnd, .closeBracket => .ok (r.expect .finish)
  | .itemOrEnd, t => r.takeItem t Field.all
  | .item left, t => r.takeItem t left
  | .itemComma _, .closeBracket => .ok (r.expect .finish)
  | .itemComma (field :: left), .comma => .ok (r.expect (.item (field :: left)))
  | .itemComma _, _ => fail .malformed
  | .finish, _ => fail .malformed

/-- Read tokens to the end. -/
def run (r : Reader) : List Token → Except Error Options
  | [] =>
    match r.expected with
    | .finish => .ok r.options
    | _ => fail .ended
  | t :: ts =>
    match r.take t with
    | .ok r => r.run ts
    | .error e => .error e

end Reader

/-- The options of a text, not validated. -/
def decode (s : String) : Except Error Options := Reader.initial.run (Token.ofText s)

/-- The options of a text. -/
def ofText (s : String) : Except Error Options := do
  let o ← decode s
  match o.validate with
  | .ok () => pure o
  | .error problem => .error (.invalidOptions problem)

end FormulaDrawing.Options
