import FormulaDrawing.Json.Basic
import FormulaDrawing.Layout.Engine

/-!
# Layouts as JSON

A box is a record of its position, size, baseline, kind and scripts; its kind is a variant. Reading
follows the rules for records and variants and takes boxes as they come: no size is corrected.
-/

namespace FormulaDrawing

variable {f : Format}

/-! ## Writing -/

namespace TextRole

def name : TextRole → String
  | .number => "Number"
  | .letter => "Variable"
  | .operator => "Operator"
  | .greek => "Greek"
  | .function => "Function"
  | .text => "Text"

end TextRole

namespace ScriptSide

def name : ScriptSide → String
  | .superscript => "Superscript"
  | .subscript => "Subscript"

end ScriptSide

namespace BigOperator

def name : BigOperator → String
  | .integral => "Integral"
  | .sum => "Sum"

end BigOperator

namespace Delimiter

def name : Delimiter → String
  | .parentheses => "Parentheses"
  | .bars => "Absolute"

end Delimiter

namespace Rect

def toJson (r : Rect (Binary f)) : Json :=
  .object [("x", .ofBinary r.x), ("y", .ofBinary r.y), ("width", .ofBinary r.width),
    ("height", .ofBinary r.height)]

end Rect

namespace Bar

def toJson (b : Bar (Binary f)) : Json :=
  .object [("x", .ofBinary b.x), ("y", .ofBinary b.y), ("width", .ofBinary b.width),
    ("thickness", .ofBinary b.thickness)]

end Bar

namespace Layout

/-- Scripts as a variant that says which slots are taken. -/
def scriptsToJson : Option Json → Option Json → Json
  | none, none => .null
  | some s, none => .tagged "Superscript" s
  | none, some t => .tagged "Subscript" t
  | some s, some t => .tagged "Both" (.object [("superscript", s), ("subscript", t)])

mutual

def toJson : Layout (Binary f) → Json
  | .node r b k s t =>
    .object [("x", .ofBinary r.x), ("y", .ofBinary r.y), ("width", .ofBinary r.width),
      ("height", .ofBinary r.height), ("baseline", .ofBinary b), ("kind", kindToJson k),
      ("attached_script", scriptsToJson (optionToJson s) (optionToJson t))]

def kindToJson : Kind (Binary f) (Layout (Binary f)) → Json
  | .text s size role =>
    .tagged "Text" (.object [("text", .string s), ("font_size", .ofBinary size),
      ("role", .string role.name)])
  | .sequence xs => .tagged "Sequence" (.object [("children", .array (listToJson xs))])
  | .fraction n bar d =>
    .tagged "Fraction" (.object [("numerator", n.toJson), ("bar", bar.toJson),
      ("denominator", d.toJson)])
  | .root r bar i x =>
    .tagged "Sqrt" (.object [("radical", r.toJson), ("overline", bar.toJson),
      ("index", .ofOption id (optionToJson i)), ("content", x.toJson)])
  | .script side x =>
    .tagged "Script" (.object [("position", .string side.name), ("content", x.toJson)])
  | .bigOperator op r u l =>
    .tagged "BigOperator" (.object [("operator", .string op.name), ("glyph", r.toJson),
      ("upper", .ofOption id (optionToJson u)), ("lower", .ofOption id (optionToJson l))])
  | .limit x a =>
    .tagged "Limit" (.object [("label", x.toJson),
      ("approach", .ofOption id (optionToJson a))])
  | .delimited d o x c =>
    .tagged "Delimited" (.object [("delimiter", .string d.name), ("open", o.toJson),
      ("content", x.toJson), ("close", c.toJson)])
  | .empty => .string "Empty"

def optionToJson : Option (Layout (Binary f)) → Option Json
  | none => none
  | some x => some x.toJson

def listToJson : List (Layout (Binary f)) → List Json
  | [] => []
  | x :: xs => x.toJson :: listToJson xs

end

end Layout

namespace Context

def toJson (ctx : Context (Binary f)) : Json :=
  .object [("x", .ofBinary ctx.x), ("y", .ofBinary ctx.y), ("font_size", .ofBinary ctx.fontSize),
    ("nesting_level", .natural ctx.nestingLevel)]

end Context

namespace Settings

def toJson (s : Settings (Binary f)) : Json :=
  .object [("stroke_width", .ofBinary s.strokeWidth), ("max_depth", .natural s.maxDepth)]

end Settings

/-! ## Reading -/

namespace TextRole

def ofName? : String → Option TextRole
  | "Number" => some .number
  | "Variable" => some .letter
  | "Operator" => some .operator
  | "Greek" => some .greek
  | "Function" => some .function
  | "Text" => some .text
  | _ => none

end TextRole

namespace ScriptSide

def ofName? : String → Option ScriptSide
  | "Superscript" => some .superscript
  | "Subscript" => some .subscript
  | _ => none

end ScriptSide

namespace BigOperator

def ofName? : String → Option BigOperator
  | "Integral" => some .integral
  | "Sum" => some .sum
  | _ => none

end BigOperator

namespace Delimiter

def ofName? : String → Option Delimiter
  | "Parentheses" => some .parentheses
  | "Absolute" => some .bars
  | _ => none

end Delimiter

namespace Rect

def ofJson? (j : Json) : Option (Rect (Binary f)) :=
  match Json.record? ["x", "y", "width", "height"] j with
  | some [some x, some y, some width, some height] => do
    pure ⟨← x.toBinary?, ← y.toBinary?, ← width.toBinary?, ← height.toBinary?⟩
  | _ => none

end Rect

namespace Bar

def ofJson? (j : Json) : Option (Bar (Binary f)) :=
  match Json.record? ["x", "y", "width", "thickness"] j with
  | some [some x, some y, some width, some thickness] => do
    pure ⟨← x.toBinary?, ← y.toBinary?, ← width.toBinary?, ← thickness.toBinary?⟩
  | _ => none

end Bar

namespace Layout

/-- What a field of a record may turn out to be, each reading of it on demand. -/
structure Field (f : Format) where
  raw : Json
  layout : Unit → Option (Layout (Binary f))
  list : Unit → Option (List (Layout (Binary f)))
  kind : Unit → Option (Kind (Binary f) (Layout (Binary f)))
  scripts : Unit → Option (Option (Layout (Binary f)) × Option (Layout (Binary f)))

/-- The fields of a record by name. -/
abbrev Fields (f : Format) := List (String × Field f)

namespace Fields

def binary? (fields : Fields f) (name : String) : Option (Binary f) :=
  (fields.lookup name).bind (·.raw.toBinary?)

/-- A variant without a payload. -/
def unit? {β : Type} (fields : Fields f) (ofName? : String → Option β) (name : String) :
    Option β :=
  (fields.lookup name).bind fun field => field.raw.unitName?.bind ofName?

def rect? (fields : Fields f) (name : String) : Option (Rect (Binary f)) :=
  (fields.lookup name).bind fun field => Rect.ofJson? field.raw

def bar? (fields : Fields f) (name : String) : Option (Bar (Binary f)) :=
  (fields.lookup name).bind fun field => Bar.ofJson? field.raw

def layout? (fields : Fields f) (name : String) : Option (Layout (Binary f)) :=
  (fields.lookup name).bind (·.layout ())

/-- A box that may be absent or null. -/
def option? (fields : Fields f) (name : String) : Option (Option (Layout (Binary f))) :=
  match fields.lookup name with
  | none => some none
  | some field =>
    match field.raw with
    | .null => some none
    | _ => (field.layout ()).map some

/-- The names of the fields of a box, in the order of the array form. -/
def boxNames : List String :=
  ["x", "y", "width", "height", "baseline", "kind", "attached_script"]

/-- The fields of a box in an array, which must hold exactly these. -/
def ofItems? (items : List (Field f)) : Option (Fields f) :=
  if items.length = boxNames.length then some (boxNames.zip items) else none

/-- The box of a record. -/
def toLayout? (fields : Fields f) : Option (Layout (Binary f)) := do
  let x ← fields.binary? "x"
  let y ← fields.binary? "y"
  let width ← fields.binary? "width"
  let height ← fields.binary? "height"
  let baseline ← fields.binary? "baseline"
  let kind ← (fields.lookup "kind").bind (·.kind ())
  let (superscript, subscript) ←
    match fields.lookup "attached_script" with
    | none => some (none, none)
    | some field => field.scripts ()
  pure (.node ⟨x, y, width, height⟩ baseline kind superscript subscript)

/-- The kind of a variant that holds fields. -/
def toKind? (fields : Fields f) : String → Option (Kind (Binary f) (Layout (Binary f)))
  | "Text" => do
    let text ← (fields.lookup "text").bind (·.raw.toString?)
    let size ← fields.binary? "font_size"
    let role ← fields.unit? TextRole.ofName? "role"
    pure (.text text size role)
  | "Sequence" => do
    let items ← (fields.lookup "children").bind (·.list ())
    pure (.sequence items)
  | "Fraction" => do
    let n ← fields.layout? "numerator"
    let bar ← fields.bar? "bar"
    let d ← fields.layout? "denominator"
    pure (.fraction n bar d)
  | "Sqrt" => do
    let radical ← fields.rect? "radical"
    let overline ← fields.bar? "overline"
    let index ← fields.option? "index"
    let content ← fields.layout? "content"
    pure (.root radical overline index content)
  | "Script" => do
    let side ← fields.unit? ScriptSide.ofName? "position"
    let content ← fields.layout? "content"
    pure (.script side content)
  | "BigOperator" => do
    let op ← fields.unit? BigOperator.ofName? "operator"
    let glyph ← fields.rect? "glyph"
    let upper ← fields.option? "upper"
    let lower ← fields.option? "lower"
    pure (.bigOperator op glyph upper lower)
  | "Limit" => do
    let label ← fields.layout? "label"
    let approach ← fields.option? "approach"
    pure (.limit label approach)
  | "Delimited" => do
    let delimiter ← fields.unit? Delimiter.ofName? "delimiter"
    let opening ← fields.rect? "open"
    let content ← fields.layout? "content"
    let closing ← fields.rect? "close"
    pure (.delimited delimiter opening content closing)
  | _ => none

end Fields

/-- The slots that a script variant with a single box fills. -/
def slots? (name : String) (layout? : Option (Layout (Binary f))) :
    Option (Option (Layout (Binary f)) × Option (Layout (Binary f))) :=
  match name with
  | "Superscript" => layout?.map fun l => (some l, none)
  | "Subscript" => layout?.map fun l => (none, some l)
  | _ => none

/-- The slots that a pair of scripts fills. -/
def bothSlots? (fields : Fields f) :
    Option (Option (Layout (Binary f)) × Option (Layout (Binary f))) := do
  let s ← fields.layout? "superscript"
  let t ← fields.layout? "subscript"
  pure (some s, some t)

mutual

/-- The box of a value. -/
def ofJson? : Json → Option (Layout (Binary f))
  | .object members => Fields.toLayout? (membersToFields members)
  | .array items => (Fields.ofItems? (itemsToFields items)).bind Fields.toLayout?
  | _ => none

/-- The kind of a value. -/
def kindOfJson? : Json → Option (Kind (Binary f) (Layout (Binary f)))
  | .string name => if name = "Empty" then some .empty else none
  | .object members => kindOfObject? members
  | _ => none

def kindOfObject? : List (String × Json) → Option (Kind (Binary f) (Layout (Binary f)))
  | [(name, payload)] => kindOfVariant? name payload
  | _ => none

def kindOfVariant? (name : String) : Json → Option (Kind (Binary f) (Layout (Binary f)))
  | .null => if name = "Empty" then some .empty else none
  | .object members => Fields.toKind? (membersToFields members) name
  | _ => none

/-- The script slots of a value. -/
def scriptsOfJson? :
    Json → Option (Option (Layout (Binary f)) × Option (Layout (Binary f)))
  | .null => some (none, none)
  | .object members => scriptsOfObject? members
  | _ => none

def scriptsOfObject? :
    List (String × Json) → Option (Option (Layout (Binary f)) × Option (Layout (Binary f)))
  | [(name, payload)] => scriptsOfVariant? name payload
  | _ => none

def scriptsOfVariant? (name : String) :
    Json → Option (Option (Layout (Binary f)) × Option (Layout (Binary f)))
  | .object members =>
    let fields := membersToFields members
    if name = "Both" then bothSlots? fields else slots? name (Fields.toLayout? fields)
  | .array items =>
    slots? name ((Fields.ofItems? (itemsToFields items)).bind Fields.toLayout?)
  | _ => none

/-- The boxes of an array. -/
def listOfJson? : Json → Option (List (Layout (Binary f)))
  | .array items => listOfItems? items
  | _ => none

def listOfItems? : List Json → Option (List (Layout (Binary f)))
  | [] => some []
  | j :: js => do
    let x ← ofJson? j
    let xs ← listOfItems? js
    pure (x :: xs)

def membersToFields : List (String × Json) → Fields f
  | [] => []
  | (name, j) :: rest =>
    (name, ⟨j, fun _ => ofJson? j, fun _ => listOfJson? j, fun _ => kindOfJson? j,
      fun _ => scriptsOfJson? j⟩) :: membersToFields rest

def itemsToFields : List Json → List (Field f)
  | [] => []
  | j :: js =>
    ⟨j, fun _ => ofJson? j, fun _ => listOfJson? j, fun _ => kindOfJson? j,
      fun _ => scriptsOfJson? j⟩ :: itemsToFields js

end

end Layout

end FormulaDrawing
