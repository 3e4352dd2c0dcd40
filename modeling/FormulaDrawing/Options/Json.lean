import FormulaDrawing.Drawing.Json
import FormulaDrawing.Options.Reader

/-!
# Options as JSON
-/

namespace FormulaDrawing.Options

/-- The value of an option. -/
def valueToJson (o : Options) : Field → Json
  | .fontFamily => .string o.fontFamily
  | .fontSize => .ofBinary o.fontSize
  | .color => o.color.toJson
  | .strokeWidth => .ofBinary o.strokeWidth
  | .handwriting => .bool o.handwriting
  | .seed => .ofOption (fun seed => .natural seed.toNat) o.seed
  | .originX => .ofBinary o.originX
  | .originY => .ofBinary o.originY
  | .nestingLimit => .natural o.nestingLimit

/-- Every option under its name. -/
def toJson (o : Options) : Json :=
  .object (Field.all.map fun field => (field.name, o.valueToJson field))

end FormulaDrawing.Options
