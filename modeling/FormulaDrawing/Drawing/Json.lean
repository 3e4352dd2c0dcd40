import FormulaDrawing.Drawing.Sketch
import FormulaDrawing.Layout.Json

/-!
# Primitives as JSON

Primitives and path commands are variants. A path command holds its coordinates in an array.
-/

namespace FormulaDrawing

variable {f : Format}

/-! ## Writing -/

namespace PathCommand

def toJson : PathCommand (Binary f) → Json
  | .moveTo p => .tagged "MoveTo" (.array [.ofBinary p.x, .ofBinary p.y])
  | .lineTo p => .tagged "LineTo" (.array [.ofBinary p.x, .ofBinary p.y])
  | .quadTo c p =>
    .tagged "QuadTo" (.array [.ofBinary c.x, .ofBinary c.y, .ofBinary p.x, .ofBinary p.y])
  | .cubicTo c₁ c₂ p =>
    .tagged "CubicTo" (.array [.ofBinary c₁.x, .ofBinary c₁.y, .ofBinary c₂.x, .ofBinary c₂.y,
      .ofBinary p.x, .ofBinary p.y])
  | .close => .string "Close"

end PathCommand

namespace Color

def toJson (c : Color) : Json := .string c.toHex

end Color

namespace Rotation

def toJson (r : Rotation (Binary f)) : Json :=
  .object [("degrees", .ofBinary r.degrees), ("cx", .ofBinary r.center.x),
    ("cy", .ofBinary r.center.y)]

end Rotation

namespace Primitive

def toJson : Primitive (Binary f) → Json
  | .textRun run =>
    .tagged "TextRun" (.object [("text", .string run.text), ("x", .ofBinary run.anchor.x),
      ("y", .ofBinary run.anchor.y), ("font_size", .ofBinary run.fontSize),
      ("font_family", .string run.fontFamily), ("color", run.color.toJson),
      ("rotation", .ofOption Rotation.toJson run.rotation)])
  | .line l =>
    .tagged "Line" (.object [("x1", .ofBinary l.start.x), ("y1", .ofBinary l.start.y),
      ("x2", .ofBinary l.finish.x), ("y2", .ofBinary l.finish.y),
      ("stroke", l.stroke.toJson), ("width", .ofBinary l.width)])
  | .path p =>
    .tagged "Path" (.object [("data", .array (p.commands.map PathCommand.toJson)),
      ("stroke", p.stroke.toJson), ("fill", .ofOption Color.toJson p.fill),
      ("width", .ofBinary p.width)])

end Primitive

namespace Style

def toJson (style : Style (Binary f)) : Json :=
  .object [("font_family", .string style.fontFamily), ("color", style.color.toJson),
    ("stroke_width", .ofBinary style.strokeWidth),
    ("handwriting_variance", .bool style.handwriting),
    ("jitter_seed", .ofOption (fun seed => .natural seed.toNat) style.seed)]

end Style

/-! ## Reading -/

namespace PathCommand

/-- The command of a variant's name and coordinates. -/
def ofCoordinates? : String → List (Binary f) → Option (PathCommand (Binary f))
  | "MoveTo", [x, y] => some (.moveTo ⟨x, y⟩)
  | "LineTo", [x, y] => some (.lineTo ⟨x, y⟩)
  | "QuadTo", [x₁, y₁, x, y] => some (.quadTo ⟨x₁, y₁⟩ ⟨x, y⟩)
  | "CubicTo", [x₁, y₁, x₂, y₂, x, y] => some (.cubicTo ⟨x₁, y₁⟩ ⟨x₂, y₂⟩ ⟨x, y⟩)
  | _, _ => none

def ofJson? (j : Json) : Option (PathCommand (Binary f)) :=
  match j with
  | .object [(name, .array items)] => do ofCoordinates? name (← items.mapM Json.toBinary?)
  | _ => if j.unitName? = some "Close" then some .close else none

end PathCommand

namespace Color

def ofJson? (j : Json) : Option Color := j.toString?.bind ofHex?

end Color

/-- An optional field: nothing if it is neither absent nor null nor readable. -/
def Json.optional? {β : Type} (read : Json → Option β) : Option Json → Option (Option β)
  | none | some .null => some none
  | some j => (read j).map some

namespace Rotation

def ofJson? (j : Json) : Option (Rotation (Binary f)) :=
  match Json.record? ["degrees", "cx", "cy"] j with
  | some [some degrees, some x, some y] => do
    pure ⟨← degrees.toBinary?, ⟨← x.toBinary?, ← y.toBinary?⟩⟩
  | _ => none

end Rotation

namespace TextRun

def ofJson? (j : Json) : Option (TextRun (Binary f)) :=
  match Json.fields? ["text", "x", "y", "font_size", "font_family", "color", "rotation"] j with
  | some [some text, some x, some y, some size, some family, some color, rotation] => do
    pure
      { text := ← text.toString?
        anchor := ⟨← x.toBinary?, ← y.toBinary?⟩
        fontSize := ← size.toBinary?
        fontFamily := ← family.toString?
        color := ← Color.ofJson? color
        rotation := ← Json.optional? Rotation.ofJson? rotation }
  | _ => none

end TextRun

namespace Line

def ofJson? (j : Json) : Option (Line (Binary f)) :=
  match Json.fields? ["x1", "y1", "x2", "y2", "stroke", "width"] j with
  | some [some x₁, some y₁, some x₂, some y₂, some stroke, some width] => do
    pure ⟨⟨← x₁.toBinary?, ← y₁.toBinary?⟩, ⟨← x₂.toBinary?, ← y₂.toBinary?⟩,
      ← Color.ofJson? stroke, ← width.toBinary?⟩
  | _ => none

end Line

namespace Path

def ofJson? (j : Json) : Option (Path (Binary f)) :=
  match Json.fields? ["data", "stroke", "fill", "width"] j with
  | some [some (.array items), some stroke, fill, some width] => do
    pure ⟨← items.mapM PathCommand.ofJson?, ← Color.ofJson? stroke,
      ← Json.optional? Color.ofJson? fill, ← width.toBinary?⟩
  | _ => none

end Path

namespace Primitive

def ofJson? : Json → Option (Primitive (Binary f))
  | .object [("TextRun", j)] => (TextRun.ofJson? j).map .textRun
  | .object [("Line", j)] => (Line.ofJson? j).map .line
  | .object [("Path", j)] => (Path.ofJson? j).map .path
  | _ => none

end Primitive

end FormulaDrawing
