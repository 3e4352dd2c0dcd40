import FormulaDrawing.Drawing.Color
import FormulaDrawing.Geometry

/-!
# Primitives

What a drawing consists of: runs of text, straight strokes and paths, in the order in which they are
drawn. Moving a primitive moves each of its points and nothing else.
-/

namespace FormulaDrawing

/-- One command of a path. Curves give their control points before their end. -/
inductive PathCommand (α : Type) where
  | moveTo (p : Point α)
  | lineTo (p : Point α)
  | quadTo (control p : Point α)
  | cubicTo (control₁ control₂ p : Point α)
  | close
deriving DecidableEq, Repr

/-- A rotation about a point, in degrees. -/
structure Rotation (α : Type) where
  degrees : α
  center : Point α
deriving DecidableEq, Repr

/-- A run of text; the anchor is the left end of its baseline. -/
structure TextRun (α : Type) where
  text : String
  anchor : Point α
  fontSize : α
  fontFamily : String
  color : Color
  rotation : Option (Rotation α)
deriving DecidableEq, Repr

/-- A straight stroke. -/
structure Line (α : Type) where
  start : Point α
  finish : Point α
  stroke : Color
  width : α
deriving DecidableEq, Repr

/-- A stroked path that may be filled. -/
structure Path (α : Type) where
  commands : List (PathCommand α)
  stroke : Color
  fill : Option Color
  width : α
deriving DecidableEq, Repr

inductive Primitive (α : Type) where
  | textRun (run : TextRun α)
  | line (line : Line α)
  | path (path : Path α)
deriving DecidableEq, Repr

variable {α : Type}

namespace PathCommand

/-- Apply one function to the horizontal coordinates and another to the vertical ones. -/
def mapPoints (f g : α → α) : PathCommand α → PathCommand α
  | .moveTo p => .moveTo (p.map f g)
  | .lineTo p => .lineTo (p.map f g)
  | .quadTo c p => .quadTo (c.map f g) (p.map f g)
  | .cubicTo c₁ c₂ p => .cubicTo (c₁.map f g) (c₂.map f g) (p.map f g)
  | .close => .close

end PathCommand

namespace Primitive

/-- Apply one function to the horizontal coordinates and another to the vertical ones. -/
def mapPoints (f g : α → α) : Primitive α → Primitive α
  | .textRun run =>
    .textRun { run with
      anchor := run.anchor.map f g
      rotation := run.rotation.map fun r => { r with center := r.center.map f g } }
  | .line l => .line { l with start := l.start.map f g, finish := l.finish.map f g }
  | .path p => .path { p with commands := p.commands.map (·.mapPoints f g) }

/-- Move a primitive. -/
def translate [Scalar α] (p : Primitive α) (dx dy : α) : Primitive α :=
  p.mapPoints (· + dx) (· + dy)

def isText : Primitive α → Bool
  | .textRun _ => true
  | _ => false

end Primitive

end FormulaDrawing
