import FormulaDrawing.Drawing.Primitive
import FormulaDrawing.Error
import FormulaDrawing.Layout.Basic
import FormulaDrawing.Unicode.Grapheme

/-!
# Drawing layouts

`Layout.sketch` turns a layout into primitives, in document order: the strokes of a structure stand
before its parts, except a closing delimiter, and scripts come last. Runs of a single grapheme
cluster may be rotated, each by the next draw of a sequence.

`Pen.draw` adds the bounds. A layout without primitives is an error.
-/

namespace FormulaDrawing

variable {α : Type}

/-- How a drawing looks. -/
structure Style (α : Type) where
  fontFamily : String
  color : Color
  strokeWidth : α
  /-- Whether single glyphs are rotated a little. -/
  handwriting : Bool
  /-- Fixes the rotations. -/
  seed : Option UInt64
deriving DecidableEq, Repr

/-- A finished drawing. The baseline is measured from the top of the bounds. -/
structure Drawing (α : Type) where
  primitives : List (Primitive α)
  bounds : Rect α
  baseline : α
deriving DecidableEq, Repr

/-- A step of a sketch: what it draws, and how many draws are used after it, given how many were
used before. -/
abbrev Step (α : Type) := Nat → List (Primitive α) × Nat

namespace Step

def nothing : Step α := fun used => ([], used)

/-- Primitives that need no draw. -/
def emit (primitives : List (Primitive α)) : Step α := fun used => (primitives, used)

/-- One step after the other. -/
def andThen (first second : Step α) : Step α := fun used =>
  let (xs, used) := first used
  let (ys, used) := second used
  (xs ++ ys, used)

end Step

/-- What draws a layout: a style, and the sequence of rotations if there are any. -/
structure Pen (α : Type) where
  style : Style α
  rotations : Option (Nat → α)

namespace Pen

variable [Scalar α]

def line (pen : Pen α) (start finish : Point α) : Primitive α :=
  .line ⟨start, finish, pen.style.color, pen.style.strokeWidth⟩

def stroke (pen : Pen α) (commands : List (PathCommand α)) : Primitive α :=
  .path ⟨commands, pen.style.color, none, pen.style.strokeWidth⟩

/-- The hook of a root, from its left end over its lowest point to the overline. -/
def radicalPath (r : Rect α) : List (PathCommand α) :=
  [.moveTo ⟨r.x, r.y + r.height * 0.55⟩,
   .lineTo ⟨r.x + r.width * 0.2, r.y + r.height * 0.45⟩,
   .lineTo ⟨r.x + r.width * 0.5, r.bottom⟩,
   .lineTo ⟨r.right, r.y⟩]

/-- The sign of an integral: two curves that meet in the middle. -/
def integralPath (r : Rect α) : List (PathCommand α) :=
  [.moveTo ⟨r.x + r.width * 0.85, r.y + r.height * 0.08⟩,
   .cubicTo ⟨r.x + r.width * 0.6, r.y - r.height * 0.02⟩
     ⟨r.x + r.width * 0.5, r.y + r.height * 0.15⟩ ⟨r.x + r.width * 0.5, r.y + r.height * 0.5⟩,
   .cubicTo ⟨r.x + r.width * 0.5, r.y + r.height * 0.85⟩
     ⟨r.x + r.width * 0.4, r.y + r.height * 1.02⟩ ⟨r.x + r.width * 0.15, r.y + r.height * 0.92⟩]

/-- The sign of a sum, from its upper to its lower right end. -/
def sumPath (r : Rect α) : List (PathCommand α) :=
  [.moveTo ⟨r.right, r.y⟩,
   .lineTo ⟨r.x, r.y⟩,
   .lineTo ⟨r.x + r.width * 0.55, r.centerY⟩,
   .lineTo ⟨r.x, r.bottom⟩,
   .lineTo ⟨r.right, r.bottom⟩]

def glyphPath (r : Rect α) : BigOperator → List (PathCommand α)
  | .integral => integralPath r
  | .sum => sumPath r

/-- A bracket that bows outwards. -/
def bracketPath (r : Rect α) (opening : Bool) : List (PathCommand α) :=
  let tip := if opening then r.x + r.width * 0.8 else r.x + r.width * 0.2
  let bulge := if opening then r.x else r.right
  [.moveTo ⟨tip, r.y⟩, .quadTo ⟨bulge, r.centerY⟩ ⟨tip, r.bottom⟩]

/-- A delimiter in its box. -/
def delimiter (pen : Pen α) (r : Rect α) (opening : Bool) : Delimiter → Primitive α
  | .bars => pen.line ⟨r.centerX, r.y⟩ ⟨r.centerX, r.bottom⟩
  | .parentheses => pen.stroke (bracketPath r opening)

/-- The rotation of a run at `bounds`: only one of a single cluster is rotated, about its middle. -/
def rotation (pen : Pen α) (text : String) (bounds : Rect α) (used : Nat) :
    Option (Rotation α) :=
  match pen.rotations with
  | some degrees =>
    if Unicode.graphemeCount text == 1 then
      some ⟨degrees used, ⟨bounds.centerX, bounds.centerY⟩⟩
    else none
  | none => none

/-- A run of text with its baseline on that of its box. -/
def textRun (pen : Pen α) (bounds : Rect α) (baseline : α) (text : String) (fontSize : α) :
    Step α := fun used =>
  let rotation := pen.rotation text bounds used
  let run : TextRun α :=
    { text, anchor := ⟨bounds.x, bounds.y + baseline⟩, fontSize
      fontFamily := pen.style.fontFamily, color := pen.style.color, rotation }
  ([.textRun run], if rotation.isSome then used + 1 else used)

/-- The bar of a fraction, drawn along its middle. -/
def fractionBar (pen : Pen α) (bar : Bar α) : Primitive α :=
  let y := bar.y + bar.thickness / 2.0
  pen.line ⟨bar.x, y⟩ ⟨bar.x + bar.width, y⟩

/-- The overline of a root, drawn along its top. -/
def overline (pen : Pen α) (bar : Bar α) : Primitive α :=
  pen.line ⟨bar.x, bar.y⟩ ⟨bar.x + bar.width, bar.y⟩

end Pen

namespace Layout

variable [Scalar α]

mutual

/-- Draw a box, and then the scripts attached to it. -/
def sketch (pen : Pen α) : Layout α → Step α
  | .node r b k s t =>
    (sketchKind pen r b k).andThen ((sketchOption pen s).andThen (sketchOption pen t))

def sketchKind (pen : Pen α) (r : Rect α) (b : α) : Kind α (Layout α) → Step α
  | .text s size _ => pen.textRun r b s size
  | .sequence xs => sketchList pen xs
  | .fraction n bar d =>
    (Step.emit [pen.fractionBar bar]).andThen ((n.sketch pen).andThen (d.sketch pen))
  | .root r bar i x =>
    (Step.emit [pen.stroke (Pen.radicalPath r), pen.overline bar]).andThen
      ((sketchOption pen i).andThen (x.sketch pen))
  | .script _ x => x.sketch pen
  | .bigOperator op r u l =>
    (Step.emit [pen.stroke (Pen.glyphPath r op)]).andThen
      ((sketchOption pen u).andThen (sketchOption pen l))
  | .limit x a => (x.sketch pen).andThen (sketchOption pen a)
  | .delimited d o x c =>
    (Step.emit [pen.delimiter o true d]).andThen
      ((x.sketch pen).andThen (Step.emit [pen.delimiter c false d]))
  | .empty => Step.nothing

def sketchOption (pen : Pen α) : Option (Layout α) → Step α
  | none => Step.nothing
  | some x => x.sketch pen

def sketchList (pen : Pen α) : List (Layout α) → Step α
  | [] => Step.nothing
  | x :: xs => (x.sketch pen).andThen (sketchList pen xs)

end

end Layout

namespace Pen

variable [Scalar α]

/-- The drawing of a layout, from the first draw on. -/
def draw (pen : Pen α) (l : Layout α) : Except Error (Drawing α) :=
  let (primitives, _) := l.sketch pen 0
  if primitives.isEmpty then .error .nothingToDraw
  else .ok ⟨primitives, l.extent, l.baselineY - l.extent.y⟩

end Pen

end FormulaDrawing
