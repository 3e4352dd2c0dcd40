import FormulaDrawing.Scalar

/-!
# Geometry

Points, rectangles and horizontal bars. Coordinates grow to the right and downwards, and a figure
is placed by its top left corner.
-/

namespace FormulaDrawing

variable {α : Type}

/-- An axis-aligned rectangle. -/
structure Rect (α : Type) where
  x : α
  y : α
  width : α
  height : α
deriving DecidableEq, Repr

/-- A horizontal rule, placed by its top left corner. -/
structure Bar (α : Type) where
  x : α
  y : α
  width : α
  thickness : α
deriving DecidableEq, Repr

/-- A point of the plane. -/
structure Point (α : Type) where
  x : α
  y : α
deriving DecidableEq, Repr

namespace Point

/-- Put the point where two functions of its coordinates say. -/
def map (f g : α → α) (p : Point α) : Point α := ⟨f p.x, g p.y⟩

end Point

namespace Rect

/-- Put the corner where two functions of its coordinates say. -/
def mapCorner (f g : α → α) (r : Rect α) : Rect α := { r with x := f r.x, y := g r.y }

variable [Scalar α]

def right (r : Rect α) : α := r.x + r.width

def bottom (r : Rect α) : α := r.y + r.height

def centerX (r : Rect α) : α := r.x + r.width / 2.0

def centerY (r : Rect α) : α := r.y + r.height / 2.0

/-- The smallest rectangle that contains both. -/
def union (r s : Rect α) : Rect α :=
  let x := min r.x s.x
  let y := min r.y s.y
  ⟨x, y, max r.right s.right - x, max r.bottom s.bottom - y⟩

end Rect

namespace Bar

/-- Put the corner where two functions of its coordinates say. -/
def mapCorner (f g : α → α) (b : Bar α) : Bar α := { b with x := f b.x, y := g b.y }

end Bar

end FormulaDrawing
