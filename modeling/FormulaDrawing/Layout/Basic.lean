import FormulaDrawing.Formula.Basic
import FormulaDrawing.Geometry

/-!
# Layouts

A layout is a tree of boxes with absolute positions. A box carries its baseline as a distance from
its top, what it shows as a `Kind`, and the scripts attached to it in two optional slots.

`Layout.children` is the one view of the parts of a layout, in document order, scripts last. The
walk and the depth go through it (`Layout.walk_eq`, `Layout.depth_eq`), and `Layout.mapPoints`, of
which moving a layout is an instance, commutes with it (`Layout.children_mapPoints`).
-/

namespace FormulaDrawing

/-- What a box shows. `α` is the type of scalars and `β` that of the parts. -/
inductive Kind (α β : Type) where
  /-- A run of text. -/
  | text (text : String) (fontSize : α) (role : TextRole)
  /-- Parts side by side. -/
  | sequence (items : List β)
  | fraction (numerator : β) (bar : Bar α) (denominator : β)
  /-- The sign of a root takes the box `radical`, and `overline` runs over the content. -/
  | root (radical : Rect α) (overline : Bar α) (index : Option β) (content : β)
  /-- A script without a base. -/
  | script (side : ScriptSide) (content : β)
  /-- The sign takes the box `glyph`. -/
  | bigOperator (operator : BigOperator) (glyph : Rect α) (upper lower : Option β)
  | limit (label : β) (approach : Option β)
  | delimited (delimiter : Delimiter) (opening : Rect α) (content : β) (closing : Rect α)
  /-- Stands in, without a size, for what could not be laid out. -/
  | empty
deriving Repr

/-- A box at `bounds` with its baseline, kind and scripts. -/
inductive Layout (α : Type) where
  | node (bounds : Rect α) (baseline : α) (kind : Kind α (Layout α))
      (superscript subscript : Option (Layout α))
deriving Repr

namespace Kind

/-- The parts in document order: an index before the content of its root, the upper limit before
the lower one. -/
def parts {α β : Type} : Kind α β → List β
  | .text _ _ _ => []
  | .sequence xs => xs
  | .fraction n _ d => [n, d]
  | .root _ _ i x => i.toList ++ [x]
  | .script _ x => [x]
  | .bigOperator _ _ u l => u.toList ++ l.toList
  | .limit x a => x :: a.toList
  | .delimited _ _ x _ => [x]
  | .empty => []

end Kind

namespace Layout

variable {α : Type}

def bounds : Layout α → Rect α
  | .node r _ _ _ _ => r

/-- The distance from the top to the baseline. -/
def baseline : Layout α → α
  | .node _ b _ _ _ => b

def kind : Layout α → Kind α (Layout α)
  | .node _ _ k _ _ => k

def superscript : Layout α → Option (Layout α)
  | .node _ _ _ s _ => s

def subscript : Layout α → Option (Layout α)
  | .node _ _ _ _ s => s

def x (l : Layout α) : α := l.bounds.x

def y (l : Layout α) : α := l.bounds.y

def width (l : Layout α) : α := l.bounds.width

def height (l : Layout α) : α := l.bounds.height

def isEmpty (l : Layout α) : Bool :=
  match l.kind with
  | .empty => true
  | _ => false

/-- The scripts, the superscript first. -/
def scripts (l : Layout α) : List (Layout α) := l.superscript.toList ++ l.subscript.toList

/-- The parts in document order, scripts last. -/
def children (l : Layout α) : List (Layout α) := l.kind.parts ++ l.scripts

/-- Whether the slot for a script is free. -/
def accepts (l : Layout α) : ScriptSide → Bool
  | .superscript => l.superscript.isNone
  | .subscript => l.subscript.isNone

/-- Put a script into its slot. -/
def attach (l : Layout α) (side : ScriptSide) (script : Layout α) : Layout α :=
  match side with
  | .superscript => .node l.bounds l.baseline l.kind (some script) l.subscript
  | .subscript => .node l.bounds l.baseline l.kind l.superscript (some script)

/-! ## Traversals -/

mutual

/-- Apply one function to every stored horizontal position and another to every vertical one. -/
def mapPoints (f g : α → α) : Layout α → Layout α
  | .node r b k s t =>
    .node (r.mapCorner f g) b (mapPointsKind f g k) (mapPointsOption f g s) (mapPointsOption f g t)

def mapPointsKind (f g : α → α) : Kind α (Layout α) → Kind α (Layout α)
  | .text s size role => .text s size role
  | .sequence xs => .sequence (mapPointsList f g xs)
  | .fraction n bar d => .fraction (n.mapPoints f g) (bar.mapCorner f g) (d.mapPoints f g)
  | .root r bar i x =>
    .root (r.mapCorner f g) (bar.mapCorner f g) (mapPointsOption f g i) (x.mapPoints f g)
  | .script side x => .script side (x.mapPoints f g)
  | .bigOperator op r u l =>
    .bigOperator op (r.mapCorner f g) (mapPointsOption f g u) (mapPointsOption f g l)
  | .limit x a => .limit (x.mapPoints f g) (mapPointsOption f g a)
  | .delimited d o x c =>
    .delimited d (o.mapCorner f g) (x.mapPoints f g) (c.mapCorner f g)
  | .empty => .empty

def mapPointsOption (f g : α → α) : Option (Layout α) → Option (Layout α)
  | none => none
  | some x => some (x.mapPoints f g)

def mapPointsList (f g : α → α) : List (Layout α) → List (Layout α)
  | [] => []
  | x :: xs => x.mapPoints f g :: mapPointsList f g xs

end

mutual

/-- The boxes in document order, each before its parts, with their levels below the start. -/
def walk (level : Nat) : Layout α → List (Nat × Layout α)
  | .node r b k s t =>
    (level, .node r b k s t) ::
      (walkKind (level + 1) k ++ walkOption (level + 1) s ++ walkOption (level + 1) t)

def walkKind (level : Nat) : Kind α (Layout α) → List (Nat × Layout α)
  | .text _ _ _ => []
  | .sequence xs => walkList level xs
  | .fraction n _ d => n.walk level ++ d.walk level
  | .root _ _ i x => walkOption level i ++ x.walk level
  | .script _ x => x.walk level
  | .bigOperator _ _ u l => walkOption level u ++ walkOption level l
  | .limit x a => x.walk level ++ walkOption level a
  | .delimited _ _ x _ => x.walk level
  | .empty => []

def walkOption (level : Nat) : Option (Layout α) → List (Nat × Layout α)
  | none => []
  | some x => x.walk level

def walkList (level : Nat) : List (Layout α) → List (Nat × Layout α)
  | [] => []
  | x :: xs => x.walk level ++ walkList level xs

end

mutual

/-- The number of boxes on the longest path down. -/
def depth : Layout α → Nat
  | .node _ _ k s t => 1 + max (depthKind k) (max (depthOption s) (depthOption t))

def depthKind : Kind α (Layout α) → Nat
  | .text _ _ _ => 0
  | .sequence xs => depthList xs
  | .fraction n _ d => max n.depth d.depth
  | .root _ _ i x => max (depthOption i) x.depth
  | .script _ x => x.depth
  | .bigOperator _ _ u l => max (depthOption u) (depthOption l)
  | .limit x a => max x.depth (depthOption a)
  | .delimited _ _ x _ => x.depth
  | .empty => 0

def depthOption : Option (Layout α) → Nat
  | none => 0
  | some x => x.depth

def depthList : List (Layout α) → Nat
  | [] => 0
  | x :: xs => max x.depth (depthList xs)

end

/-! ## Measures of a box -/

variable [Scalar α]

/-- Move a layout with everything under it. -/
def translate (l : Layout α) (dx dy : α) : Layout α := l.mapPoints (· + dx) (· + dy)

/-- The vertical position of the baseline. -/
def baselineY (l : Layout α) : α := l.y + l.baseline

mutual

/-- The bounds together with those of the scripts, and of their scripts in turn. -/
def extent : Layout α → Rect α
  | .node r _ _ s t => unionExtent (unionExtent r s) t

def unionExtent (r : Rect α) : Option (Layout α) → Rect α
  | none => r
  | some l => r.union l.extent

end

/-- A box without scripts; its sides are not negative. -/
def sized (r : Rect α) (baseline : α) (kind : Kind α (Layout α)) : Layout α :=
  .node { r with width := max r.width 0.0, height := max r.height 0.0 } baseline kind none none

/-! ## Lemmas -/

omit [Scalar α]

theorem mapPointsList_eq (f g : α → α) (xs : List (Layout α)) :
    mapPointsList f g xs = xs.map (mapPoints f g) := by
  induction xs with
  | nil => rfl
  | cons x xs ih => simp [mapPointsList, ih]

theorem mapPointsOption_eq (f g : α → α) (o : Option (Layout α)) :
    mapPointsOption f g o = o.map (mapPoints f g) := by
  cases o <;> rfl

theorem walkList_eq (level : Nat) (xs : List (Layout α)) :
    walkList level xs = xs.flatMap (walk level) := by
  induction xs with
  | nil => rfl
  | cons x xs ih => simp [walkList, ih]

theorem walkOption_eq (level : Nat) (o : Option (Layout α)) :
    walkOption level o = o.toList.flatMap (walk level) := by
  cases o <;> simp [walkOption]

theorem walkKind_eq (level : Nat) (k : Kind α (Layout α)) :
    walkKind level k = k.parts.flatMap (walk level) := by
  cases k <;> simp [walkKind, Kind.parts, walkList_eq, walkOption_eq]

/-- A walk visits a box and then walks its children. -/
theorem walk_eq (level : Nat) (l : Layout α) :
    l.walk level = (level, l) :: l.children.flatMap (walk (level + 1)) := by
  cases l with
  | node r b k s t =>
    simp [walk, children, scripts, kind, superscript, subscript, walkKind_eq, walkOption_eq]

theorem depthList_append (xs ys : List (Layout α)) :
    depthList (xs ++ ys) = max (depthList xs) (depthList ys) := by
  induction xs with
  | nil => simp [depthList]
  | cons x xs ih => simp [depthList, ih, Nat.max_assoc]

theorem depthOption_eq (o : Option (Layout α)) : depthOption o = depthList o.toList := by
  cases o <;> simp [depthOption, depthList]

theorem depthKind_eq (k : Kind α (Layout α)) : depthKind k = depthList k.parts := by
  cases k <;> simp [depthKind, Kind.parts, depthList, depthList_append, depthOption_eq]

/-- The depth of a box is one more than the greatest depth among its children. -/
theorem depth_eq (l : Layout α) : l.depth = 1 + depthList l.children := by
  cases l with
  | node r b k s t =>
    simp [depth, children, scripts, kind, superscript, subscript, depthKind_eq, depthOption_eq,
      depthList_append]

theorem parts_mapPointsKind (f g : α → α) (k : Kind α (Layout α)) :
    (mapPointsKind f g k).parts = k.parts.map (mapPoints f g) := by
  cases k <;>
    simp [mapPointsKind, Kind.parts, mapPointsOption_eq, mapPointsList_eq, Option.toList_map]

/-- Moving points moves those of the children. -/
theorem children_mapPoints (f g : α → α) (l : Layout α) :
    (l.mapPoints f g).children = l.children.map (mapPoints f g) := by
  cases l with
  | node r b k s t =>
    simp [mapPoints, children, scripts, kind, superscript, subscript, parts_mapPointsKind,
      mapPointsOption_eq, Option.toList_map]

theorem bounds_mapPoints (f g : α → α) (l : Layout α) :
    (l.mapPoints f g).bounds = l.bounds.mapCorner f g := by
  cases l
  rfl

end Layout

end FormulaDrawing
