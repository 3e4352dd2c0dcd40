import FormulaDrawing.Layout.Basic
import FormulaDrawing.Measure

/-!
# Laying out formulas

`Engine.layout` places a formula at a context: a position, and the font size there. The recursion
over the formula lays out the parts; how finished parts are put together is a function of its own
for each kind of structure (`fractionLayout`, `rootLayout`, …).

Scripts are attached to the part before them while their sequence is laid out. Two guards replace a
formula by an empty box: a depth past the limit, and a context that is not usable.
-/

namespace FormulaDrawing

variable {α : Type}

/-- Where a layout starts and at which font size. The nesting level is informative only. -/
structure Context (α : Type) where
  x : α
  y : α
  fontSize : α
  nestingLevel : Nat := 0
deriving DecidableEq, Repr

namespace Context

/-- The same size and level at another position. -/
def movedTo (ctx : Context α) (x y : α) : Context α := { ctx with x := x, y := y }

variable [Scalar α]

/-- One level deeper, at a scaled font size. -/
def nested (ctx : Context α) (scale : α) : Context α :=
  { ctx with fontSize := ctx.fontSize * scale, nestingLevel := ctx.nestingLevel + 1 }

/-- A context is usable if its numbers are finite and its font size is positive. -/
def isUsable (ctx : Context α) : Bool :=
  Scalar.isFinite ctx.x && Scalar.isFinite ctx.y && Scalar.isFinite ctx.fontSize
    && Scalar.isPositive ctx.fontSize

end Context

/-- The stroke width that bars scale with, and the depth past which formulas become empty. -/
structure Settings (α : Type) where
  strokeWidth : α
  maxDepth : Nat
deriving DecidableEq, Repr

/-- Settings and a text measure. -/
structure Engine (α : Type) where
  settings : Settings α
  measure : Measure α

/-! ## Proportions -/

section Proportions

variable [Scalar α]

/-- The gap between the stacked parts of a structure. -/
def padding : α := 4.0

/-- The least inner width of a fraction bar. -/
def minFractionWidth : α := 20.0

/-- The size of scripts, and of what a limit approaches. -/
def scriptScale : α := 0.6

/-- The size of numerators and denominators. -/
def fractionScale : α := 0.7

/-- The size of the limits of big operators. -/
def limitScale : α := 0.5

/-- The size of the index of a root. -/
def indexScale : α := 0.5

/-- How far superscripts rise above the top of their base, in font sizes. -/
def superscriptRise : α := 0.45

/-- How far subscripts drop below the top of their base, in font sizes. -/
def subscriptDrop : α := 0.3

/-- How far a superscript without a base rises, in font sizes. -/
def standaloneRise : α := 0.4

/-- The part of its base's width that a script overlaps. -/
def scriptOverlap : α := 0.1

end Proportions

namespace Formula

/-- Whether a formula is spaced as an operator. -/
def isOperator : Formula → Bool
  | .leaf (.operator _) => true
  | _ => false

/-- Whether a formula is a name that its argument follows closely. -/
def isNamed : Formula → Bool
  | .leaf (.function _) => true
  | .limit _ => true
  | _ => false

end Formula

namespace Engine

variable [Scalar α]

/-- The box for what cannot be laid out, at the context's position if there is one. -/
def emptyLayout (ctx : Context α) : Layout α :=
  if Scalar.isFinite ctx.x && Scalar.isFinite ctx.y then
    .sized ⟨ctx.x, ctx.y, 0.0, 0.0⟩ 0.0 .empty
  else .sized ⟨0.0, 0.0, 0.0, 0.0⟩ 0.0 .empty

/-- A run of text, sized by the measure. -/
def textLayout (e : Engine α) (text : String) (role : TextRole) (ctx : Context α) : Layout α :=
  let metrics := e.measure text ctx.fontSize
  .sized ⟨ctx.x, ctx.y, metrics.width, metrics.height⟩ metrics.baseline
    (.text text ctx.fontSize role)

/-! ## Sequences -/

/-- The gap between two neighbours. -/
def spacing (left right : Formula) (fontSize : α) : α :=
  if left.isOperator || right.isOperator then fontSize * 0.25
  else if left.isNamed then fontSize * 0.1
  else fontSize * 0.15

/-- A sequence being laid out: the items placed, latest first, the formula that the latest one came
from, and the position where the next one may start. -/
structure Row (α : Type) where
  placed : List (Layout α)
  previous : Option Formula
  cursor : α

namespace Row

/-- Nothing placed yet. -/
def start (ctx : Context α) : Row α := ⟨[], none, ctx.x⟩

/-- The item that a script attaches to: the latest one, if its slot is free. -/
def base? (row : Row α) (side : ScriptSide) : Option (Layout α) :=
  row.placed.head?.filter (·.accepts side)

/-- Where the next formula starts. -/
def position (row : Row α) (ctx : Context α) (x : Formula) : α :=
  match row.previous with
  | some left => row.cursor + spacing left x ctx.fontSize
  | none => row.cursor

/-- One more item. -/
def place (row : Row α) (x : Formula) (item : Layout α) : Row α :=
  ⟨item :: row.placed, some x, item.extent.right⟩

/-- Attach a script to the latest item, which is `base`. -/
def attach (row : Row α) (base : Layout α) (side : ScriptSide) (script : Layout α) : Row α :=
  let base := base.attach side script
  { row with placed := base :: row.placed.tail, cursor := max row.cursor base.extent.right }

end Row

/-- The context of a script at its base: a script starts within the base's width, a superscript
above its top and a subscript below it. -/
def scriptContext (ctx : Context α) (side : ScriptSide) (base : Layout α) : Context α :=
  let offset :=
    match side with
    | .superscript => -superscriptRise * ctx.fontSize
    | .subscript => subscriptDrop * ctx.fontSize
  (ctx.nested scriptScale).movedTo (base.x + base.width * (1.0 - scriptOverlap)) (base.y + offset)

/-- How far items with their scripts reach above and below their baselines; at least zero. -/
def reach (items : List (Layout α)) : α × α :=
  items.foldl
    (fun (ascent, descent) item =>
      (max ascent (item.baselineY - item.extent.y),
        max descent (item.extent.bottom - item.baselineY)))
    (0.0, 0.0)

/-- Align the items of a row on the baseline of the highest. -/
def rowLayout (ctx : Context α) (row : Row α) : Layout α :=
  let items := row.placed.reverse
  let (ascent, descent) := reach items
  let aligned := items.map fun item => item.translate 0.0 (ctx.y + ascent - item.baselineY)
  .sized ⟨ctx.x, ctx.y, row.cursor - ctx.x, ascent + descent⟩ ascent (.sequence aligned)

/-! ## Structures -/

/-- A script without a base. How far it is off the line shows in its baseline. -/
def scriptLayout (ctx : Context α) (side : ScriptSide) (content : Layout α) : Layout α :=
  let baseline :=
    match side with
    | .superscript => content.baseline + standaloneRise * ctx.fontSize
    | .subscript => content.baseline - subscriptDrop * ctx.fontSize
  .sized content.bounds baseline (.script side content)

/-- Numerator, bar and denominator below each other, centred on the bar. -/
def fractionLayout (e : Engine α) (ctx : Context α) (numerator denominator : Layout α) :
    Layout α :=
  let width := max (max numerator.width denominator.width) minFractionWidth + 2.0 * padding
  let thickness := max (e.settings.strokeWidth * 1.5) 2.0
  let numerator := numerator.translate
    (ctx.x + (width - numerator.width) / 2.0 - numerator.x) (ctx.y - numerator.y)
  let bar : Bar α := ⟨ctx.x, numerator.y + numerator.height + padding, width, thickness⟩
  let denominator := denominator.translate
    (ctx.x + (width - denominator.width) / 2.0 - denominator.x)
    (bar.y + thickness + padding - denominator.y)
  let height := denominator.y + denominator.height - ctx.y
  let baseline := numerator.height + padding + thickness / 2.0
  .sized ⟨ctx.x, ctx.y, width, height⟩ baseline (.fraction numerator bar denominator)

/-- A root with its content under the overline. An index ends at the middle of the sign; where it
does not fit beside and above the sign, the sign makes room. -/
def rootLayout (e : Engine α) (ctx : Context α) (index : Option (Layout α)) (content : Layout α) :
    Layout α :=
  let signWidth := ctx.fontSize * 0.5
  let bodyHeight := content.height + padding
  let shift :=
    match index with
    | some i => max (i.width - signWidth / 2.0) 0.0
    | none => 0.0
  let lift :=
    match index with
    | some i => max (i.height - bodyHeight / 2.0) 0.0
    | none => 0.0
  let top := ctx.y + lift
  let radical : Rect α := ⟨ctx.x + shift, top, signWidth, bodyHeight⟩
  let overline : Bar α :=
    ⟨radical.right, top, content.width + 1.5 * padding, e.settings.strokeWidth⟩
  let content := content.translate
    (overline.x + 0.5 * padding - content.x) (top + padding - content.y)
  let index := index.map fun i =>
    let x := radical.centerX - i.width
    let y := top + bodyHeight / 2.0 - i.height
    i.translate (x - i.x) (y - i.y)
  let width := overline.x + overline.width - ctx.x
  let baseline := lift + content.baseline + padding
  .sized ⟨ctx.x, ctx.y, width, lift + bodyHeight⟩ baseline (.root radical overline index content)

/-- The size of the sign of a big operator. -/
def glyphSize (fontSize : α) : BigOperator → α × α
  | .integral => (fontSize * 0.6, fontSize * 1.5)
  | .sum => (fontSize * 0.9, fontSize * 1.2)

/-- Centre a part in a width that starts at the context, with its top at `y`. -/
def centred (ctx : Context α) (width y : α) (part : Layout α) : Layout α :=
  part.translate (ctx.x + (width - part.width) / 2.0 - part.x) (y - part.y)

/-- A big operator with its limits above and below the sign. -/
def bigOperatorLayout (ctx : Context α) (op : BigOperator) (lower upper : Option (Layout α)) :
    Layout α :=
  let (glyphWidth, glyphHeight) := glyphSize ctx.fontSize op
  let width := (upper.toList ++ lower.toList).foldl (fun w l => max w l.width) glyphWidth
  let glyphY :=
    match upper with
    | some u => ctx.y + (u.height + padding)
    | none => ctx.y
  let glyph : Rect α := ⟨ctx.x + (width - glyphWidth) / 2.0, glyphY, glyphWidth, glyphHeight⟩
  let bottom := glyphY + glyphHeight
  let height :=
    match lower with
    | some l => bottom + padding + l.height - ctx.y
    | none => bottom - ctx.y
  .sized ⟨ctx.x, ctx.y, width, height⟩ (height / 2.0)
    (.bigOperator op glyph (upper.map (centred ctx width ctx.y))
      (lower.map (centred ctx width (bottom + padding))))

/-- The word of a limit with what it approaches below it. -/
def limitLayout (ctx : Context α) (label : Layout α) (approach : Option (Layout α)) : Layout α :=
  let width :=
    match approach with
    | some a => max a.width label.width
    | none => label.width
  let label := label.translate ((width - label.width) / 2.0) 0.0
  let gap := ctx.fontSize * 0.1
  let height :=
    match approach with
    | some a => label.height + (gap + a.height)
    | none => label.height
  .sized ⟨ctx.x, ctx.y, width, height⟩ label.baseline
    (.limit label (approach.map (centred ctx width (label.y + label.height + gap))))

/-- The width of a delimiter. -/
def delimiterWidth (e : Engine α) (fontSize : α) : Delimiter → α
  | .parentheses => fontSize * 0.3
  | .bars => e.settings.strokeWidth * 1.5

/-- A sequence between delimiters, which are at least as high as the font. -/
def delimitedLayout (e : Engine α) (ctx : Context α) (delimiter : Delimiter)
    (content : Layout α) : Layout α :=
  let delimWidth := e.delimiterWidth ctx.fontSize delimiter
  let height := max content.height ctx.fontSize
  let dy := (height - content.height) / 2.0
  let content := content.translate 0.0 dy
  let opening : Rect α := ⟨ctx.x, ctx.y, delimWidth, height⟩
  let closing : Rect α := ⟨content.x + content.width, ctx.y, delimWidth, height⟩
  .sized ⟨ctx.x, ctx.y, closing.right - ctx.x, height⟩ (dy + content.baseline)
    (.delimited delimiter opening content closing)

/-- The context of a sequence between delimiters. -/
def insideContext (e : Engine α) (ctx : Context α) (delimiter : Delimiter) : Context α :=
  ctx.movedTo (ctx.x + e.delimiterWidth ctx.fontSize delimiter) ctx.y

/-! ## The recursion -/

/-- Whether a formula may be laid out at a depth and context. -/
def admits (e : Engine α) (ctx : Context α) (depth : Nat) : Bool :=
  decide (depth ≤ e.settings.maxDepth) && ctx.isUsable

mutual

/-- Lay out a formula `depth` levels below the start. -/
def layoutAt (e : Engine α) (ctx : Context α) (depth : Nat) (x : Formula) : Layout α :=
  if e.admits ctx depth then
    match x with
    | .leaf leaf => e.textLayout leaf.content leaf.role ctx
    | .equation items | .group items =>
      rowLayout ctx (e.layoutRow ctx (depth + 1) (.start ctx) items)
    | .fraction n d =>
      e.fractionLayout ctx (e.layoutAt (ctx.nested fractionScale) (depth + 1) n)
        (e.layoutAt (ctx.nested fractionScale) (depth + 1) d)
    | .root index content =>
      e.rootLayout ctx (e.layoutOption (ctx.nested indexScale) (depth + 1) index)
        (e.layoutAt (ctx.nested 1.0) (depth + 1) content)
    | .script side content =>
      scriptLayout ctx side (e.layoutAt (ctx.nested scriptScale) (depth + 1) content)
    | .bigOperator op lower upper =>
      bigOperatorLayout ctx op (e.layoutOption (ctx.nested limitScale) (depth + 1) lower)
        (e.layoutOption (ctx.nested limitScale) (depth + 1) upper)
    | .limit approach =>
      limitLayout ctx (e.textLayout "lim" .function ctx)
        (e.layoutOption (ctx.nested scriptScale) (depth + 1) approach)
    | .delimited delimiter items =>
      let inside := e.insideContext ctx delimiter
      e.delimitedLayout ctx delimiter
        (rowLayout inside (e.layoutRow inside (depth + 1) (.start inside) items))
  else emptyLayout ctx

def layoutOption (e : Engine α) (ctx : Context α) (depth : Nat) :
    Option Formula → Option (Layout α)
  | none => none
  | some x => some (e.layoutAt ctx depth x)

/-- Lay out the items of a sequence from left to right. A script is attached to the item before it
if that has its slot free, and is an item of its own otherwise. -/
def layoutRow (e : Engine α) (ctx : Context α) (depth : Nat) (row : Row α) :
    List Formula → Row α
  | [] => row
  | .script side content :: xs =>
    match row.base? side with
    | some base =>
      let script := e.layoutAt (scriptContext ctx side base) depth content
      e.layoutRow ctx depth (row.attach base side script) xs
    | none =>
      let x := Formula.script side content
      let item := e.layoutAt (ctx.movedTo (row.position ctx x) ctx.y) depth (.script side content)
      e.layoutRow ctx depth (row.place x item) xs
  | x :: xs =>
    let item := e.layoutAt (ctx.movedTo (row.position ctx x) ctx.y) depth x
    e.layoutRow ctx depth (row.place x item) xs

end

/-- Lay out a formula. What cannot be laid out becomes an empty box. -/
def layout (e : Engine α) (ctx : Context α) (x : Formula) : Layout α := e.layoutAt ctx 0 x

end Engine

end FormulaDrawing
