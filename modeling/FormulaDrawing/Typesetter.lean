import FormulaDrawing.Drawing.Jitter
import FormulaDrawing.Drawing.Json
import FormulaDrawing.Drawing.Markup
import FormulaDrawing.Json.Basic
import FormulaDrawing.Options.Basic

/-!
# Typesetting

A typesetter renders sources with fixed options: it reads, lays out and draws. Rendering never
fails. Where one of these steps cannot go on, the object is the source itself, as a single run of
plain text; a blank source is an object without primitives.
-/

namespace FormulaDrawing

/-- How an object came about. -/
inductive Status where
  /-- Read, laid out and drawn. -/
  | typeset
  /-- The source as plain text. -/
  | fallback
deriving DecidableEq, Repr

/-- What one rendering makes. The baseline is measured from the top of the bounds. -/
structure RenderedObject where
  primitives : List (Primitive Single)
  bounds : Rect Single
  baseline : Single
  status : Status
  source : String
deriving DecidableEq

namespace RenderedObject

def isFallback (o : RenderedObject) : Bool := o.status == .fallback

/-- The object moved so that the top left corner of its bounds lies at `(left, top)`. -/
def placedAt (o : RenderedObject) (left top : Single) : RenderedObject :=
  let dx := left - o.bounds.x
  let dy := top - o.bounds.y
  { o with
    primitives := o.primitives.map fun p => p.translate dx dy
    bounds := { o.bounds with x := left, y := top } }

/-- The primitives as elements of markup. -/
def toMarkup (o : RenderedObject) : String := Markup.elements o.primitives

/-- The object as an SVG document. -/
def toSvg (o : RenderedObject) : String := Markup.document o.primitives o.bounds

end RenderedObject

namespace Status

def name : Status → String
  | .typeset => "typeset"
  | .fallback => "fallback"

end Status

namespace RenderedObject

def toJson (o : RenderedObject) : Json :=
  .object [("primitives", .array (o.primitives.map Primitive.toJson)),
    ("bounds", o.bounds.toJson), ("baseline", .ofBinary o.baseline),
    ("status", .string o.status.name), ("source", .string o.source)]

end RenderedObject

/-- A signal that fonts are ready: at some poll it says so. -/
inductive Readiness where
  | ready
  | pending (next : Readiness)
deriving DecidableEq, Repr

namespace Readiness

/-- A signal that is pending for `n` polls. -/
def after : Nat → Readiness
  | 0 => .ready
  | n + 1 => .pending (after n)

/-- How often a signal is polled until it says it is ready. -/
def polls : Readiness → Nat
  | .ready => 1
  | .pending next => next.polls + 1

end Readiness

/-- The pen of a style. Rotations that no seed fixes are drawn from `entropy`. -/
def Style.pen (style : Style Single) (entropy : UInt64) : Pen Single where
  style := style
  rotations := if style.handwriting then some (Jitter.draw (style.seed.getD entropy)) else none

/-- Fixed options, a text measure, and where the rotations come from that no seed fixes. -/
structure Typesetter where
  options : Options
  measure : Measure Single := Measure.standard
  entropy : UInt64 := 0

namespace Typesetter

/-- The layout engine. -/
def engine (t : Typesetter) : Engine Single := ⟨t.options.settings, t.measure⟩

def pen (t : Typesetter) : Pen Single := t.options.style.pen t.entropy

/-- The formula of a source under the options' limit. -/
def formula (t : Typesetter) (source : String) : Formula :=
  Latex.parse source t.options.nestingLimit

/-- The layout of a source. -/
def layout (t : Typesetter) (source : String) : Layout Single :=
  t.engine.layout t.options.context (t.formula source)

/-- Read, lay out and draw. -/
def typeset (t : Typesetter) (source : String) : Except Error RenderedObject :=
  if Unicode.isBlank source then .error .emptyExpression
  else
    match t.options.validate with
    | .error problem => .error (.invalidOptions problem)
    | .ok () =>
      match t.pen.draw (t.layout source) with
      | .error e => .error e
      | .ok drawing => .ok ⟨drawing.primitives, drawing.bounds, drawing.baseline, .typeset, source⟩

/-- A number, or zero in place of one that is not finite. -/
def finiteOrZero (x : Single) : Single := if x.isFinite then x else 0.0

/-- A size, or the default one in place of one that is not usable. -/
def usableSize (x : Single) : Single := if Options.isSize x then x else ({} : Options).fontSize

/-- The source as plain text. -/
def fallback (t : Typesetter) (source : String) : RenderedObject :=
  let x := finiteOrZero t.options.originX
  let y := finiteOrZero t.options.originY
  if Unicode.isBlank source then ⟨[], ⟨x, y, 0.0, 0.0⟩, 0.0, .fallback, source⟩
  else
    let fontSize := usableSize t.options.fontSize
    let metrics := t.measure source fontSize
    let run : TextRun Single :=
      { text := source, anchor := ⟨x, y + metrics.baseline⟩, fontSize
        fontFamily := t.options.fontFamily, color := t.options.color, rotation := none }
    ⟨[.textRun run], ⟨x, y, metrics.width, metrics.height⟩, metrics.baseline, .fallback, source⟩

/-- Render a source. -/
def render (t : Typesetter) (source : String) : RenderedObject :=
  match t.typeset source with
  | .ok object => object
  | .error _ => t.fallback source

/-- Only strings are expressions. -/
def expression (value : Json) : Except Error String :=
  match value with
  | .string source => .ok source
  | _ => .error (.notText value.kindName)

/-- Render a host value; one that is no string renders as nothing. -/
def renderValue (t : Typesetter) (value : Json) : RenderedObject :=
  match expression value with
  | .ok source => t.render source
  | .error _ => t.fallback ""

/-- Wait for a signal once and then render; also how often the signal was polled. -/
def renderWhenReady (t : Typesetter) (source : String) (signal : Readiness) :
    RenderedObject × Nat :=
  (t.render source, signal.polls)

end Typesetter

/-- Render one source with the given options. -/
def render (source : String) (options : Options) : RenderedObject :=
  ({ options } : Typesetter).render source

end FormulaDrawing
