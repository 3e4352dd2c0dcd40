import FormulaDrawing.Binary.Text
import FormulaDrawing.Drawing.Sketch
import FormulaDrawing.Latex.Reader
import FormulaDrawing.Layout.Engine

/-!
# Options

What a host may choose about a drawing. `Options.validate` refuses what layout cannot work with,
naming the first such option.
-/

namespace FormulaDrawing

structure Options where
  fontFamily : String := "Caveat, cursive"
  fontSize : Single := 32.0
  color : Color := .ink
  strokeWidth : Single := 2.0
  /-- Whether single glyphs are rotated a little. -/
  handwriting : Bool := true
  /-- Fixes the rotations. -/
  seed : Option UInt64 := none
  originX : Single := 0.0
  originY : Single := 0.0
  /-- The limit on nesting, in reading and in layout. -/
  nestingLimit : Nat := Latex.defaultLimit
deriving DecidableEq

namespace Options

instance : Inhabited Options := ⟨{}⟩

/-- Whether a number is usable as a size. -/
def isSize (x : Single) : Bool := x.isFinite && Scalar.isPositive x

/-- Whether layout can work with the options, or why not. -/
def validate (o : Options) : Except OptionProblem Unit :=
  if !isSize o.fontSize then .error (.fontSize o.fontSize.toText)
  else if !isSize o.strokeWidth then .error (.strokeWidth o.strokeWidth.toText)
  else if !(o.originX.isFinite && o.originY.isFinite) then .error .origin
  else if o.nestingLimit = 0 then .error .nestingLimit
  else .ok ()

/-- The same options without rotations. -/
def steady (o : Options) : Options := { o with handwriting := false }

/-- Where layout starts. -/
def context (o : Options) : Context Single :=
  { x := o.originX, y := o.originY, fontSize := o.fontSize }

def settings (o : Options) : Settings Single := ⟨o.strokeWidth, o.nestingLimit⟩

def style (o : Options) : Style Single :=
  ⟨o.fontFamily, o.color, o.strokeWidth, o.handwriting, o.seed⟩

end Options

end FormulaDrawing
