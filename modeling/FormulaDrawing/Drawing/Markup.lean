import FormulaDrawing.Binary.Text
import FormulaDrawing.Drawing.Primitive

/-!
# Markup

Primitives as SVG elements, one a line, and as a document of their own. Coordinates are rounded to
two places; text is escaped, so that what it holds stays text.
-/

namespace FormulaDrawing.Markup

/-- A coordinate: rounded to two places, and zero without a sign. -/
def coordinate (x : Single) : String :=
  let rounded := (x * 100.0).round / 100.0
  if rounded.isZero then "0" else rounded.toText

/-- The entity for a character with a meaning in markup, or the character itself. -/
def escapeChar (c : Char) : List Char :=
  if c = '&' then "&amp;".toList
  else if c = '<' then "&lt;".toList
  else if c = '>' then "&gt;".toList
  else if c = '\x22' then "&quot;".toList
  else if c = '\x27' then "&apos;".toList
  else [c]

/-- Text as character data or as the value of an attribute. -/
def escape (s : String) : String := String.ofList (s.toList.flatMap escapeChar)

/-- An attribute with the space before it. -/
def attr (name value : String) : String := " " ++ name ++ "=\"" ++ value ++ "\""

def point (p : Point Single) : String := coordinate p.x ++ " " ++ coordinate p.y

/-- One command of path data. -/
def command : PathCommand Single → String
  | .moveTo p => "M " ++ point p
  | .lineTo p => "L " ++ point p
  | .quadTo c p => "Q " ++ point c ++ " " ++ point p
  | .cubicTo c₁ c₂ p => "C " ++ point c₁ ++ " " ++ point c₂ ++ " " ++ point p
  | .close => "Z"

/-- Path data: the commands with a space between any two. -/
def pathData (commands : List (PathCommand Single)) : String :=
  " ".intercalate (commands.map command)

/-- The attribute of a rotation. The degrees are written in full. -/
def transform : Option (Rotation Single) → String
  | none => ""
  | some r => attr "transform" ("rotate(" ++ r.degrees.toText ++ " " ++ point r.center ++ ")")

def textElement (run : TextRun Single) : String :=
  "<text" ++ attr "x" (coordinate run.anchor.x) ++ attr "y" (coordinate run.anchor.y)
    ++ attr "font-family" (escape run.fontFamily) ++ attr "font-size" (coordinate run.fontSize)
    ++ attr "fill" run.color.toHex ++ transform run.rotation
    ++ ">" ++ escape run.text ++ "</text>"

def lineElement (line : Line Single) : String :=
  "<line" ++ attr "x1" (coordinate line.start.x) ++ attr "y1" (coordinate line.start.y)
    ++ attr "x2" (coordinate line.finish.x) ++ attr "y2" (coordinate line.finish.y)
    ++ attr "stroke" line.stroke.toHex ++ attr "stroke-width" (coordinate line.width)
    ++ attr "stroke-linecap" "round" ++ "/>"

/-- The value of a fill: a path without one says so. -/
def fill : Option Color → String
  | none => "none"
  | some c => c.toHex

def pathElement (path : Path Single) : String :=
  "<path" ++ attr "d" (pathData path.commands) ++ attr "stroke" path.stroke.toHex
    ++ attr "fill" (fill path.fill) ++ attr "stroke-width" (coordinate path.width)
    ++ attr "stroke-linecap" "round" ++ attr "stroke-linejoin" "round" ++ "/>"

def element : Primitive Single → String
  | .textRun run => textElement run
  | .line line => lineElement line
  | .path path => pathElement path

/-- The elements of primitives, each on a line of its own. -/
def elements (primitives : List (Primitive Single)) : String :=
  String.join (primitives.map fun p => element p ++ "\n")

/-- The opening tag of a document that covers `bounds`. -/
def openingTag (bounds : Rect Single) : String :=
  let width := coordinate bounds.width
  let height := coordinate bounds.height
  "<svg" ++ attr "xmlns" "http://www.w3.org/2000/svg" ++ attr "width" width
    ++ attr "height" height
    ++ attr "viewBox"
      (coordinate bounds.x ++ " " ++ coordinate bounds.y ++ " " ++ width ++ " " ++ height)
    ++ ">"

/-- A document of its own. -/
def document (primitives : List (Primitive Single)) (bounds : Rect Single) : String :=
  openingTag bounds ++ "\n" ++ elements primitives ++ "</svg>"

end FormulaDrawing.Markup
