import FormulaDrawing.Drawing.Markup

/-!
# Reading markup

A document taken apart by its characters alone: a tag runs from a `<` to the next `>`, and the text
after it to the next tag. In a tag every second quote ends a value, and the name of the value stands
before the first. Entities are undone last, in values and in text.

What a document says was drawn are its `figures`: everything about the primitives but their numbers.
-/

namespace FormulaDrawing

/-- A command of a path without its points. -/
inductive CommandKind where
  | moveTo
  | lineTo
  | quadTo
  | cubicTo
  | close
deriving DecidableEq, Repr

/-- A primitive without its numbers. -/
inductive Figure where
  | textRun (text fontFamily : String) (color : Color) (rotated : Bool)
  | line (stroke : Color)
  | path (stroke : Color) (fill : Option Color) (commands : List CommandKind)
deriving DecidableEq, Repr

def PathCommand.kind {α : Type} : PathCommand α → CommandKind
  | .moveTo _ => .moveTo
  | .lineTo _ => .lineTo
  | .quadTo _ _ => .quadTo
  | .cubicTo _ _ _ => .cubicTo
  | .close => .close

def Primitive.figure {α : Type} : Primitive α → Figure
  | .textRun run => .textRun run.text run.fontFamily run.color run.rotation.isSome
  | .line l => .line l.stroke
  | .path p => .path p.stroke p.fill (p.commands.map PathCommand.kind)

namespace Markup

/-! ## Tags -/

/-- A tag, and the text between it and the next one. -/
structure Tag where
  name : String
  attributes : List (String × String)
  /-- Whether the tag closes itself. -/
  closed : Bool
  text : String
deriving DecidableEq, Repr

/-- Undo the entities. -/
def unescape : List Char → List Char
  | '&' :: 'a' :: 'm' :: 'p' :: ';' :: cs => '&' :: unescape cs
  | '&' :: 'l' :: 't' :: ';' :: cs => '<' :: unescape cs
  | '&' :: 'g' :: 't' :: ';' :: cs => '>' :: unescape cs
  | '&' :: 'q' :: 'u' :: 'o' :: 't' :: ';' :: cs => '\x22' :: unescape cs
  | '&' :: 'a' :: 'p' :: 'o' :: 's' :: ';' :: cs => '\x27' :: unescape cs
  | c :: cs => c :: unescape cs
  | [] => []

/-- The characters of names. The name of a tag that ends an element begins with a slash. -/
def isNameChar (c : Char) : Bool := c.isAlphanum || c == '-' || c == '/'

/-- The name of the attribute whose value comes next: what stands after a space. -/
def attributeName (before : List Char) : String :=
  String.ofList ((before.dropWhile (· != ' ')).tail.takeWhile isNameChar)

/-- The attributes of a tag that was split at its quotes, and what stands after the last of them. -/
def attributes : List (List Char) → List (String × String) × List Char
  | [] => ([], [])
  | [last] => ([], last)
  | before :: value :: pieces =>
    let (others, last) := attributes pieces
    ((attributeName before, String.ofList (unescape value)) :: others, last)

/-- A tag after its `<`. -/
def Tag.ofChars (cs : List Char) : Tag :=
  let inside := cs.takeWhile (· != '>')
  let (attributes, last) := Markup.attributes (inside.splitOn '\x22')
  { name := String.ofList (inside.takeWhile isNameChar)
    attributes
    closed := last == ['/']
    text := String.ofList (unescape (cs.dropWhile (· != '>')).tail) }

/-- The tags of a document. -/
def tags (document : String) : List Tag := (document.toList.splitOn '<').tail.map Tag.ofChars

/-! ## Figures -/

def commandKind? (c : Char) : Option CommandKind :=
  if c = 'M' then some .moveTo
  else if c = 'L' then some .lineTo
  else if c = 'Q' then some .quadTo
  else if c = 'C' then some .cubicTo
  else if c = 'Z' then some .close
  else none

/-- The kinds of the commands in path data. -/
def commandKinds (data : String) : List CommandKind := data.toList.filterMap commandKind?

/-- The fill that a value names, if it names one. -/
def fill? (value : String) : Option (Option Color) :=
  if value = "none" then some none else (Color.ofHex? value).map some

namespace Tag

def attribute? (t : Tag) (name : String) : Option String := t.attributes.lookup name

def color? (t : Tag) (name : String) : Option Color := (t.attribute? name).bind Color.ofHex?

/-- The figure that a tag draws, if it draws one. -/
def figure? (t : Tag) : Option Figure :=
  if t.name = "text" then do
    pure (.textRun t.text (← t.attribute? "font-family") (← t.color? "fill")
      (t.attribute? "transform").isSome)
  else if t.name = "line" then do
    pure (.line (← t.color? "stroke"))
  else if t.name = "path" then do
    pure (.path (← t.color? "stroke") (← (t.attribute? "fill").bind fill?)
      (commandKinds (← t.attribute? "d")))
  else none

end Tag

/-- What a document says was drawn. -/
def figures (document : String) : List Figure := (tags document).filterMap Tag.figure?

end Markup

end FormulaDrawing
