/-!
# Formulas

The tree that a source text is read into and that layout places on the page. Leaves hold text;
scripts are siblings of what they are written after, and find their base only in layout.

`Formula.children` is the one view of a node's parts, in document order. `Formula.depth` and
`Formula.walk` go through it (`Formula.depth_eq`, `Formula.walk_eq`).
-/

namespace FormulaDrawing

/-- Where a leaf's text comes from. -/
inductive TextRole where
  | number
  | letter
  | operator
  | greek
  | function
  | text
deriving DecidableEq, Repr

/-- Above or below the line. -/
inductive ScriptSide where
  | superscript
  | subscript
deriving DecidableEq, Repr

/-- A sign that carries limits. -/
inductive BigOperator where
  | integral
  | sum
deriving DecidableEq, Repr

/-- Round brackets, or the bars of an absolute value. -/
inductive Delimiter where
  | parentheses
  | bars
deriving DecidableEq, Repr

/-- The indivisible parts of a formula. -/
inductive Leaf where
  /-- Digits and decimal points. -/
  | number (digits : String)
  /-- A variable of one letter. -/
  | letter (c : Char)
  /-- A binary operator or a relation. -/
  | operator (c : Char)
  | greek (c : Char)
  /-- A function such as the sine, written by name. -/
  | function (name : String)
  /-- Literal text. -/
  | text (s : String)
deriving DecidableEq, Repr

namespace Leaf

def role : Leaf → TextRole
  | .number _ => .number
  | .letter _ => .letter
  | .operator _ => .operator
  | .greek _ => .greek
  | .function _ => .function
  | .text _ => .text

/-- The text that a leaf is drawn as. -/
def content : Leaf → String
  | .number s | .function s | .text s => s
  | .letter c | .operator c | .greek c => String.singleton c

end Leaf

inductive Formula where
  | leaf (leaf : Leaf)
  | fraction (numerator denominator : Formula)
  /-- A script alone; its base is the sibling before it. -/
  | script (side : ScriptSide) (content : Formula)
  | root (index : Option Formula) (content : Formula)
  | bigOperator (operator : BigOperator) (lower upper : Option Formula)
  | limit (approach : Option Formula)
  /-- A braced group; one of a single item is that item instead. -/
  | group (items : List Formula)
  | delimited (delimiter : Delimiter) (items : List Formula)
  /-- The root of what a source text is read into. -/
  | equation (items : List Formula)
deriving Repr

namespace Formula

def number (digits : String) : Formula := .leaf (.number digits)

def letter (c : Char) : Formula := .leaf (.letter c)

def operator (c : Char) : Formula := .leaf (.operator c)

def greek (c : Char) : Formula := .leaf (.greek c)

def function (name : String) : Formula := .leaf (.function name)

def text (s : String) : Formula := .leaf (.text s)

/-- What stands for a missing argument. -/
def missing : Formula := .group []

/-- A group, or its only item. -/
def collapse : List Formula → Formula
  | [x] => x
  | xs => .group xs

/-- The name of a node's kind. -/
def kindName : Formula → String
  | .leaf (.number _) => "Number"
  | .leaf (.letter _) => "Variable"
  | .leaf (.operator _) => "Operator"
  | .leaf (.greek _) => "Greek"
  | .leaf (.function _) => "Function"
  | .leaf (.text _) => "Text"
  | .fraction _ _ => "Fraction"
  | .script .superscript _ => "Superscript"
  | .script .subscript _ => "Subscript"
  | .root _ _ => "Sqrt"
  | .bigOperator .integral _ _ => "Integral"
  | .bigOperator .sum _ _ => "Sum"
  | .limit _ => "Limit"
  | .group _ => "Group"
  | .delimited .parentheses _ => "Parentheses"
  | .delimited .bars _ => "Absolute"
  | .equation _ => "Equation"

/-- The parts of a node in document order: an index before the content of its root, the lower limit
before the upper one. -/
def children : Formula → List Formula
  | .leaf _ => []
  | .fraction n d => [n, d]
  | .script _ x => [x]
  | .root i x => i.toList ++ [x]
  | .bigOperator _ l u => l.toList ++ u.toList
  | .limit a => a.toList
  | .group xs | .delimited _ xs | .equation xs => xs

mutual

/-- The number of nodes on the longest path down to a leaf. -/
def depth : Formula → Nat
  | .leaf _ => 1
  | .fraction n d => 1 + max n.depth d.depth
  | .script _ x => 1 + x.depth
  | .root i x => 1 + max (depthOption i) x.depth
  | .bigOperator _ l u => 1 + max (depthOption l) (depthOption u)
  | .limit a => 1 + depthOption a
  | .group xs => 1 + depthList xs
  | .delimited _ xs => 1 + depthList xs
  | .equation xs => 1 + depthList xs

def depthOption : Option Formula → Nat
  | none => 0
  | some x => x.depth

def depthList : List Formula → Nat
  | [] => 0
  | x :: xs => max x.depth (depthList xs)

end

mutual

/-- The nodes in document order, each before its parts, with their levels below the start. -/
def walk (level : Nat) : Formula → List (Nat × Formula)
  | .leaf l => [(level, .leaf l)]
  | .fraction n d => (level, .fraction n d) :: (walk (level + 1) n ++ walk (level + 1) d)
  | .script side x => (level, .script side x) :: walk (level + 1) x
  | .root i x => (level, .root i x) :: (walkOption (level + 1) i ++ walk (level + 1) x)
  | .bigOperator op l u =>
    (level, .bigOperator op l u) :: (walkOption (level + 1) l ++ walkOption (level + 1) u)
  | .limit a => (level, .limit a) :: walkOption (level + 1) a
  | .group xs => (level, .group xs) :: walkList (level + 1) xs
  | .delimited d xs => (level, .delimited d xs) :: walkList (level + 1) xs
  | .equation xs => (level, .equation xs) :: walkList (level + 1) xs

def walkOption (level : Nat) : Option Formula → List (Nat × Formula)
  | none => []
  | some x => walk level x

def walkList (level : Nat) : List Formula → List (Nat × Formula)
  | [] => []
  | x :: xs => walk level x ++ walkList level xs

end

/-! ## Lemmas -/

theorem walkOption_eq (level : Nat) (o : Option Formula) :
    walkOption level o = o.toList.flatMap (walk level) := by
  cases o <;> simp [walkOption]

theorem walkList_eq (level : Nat) (xs : List Formula) :
    walkList level xs = xs.flatMap (walk level) := by
  induction xs with
  | nil => rfl
  | cons x xs ih => simp [walkList, ih]

/-- A walk visits a node and then walks its children. -/
theorem walk_eq (level : Nat) (x : Formula) :
    x.walk level = (level, x) :: x.children.flatMap (walk (level + 1)) := by
  cases x <;> simp [walk, children, walkOption_eq, walkList_eq]

/-- The depth of a node is one more than the greatest depth among its children. -/
theorem depth_eq (x : Formula) :
    x.depth = 1 + depthList x.children := by
  cases x with
  | leaf l => rfl
  | fraction n d => simp [depth, children, depthList]
  | script s x => simp [depth, children, depthList]
  | root i x => cases i <;> simp [depth, children, depthList, depthOption]
  | bigOperator op l u => cases l <;> cases u <;> simp [depth, children, depthList, depthOption]
  | limit a => cases a <;> simp [depth, children, depthList, depthOption]
  | group xs => simp [depth, children]
  | delimited d xs => simp [depth, children]
  | equation xs => simp [depth, children]

end Formula

end FormulaDrawing
