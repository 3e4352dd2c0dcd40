import FormulaDrawing.Unicode.GraphemeBreak

/-!
# Grapheme clusters

A text is cut into extended grapheme clusters, the units a reader takes for one character. Whether
a cluster ends before a character depends on the class of the character before it and on three
short memories of what came earlier: an odd number of regional indicators, a pictograph that may
still be joined to another, and a conjunct that is still open.
-/

namespace FormulaDrawing.Unicode

/-- How far a sequence of joined pictographs has come. -/
inductive PictographState where
  | absent
  | pictograph
  | joined
deriving DecidableEq, Repr

/-- How far a conjunct has come. -/
inductive ConjunctState where
  | absent
  | consonant
  | linked
deriving DecidableEq, Repr

/-- What the text before a border says about it. -/
structure BreakContext where
  previous : BreakClass
  oddIndicators : Bool
  pictograph : PictographState
  conjunct : ConjunctState
deriving DecidableEq, Repr

namespace BreakContext

/-- Before any character. -/
def initial : BreakContext := ⟨.control, false, .absent, .absent⟩

/-- The context after one more character. -/
def next (ctx : BreakContext) (c : Char) : BreakContext where
  previous := breakClass c
  oddIndicators := breakClass c == .regionalIndicator && !ctx.oddIndicators
  pictograph :=
    if isPictograph c then .pictograph
    else if ctx.pictograph == .pictograph then
      match breakClass c with
      | .extend => .pictograph
      | .joiner => .joined
      | _ => .absent
    else .absent
  conjunct :=
    match conjunctClass c, ctx.conjunct with
    | .consonant, _ => .consonant
    | .linker, .absent => .absent
    | .linker, _ => .linked
    | .extend, state => state
    | .other, _ => .absent

/-- The rules for two classes that stand next to each other: `true` joins them. -/
def classesJoin : BreakClass → BreakClass → Bool
  | .carriageReturn, .lineFeed => true
  | .carriageReturn, _ | .lineFeed, _ | .control, _ => false
  | _, .carriageReturn | _, .lineFeed | _, .control => false
  | _, .extend | _, .joiner | _, .spacingMark => true
  | .prepend, _ => true
  | .leading, .leading | .leading, .vowel => true
  | .leading, .syllable | .leading, .closedSyllable => true
  | .syllable, .vowel | .vowel, .vowel => true
  | .syllable, .trailing | .vowel, .trailing => true
  | .closedSyllable, .trailing | .trailing, .trailing => true
  | _, _ => false

/-- Whether a character continues the cluster before it. -/
def joins (ctx : BreakContext) (c : Char) : Bool :=
  classesJoin ctx.previous (breakClass c)
    || (ctx.conjunct == .linked && conjunctClass c == .consonant)
    || (ctx.pictograph == .joined && isPictograph c)
    || (ctx.oddIndicators && breakClass c == .regionalIndicator)

end BreakContext

/-- The number of clusters that begin in a text after a context. -/
def clustersFrom (ctx : BreakContext) : List Char → Nat
  | [] => 0
  | c :: cs => (if ctx.joins c then 0 else 1) + clustersFrom (ctx.next c) cs

/-- The number of grapheme clusters of a text. -/
def graphemeCount (s : String) : Nat :=
  clustersFrom .initial s.toList

end FormulaDrawing.Unicode
