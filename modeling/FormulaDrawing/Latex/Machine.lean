import FormulaDrawing.Latex.Command
import FormulaDrawing.Latex.Frame
import FormulaDrawing.Unicode.Alphabetic
import FormulaDrawing.Unicode.WhiteSpace

/-!
# The reading machine

LaTeX is read by a machine with a stack, one character after the other. Before a character is
consumed the machine may *resolve* it as lookahead: finish what the character shows to be finished,
and complete arguments that are missing before a closing character. Only then it *consumes* the
character. Each step is total; the single failure is a frame that would exceed the nesting limit.

`run` is structural recursion over the text, so a statement about reading is a statement about runs
and stacks.
-/

namespace FormulaDrawing.Latex

open Unicode

/-- What the machine is in the middle of, on top of its frames. Pending characters are kept latest
first. -/
inductive Mode where
  /-- Between the parts of a sequence, or before an argument. -/
  | ready
  /-- A part is complete; where it goes depends on the lookahead. -/
  | finished (x : Formula)
  /-- A command without ink was read. -/
  | skipped
  | number (digits : List Char)
  | command (name : List Char)
  /-- After a big operator and some of its limits. -/
  | limits (operator : BigOperator) (lower upper : Option Formula)
  /-- After a root, before an index or the content. -/
  | radical
  /-- After a limit, before an approach. -/
  | limit
  /-- After a sizing command, before a dot. -/
  | sizing
  /-- After a command for literal text, before its brace. -/
  | rawStart (name : String)
  /-- In literal text, inside `inner` braces of its own. -/
  | raw (text : List Char) (inner : Nat)
deriving Repr

/-- The root's items, the frames innermost first, and the mode. -/
structure State where
  items : Array Formula
  frames : List Frame
  mode : Mode
deriving Repr

/-- The allowance for nesting: what is used up before the machine starts, and the limit. -/
structure Allowance where
  used : Nat
  limit : Nat
deriving DecidableEq, Repr

namespace State

/-- Nothing read yet. -/
def initial : State := ⟨#[], [], .ready⟩

def withMode (st : State) (mode : Mode) : State := { st with mode }

end State

/-- One frame more, unless that exceeds the limit; the error is the depth that was tried. -/
def push (allowance : Allowance) (st : State) (frame : Frame) : Except Nat State :=
  let depth := allowance.used + st.frames.length + 1
  if allowance.limit < depth then .error depth
  else .ok { st with frames := frame :: st.frames, mode := .ready }

/-- Whether a big operator waits on past the lookahead: for white space, and for a limit that it
does not have yet. -/
def awaitsLimit (lower upper : Option Formula) : Option Char → Bool
  | none => false
  | some c => isWhiteSpace c || (c == '_' && lower.isNone) || (c == '^' && upper.isNone)

/-- Put a complete part in its place. A sequence takes it as an item. An argument completes its
structure, which is then put in its place in turn, unless the structure goes on: a fraction waits
for its denominator, a big operator for its other limit, if the lookahead allows. -/
def deliver (next : Option Char) (items : Array Formula) (x : Formula) : List Frame → State
  | [] => ⟨items.push x, [], .ready⟩
  | .sequence closer xs :: frames => ⟨items, .sequence closer (xs.push x) :: frames, .ready⟩
  | .argument slot :: frames =>
    match slot with
    | .numerator =>
      if closesAny frames next then deliver next items (.fraction x .missing) frames
      else ⟨items, .argument (.denominator x) :: frames, .ready⟩
    | .lowerLimit op upper =>
      if awaitsLimit (some x) upper next then ⟨items, frames, .limits op (some x) upper⟩
      else deliver next items (.bigOperator op (some x) upper) frames
    | .upperLimit op lower =>
      if awaitsLimit lower (some x) next then ⟨items, frames, .limits op lower (some x)⟩
      else deliver next items (.bigOperator op lower (some x)) frames
    | slot => deliver next items (slot.fill x) frames

/-- Put a complete part on top of the state in its place. -/
def State.deliver (st : State) (next : Option Char) (x : Formula) : State :=
  Latex.deliver next st.items x st.frames

/-- An argument that the lookahead cuts off is missing. -/
def State.settle (st : State) (next : Option Char) : State :=
  match st.frames with
  | .argument _ :: _ => if closesAny st.frames next then st.deliver next .missing else st
  | _ => st

/-- A command without ink is nothing in a sequence and a missing argument elsewhere. -/
def State.deliverNothing (st : State) (next : Option Char) : State :=
  match st.frames with
  | .argument _ :: _ => st.deliver next .missing
  | _ => st.withMode .ready

/-- A frame for an argument, complete at once if the lookahead cuts the argument off. -/
def pushArgument (allowance : Allowance) (st : State) (next : Option Char) (slot : Slot) :
    Except Nat State :=
  (push allowance st (.argument slot)).map (·.settle next)

/-- After a root without an index comes its content. -/
def resolveRadical (allowance : Allowance) (st : State) (next : Option Char) : Except Nat State :=
  match next with
  | some c =>
    if isWhiteSpace c || c == '[' then .ok (st.withMode .radical)
    else pushArgument allowance st next (.radicand none)
  | none => pushArgument allowance st next (.radicand none)

/-- Any other command begins its structure, or is complete. -/
def resolveCommand (allowance : Allowance) (st : State) (next : Option Char) :
    Command → Except Nat State
  | .fraction => pushArgument allowance st next .numerator
  | .root => resolveRadical allowance st next
  | .bigOperator op =>
    .ok (if awaitsLimit none none next then st.withMode (.limits op none none)
      else st.deliver next (.bigOperator op none none))
  | .limit =>
    .ok (if next.any fun c => isWhiteSpace c || c == '_' then st.withMode .limit
      else st.deliver next (.limit none))
  | .sizing =>
    .ok (if next == some '.' then st.withMode .sizing else st.deliverNothing next)
  | .space => .ok (st.deliverNothing next)
  | .rawText name =>
    .ok (if next.any fun c => isWhiteSpace c || c == '\x7b' then st.withMode (.rawStart name)
      else st.deliver next (.text name))
  | .leaf leaf => .ok (st.deliver next (.leaf leaf))

/-- Literal text is a leaf, or nothing if it is empty. Its characters are given latest first. -/
def rawResult (text : List Char) : Mode :=
  if text.isEmpty then .skipped else .finished (.text (String.ofList text.reverse))

/-- React to the lookahead without consuming it. Afterwards the mode is one that consumes the
character, and at the end of the text the mode is `ready` with no argument waiting. -/
def resolve (allowance : Allowance) (st : State) (next : Option Char) : Except Nat State :=
  match st.mode with
  | .ready => .ok (st.settle next)
  | .finished x => .ok (st.deliver next x)
  | .skipped => .ok (st.deliverNothing next)
  | .number digits =>
    .ok (if next.any fun c => c.isDigit || c == '.' then st
      else st.deliver next (.number (String.ofList digits.reverse)))
  | .command [] =>
    .ok (match next with
      | some _ => st
      | none => st.deliver next (.text "\\"))
  | .command name =>
    if next.any Char.isAlpha then .ok st
    else resolveCommand allowance st next (.ofName (String.ofList name.reverse))
  | .limits op lower upper =>
    .ok (if awaitsLimit lower upper next then st
      else st.deliver next (.bigOperator op lower upper))
  | .radical => resolveRadical allowance st next
  | .limit => resolveCommand allowance st next .limit
  | .sizing => resolveCommand allowance st next .sizing
  | .rawStart name => resolveCommand allowance st next (.rawText name)
  | .raw text _ =>
    .ok (match next with
      | some _ => st
      | none =>
        match rawResult text with
        | .finished x => st.deliver next x
        | _ => st.deliverNothing next)

/-- Close the sequence on top: a group collapses, delimiters enclose, and an index is followed by
the content of its root. -/
def closeSequence (st : State) (frames : List Frame) (items : Array Formula) : Closer → State
  | .brace => ⟨st.items, frames, .finished (.collapse items.toList)⟩
  | .parenthesis => ⟨st.items, frames, .finished (.delimited .parentheses items.toList)⟩
  | .bar => ⟨st.items, frames, .finished (.delimited .bars items.toList)⟩
  | .bracket =>
    ⟨st.items, .argument (.radicand (some (.collapse items.toList))) :: frames, .ready⟩

/-- Begin the part that a character begins. -/
def consumePrimary (allowance : Allowance) (st : State) (c : Char) : Except Nat State :=
  if c = '\\' then .ok (st.withMode (.command []))
  else if c = '\x7b' then push allowance st (.sequence .brace #[])
  else if c = '(' then push allowance st (.sequence .parenthesis #[])
  else if c = '|' then push allowance st (.sequence .bar #[])
  else if c = '^' then push allowance st (.argument (.script .superscript))
  else if c = '_' then push allowance st (.argument (.script .subscript))
  else if c.isDigit || c = '.' then .ok (st.withMode (.number [c]))
  else if isAlphabetic c then .ok (st.withMode (.finished (.letter c)))
  else
    match normalizeOperator? c with
    | some op => .ok (st.withMode (.finished (.operator op)))
    | none => .ok (st.withMode (.finished (.text (String.singleton c))))

/-- Between parts: white space is skipped, a sequence closes at its closing character, and a digit
alone makes an argument. -/
def consumeReady (allowance : Allowance) (st : State) (c : Char) : Except Nat State :=
  if isWhiteSpace c then .ok st
  else
    match st.frames with
    | .sequence closer items :: frames =>
      if closer.char = c then .ok (closeSequence st frames items closer)
      else consumePrimary allowance st c
    | .argument _ :: _ =>
      if c.isDigit then .ok (st.withMode (.finished (.number (String.singleton c))))
      else consumePrimary allowance st c
    | [] => consumePrimary allowance st c

/-- Consume a character that was resolved. -/
def consume (allowance : Allowance) (st : State) (c : Char) : Except Nat State :=
  match st.mode with
  | .ready | .finished _ | .skipped => consumeReady allowance st c
  | .number digits => .ok (st.withMode (.number (c :: digits)))
  | .command name =>
    .ok (st.withMode (if c.isAlpha then .command (c :: name)
      else if spacingCharacters.contains c then .skipped
      else .finished (.text (String.singleton c))))
  | .limits op lower upper =>
    if c = '_' then push allowance st (.argument (.lowerLimit op upper))
    else if c = '^' then push allowance st (.argument (.upperLimit op lower))
    else .ok st
  | .radical =>
    if c = '[' then push allowance st (.sequence .bracket #[]) else .ok st
  | .limit =>
    if c = '_' then push allowance st (.argument .approach) else .ok st
  | .sizing => .ok (st.withMode .skipped)
  | .rawStart _ =>
    .ok (if c = '\x7b' then st.withMode (.raw [] 0) else st)
  | .raw text inner =>
    .ok (st.withMode (if c = '\x7b' then .raw (c :: text) (inner + 1)
      else if c = '\x7d' then
        match inner with
        | 0 => rawResult text
        | inner + 1 => .raw (c :: text) inner
      else .raw (c :: text) inner))

/-- At the end of the text every frame completes, innermost first, with what is pending for it. -/
def finish (items : Array Formula) : Option Formula → List Frame → Array Formula
  | none, [] => items
  | some x, [] => items.push x
  | pending, .argument slot :: frames =>
    finish items (some (slot.fill (pending.getD .missing))) frames
  | pending, .sequence closer xs :: frames =>
    let contents := (xs ++ pending.toArray).toList
    let x : Formula :=
      match closer with
      | .brace => .collapse contents
      | .parenthesis => .delimited .parentheses contents
      | .bar => .delimited .bars contents
      | .bracket => .root (some (.collapse contents)) .missing
    finish items (some x) frames

/-- How a run ends. -/
inductive Outcome where
  /-- The whole text was read. -/
  | complete (items : List Formula)
  /-- A frame of depth `depth` would have exceeded the limit, with `rest` not consumed. -/
  | tooDeep (depth : Nat) (rest : List Char)
deriving Repr

/-- Read a text from a state on. -/
def run (allowance : Allowance) (st : State) : List Char → Outcome
  | [] =>
    match resolve allowance st none with
    | .error depth => .tooDeep depth []
    | .ok st => .complete (finish st.items none st.frames).toList
  | c :: cs =>
    match resolve allowance st (some c) with
    | .error depth => .tooDeep depth (c :: cs)
    | .ok st =>
      match consume allowance st c with
      | .error depth => .tooDeep depth cs
      | .ok st => run allowance st cs

end FormulaDrawing.Latex
