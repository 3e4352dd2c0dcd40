import FormulaDrawing.Error
import FormulaDrawing.Latex.Command
import FormulaDrawing.Latex.Frame
import FormulaDrawing.Unicode.Alphabetic
import FormulaDrawing.Unicode.WhiteSpace

/-!
# Recursive descent

The grammar of LaTeX as one function for each kind of part, over a cursor that goes on from where
it was left. An argument and the contents of a sequence are read one level deeper (`nested`), and a
function is handed the level below it, so none of them calls itself: `levels` stacks as many levels
as the limit admits.

A failure leaves its traces on the cursor: `nested` counts a level before it refuses it, and takes
back only the levels that it admitted. What every part leaves of the cursor is a field of
`Descent`, kept by the steps that parts are made of.
-/

namespace FormulaDrawing.Latex

open Unicode

/-- What the end of the text cuts off. -/
inductive Cut where
  /-- A sequence before its closing character. -/
  | closer (closer : Closer)
  /-- An argument before its first character. -/
  | argument
  /-- Literal text before its closing brace. -/
  | rawText
  /-- A command before the character after its backslash. -/
  | command
deriving DecidableEq, Repr

/-- What is left to read, how deep the descent is, where the sequences around it stop, innermost
first, and what the end of the text has cut off so far. The root stops at no character. -/
structure Cursor where
  rest : List Char
  depth : Nat
  enclosing : List (Option Closer)
  cuts : List Cut
deriving DecidableEq, Repr

/-- Whether an answer is a failure. -/
def failed {ε α : Type} : Except ε α → Bool
  | .ok _ => false
  | .error _ => true

/-- What is kept from a cursor to the one that an answer leaves: it is further on in the text,
inside the same sequences, and one level deeper if the answer is a failure, which is one level past
the limit or past where the cursor was. -/
structure Cursor.Leaves {α : Type} (limit : Nat) (p : Cursor) (result : Except Error α × Cursor) :
    Prop where
  rest : result.2.rest <:+ p.rest
  enclosing : result.2.enclosing = p.enclosing
  depth : result.2.depth = p.depth + (failed result.1).toNat
  error : ∀ e, result.1 = .error e → e = .nestingTooDeep (max limit p.depth + 1) limit

/-- A part of the descent under a limit. -/
structure Descent (limit : Nat) (α : Type) where
  run : Cursor → Except Error α × Cursor
  leaves : ∀ p : Cursor, p.Leaves limit (run p)

namespace Descent

variable {limit : Nat} {α β : Type}

/-! ## Steps -/

/-- A step that gives `x p` and moves on to `rest p`. -/
def step (x : Cursor → α) (rest : Cursor → List Char) (h : ∀ p, rest p <:+ p.rest) :
    Descent limit α where
  run p := (.ok (x p), { p with rest := rest p })
  leaves p := ⟨h p, rfl, rfl, nofun⟩

/-- One part after the other. A failure of the first is that of both. -/
def andThen (f : Descent limit α) (g : α → Descent limit β) : Descent limit β where
  run p :=
    match f.run p with
    | (.ok x, p) => (g x).run p
    | (.error e, p) => (.error e, p)
  leaves p := by
    have hf := f.leaves p
    split
    next x p' heq =>
      rw [heq] at hf
      have hg := (g x).leaves p'
      have hdepth : p'.depth = p.depth := hf.depth
      exact ⟨hg.rest.trans hf.rest, hg.enclosing.trans hf.enclosing, hdepth ▸ hg.depth,
        hdepth ▸ hg.error⟩
    next e p' heq =>
      rw [heq] at hf
      exact ⟨hf.rest, hf.enclosing, hf.depth, fun e' he => hf.error e' (by cases he; rfl)⟩

theorem run_andThen (f : Descent limit α) (g : α → Descent limit β) (p : Cursor) :
    (f.andThen g).run p = match f.run p with
      | (.ok x, p) => (g x).run p
      | (.error e, p) => (.error e, p) :=
  rfl

instance : Monad (Descent limit) where
  pure x := step (fun _ => x) Cursor.rest fun _ => List.suffix_refl _
  bind := andThen

/-- The next character, if there is one. -/
def peek : Descent limit (Option Char) :=
  step (·.rest.head?) Cursor.rest fun _ => List.suffix_refl _

/-- Consume a character, if there is one. -/
def advance : Descent limit (Option Char) :=
  step (·.rest.head?) (·.rest.tail) fun p => List.tail_suffix p.rest

/-- Consume characters while they are of a kind. -/
def takeWhile (kind : Char → Bool) : Descent limit (List Char) :=
  step (·.rest.takeWhile kind) (·.rest.dropWhile kind) fun _ => List.dropWhile_suffix _

def skipWhiteSpace : Descent limit (List Char) := takeWhile isWhiteSpace

/-- Whether a sequence stops at a character. -/
def stopsAt (stop : Option Closer) (c : Char) : Bool := stop.any fun closer => closer.char == c

/-- Whether a character closes a sequence around the descent, innermost or not. -/
def closesEnclosing (c : Char) : Descent limit Bool :=
  step (·.enclosing.any (stopsAt · c)) Cursor.rest fun _ => List.suffix_refl _

/-- Note what the end of the text cuts off. -/
def note (cut : Cut) : Descent limit Unit where
  run p := (.ok (), { p with cuts := p.cuts ++ [cut] })
  leaves _ := ⟨List.suffix_refl _, rfl, rfl, nofun⟩

/-- Go one level deeper for a part, unless that exceeds the limit. -/
def nested (f : Descent limit α) : Descent limit α where
  run p :=
    let p := { p with depth := p.depth + 1 }
    if limit < p.depth then (.error (.nestingTooDeep p.depth limit), p)
    else
      let (answer, p) := f.run p
      (answer, { p with depth := p.depth - 1 })
  leaves p := by
    simp only
    split
    next h =>
      refine ⟨List.suffix_refl _, rfl, rfl, fun e he => ?_⟩
      have hmax : max limit p.depth = p.depth := Nat.max_eq_right (by omega)
      rw [hmax]
      exact (Except.error.inj he).symm
    next h =>
      obtain ⟨hrest, henclosing, hdepth, herror⟩ := f.leaves { p with depth := p.depth + 1 }
      refine ⟨hrest, henclosing, ?_, fun e he => ?_⟩
      · show _ - 1 = p.depth + _
        rw [hdepth, Nat.add_right_comm, Nat.add_sub_cancel]
      · have hmax : max limit p.depth = max limit (p.depth + 1) := by omega
        rw [hmax]
        exact herror e he

theorem run_nested_of_lt (f : Descent limit α) {p : Cursor} (h : limit < p.depth + 1) :
    (nested f).run p =
      (.error (.nestingTooDeep (p.depth + 1) limit), { p with depth := p.depth + 1 }) :=
  if_pos h

theorem run_nested_of_le (f : Descent limit α) {p : Cursor} (h : p.depth + 1 ≤ limit) :
    (nested f).run p =
      let result := f.run { p with depth := p.depth + 1 }
      (result.1, { result.2 with depth := result.2.depth - 1 }) :=
  if_neg (Nat.not_lt.2 h)

/-- Read a part inside a sequence. -/
def inside (stop : Option Closer) (f : Descent limit α) : Descent limit α where
  run p :=
    let (answer, p) := f.run { p with enclosing := stop :: p.enclosing }
    (answer, { p with enclosing := p.enclosing.tail })
  leaves p := by
    have hf := f.leaves { p with enclosing := stop :: p.enclosing }
    exact ⟨hf.rest, congrArg List.tail hf.enclosing, hf.depth, hf.error⟩

/-! ## Text -/

/-- Consume the closing character of a sequence; only the end of the text can stand in for it. -/
def consumeClose (closer : Closer) : Descent limit Unit := do
  if (← peek) = some closer.char then
    let _ ← advance
  else note (.closer closer)

/-- Whether a character goes on with a number. -/
def isNumeric (c : Char) : Bool := c.isDigit || c == '.'

/-- A number from its first character on. -/
def number (first : Char) : Descent limit Formula := do
  let more ← takeWhile isNumeric
  pure (.number (String.ofList (first :: more)))

/-- Literal text inside `inner` braces of its own, and what follows its closing brace, if that is
there. -/
def literal : Nat → List Char → List Char × Option (List Char)
  | _, [] => ([], none)
  | inner, c :: cs =>
    if c = '\x7b' then (literal (inner + 1) cs).map (c :: ·) id
    else if c = '\x7d' then
      match inner with
      | 0 => ([], some cs)
      | inner + 1 => (literal inner cs).map (c :: ·) id
    else (literal inner cs).map (c :: ·) id

theorem literal_suffix (inner : Nat) (cs : List Char) :
    (literal inner cs).2.getD [] <:+ cs := by
  fun_induction literal inner cs with
  | case1 => exact List.suffix_refl _
  | case2 inner cs ih => exact ih.trans (List.suffix_cons _ _)
  | case3 cs hopen => exact List.suffix_cons _ _
  | case4 cs hopen inner ih => exact ih.trans (List.suffix_cons _ _)
  | case5 inner c cs hopen hclose ih => exact ih.trans (List.suffix_cons _ _)

/-- Literal text after its opening brace. -/
def literalText : Descent limit (List Char) where
  run p :=
    (.ok (literal 0 p.rest).1,
      { p with
        rest := (literal 0 p.rest).2.getD []
        cuts := if (literal 0 p.rest).2.isSome then p.cuts else p.cuts ++ [.rawText] })
  leaves p := ⟨literal_suffix 0 p.rest, rfl, rfl, nofun⟩

/-- The part that a command for literal text makes. The command is its own text if no brace
follows, and without ink if the braces are empty. -/
def rawText (name : String) : Descent limit (Option Formula) := do
  let _ ← skipWhiteSpace
  if (← peek) = some '\x7b' then
    let _ ← advance
    let text ← literalText
    pure (if text.isEmpty then none else some (.text (String.ofList text)))
  else pure (some (.text name))

/-- What a backslash and a character that is no letter make. -/
def symbolCommand : Descent limit (Option Formula) := do
  match ← advance with
  | some c =>
    pure (if spacingCharacters.contains c then none else some (.text (String.singleton c)))
  | none =>
    note .command
    pure (some (.text "\\"))

/-- A sizing command with the dot of an invisible delimiter, if there is one. -/
def sizing : Descent limit (Option Formula) := do
  if (← peek) = some '.' then
    let _ ← advance
  pure none

/-! ## Structures -/

/-- The parts that are read one level deeper. -/
structure Inner (limit : Nat) where
  argument : Descent limit Formula
  sequence : Option Closer → Descent limit (List Formula)

section

variable (inner : Inner limit)

/-- A sequence one level deeper, up to its closing character. -/
def enclosed (closer : Closer) : Descent limit (List Formula) := do
  let items ← nested (inner.sequence (some closer))
  consumeClose closer
  pure items

/-- A group after its opening brace. -/
def group : Descent limit Formula := do
  pure (.collapse (← enclosed inner .brace))

def fraction : Descent limit Formula := do
  let numerator ← nested inner.argument
  let denominator ← nested inner.argument
  pure (.fraction numerator denominator)

/-- The index of a root, if there is one. -/
def index : Descent limit (Option Formula) := do
  let _ ← skipWhiteSpace
  if (← peek) = some '[' then
    let _ ← advance
    pure (some (.collapse (← enclosed inner .bracket)))
  else pure none

def root : Descent limit Formula := do
  let i ← index inner
  let content ← nested inner.argument
  pure (.root i content)

/-- A big operator with the limits that are there, in either order and each at most once. -/
def limits (op : BigOperator) (lower upper : Option Formula) : Descent limit Formula := do
  let _ ← skipWhiteSpace
  let next ← peek
  if _h : next = some '_' ∧ lower = none then
    let _ ← advance
    let x ← nested inner.argument
    limits op (some x) upper
  else if _h : next = some '^' ∧ upper = none then
    let _ ← advance
    let x ← nested inner.argument
    limits op lower (some x)
  else pure (.bigOperator op lower upper)
termination_by lower.isNone.toNat + upper.isNone.toNat
decreasing_by
  · simp_all
  · simp_all

def approach : Descent limit Formula := do
  let _ ← skipWhiteSpace
  if (← peek) = some '_' then
    let _ ← advance
    pure (.limit (some (← nested inner.argument)))
  else pure (.limit none)

/-- The part that a command calls for, if it leaves ink. -/
def called : Command → Descent limit (Option Formula)
  | .fraction => return some (← fraction inner)
  | .root => return some (← root inner)
  | .bigOperator op => return some (← limits inner op none none)
  | .limit => return some (← approach inner)
  | .sizing => sizing
  | .space => pure none
  | .rawText name => rawText name
  | .leaf leaf => pure (some (.leaf leaf))

/-- A command after its backslash. -/
def command : Descent limit (Option Formula) := do
  let name ← takeWhile Char.isAlpha
  if name.isEmpty then symbolCommand
  else called inner (.ofName (String.ofList name))

/-- The part that a character begins, if it leaves ink. -/
def begin (c : Char) : Descent limit (Option Formula) :=
  if c = '\\' then command inner
  else if c = '\x7b' then return some (← group inner)
  else if c = '(' then return some (.delimited .parentheses (← enclosed inner .parenthesis))
  else if c = '|' then return some (.delimited .bars (← enclosed inner .bar))
  else if c = '^' then return some (.script .superscript (← nested inner.argument))
  else if c = '_' then return some (.script .subscript (← nested inner.argument))
  else if c.isDigit || c = '.' then return some (← number c)
  else if isAlphabetic c then pure (some (.letter c))
  else
    match normalizeOperator? c with
    | some op => pure (some (.operator op))
    | none => pure (some (.text (String.singleton c)))

/-- One part; none at the end of the text. -/
def part : Descent limit (Option Formula) := do
  match ← advance with
  | some c => begin inner c
  | none => pure none

/-- An argument: a group, a digit or a part. A character that closes a sequence around it, or the
end of the text, shows that it is missing. -/
def argument : Descent limit Formula := do
  let _ ← skipWhiteSpace
  match ← peek with
  | none =>
    note .argument
    pure .missing
  | some c =>
    if ← closesEnclosing c then pure .missing
    else if c = '\x7b' then
      let _ ← advance
      group inner
    else if c.isDigit then
      let _ ← advance
      pure (.number (String.singleton c))
    else return (← part inner).getD .missing

/-- At most `count` parts, up to where their sequence stops. -/
def parts (stop : Option Closer) : Nat → Descent limit (List Formula)
  | 0 => pure []
  | count + 1 => do
    let _ ← skipWhiteSpace
    match ← peek with
    | none => pure []
    | some c =>
      if stopsAt stop c then pure []
      else
        let x ← part inner
        let xs ← parts stop count
        pure (x.toList ++ xs)

/-- The contents of a sequence. There are no more parts than characters. -/
def sequence (stop : Option Closer) : Descent limit (List Formula) :=
  inside stop
    { run := fun p => (parts inner stop p.rest.length).run p
      leaves := fun p => (parts inner stop p.rest.length).leaves p }

end

/-- The levels that are left. The lowest is never entered, as `nested` refuses it. -/
def levels : Nat → Inner limit
  | 0 => ⟨pure .missing, fun _ => pure []⟩
  | n + 1 => ⟨argument (levels n), sequence (levels n)⟩

/-- The root of a formula, with a level for each that the limit admits. -/
def equation (limit : Nat) : Descent limit Formula := do
  pure (.equation (← sequence (levels limit) none))

end Descent

namespace Cursor

/-- At the start of a text. -/
def ofSource (source : String) : Cursor := ⟨source.toList, 0, [], []⟩

/-- Read to the end of the text, from wherever the cursor is. -/
def read (limit : Nat) (p : Cursor) : Except Error Formula × Cursor :=
  (Descent.equation limit).run p

/-- Read several times: the answers, and the cursor after them. -/
def readTimes (limit : Nat) (p : Cursor) : Nat → List (Except Error Formula) × Cursor
  | 0 => ([], p)
  | n + 1 =>
    let (answer, p) := p.read limit
    let (answers, p) := p.readTimes limit n
    (answer :: answers, p)

end Cursor

end FormulaDrawing.Latex
