import FormulaDrawing.Latex.Reader

/-!
# Steps of the reading machine

A step resolves a character as lookahead and then consumes it. Both halves are said here once as
data: a `Reaction` is what the lookahead calls for, a `Move` is what consuming the character does.

    resolve a st next = (Reaction.of st.mode next).perform a st next   (resolve_eq)
    consume a st c = (Move.of st c).perform a st                       (consume_eq)

Every fact about steps goes through these two, so a proof distinguishes six reactions and three
moves, and only `argue` and `push` can exceed the nesting limit. Of a step that succeeds, `Resolves`
and `Consumes` say to which state it leads.

`reach` is a run that stops before the end of the text; a run over `cs ++ ds` is a run over `ds`
from the state that `cs` reaches (`run_append`).
-/

namespace FormulaDrawing.Latex

open Unicode

/-! ## Reactions -/

/-- What a lookahead calls for. -/
inductive Reaction where
  /-- Nothing; the mode consumes the lookahead. -/
  | stay
  /-- Between parts, a missing argument completes. -/
  | settle
  /-- A command waits for more in another mode. -/
  | wait (mode : Mode)
  /-- A part is complete. -/
  | deliver (x : Formula)
  /-- A command without ink is complete. -/
  | skip
  /-- An argument begins. -/
  | argue (slot : Slot)

namespace Reaction

/-- A root without an index. -/
def ofRoot (next : Option Char) : Reaction :=
  if next.any fun c => isWhiteSpace c || c == '[' then .wait .radical else .argue (.radicand none)

def ofCommand (next : Option Char) : Command → Reaction
  | .fraction => .argue .numerator
  | .root => ofRoot next
  | .bigOperator op =>
    if awaitsLimit none none next then .wait (.limits op none none)
    else .deliver (.bigOperator op none none)
  | .limit =>
    if next.any fun c => isWhiteSpace c || c == '_' then .wait .limit else .deliver (.limit none)
  | .sizing => if next == some '.' then .wait .sizing else .skip
  | .space => .skip
  | .rawText name =>
    if next.any fun c => isWhiteSpace c || c == '\x7b' then .wait (.rawStart name)
    else .deliver (.text name)
  | .leaf leaf => .deliver (.leaf leaf)

/-- Literal text that ends, its characters latest first. -/
def ofRaw (text : List Char) : Reaction :=
  if text.isEmpty then .skip else .deliver (.text (String.ofList text.reverse))

/-- The reaction of a mode to a lookahead. -/
def of (mode : Mode) (next : Option Char) : Reaction :=
  match mode with
  | .ready => .settle
  | .finished x => .deliver x
  | .skipped => .skip
  | .number digits =>
    if next.any fun c => c.isDigit || c == '.' then .stay
    else .deliver (.number (String.ofList digits.reverse))
  | .command [] => if next.isSome then .stay else .deliver (.text "\\")
  | .command name =>
    if next.any Char.isAlpha then .stay else ofCommand next (.ofName (String.ofList name.reverse))
  | .limits op lower upper =>
    if awaitsLimit lower upper next then .stay else .deliver (.bigOperator op lower upper)
  | .radical => ofRoot next
  | .limit => ofCommand next .limit
  | .sizing => ofCommand next .sizing
  | .rawStart name => ofCommand next (.rawText name)
  | .raw text _ => if next.isSome then .stay else ofRaw text

def perform (a : Allowance) (st : State) (next : Option Char) : Reaction → Except Nat State
  | .stay => .ok st
  | .settle => .ok (st.settle next)
  | .wait mode => .ok (st.withMode mode)
  | .deliver x => .ok (st.deliver next x)
  | .skip => .ok (st.deliverNothing next)
  | .argue slot => pushArgument a st next slot

end Reaction

theorem resolveRadical_eq (a : Allowance) (st : State) (next : Option Char) :
    resolveRadical a st next = (Reaction.ofRoot next).perform a st next := by
  unfold resolveRadical Reaction.ofRoot
  cases next with
  | none => simp [Reaction.perform]
  | some c =>
    simp only [Option.any_some]
    split <;> rfl

theorem resolveCommand_eq (a : Allowance) (st : State) (next : Option Char) (command : Command) :
    resolveCommand a st next command = (Reaction.ofCommand next command).perform a st next := by
  cases command with
  | root => exact resolveRadical_eq a st next
  | fraction | space | leaf leaf => rfl
  | bigOperator op | limit | sizing | rawText name =>
    simp only [resolveCommand, Reaction.ofCommand]
    split <;> rfl

/-- Resolving a lookahead is performing the reaction of the mode. -/
theorem resolve_eq (a : Allowance) (st : State) (next : Option Char) :
    resolve a st next = (Reaction.of st.mode next).perform a st next := by
  unfold resolve
  split
  · next h => rw [h]; rfl
  · next h => rw [h]; rfl
  · next h => rw [h]; rfl
  · next digits h =>
    rw [h]
    simp only [Reaction.of]
    split <;> rfl
  · next h =>
    rw [h]
    cases next <;> rfl
  · next name hname h =>
    rw [h]
    cases name with
    | nil => exact absurd rfl hname
    | cons c cs =>
      simp only [Reaction.of]
      split
      · rfl
      · exact resolveCommand_eq a st next _
  · next op lower upper h =>
    rw [h]
    simp only [Reaction.of]
    split <;> rfl
  · next h => rw [h]; exact resolveRadical_eq a st next
  · next h => rw [h]; exact resolveCommand_eq a st next _
  · next h => rw [h]; exact resolveCommand_eq a st next _
  · next name h => rw [h]; exact resolveCommand_eq a st next _
  · next text inner h =>
    rw [h]
    cases next with
    | some c => rfl
    | none =>
      simp only [Reaction.of, rawResult, Reaction.ofRaw, Option.isSome_none, Bool.false_eq_true,
        if_false]
      by_cases ht : text.isEmpty
      · rw [if_pos ht, if_pos ht]; rfl
      · rw [if_neg ht, if_neg ht]; rfl

/-! ## Moves -/

/-- What consuming a character does. -/
inductive Move where
  /-- The machine goes on in a mode. -/
  | turn (mode : Mode)
  /-- A structure begins. -/
  | push (frame : Frame)
  /-- The sequence on top ends. -/
  | close (closer : Closer) (items : Array Formula) (frames : List Frame)

namespace Move

/-- The part that a character begins. -/
def primary (c : Char) : Move :=
  if c = '\\' then .turn (.command [])
  else if c = '\x7b' then .push (.sequence .brace #[])
  else if c = '(' then .push (.sequence .parenthesis #[])
  else if c = '|' then .push (.sequence .bar #[])
  else if c = '^' then .push (.argument (.script .superscript))
  else if c = '_' then .push (.argument (.script .subscript))
  else if c.isDigit || c = '.' then .turn (.number [c])
  else if isAlphabetic c then .turn (.finished (.letter c))
  else
    match normalizeOperator? c with
    | some op => .turn (.finished (.operator op))
    | none => .turn (.finished (.text (String.singleton c)))

/-- Between parts, above some frames. -/
def ready (mode : Mode) (frames : List Frame) (c : Char) : Move :=
  if isWhiteSpace c then .turn mode
  else
    match frames with
    | .sequence closer items :: frames =>
      if closer.char = c then .close closer items frames else primary c
    | .argument _ :: _ =>
      if c.isDigit then .turn (.finished (.number (String.singleton c))) else primary c
    | [] => primary c

/-- In literal text. -/
def raw (text : List Char) (inner : Nat) (c : Char) : Mode :=
  if c = '\x7b' then .raw (c :: text) (inner + 1)
  else if c = '\x7d' then
    match inner with
    | 0 => rawResult text
    | inner + 1 => .raw (c :: text) inner
  else .raw (c :: text) inner

/-- After the backslash of a command. -/
def command (name : List Char) (c : Char) : Mode :=
  if c.isAlpha then .command (c :: name)
  else if spacingCharacters.contains c then .skipped
  else .finished (.text (String.singleton c))

/-- The move of a state at a character. -/
def of (st : State) (c : Char) : Move :=
  match st.mode with
  | .ready | .finished _ | .skipped => ready st.mode st.frames c
  | .number digits => .turn (.number (c :: digits))
  | .command name => .turn (command name c)
  | .limits op lower upper =>
    if c = '_' then .push (.argument (.lowerLimit op upper))
    else if c = '^' then .push (.argument (.upperLimit op lower))
    else .turn st.mode
  | .radical => if c = '[' then .push (.sequence .bracket #[]) else .turn st.mode
  | .limit => if c = '_' then .push (.argument .approach) else .turn st.mode
  | .sizing => .turn .skipped
  | .rawStart _ => .turn (if c = '\x7b' then .raw [] 0 else st.mode)
  | .raw text inner => .turn (raw text inner c)

def perform (a : Allowance) (st : State) : Move → Except Nat State
  | .turn mode => .ok (st.withMode mode)
  | .push frame => Latex.push a st frame
  | .close closer items frames => .ok (closeSequence st frames items closer)

end Move

theorem consumePrimary_eq (a : Allowance) (st : State) (c : Char) :
    consumePrimary a st c = (Move.primary c).perform a st := by
  unfold consumePrimary Move.primary
  iterate 8 (split; · rfl)
  cases normalizeOperator? c <;> rfl

theorem consumeReady_eq (a : Allowance) (st : State) (c : Char) :
    consumeReady a st c = (Move.ready st.mode st.frames c).perform a st := by
  unfold consumeReady Move.ready
  by_cases hspace : isWhiteSpace c
  · rw [if_pos hspace, if_pos hspace]
    rfl
  · rw [if_neg hspace, if_neg hspace]
    cases st.frames with
    | nil => exact consumePrimary_eq a st c
    | cons frame frames =>
      cases frame with
      | sequence closer items =>
        show (if closer.char = c then _ else _) =
          Move.perform a st (if closer.char = c then _ else _)
        by_cases hclose : closer.char = c
        · rw [if_pos hclose, if_pos hclose]
          rfl
        · rw [if_neg hclose, if_neg hclose]
          exact consumePrimary_eq a st c
      | argument slot =>
        show (if c.isDigit then _ else _) = Move.perform a st (if c.isDigit then _ else _)
        by_cases hdigit : c.isDigit
        · rw [if_pos hdigit, if_pos hdigit]
          rfl
        · rw [if_neg hdigit, if_neg hdigit]
          exact consumePrimary_eq a st c

/-- Consuming a character is performing the move of the state. -/
theorem consume_eq (a : Allowance) (st : State) (c : Char) :
    consume a st c = (Move.of st c).perform a st := by
  obtain ⟨items, frames, mode⟩ := st
  cases mode with
  | ready | finished x | skipped => exact consumeReady_eq a _ c
  | number digits | command name | sizing => rfl
  | limits op lower upper =>
    simp only [consume, Move.of]
    split
    · rfl
    · split <;> rfl
  | radical | limit =>
    simp only [consume, Move.of]
    split <;> rfl
  | rawStart name =>
    simp only [consume, Move.of, Move.perform]
    split <;> rfl
  | raw text inner => rfl

/-- Only a sequence on top closes, and at its own character. -/
theorem Move.of_eq_close {st : State} {c : Char} {closer : Closer} {items : Array Formula}
    {frames : List Frame} (h : Move.of st c = .close closer items frames) :
    st.frames = .sequence closer items :: frames ∧ closer.char = c := by
  have hprimary : Move.primary c ≠ .close closer items frames := by
    unfold Move.primary
    repeat' split
    all_goals nofun
  have hready : Move.ready st.mode st.frames c = .close closer items frames →
      st.frames = .sequence closer items :: frames ∧ closer.char = c := by
    unfold Move.ready
    intro h
    split at h
    · cases h
    · split at h
      · split at h
        · next hc => cases h; exact ⟨by assumption, hc⟩
        · exact absurd h hprimary
      · split at h
        · cases h
        · exact absurd h hprimary
      · exact absurd h hprimary
  unfold Move.of at h
  split at h
  case h_1 | h_2 | h_3 => exact hready h
  all_goals (repeat' split at h) <;> cases h

/-- Between parts, what is neither white space nor a digit and closes nothing begins a part. -/
theorem Move.of_eq_primary {st : State} (hready : st.mode = .ready) {c : Char}
    (hspace : isWhiteSpace c = false) (hdigit : c.isDigit = false)
    (hcloses : ∀ closer : Closer, closer.char ≠ c) : Move.of st c = Move.primary c := by
  rw [Move.of, hready]
  show Move.ready .ready st.frames c = Move.primary c
  unfold Move.ready
  rw [hspace, if_neg Bool.false_ne_true]
  cases st.frames with
  | nil => rfl
  | cons frame frames =>
    cases frame with
    | sequence closer items => exact if_neg (hcloses closer)
    | argument slot =>
      show (if c.isDigit then _ else _) = Move.primary c
      rw [hdigit, if_neg Bool.false_ne_true]

/-! ## Pushing a frame -/

theorem push_eq_ok_iff {a : Allowance} {st st' : State} {frame : Frame} :
    push a st frame = .ok st' ↔
      a.used + st.frames.length + 1 ≤ a.limit ∧ ⟨st.items, frame :: st.frames, .ready⟩ = st' := by
  unfold push
  simp only
  split
  · simp; omega
  · simp; omega

theorem push_eq_error_iff {a : Allowance} {st : State} {frame : Frame} {depth : Nat} :
    push a st frame = .error depth ↔
      depth = a.used + st.frames.length + 1 ∧ a.limit < depth := by
  unfold push
  simp only
  split
  · simp; omega
  · simp; omega

theorem pushArgument_eq_ok_iff {a : Allowance} {st st' : State} {next : Option Char} {slot : Slot} :
    pushArgument a st next slot = .ok st' ↔
      a.used + st.frames.length + 1 ≤ a.limit ∧
        State.settle ⟨st.items, .argument slot :: st.frames, .ready⟩ next = st' := by
  unfold pushArgument
  cases h : push a st (.argument slot) with
  | ok st1 =>
    obtain ⟨hroom, rfl⟩ := push_eq_ok_iff.1 h
    simp [Except.map, hroom]
  | error depth =>
    obtain ⟨rfl, hdepth⟩ := push_eq_error_iff.1 h
    simp only [Except.map, reduceCtorEq, false_iff, not_and]
    intro hroom
    omega

theorem pushArgument_eq_error_iff {a : Allowance} {st : State} {next : Option Char} {slot : Slot}
    {depth : Nat} :
    pushArgument a st next slot = .error depth ↔
      depth = a.used + st.frames.length + 1 ∧ a.limit < depth := by
  unfold pushArgument
  rw [← @push_eq_error_iff a st (.argument slot)]
  cases push a st (.argument slot) <;> simp [Except.map]

/-! ## What a step can do -/

/-- The states to which a lookahead may lead. -/
inductive Resolves (a : Allowance) (st : State) (next : Option Char) : State → Prop
  | stay (h : Reaction.of st.mode next = .stay) : Resolves a st next st
  | settle (h : Reaction.of st.mode next = .settle) : Resolves a st next (st.settle next)
  | wait (mode : Mode) (h : Reaction.of st.mode next = .wait mode) :
      Resolves a st next (st.withMode mode)
  | deliver (x : Formula) (h : Reaction.of st.mode next = .deliver x) :
      Resolves a st next (deliver next st.items x st.frames)
  | skip (h : Reaction.of st.mode next = .skip) : Resolves a st next (st.deliverNothing next)
  | argue (slot : Slot) (h : Reaction.of st.mode next = .argue slot)
      (hroom : a.used + st.frames.length + 1 ≤ a.limit) :
      Resolves a st next (State.settle ⟨st.items, .argument slot :: st.frames, .ready⟩ next)

theorem resolves_of_ok {a : Allowance} {st st' : State} {next : Option Char}
    (h : resolve a st next = .ok st') : Resolves a st next st' := by
  rw [resolve_eq] at h
  cases hr : Reaction.of st.mode next with
  | stay => rw [hr] at h; cases h; exact .stay hr
  | settle => rw [hr] at h; cases h; exact .settle hr
  | wait mode => rw [hr] at h; cases h; exact .wait mode hr
  | deliver x => rw [hr] at h; cases h; exact .deliver x hr
  | skip => rw [hr] at h; cases h; exact .skip hr
  | argue slot =>
    rw [hr] at h
    obtain ⟨hroom, rfl⟩ := pushArgument_eq_ok_iff.1 h
    exact .argue slot hr hroom

/-- The states to which consuming a character may lead. -/
inductive Consumes (a : Allowance) (st : State) (c : Char) : State → Prop
  | turn (mode : Mode) (h : Move.of st c = .turn mode) : Consumes a st c (st.withMode mode)
  | push (frame : Frame) (h : Move.of st c = .push frame)
      (hroom : a.used + st.frames.length + 1 ≤ a.limit) :
      Consumes a st c ⟨st.items, frame :: st.frames, .ready⟩
  | close (closer : Closer) (items : Array Formula) (frames : List Frame)
      (h : Move.of st c = .close closer items frames)
      (hframes : st.frames = .sequence closer items :: frames) :
      Consumes a st c (closeSequence st frames items closer)

theorem consumes_of_ok {a : Allowance} {st st' : State} {c : Char}
    (h : consume a st c = .ok st') : Consumes a st c st' := by
  rw [consume_eq] at h
  cases hm : Move.of st c with
  | turn mode => rw [hm] at h; cases h; exact .turn mode hm
  | push frame =>
    rw [hm] at h
    obtain ⟨hroom, rfl⟩ := push_eq_ok_iff.1 h
    exact .push frame hm hroom
  | close closer items frames =>
    rw [hm] at h
    cases h
    exact .close closer items frames hm (Move.of_eq_close hm).1

/-! ## Lookaheads that are accepted -/

/-- Arguments close nothing. -/
theorem closesAny_argument (slot : Slot) (frames : List Frame) (next : Option Char) :
    closesAny (.argument slot :: frames) next = closesAny frames next := by
  cases next <;> rfl

/-- The characters that a mode consumes once they were resolved. -/
def Mode.Accepts (c : Char) : Mode → Prop
  | .ready | .command [] | .raw _ _ => True
  | .finished _ | .skipped => False
  | .number _ => c.isDigit || c == '.'
  | .command _ => c.isAlpha
  | .limits _ lower upper => awaitsLimit lower upper (some c)
  | .radical => isWhiteSpace c || c == '['
  | .limit => isWhiteSpace c || c == '_'
  | .sizing => some c == some '.'
  | .rawStart _ => isWhiteSpace c || c == '\x7b'

theorem deliver_accepts (c : Char) (items : Array Formula) (x : Formula) (frames : List Frame) :
    (deliver (some c) items x frames).mode.Accepts c := by
  fun_induction deliver (some c) items x frames with
  | case1 | case2 | case4 => trivial
  | case5 x frames op upper hawait => exact hawait
  | case7 x frames op lower hawait => exact hawait
  | case3 x frames hclose ih => exact ih
  | case6 x frames op upper hawait ih => exact ih
  | case8 x frames op lower hawait ih => exact ih
  | case9 x frames slot _ _ _ ih => exact ih

theorem State.settle_accepts {st : State} (c : Char) (h : st.mode.Accepts c) :
    (st.settle (some c)).mode.Accepts c := by
  unfold State.settle
  split
  · split
    · exact deliver_accepts c st.items .missing st.frames
    · exact h
  · exact h

theorem State.deliverNothing_accepts (st : State) (c : Char) :
    (st.deliverNothing (some c)).mode.Accepts c := by
  unfold State.deliverNothing
  split
  · exact deliver_accepts c st.items .missing st.frames
  · trivial

/-- Waiting is for what the new mode accepts. -/
def Reaction.Accepts (c : Char) : Reaction → Prop
  | .wait mode => mode.Accepts c
  | _ => True

theorem Reaction.ofRoot_accepts (c : Char) : (ofRoot (some c)).Accepts c := by
  unfold ofRoot
  split
  · next h => exact h
  · trivial

theorem Reaction.ofCommand_accepts (c : Char) (command : Command) :
    (ofCommand (some c) command).Accepts c := by
  cases command with
  | fraction | space | leaf l => trivial
  | root => exact ofRoot_accepts c
  | bigOperator op | limit | sizing | rawText name =>
    simp only [ofCommand]
    split
    · next h => exact h
    · trivial

theorem Reaction.of_accepts (mode : Mode) (c : Char) : (of mode (some c)).Accepts c := by
  cases mode with
  | ready | skipped | finished x => trivial
  | radical => exact ofRoot_accepts c
  | limit => exact ofCommand_accepts c .limit
  | sizing => exact ofCommand_accepts c .sizing
  | rawStart name => exact ofCommand_accepts c (.rawText name)
  | number digits | limits op lower upper | raw text inner =>
    simp only [of]
    split <;> trivial
  | command name =>
    cases name with
    | nil => trivial
    | cons d name =>
      simp only [of]
      split
      · trivial
      · exact ofCommand_accepts c _

/-- A command that is complete does react. -/
theorem Reaction.ofCommand_ne (next : Option Char) (command : Command) :
    ofCommand next command ≠ .stay ∧ ofCommand next command ≠ .settle := by
  cases command with
  | _ =>
    simp only [ofCommand, ofRoot]
    repeat' split
    all_goals exact ⟨nofun, nofun⟩

theorem Reaction.accepts_of_stay {mode : Mode} {c : Char} (h : of mode (some c) = .stay) :
    mode.Accepts c := by
  cases mode with
  | ready => trivial
  | raw text inner => trivial
  | skipped | finished x => cases h
  | radical => exact absurd h (ofCommand_ne (some c) .root).1
  | limit => exact absurd h (ofCommand_ne (some c) .limit).1
  | sizing => exact absurd h (ofCommand_ne (some c) .sizing).1
  | rawStart name => exact absurd h (ofCommand_ne (some c) (.rawText name)).1
  | number digits | limits op lower upper =>
    simp only [of] at h
    split at h
    · next ha => exact ha
    · cases h
  | command name =>
    cases name with
    | nil => trivial
    | cons d name =>
      simp only [of] at h
      split at h
      · next ha => exact ha
      · exact absurd h (ofCommand_ne (some c) _).1

theorem Reaction.eq_ready_of_settle {mode : Mode} {next : Option Char}
    (h : of mode next = .settle) : mode = .ready := by
  cases mode with
  | ready => rfl
  | skipped | finished x => cases h
  | radical => exact absurd h (ofCommand_ne next .root).2
  | limit => exact absurd h (ofCommand_ne next .limit).2
  | sizing => exact absurd h (ofCommand_ne next .sizing).2
  | rawStart name => exact absurd h (ofCommand_ne next (.rawText name)).2
  | number digits | limits op lower upper =>
    simp only [of] at h
    split at h <;> cases h
  | raw text inner =>
    simp only [of, ofRaw] at h
    repeat' split at h
    all_goals cases h
  | command name =>
    cases name with
    | nil =>
      simp only [of] at h
      split at h <;> cases h
    | cons d name =>
      simp only [of] at h
      split at h
      · cases h
      · exact absurd h (ofCommand_ne next _).2

/-- Resolving a character leads to a mode that accepts it. -/
theorem resolve_accepts {a : Allowance} {st st' : State} {c : Char}
    (h : resolve a st (some c) = .ok st') : st'.mode.Accepts c := by
  have haccepts := Reaction.of_accepts st.mode c
  cases resolves_of_ok h with
  | stay hr => exact Reaction.accepts_of_stay hr
  | settle hr =>
    refine State.settle_accepts c ?_
    rw [Reaction.eq_ready_of_settle hr]
    trivial
  | wait mode hr => rw [hr] at haccepts; exact haccepts
  | deliver x => exact deliver_accepts c st.items x st.frames
  | skip => exact st.deliverNothing_accepts c
  | argue slot => exact State.settle_accepts c trivial

/-! ## Runs over a part of the text -/

/-- The state after a part of the text. -/
def reach (a : Allowance) (st : State) : List Char → Except Nat State
  | [] => .ok st
  | c :: cs => do
    let st ← resolve a st (some c)
    let st ← consume a st c
    reach a st cs

theorem reach_cons_eq_ok_iff {a : Allowance} {st st' : State} {c : Char} {cs : List Char} :
    reach a st (c :: cs) = .ok st' ↔
      ∃ st1 st2, resolve a st (some c) = .ok st1 ∧ consume a st1 c = .ok st2 ∧
        reach a st2 cs = .ok st' := by
  simp only [reach]
  cases hr : resolve a st (some c) with
  | error depth => simp [bind, Except.bind]
  | ok st1 =>
    cases hc : consume a st1 c with
    | error depth => simp [bind, Except.bind, hc]
    | ok st2 => simp [bind, Except.bind, hc]

theorem run_cons_eq_complete_iff {a : Allowance} {st : State} {c : Char} {cs : List Char}
    {items : List Formula} :
    run a st (c :: cs) = .complete items ↔
      ∃ st1 st2, resolve a st (some c) = .ok st1 ∧ consume a st1 c = .ok st2 ∧
        run a st2 cs = .complete items := by
  simp only [run]
  cases hr : resolve a st (some c) with
  | error depth => simp
  | ok st1 =>
    cases hc : consume a st1 c with
    | error depth => simp [hc]
    | ok st2 => simp [hc]

theorem run_nil_eq_complete_iff {a : Allowance} {st : State} {items : List Formula} :
    run a st [] = .complete items ↔
      ∃ st1, resolve a st none = .ok st1 ∧ (finish st1.items none st1.frames).toList = items := by
  simp only [run]
  cases resolve a st none <;> simp

theorem reach_append {a : Allowance} {st st' : State} {cs ds : List Char}
    (h : reach a st cs = .ok st') : reach a st (cs ++ ds) = reach a st' ds := by
  induction cs generalizing st with
  | nil => cases h; rfl
  | cons c cs ih =>
    obtain ⟨st1, st2, hr, hc, hs⟩ := reach_cons_eq_ok_iff.1 h
    simp only [List.cons_append, reach, hr, hc, bind, Except.bind]
    exact ih hs

/-- A run goes on from the state that the first part of the text reaches. -/
theorem run_append {a : Allowance} {st st' : State} {cs ds : List Char}
    (h : reach a st cs = .ok st') : run a st (cs ++ ds) = run a st' ds := by
  induction cs generalizing st with
  | nil => cases h; rfl
  | cons c cs ih =>
    obtain ⟨st1, st2, hr, hc, hs⟩ := reach_cons_eq_ok_iff.1 h
    simp only [List.cons_append, run, hr, hc]
    exact ih hs

/-- A run over a text that is reached to its end. -/
theorem run_of_reach {a : Allowance} {st st' : State} {cs : List Char}
    (h : reach a st cs = .ok st') : run a st cs = run a st' [] := by
  rw [← run_append h, List.append_nil]

/-- What a complete run reads in part, it reaches. -/
theorem exists_reach_of_run {a : Allowance} {st : State} {cs ds : List Char}
    {items : List Formula} (h : run a st (cs ++ ds) = .complete items) :
    ∃ st', reach a st cs = .ok st' ∧ run a st' ds = .complete items := by
  induction cs generalizing st with
  | nil => exact ⟨st, rfl, h⟩
  | cons c cs ih =>
    obtain ⟨st1, st2, hr, hc, hs⟩ := run_cons_eq_complete_iff.1 h
    obtain ⟨st', hs', hrun⟩ := ih hs
    exact ⟨st', reach_cons_eq_ok_iff.2 ⟨st1, st2, hr, hc, hs'⟩, hrun⟩

theorem read_eq_ok_iff {source : String} {limit : Nat} {t : Formula} :
    read source limit = .ok t ↔
      ∃ items, run ⟨0, limit⟩ .initial source.toList = .complete items ∧ .equation items = t := by
  unfold read Reader.read Reader.ofSource
  simp only
  cases run ⟨0, limit⟩ .initial source.toList <;> simp

end FormulaDrawing.Latex
