import FormulaDrawing.Proofs.Formula.Nodes
import FormulaDrawing.Proofs.Latex.WhiteSpace

/-!
# Text without commands

Reading a text without backslashes loses no character, doubles none and moves none. The reference
is a scan with a stack of openers that knows nothing of arguments: `kept` are the characters that
no delimiter, script sign or white space takes, and `pushedBars` counts the bars that open.

Both sides are compared as `Mark`s, what the nodes of a formula leave behind in document order.
The invariant of a run is that the marks of a state and of the scan from its openers on are the
marks of the whole text (`run_marks`).

    t.nodes.flatMap Formula.ink = kept [] source.toList   (plain_text)
-/

namespace FormulaDrawing

open Unicode

/-! ## Marks -/

/-- What a node shows of the text it was read from. -/
inductive Mark where
  | ink (c : Char)
  | script (side : ScriptSide)
  | delimiter (d : Delimiter)
deriving DecidableEq

/-- The character of an ink mark. -/
def Mark.ink? : Mark → Option Char
  | .ink c => some c
  | _ => none

/-- The character that begins the structure of a mark. -/
def Mark.sign? : Mark → Option Char
  | .ink _ => none
  | .script .superscript => some '^'
  | .script .subscript => some '_'
  | .delimiter .parentheses => some '('
  | .delimiter .bars => some '|'

namespace Formula

/-- The characters of a leaf that stands for characters of the text. -/
def ink : Formula → List Char
  | .leaf (.number s) | .leaf (.text s) => s.toList
  | .leaf (.letter c) | .leaf (.operator c) => [c]
  | _ => []

def isScript (side : ScriptSide) : Formula → Bool
  | .script s _ => s == side
  | _ => false

def isDelimited (d : Delimiter) : Formula → Bool
  | .delimited e _ => e == d
  | _ => false

/-- The marks of a node, without those of its parts. -/
def ownMarks : Formula → List Mark
  | .script side _ => [.script side]
  | .delimited d _ => [.delimiter d]
  | x => x.ink.map .ink

/-- The marks of the nodes in document order. -/
def marks (x : Formula) : List Mark := x.nodes.flatMap ownMarks

theorem marks_eq (x : Formula) : x.marks = x.ownMarks ++ x.children.flatMap marks := by
  rw [marks, nodes_eq, List.flatMap_cons, List.flatMap_assoc]
  rfl

theorem marks_leaf (l : Leaf) : (leaf l).marks = (leaf l).ink.map .ink := by
  rw [marks_eq]
  simp [children, ownMarks]

theorem marks_script (side : ScriptSide) (x : Formula) :
    (script side x).marks = .script side :: x.marks := by
  rw [marks_eq]
  simp [children, ownMarks]

theorem marks_delimited (d : Delimiter) (xs : List Formula) :
    (delimited d xs).marks = .delimiter d :: xs.flatMap marks := by
  rw [marks_eq]
  rfl

theorem marks_group (xs : List Formula) : (group xs).marks = xs.flatMap marks := by
  rw [marks_eq]
  rfl

theorem marks_equation (xs : List Formula) : (equation xs).marks = xs.flatMap marks := by
  rw [marks_eq]
  rfl

theorem marks_missing : missing.marks = [] := marks_group []

/-- Collapsing a group keeps its marks. -/
theorem marks_collapse (xs : List Formula) : (collapse xs).marks = xs.flatMap marks := by
  unfold collapse
  split
  · simp
  · exact marks_group _

/-! ## Marks and nodes -/

theorem filterMap_ink?_ownMarks (x : Formula) : x.ownMarks.filterMap Mark.ink? = x.ink := by
  have hmap : ∀ cs : List Char, (cs.map Mark.ink).filterMap Mark.ink? = cs := by
    intro cs
    rw [List.filterMap_map]
    exact List.filterMap_some
  cases x with
  | script side y => rfl
  | delimited d xs => rfl
  | _ => exact hmap _

theorem filterMap_ink?_marks (x : Formula) :
    x.marks.filterMap Mark.ink? = x.nodes.flatMap ink := by
  rw [marks, List.filterMap_flatMap]
  exact List.flatMap_congr fun y _ => filterMap_ink?_ownMarks y

theorem count_map_ink {m : Mark} (h : m.ink? = none) (cs : List Char) :
    (cs.map Mark.ink).count m = 0 := by
  rw [List.count_eq_zero]
  intro hm
  obtain ⟨c, -, rfl⟩ := List.mem_map.1 hm
  cases h

theorem count_ownMarks_script (side : ScriptSide) (x : Formula) :
    x.ownMarks.count (.script side) = if x.isScript side then 1 else 0 := by
  cases x with
  | script s y => simp [ownMarks, isScript, List.count_singleton]
  | delimited d xs => simp [ownMarks, isScript]
  | _ => exact count_map_ink rfl _

theorem count_ownMarks_delimiter (d : Delimiter) (x : Formula) :
    x.ownMarks.count (.delimiter d) = if x.isDelimited d then 1 else 0 := by
  cases x with
  | script s y => simp [ownMarks, isDelimited]
  | delimited e xs => simp [ownMarks, isDelimited, List.count_singleton]
  | _ => exact count_map_ink rfl _

/-- A mark that nodes of one kind leave once is counted by those nodes. -/
theorem count_marks {m : Mark} {p : Formula → Bool}
    (h : ∀ x, x.ownMarks.count m = if p x then 1 else 0) (x : Formula) :
    x.marks.count m = x.nodes.countP p := by
  unfold marks
  induction x.nodes with
  | nil => rfl
  | cons y ys ih => rw [List.flatMap_cons, List.count_append, ih, h, List.countP_cons, Nat.add_comm]

end Formula

namespace Latex

/-! ## The scan -/

/-- Whether a character closes the innermost opener. -/
def closes (stack : List Closer) (c : Char) : Bool := stack.head?.any fun closer => closer.char == c

/-- How what a character opens closes. -/
def opener? (c : Char) : Option Closer :=
  if c = '\x7b' then some .brace
  else if c = '(' then some .parenthesis
  else if c = '|' then some .bar
  else none

/-- The openers after a character. -/
def openersAfter (stack : List Closer) (c : Char) : List Closer :=
  if closes stack c then stack.tail else (opener? c).toList ++ stack

/-- The star and the slash are written as signs of operators. -/
def spelled (c : Char) : Char := if c = '*' then '\u00D7' else if c = '/' then '\u00F7' else c

/-- Whether a character leaves no ink. -/
def removed (stack : List Closer) (c : Char) : Bool :=
  isWhiteSpace c || ['\x7b', '(', '^', '_', '|'].contains c || closes stack c

/-- The characters that leave ink, from a stack of openers on. -/
def kept (stack : List Closer) : List Char → List Char
  | [] => []
  | c :: cs =>
    if removed stack c then kept (openersAfter stack c) cs
    else spelled c :: kept (openersAfter stack c) cs

/-- The number of bars that open. -/
def pushedBars (stack : List Closer) : List Char → Nat
  | [] => 0
  | c :: cs =>
    (if c = '|' && !closes stack c then 1 else 0) + pushedBars (openersAfter stack c) cs

/-- The marks of a character that begins a part. -/
def primaryMarks (c : Char) : List Mark :=
  if c = '\x7b' then []
  else if c = '(' then [.delimiter .parentheses]
  else if c = '|' then [.delimiter .bars]
  else if c = '^' then [.script .superscript]
  else if c = '_' then [.script .subscript]
  else [.ink (spelled c)]

/-- The marks of a character. -/
def charMarks (stack : List Closer) (c : Char) : List Mark :=
  if isWhiteSpace c || closes stack c then [] else primaryMarks c

/-- The marks of a text. -/
def scan (stack : List Closer) : List Char → List Mark
  | [] => []
  | c :: cs => charMarks stack c ++ scan (openersAfter stack c) cs

theorem filterMap_ink?_charMarks (stack : List Closer) (c : Char) :
    (charMarks stack c).filterMap Mark.ink? = if removed stack c then [] else [spelled c] := by
  unfold charMarks removed
  by_cases hskip : isWhiteSpace c || closes stack c
  · rw [if_pos hskip, if_pos]
    · rfl
    · rcases Bool.or_eq_true_iff.1 hskip with h | h <;> simp [h]
  · obtain ⟨hspace, hcloses⟩ := Bool.or_eq_false_iff.1 (Bool.not_eq_true _ ▸ hskip)
    rw [if_neg hskip, hspace, hcloses, Bool.false_or, Bool.or_false]
    unfold primaryMarks
    iterate 5
      split
      · next h => subst h; rfl
    rw [if_neg]
    · rfl
    · simp_all

theorem filterMap_ink?_scan (stack : List Closer) (cs : List Char) :
    (scan stack cs).filterMap Mark.ink? = kept stack cs := by
  induction cs generalizing stack with
  | nil => rfl
  | cons c cs ih =>
    rw [scan, kept, List.filterMap_append, ih, filterMap_ink?_charMarks]
    split <;> rfl

theorem isWhiteSpace_of_sign {m : Mark} {d : Char} (h : m.sign? = some d) :
    isWhiteSpace d = false := by
  cases m with
  | ink c => cases h
  | script side => cases side <;> cases h <;> decide
  | delimiter e => cases e <;> cases h <;> decide

theorem count_primaryMarks {m : Mark} {d : Char} (h : m.sign? = some d) (c : Char) :
    (primaryMarks c).count m = if c = d then 1 else 0 := by
  unfold primaryMarks
  cases m with
  | ink c => cases h
  | script side =>
    cases side <;> cases h
    all_goals
      repeat' split
      all_goals simp_all
  | delimiter e =>
    cases e <;> cases h
    all_goals
      repeat' split
      all_goals simp_all

/-- A structure is begun by its character wherever that does not close. -/
theorem count_charMarks {m : Mark} {d : Char} (h : m.sign? = some d) (stack : List Closer)
    (c : Char) : (charMarks stack c).count m = if c = d && !closes stack c then 1 else 0 := by
  unfold charMarks
  by_cases hc : c = d
  · subst hc
    rw [isWhiteSpace_of_sign h, Bool.false_or]
    cases closes stack c with
    | true => simp
    | false => simp [count_primaryMarks h]
  · simp only [hc, decide_false, Bool.false_and, Bool.false_eq_true, if_false]
    split
    · rfl
    · rw [count_primaryMarks h, if_neg hc]

theorem closes_eq_false {stack : List Closer} {c : Char} (h : ∀ closer : Closer, closer.char ≠ c) :
    closes stack c = false := by
  cases stack with
  | nil => rfl
  | cons closer stack => simp [closes, h closer]

/-- Of the characters that begin structures only the bar closes one too. -/
theorem closes_of_sign {m : Mark} {d : Char} (h : m.sign? = some d) (hbar : d ≠ '|')
    (stack : List Closer) : closes stack d = false := by
  refine closes_eq_false fun closer => ?_
  cases m with
  | ink c => cases h
  | script side => cases side <;> cases h <;> cases closer <;> decide
  | delimiter e =>
    cases e with
    | parentheses => cases h; cases closer <;> decide
    | bars => cases h; exact absurd rfl hbar

theorem count_scan {m : Mark} {d : Char} (h : m.sign? = some d) (hbar : d ≠ '|')
    (stack : List Closer) (cs : List Char) : (scan stack cs).count m = cs.count d := by
  induction cs generalizing stack with
  | nil => rfl
  | cons c cs ih =>
    rw [scan, List.count_append, ih, count_charMarks h, List.count_cons, Nat.add_comm]
    by_cases hc : c = d
    · subst hc
      simp [closes_of_sign h hbar]
    · simp [hc]

theorem count_scan_bars (stack : List Closer) (cs : List Char) :
    (scan stack cs).count (.delimiter .bars) = pushedBars stack cs := by
  induction cs generalizing stack with
  | nil => rfl
  | cons c cs ih =>
    have hsign : (Mark.delimiter .bars).sign? = some '|' := rfl
    rw [scan, pushedBars, List.count_append, ih, count_charMarks hsign]

/-! ## The marks of a state -/

/-- The marks of what an opener opens. -/
def Closer.marks : Closer → List Mark
  | .parenthesis => [.delimiter .parentheses]
  | .bar => [.delimiter .bars]
  | .brace | .bracket => []

/-- The marks of an unfinished structure of plain text. -/
def Frame.marks : Frame → List Mark
  | .sequence closer items => closer.marks ++ items.toList.flatMap Formula.marks
  | .argument (.script side) => [.script side]
  | .argument _ => []

/-- The marks of what is pending. -/
def Mode.marks : Mode → List Mark
  | .finished x => x.marks
  | .number digits => digits.reverse.map .ink
  | _ => []

/-- The marks of the root's items, of the frames and of the mode, in the order of the text. -/
def State.marks (st : State) : List Mark :=
  st.items.toList.flatMap Formula.marks ++ st.frames.reverse.flatMap Frame.marks ++ st.mode.marks

/-- The sequences that are open, innermost first. -/
def openers : List Frame → List Closer
  | [] => []
  | .sequence closer _ :: frames => closer :: openers frames
  | .argument _ :: frames => openers frames

/-- The frames that plain text begins. -/
def Frame.IsPlain : Frame → Prop
  | .sequence closer _ => closer ≠ .bracket
  | .argument (.script _) => True
  | .argument _ => False

/-- The modes that plain text leads to. -/
def Mode.IsPlain : Mode → Prop
  | .ready | .finished _ | .number _ => True
  | _ => False

/-- A state of plain text with some marks and openers. -/
structure State.Shows (ms : List Mark) (stack : List Closer) (st : State) : Prop where
  frames : ∀ frame ∈ st.frames, frame.IsPlain
  mode : st.mode.IsPlain
  marks : st.marks = ms
  openers : openers st.frames = stack

/-- A state that has reacted to a lookahead: an argument on top is not cut off by it. -/
def State.IsSettled (next : Option Char) (st : State) : Prop :=
  st.mode = .ready ∧ ∀ slot frames, st.frames = .argument slot :: frames →
    closesAny frames next = false

/-! ## Steps -/

variable {a : Allowance} {ms : List Mark} {stack : List Closer}

theorem deliver_shows (next : Option Char) (items : Array Formula) (x : Formula)
    {frames : List Frame} (hplain : ∀ frame ∈ frames, frame.IsPlain) :
    (deliver next items x frames).Shows
        (items.toList.flatMap Formula.marks ++ frames.reverse.flatMap Frame.marks ++ x.marks)
        (openers frames) ∧
      (deliver next items x frames).IsSettled next := by
  fun_induction deliver next items x frames with
  | case1 x =>
    refine ⟨⟨by simp, trivial, ?_, rfl⟩, rfl, by simp⟩
    simp [State.marks, Mode.marks]
  | case2 x closer xs frames =>
    rw [List.forall_mem_cons] at hplain
    refine ⟨⟨?_, trivial, ?_, rfl⟩, rfl, by simp⟩
    · rw [List.forall_mem_cons]
      exact hplain
    · simp [State.marks, Mode.marks, Frame.marks]
  | case9 x frames slot h1 h2 h3 ih =>
    rw [List.forall_mem_cons] at hplain
    cases slot with
    | script side =>
      have hih := ih hplain.2
      rw [Slot.fill, Formula.marks_script] at hih
      simpa [Frame.marks, openers, Slot.fill] using hih
    | _ => exact hplain.1.elim
  | case3 | case4 | case5 | case6 | case7 | case8 =>
    rw [List.forall_mem_cons] at hplain
    exact hplain.1.elim

/-- Reacting to a lookahead changes neither the marks nor the openers. -/
theorem resolve_shows {st st' : State} {next : Option Char} (hst : st.Shows ms stack)
    (h : resolve a st next = .ok st') :
    st'.Shows ms stack ∧
      (st'.IsSettled next ∨
        ∃ c digits, next = some c ∧ (c.isDigit ∨ c = '.') ∧ st'.mode = .number digits) := by
  obtain ⟨items, frames, mode⟩ := st
  obtain ⟨hframes, hmode, rfl, rfl⟩ := hst
  cases mode with
  | ready =>
    cases h
    unfold State.settle
    split
    next slot rest hrest =>
      split
      next hclose =>
        obtain ⟨hshows, hsettled⟩ := deliver_shows next items .missing hframes
        rw [Formula.marks_missing] at hshows
        exact ⟨hshows, .inl hsettled⟩
      next hclose =>
        refine ⟨⟨hframes, trivial, rfl, rfl⟩, .inl ⟨rfl, fun slot' rest' hrest' => ?_⟩⟩
        simp only at hrest hrest' hclose
        rw [hrest] at hrest'
        cases hrest'
        rw [hrest, closesAny_argument, Bool.not_eq_true] at hclose
        exact hclose
    next hargument =>
      refine ⟨⟨hframes, trivial, rfl, rfl⟩, .inl ⟨rfl, fun slot' rest' hrest' => ?_⟩⟩
      exact absurd hrest' (hargument slot' rest')
  | finished x =>
    cases h
    obtain ⟨hshows, hsettled⟩ := deliver_shows next items x hframes
    exact ⟨hshows, .inl hsettled⟩
  | number digits =>
    simp only [resolve, Except.ok.injEq] at h
    split at h
    next hnext =>
      subst h
      refine ⟨⟨hframes, trivial, rfl, rfl⟩, .inr ?_⟩
      cases next with
      | none => cases hnext
      | some c => exact ⟨c, digits, rfl, by simpa using hnext, rfl⟩
    next =>
      subst h
      obtain ⟨hshows, hsettled⟩ := deliver_shows next items
        (.number (String.ofList digits.reverse)) hframes
      rw [Formula.number, Formula.marks_leaf] at hshows
      simp only [Formula.ink, String.toList_ofList] at hshows
      exact ⟨hshows, .inl hsettled⟩
  | _ => exact hmode.elim

theorem State.Shows.turn {st : State} (hst : st.Shows ms stack) (hready : st.mode = .ready)
    (mode : Mode) (hmode : mode.IsPlain) : (st.withMode mode).Shows (ms ++ mode.marks) stack := by
  refine ⟨hst.frames, hmode, ?_, hst.openers⟩
  rw [← hst.marks, State.marks, State.marks, hready]
  simp [State.withMode, Mode.marks]

/-- A leaf of one character leaves its ink. -/
theorem State.Shows.turn_leaf {st : State} (hst : st.Shows ms stack) (hready : st.mode = .ready)
    {l : Leaf} {c : Char} (hink : (Formula.leaf l).ink = [c]) :
    (st.withMode (.finished (.leaf l))).Shows (ms ++ [.ink c]) stack := by
  have hmarks : (Formula.leaf l).marks = [.ink c] := by
    rw [Formula.marks_leaf, hink]
    rfl
  rw [← hmarks]
  exact hst.turn hready (.finished (.leaf l)) trivial

theorem State.Shows.push {st st' : State} (hst : st.Shows ms stack) (hready : st.mode = .ready)
    {frame : Frame} (hframe : frame.IsPlain) (h : push a st frame = .ok st') :
    st'.Shows (ms ++ frame.marks) (Latex.openers [frame] ++ stack) := by
  obtain ⟨-, rfl⟩ := push_eq_ok_iff.1 h
  refine ⟨?_, trivial, ?_, ?_⟩
  · rw [List.forall_mem_cons]
    exact ⟨hframe, hst.frames⟩
  · rw [← hst.marks, State.marks, State.marks, hready]
    simp [Mode.marks]
  · rw [← hst.openers]
    cases frame <;> rfl

/-- White space leaves nothing and moves no opener. -/
theorem openersAfter_of_isWhiteSpace {c : Char} (h : isWhiteSpace c = true) :
    openersAfter stack c = stack := by
  have hcloses : closes stack c = false := by
    refine closes_eq_false ?_
    rintro closer rfl
    cases closer <;> exact absurd h (by decide)
  have hopener : opener? c = none := by
    unfold opener?
    iterate 3
      split
      · next hc => subst hc; exact absurd h (by decide)
    rfl
  rw [openersAfter, hcloses, hopener]
  rfl

/-- Digits and points are none of the characters that the scan treats apart. -/
theorem ne_of_digit {c d : Char} (h : c.isDigit ∨ c = '.')
    (hd : d.isDigit = false ∧ d ≠ '.') : c ≠ d := by
  rintro rfl
  rcases h with h | h
  · rw [hd.1] at h
    cases h
  · exact hd.2 h

theorem isWhiteSpace_of_digit {c : Char} (h : c.isDigit ∨ c = '.') : isWhiteSpace c = false := by
  refine isWhiteSpace_eq_false ?_
  rcases h with h | rfl
  · have := toNat_of_isDigit h
    omega
  · decide

theorem spelled_of_digit {c : Char} (h : c.isDigit ∨ c = '.') : spelled c = c := by
  rw [spelled, if_neg (ne_of_digit h (by decide)), if_neg (ne_of_digit h (by decide))]

theorem opener?_of_digit {c : Char} (h : c.isDigit ∨ c = '.') : opener? c = none := by
  rw [opener?, if_neg (ne_of_digit h (by decide)), if_neg (ne_of_digit h (by decide)),
    if_neg (ne_of_digit h (by decide))]

theorem closes_of_digit {c : Char} (h : c.isDigit ∨ c = '.') : closes stack c = false := by
  refine closes_eq_false fun closer hcloser => ne_of_digit h ?_ hcloser.symm
  cases closer <;> decide

theorem openersAfter_of_digit {c : Char} (h : c.isDigit ∨ c = '.') :
    openersAfter stack c = stack := by
  rw [openersAfter, closes_of_digit h, opener?_of_digit h]
  rfl

theorem charMarks_of_digit {c : Char} (h : c.isDigit ∨ c = '.') :
    charMarks stack c = [.ink c] := by
  rw [charMarks, isWhiteSpace_of_digit h, closes_of_digit h, primaryMarks]
  iterate 5 rw [if_neg (ne_of_digit h (by decide))]
  rw [spelled_of_digit h]
  rfl

/-- The star and the slash are the operators that are spelled otherwise. -/
theorem normalizeOperator?_eq_some {c op : Char} (h : normalizeOperator? c = some op) :
    op = spelled c := by
  unfold normalizeOperator? at h
  unfold spelled
  split at h
  next hc => rw [if_pos hc]; exact (Option.some.inj h).symm
  next hc =>
    rw [if_neg hc]
    split at h
    next hc' => rw [if_pos hc']; exact (Option.some.inj h).symm
    next hc' =>
      rw [if_neg hc']
      split at h
      · exact (Option.some.inj h).symm
      · cases h

theorem normalizeOperator?_eq_none {c : Char} (h : normalizeOperator? c = none) :
    spelled c = c := by
  unfold normalizeOperator? at h
  unfold spelled
  split at h
  next => cases h
  next hc =>
    rw [if_neg hc]
    split at h
    next => cases h
    next hc' => rw [if_neg hc']

theorem spelled_of_isAlphabetic {c : Char} (h : isAlphabetic c = true) : spelled c = c := by
  unfold spelled
  split
  next hc => subst hc; exact absurd h (by decide)
  next =>
    split
    next hc => subst hc; exact absurd h (by decide)
    next => rfl

/-- A part that begins outside of an argument's reach leaves the marks of its character. -/
theorem primary_shows {st st' : State} {c : Char} (hst : st.Shows ms stack)
    (hready : st.mode = .ready) (hc : c ≠ '\\') (hspace : isWhiteSpace c = false)
    (hcloses : closes stack c = false) (h : (Move.primary c).perform a st = .ok st') :
    st'.Shows (ms ++ charMarks stack c) (openersAfter stack c) := by
  rw [charMarks, hspace, hcloses, Bool.or_false, if_neg Bool.false_ne_true, openersAfter, hcloses,
    if_neg Bool.false_ne_true]
  unfold Move.primary at h
  rw [if_neg hc] at h
  split at h
  · next hb => subst hb; exact hst.push hready (by simp [Frame.IsPlain]) h
  split at h
  · next hb => subst hb; exact hst.push hready (by simp [Frame.IsPlain]) h
  split at h
  · next hb => subst hb; exact hst.push hready (by simp [Frame.IsPlain]) h
  split at h
  · next hb =>
    subst hb
    have hframe : (Frame.argument (.script .superscript)).IsPlain := trivial
    exact hst.push hready hframe h
  split at h
  · next hb =>
    subst hb
    have hframe : (Frame.argument (.script .subscript)).IsPlain := trivial
    exact hst.push hready hframe h
  next hbrace hparenthesis hbar hsuper hsub =>
    have hprimary : primaryMarks c = [.ink (spelled c)] := by
      rw [primaryMarks, if_neg hbrace, if_neg hparenthesis, if_neg hbar, if_neg hsuper, if_neg hsub]
    have hopener : opener? c = none := by
      rw [opener?, if_neg hbrace, if_neg hparenthesis, if_neg hbar]
    rw [hprimary, hopener]
    split at h
    · next hdigit =>
      cases h
      rw [spelled_of_digit (by simpa using hdigit)]
      exact hst.turn hready (.number [c]) trivial
    split at h
    · next halphabetic =>
      cases h
      rw [spelled_of_isAlphabetic halphabetic]
      exact hst.turn_leaf hready rfl
    split at h
    · next op hop =>
      cases h
      rw [← normalizeOperator?_eq_some hop]
      exact hst.turn_leaf hready rfl
    · next hop =>
      cases h
      rw [normalizeOperator?_eq_none hop]
      exact hst.turn_leaf hready (String.toList_singleton c)

/-- A sequence that closes keeps its marks, and its opener goes. -/
theorem closeSequence_shows {st : State} {closer : Closer} {items : Array Formula}
    {frames : List Frame} (hst : st.Shows ms stack) (hready : st.mode = .ready)
    (hframes : st.frames = .sequence closer items :: frames) :
    (closeSequence st frames items closer).Shows ms (openers frames) := by
  have hplain := hst.frames
  rw [hframes, List.forall_mem_cons] at hplain
  have hmarks := hst.marks
  rw [State.marks, hframes, hready] at hmarks
  simp only [List.reverse_cons, List.flatMap_append, List.flatMap_cons, List.flatMap_nil,
    Mode.marks, List.append_nil, Frame.marks] at hmarks
  cases closer with
  | brace =>
    refine ⟨hplain.2, trivial, ?_, rfl⟩
    rw [← hmarks, State.marks]
    simp [closeSequence, Mode.marks, Formula.marks_collapse, Closer.marks]
  | parenthesis | bar =>
    refine ⟨hplain.2, trivial, ?_, rfl⟩
    rw [← hmarks, State.marks]
    simp [closeSequence, Mode.marks, Formula.marks_delimited, Closer.marks]
  | bracket => exact absurd rfl hplain.1

/-- What closes no sequence closes no opener. -/
theorem closes_openers {frames : List Frame} {c : Char} (h : closesAny frames (some c) = false) :
    closes (openers frames) c = false := by
  induction frames with
  | nil => rfl
  | cons frame frames ih =>
    cases frame with
    | argument slot => exact ih h
    | sequence closer items =>
      simp only [closesAny, List.any_cons, Bool.or_eq_false_iff] at h
      simpa [openers, closes] using h.1

/-- Between parts a character leaves its marks and moves the openers as the scan does. -/
theorem ready_shows {st st' : State} {c : Char} (hst : st.Shows ms stack) (hc : c ≠ '\\')
    (hsettled : st.IsSettled (some c))
    (h : (Move.ready .ready st.frames c).perform a st = .ok st') :
    st'.Shows (ms ++ charMarks stack c) (openersAfter stack c) := by
  obtain ⟨hready, htop⟩ := hsettled
  unfold Move.ready at h
  by_cases hspace : isWhiteSpace c
  · rw [if_pos hspace] at h
    cases h
    rw [charMarks, hspace, Bool.true_or, if_pos rfl, openersAfter_of_isWhiteSpace hspace]
    exact hst.turn hready .ready trivial
  · rw [if_neg hspace] at h
    rw [Bool.not_eq_true] at hspace
    split at h
    · next closer items frames hframes =>
      have hstack : stack = closer :: openers frames := by
        rw [← hst.openers, hframes]
        rfl
      by_cases hclose : closer.char = c
      · have hcloses : closes stack c = true := by simp [hstack, closes, hclose]
        rw [if_pos hclose] at h
        cases h
        rw [charMarks, hcloses, Bool.or_true, if_pos rfl, List.append_nil, openersAfter, hcloses,
          if_pos rfl, hstack]
        exact closeSequence_shows hst hready hframes
      · have hcloses : closes stack c = false := by simp [hstack, closes, hclose]
        rw [if_neg hclose] at h
        exact primary_shows hst hready hc hspace hcloses h
    · next slot frames hframes =>
      have hcloses : closes stack c = false := by
        rw [← hst.openers, hframes]
        exact closes_openers (htop slot frames hframes)
      by_cases hdigit : c.isDigit
      · rw [if_pos hdigit] at h
        cases h
        rw [charMarks_of_digit (.inl hdigit), openersAfter_of_digit (.inl hdigit)]
        exact hst.turn_leaf hready (String.toList_singleton c)
      · rw [if_neg hdigit] at h
        exact primary_shows hst hready hc hspace hcloses h
    · next hframes =>
      have hcloses : closes stack c = false := by
        rw [← hst.openers, hframes]
        rfl
      exact primary_shows hst hready hc hspace hcloses h

/-- Consuming a character leaves its marks and moves the openers as the scan does. -/
theorem consume_shows {st st' : State} {c : Char} (hst : st.Shows ms stack) (hc : c ≠ '\\')
    (hsettled : st.IsSettled (some c) ∨
      ∃ digits, (c.isDigit ∨ c = '.') ∧ st.mode = .number digits)
    (h : consume a st c = .ok st') :
    st'.Shows (ms ++ charMarks stack c) (openersAfter stack c) := by
  rw [consume_eq, Move.of] at h
  rcases hsettled with hsettled | ⟨digits, hdigit, hmode⟩
  · rw [hsettled.1] at h
    exact ready_shows hst hc hsettled h
  · rw [hmode] at h
    cases h
    rw [charMarks_of_digit hdigit, openersAfter_of_digit hdigit]
    refine ⟨hst.frames, trivial, ?_, hst.openers⟩
    rw [← hst.marks, State.marks, State.marks, hmode]
    simp [State.withMode, Mode.marks]

/-! ## Runs -/

/-- At the end of the text the frames complete to parts with their marks. -/
theorem finish_marks {frames : List Frame} (hplain : ∀ frame ∈ frames, frame.IsPlain)
    (items : Array Formula) (pending : Option Formula) :
    (finish items pending frames).toList.flatMap Formula.marks =
      items.toList.flatMap Formula.marks ++ frames.reverse.flatMap Frame.marks ++
        pending.toList.flatMap Formula.marks := by
  fun_induction finish items pending frames with
  | case1 => simp
  | case2 x => simp
  | case3 pending slot frames ih =>
    rw [List.forall_mem_cons] at hplain
    cases slot with
    | script side =>
      rw [ih hplain.2]
      cases pending <;>
        simp [Frame.marks, Slot.fill, Formula.marks_script, Formula.marks_missing]
    | _ => exact hplain.1.elim
  | case4 pending closer xs frames contents x ih =>
    rw [List.forall_mem_cons] at hplain
    have hx : x.marks = closer.marks ++ contents.flatMap Formula.marks := by
      cases closer with
      | brace => exact Formula.marks_collapse contents
      | parenthesis | bar => exact Formula.marks_delimited _ contents
      | bracket => exact absurd rfl hplain.1
    have hcontents : contents.flatMap Formula.marks =
        xs.toList.flatMap Formula.marks ++ pending.toList.flatMap Formula.marks := by
      cases pending <;> simp [contents]
    rw [ih hplain.2]
    simp [hx, hcontents, Frame.marks]

/-- A run over plain text leaves the marks of the state and of the scan. -/
theorem run_marks {st : State} {cs : List Char} {items : List Formula}
    (hst : st.Shows ms stack) (hcs : '\\' ∉ cs) (h : run a st cs = .complete items) :
    items.flatMap Formula.marks = ms ++ scan stack cs := by
  induction cs generalizing st ms stack with
  | nil =>
    obtain ⟨st1, hresolve, rfl⟩ := run_nil_eq_complete_iff.1 h
    obtain ⟨hshows, hsettled | ⟨c, -, hc, -⟩⟩ := resolve_shows hst hresolve
    · rw [finish_marks hshows.frames, ← hshows.marks, State.marks, hsettled.1]
      simp [Mode.marks, scan]
    · cases hc
  | cons c cs ih =>
    obtain ⟨st1, st2, hresolve, hconsume, hrun⟩ := run_cons_eq_complete_iff.1 h
    rw [List.mem_cons, not_or] at hcs
    obtain ⟨hshows, hsettled⟩ := resolve_shows hst hresolve
    have hnext := consume_shows hshows (Ne.symm hcs.1) (hsettled.imp_right fun hnumber => by
      obtain ⟨d, digits, hd, hdigit, hmode⟩ := hnumber
      cases hd
      exact ⟨digits, hdigit, hmode⟩) hconsume
    rw [ih hnext hcs.2 hrun, scan, List.append_assoc]

theorem initial_shows : State.initial.Shows [] [] :=
  ⟨by simp [State.initial], trivial, rfl, rfl⟩

theorem marks_of_read {source : String} {limit : Nat} {t : Formula}
    (hsource : '\\' ∉ source.toList) (h : read source limit = .ok t) :
    t.marks = scan [] source.toList := by
  obtain ⟨items, hrun, rfl⟩ := read_eq_ok_iff.1 h
  rw [Formula.marks_equation, run_marks initial_shows hsource hrun]
  rfl

/-- No character is lost, doubled or moved in text without commands: the leaves spell what the scan
keeps, and delimiters and scripts are as many as the characters that begin them. -/
theorem plain_text (source : String) (limit : Nat) {t : Formula} (hsource : '\\' ∉ source.toList)
    (h : read source limit = .ok t) :
    t.nodes.flatMap Formula.ink = kept [] source.toList ∧
      t.nodes.countP (Formula.isDelimited .parentheses) = source.toList.count '(' ∧
      t.nodes.countP (Formula.isScript .superscript) = source.toList.count '^' ∧
      t.nodes.countP (Formula.isScript .subscript) = source.toList.count '_' ∧
      t.nodes.countP (Formula.isDelimited .bars) = pushedBars [] source.toList := by
  have hmarks := marks_of_read hsource h
  refine ⟨?_, ?_, ?_, ?_, ?_⟩
  · rw [← Formula.filterMap_ink?_marks, hmarks, filterMap_ink?_scan]
  · rw [← Formula.count_marks (Formula.count_ownMarks_delimiter _), hmarks]
    exact count_scan rfl (by decide) _ _
  · rw [← Formula.count_marks (Formula.count_ownMarks_script _), hmarks]
    exact count_scan rfl (by decide) _ _
  · rw [← Formula.count_marks (Formula.count_ownMarks_script _), hmarks]
    exact count_scan rfl (by decide) _ _
  · rw [← Formula.count_marks (Formula.count_ownMarks_delimiter _), hmarks, count_scan_bars]

/-- A closing parenthesis inside a braced group is ink, and the parenthesis before the group stays
open to the end. -/
theorem plain_text_stray_closer :
    '\\' ∉ "(a^\x7bb)|x^|*2\x7d".toList ∧
      ∃ t, read "(a^\x7bb)|x^|*2\x7d" 5 = .ok t ∧
        t.nodes.flatMap Formula.ink = ['a', 'b', ')', 'x', '\u00D7', '2'] ∧
        t.nodes.countP (Formula.isDelimited .parentheses) = 1 ∧
        t.nodes.countP (Formula.isScript .superscript) = 2 ∧
        t.nodes.countP (Formula.isScript .subscript) = 0 ∧
        t.nodes.countP (Formula.isDelimited .bars) = 1 :=
  ⟨by decide, _, rfl,
    plain_text "(a^\x7bb)|x^|*2\x7d" 5 (by decide) rfl⟩

end Latex

end FormulaDrawing
