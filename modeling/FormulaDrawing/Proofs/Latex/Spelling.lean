import FormulaDrawing.Proofs.Latex.PlainText
import FormulaDrawing.Proofs.Latex.Skipping
import FormulaDrawing.Proofs.Latex.WellFormed

/-!
# Braced spellings

`Formula.body` writes a formula so that braces stand around each of its parts. How a leaf is written
is left open, as long as its own characters or a command for it are used (`Leaf.Written`);
`Leaf.word` is one such way.

Between braces a leaf is read back whatever comes before them (`run_leaf`): the closing brace ends
a number and the name of a command, and the braces of literal text end where they are balanced.
-/

namespace FormulaDrawing

open Unicode

/-! ## Leaves -/

/-- The ways to write a leaf between braces. -/
inductive Leaf.Written : Leaf → List Char → Prop
  | number (digits : String) : Written (.number digits) digits.toList
  | letter (c : Char) : Written (.letter c) [c]
  | sign {c d : Char} (h : normalizeOperator? d = some c) : Written (.operator c) [d]
  | operator {name : String} {c : Char} (h : substitution? name = some (.operator c)) :
    Written (.operator c) ('\\' :: name.toList)
  | greek {name : String} {c : Char} (h : greekLetter? name = some c) :
    Written (.greek c) ('\\' :: name.toList)
  | function (name : String) : Written (.function name) ('\\' :: name.toList)
  | text (s : String) : Written (.text s) ("\\text\x7b".toList ++ (s.toList ++ ['\x7d']))

/-- A name of a glyph in a table. -/
def nameOf {α : Type} [BEq α] (table : List (String × α)) (glyph : α) : String :=
  ((table.find? fun entry => entry.2 == glyph).map (·.1)).getD ""

/-- One way to write each leaf: an operator as its own character if that is one of plain text. -/
def Leaf.word : Leaf → List Char
  | .number digits => digits.toList
  | .letter c => [c]
  | .operator c =>
    if normalizeOperator? c = some c then [c]
    else '\\' :: (nameOf substitutions (.operator c)).toList
  | .greek c => '\\' :: (nameOf greekLetters c).toList
  | .function name => '\\' :: name.toList
  | .text s => "\\text\x7b".toList ++ (s.toList ++ ['\x7d'])

/-- Every leaf that is read can be written. -/
theorem Leaf.word_written {l : Leaf} (h : l.Legible) : l.Written l.word := by
  cases l with
  | number digits => exact .number digits
  | letter c => exact .letter c
  | function name => exact .function name
  | text s => exact .text s
  | greek c =>
    have hall : ∀ entry ∈ greekLetters, greekLetter? (nameOf greekLetters entry.2) =
        some entry.2 := by
      decide +kernel
    obtain ⟨name, hname⟩ := h
    exact .greek (hall _ (mem_greekLetters hname))
  | operator c =>
    have hall : ∀ entry ∈ substitutions, substitution? (nameOf substitutions entry.2) =
        some entry.2 := by
      decide +kernel
    by_cases hself : normalizeOperator? c = some c
    · have hword : (Leaf.operator c).word = [c] := if_pos hself
      rw [hword]
      exact .sign hself
    · have hword : (Leaf.operator c).word = '\\' :: (nameOf substitutions (.operator c)).toList :=
        if_neg hself
      rw [hword]
      rcases h with ⟨d, hd⟩ | ⟨name, hname⟩
      · exact absurd (normalizeOperator?_self hd) hself
      · exact .operator (hall _ (mem_substitutions hname))

/-! ## Formulas -/

/-- A text in braces. -/
def braced (cs : List Char) : List Char := '\x7b' :: (cs ++ ['\x7d'])

/-- The command of a big operator. -/
def BigOperator.word : BigOperator → List Char
  | .integral => "\\int".toList
  | .sum => "\\sum".toList

/-- The sign of a script. -/
def ScriptSide.sign : ScriptSide → Char
  | .superscript => '^'
  | .subscript => '_'

/-- The characters around what is delimited. -/
def Delimiter.signs : Delimiter → Char × Char
  | .parentheses => ('(', ')')
  | .bars => ('|', '|')

namespace Formula

section

variable (word : Leaf → List Char)

mutual

/-- A formula, with braces around each of its parts. -/
@[simp]
def body : Formula → List Char
  | .leaf l => word l
  | .fraction n d => "\\frac".toList ++ (braced (body n) ++ braced (body d))
  | .script side x => side.sign :: braced (body x)
  | .root i x => "\\sqrt".toList ++ (bodyOption ['['] [']'] i ++ braced (body x))
  | .bigOperator op l u => op.word ++ (bodyOption ['_'] [] l ++ bodyOption ['^'] [] u)
  | .limit a => "\\lim".toList ++ bodyOption ['_'] [] a
  | .group xs => bodyList xs
  | .delimited d xs => d.signs.1 :: (bodyList xs ++ [d.signs.2])
  | .equation xs => bodyList xs

/-- A part that may be absent, between two texts that are absent with it. -/
def bodyOption (before after : List Char) : Option Formula → List Char
  | none => []
  | some x => before ++ (braced (body x) ++ after)

/-- The parts of a sequence. -/
def bodyList : List Formula → List Char
  | [] => []
  | x :: xs => braced (body x) ++ bodyList xs

end

end

end Formula

/-! ## Characters -/

/-- Nothing below the first range lies in one. -/
theorem inRanges_of_lt {ranges : List (Nat × Nat)} {n : Nat} (h : ∀ r ∈ ranges.head?, n < r.1) :
    inRanges ranges n = false := by
  cases ranges with
  | nil => rfl
  | cons r ranges =>
    have hlow : n < r.1 := h r rfl
    rw [inRanges, if_pos hlow]

theorem isAlphabetic_of_lt {c : Char} (h : c.toNat < 0x41) : isAlphabetic c = false := by
  refine inRanges_of_lt fun r hr => ?_
  cases hr
  exact h

/-- White space is no letter. -/
theorem isWhiteSpace_of_isAlphabetic {c : Char} (h : isAlphabetic c = true) :
    isWhiteSpace c = false := by
  have hpoints : ∀ n, inRanges whiteSpace n = true → n < 0x41 ∨ n ∈ [0x85, 0xA0, 0x1680, 0x2000,
      0x2001, 0x2002, 0x2003, 0x2004, 0x2005, 0x2006, 0x2007, 0x2008, 0x2009, 0x200A, 0x2028,
      0x2029, 0x202F, 0x205F, 0x3000] := by
    intro n hn
    simp only [whiteSpace, inRanges] at hn
    simp only [List.mem_cons, List.not_mem_nil, or_false]
    grind
  cases hspace : isWhiteSpace c with
  | false => rfl
  | true =>
    rcases hpoints _ hspace with hlow | hmem
    · rw [isAlphabetic_of_lt hlow] at h
      cases h
    · have hnone : ∀ n ∈ [0x85, 0xA0, 0x1680, 0x2000, 0x2001, 0x2002, 0x2003, 0x2004, 0x2005,
          0x2006, 0x2007, 0x2008, 0x2009, 0x200A, 0x2028, 0x2029, 0x202F, 0x205F, 0x3000],
          inRanges alphabetic n = false := by
        decide +kernel
      have hfalse : isAlphabetic c = false := hnone _ hmem
      rw [hfalse] at h
      cases h

namespace Latex

/-- Letters begin variables. -/
theorem primary_of_isAlphabetic {c : Char} (h : isAlphabetic c = true) :
    Move.primary c = .turn (.finished (.letter c)) := by
  have hne : ∀ d : Char, isAlphabetic d = false → c ≠ d := by
    rintro d hd rfl
    rw [hd] at h
    cases h
  have hdigit : ¬ (c.isDigit || c = '.') := by
    intro hd
    have hlow : c.toNat < 0x41 := by
      rcases Bool.or_eq_true_iff.1 hd with hd | hd
      · have := toNat_of_isDigit hd
        omega
      · rw [of_decide_eq_true hd]
        decide
    rw [isAlphabetic_of_lt hlow] at h
    cases h
  rw [Move.primary]
  iterate 6 rw [if_neg (hne _ (by decide))]
  rw [if_neg hdigit, if_pos h]

/-- Digits and points begin numbers. -/
theorem primary_of_digit {c : Char} (h : c.isDigit ∨ c = '.') :
    Move.primary c = .turn (.number [c]) := by
  rw [Move.primary]
  iterate 6 rw [if_neg (ne_of_digit h (by decide))]
  rw [if_pos (by simpa using h)]

/-- The characters of plain text that stand for operators begin them. -/
theorem primary_of_sign {c d : Char} (h : normalizeOperator? d = some c) :
    isWhiteSpace d = false ∧ Closer.brace.char ≠ d ∧
      Move.primary d = .turn (.finished (.operator c)) := by
  have hmem : d ∈ ['*', '/', '+', '-', '=', '<', '>', '\u00D7', '\u00F7'] := by
    unfold normalizeOperator? at h
    split at h
    next hd => rw [hd]; simp
    split at h
    next hd => rw [hd]; simp
    split at h
    next hd => exact List.mem_cons_of_mem _ (List.mem_cons_of_mem _ (by simpa using hd))
    next => cases h
  simp only [List.mem_cons, List.not_mem_nil, or_false] at hmem
  rcases hmem with rfl | rfl | rfl | rfl | rfl | rfl | rfl | rfl | rfl
  all_goals
    cases h
    exact ⟨by decide, by decide, rfl⟩

/-! ## Balanced text -/

/-- Whether, inside `inner` braces, every closing brace closes an opening one and none stays
open. -/
def balanced : Nat → List Char → Bool
  | inner, [] => inner == 0
  | inner, c :: cs =>
    if c = '\x7b' then balanced (inner + 1) cs
    else if c = '\x7d' then
      match inner with
      | 0 => false
      | inner + 1 => balanced inner cs
    else balanced inner cs

variable {a : Allowance} {st : State}

/-- Balanced literal text is taken to its end. -/
theorem run_raw {cs : List Char} {inner : Nat} (h : balanced inner cs = true)
    (text tail : List Char) :
    run a (st.withMode (.raw text inner)) (cs ++ tail) =
      run a (st.withMode (.raw (cs.reverse ++ text) 0)) tail := by
  induction cs generalizing inner text with
  | nil =>
    rw [balanced, beq_iff_eq] at h
    rw [h]
    rfl
  | cons c cs ih =>
    have hstep : ∀ mode, Move.raw text inner c = mode →
        run a (st.withMode (.raw text inner)) (c :: cs ++ tail) =
          run a (st.withMode mode) (cs ++ tail) := by
      rintro mode rfl
      refine run_step rfl ?_ _
      rw [consume_eq]
      rfl
    rw [List.reverse_cons, List.append_assoc]
    unfold balanced at h
    split at h
    next hopen =>
      rw [hstep (.raw (c :: text) (inner + 1)) (by unfold Move.raw; rw [if_pos hopen])]
      exact ih h (c :: text)
    next hopen =>
      split at h
      next hclose =>
        cases inner with
        | zero => cases h
        | succ inner =>
          rw [hstep (.raw (c :: text) inner) (by unfold Move.raw; rw [if_neg hopen, if_pos hclose])]
          exact ih h (c :: text)
      next hclose =>
        rw [hstep (.raw (c :: text) inner) (by unfold Move.raw; rw [if_neg hopen, if_neg hclose])]
        exact ih h (c :: text)

/-- Literal text ends at the brace that closes the one before it. -/
theorem run_raw_close {text : List Char} (h : text ≠ []) (tail : List Char) :
    run a (st.withMode (.raw text 0)) ('\x7d' :: tail) =
      run a (st.withMode (.finished (.text (String.ofList text.reverse)))) tail := by
  refine run_step rfl ?_ tail
  rw [consume_eq]
  have hresult : Move.raw text 0 '\x7d' = .finished (.text (String.ofList text.reverse)) := by
    have hempty : text.isEmpty = false := by simpa using h
    unfold Move.raw
    rw [if_neg (by decide), if_pos rfl]
    simp only [rawResult, hempty, Bool.false_eq_true, if_false]
  exact congrArg (fun mode => Except.ok (st.withMode mode)) hresult

/-! ## Numbers and commands -/

/-- Digits and points go on with a number. -/
theorem reach_digits {cs : List Char} (h : ∀ c ∈ cs, (c.isDigit || c == '.') = true)
    (digits : List Char) :
    reach a (st.withMode (.number digits)) cs =
      .ok (st.withMode (.number (cs.reverse ++ digits))) := by
  induction cs generalizing digits with
  | nil => rfl
  | cons c cs ih =>
    rw [List.forall_mem_cons] at h
    have hresolve : resolve a (st.withMode (.number digits)) (some c) =
        .ok (st.withMode (.number digits)) := by
      simp [resolve, State.withMode, h.1]
    refine reach_cons_eq_ok_iff.2 ⟨_, st.withMode (.number (c :: digits)), hresolve, rfl, ?_⟩
    rw [ih h.2, List.reverse_cons, List.append_assoc]
    rfl

/-- Letters after a backslash are the name of a command. -/
theorem run_name (hready : st.mode = .ready) {name : String}
    (hname : name.toList.all Char.isAlpha = true) (tail : List Char) :
    run a st ('\\' :: (name.toList ++ tail)) =
      run a (st.withMode (.command name.toList.reverse)) tail := by
  have hreach := reach_letters (a := a) st (List.all_eq_true.1 hname) []
  rw [List.append_nil] at hreach
  rw [run_step (inert_backslash.resolve_ready hready) (consume_backslash hready)]
  exact run_append hreach

theorem resolveCommand_withMode (mode : Mode) (next : Option Char) (command : Command) :
    resolveCommand a (st.withMode mode) next command = resolveCommand a st next command := by
  cases command with
  | sizing => simp only [resolveCommand, deliverNothing_withMode]; rfl
  | space => simp only [resolveCommand, deliverNothing_withMode]
  | _ => rfl

/-- A command goes on as a state that reacts to the character after it alike. -/
theorem run_command (hready : st.mode = .ready) {name : String} (hne : name ≠ "")
    (hname : name.toList.all Char.isAlpha = true) {c : Char} (hc : c.isAlpha = false) {st' : State}
    (h : resolveCommand a st (some c) (.ofName name) = resolve a st' (some c)) (tail : List Char) :
    run a st ('\\' :: (name.toList ++ c :: tail)) = run a st' (c :: tail) := by
  rw [run_name hready hname]
  refine run_congr ?_ tail
  have hreverse : name.toList.reverse ≠ [] := by simpa using hne
  obtain ⟨d, letters, hletters⟩ := List.exists_cons_of_ne_nil hreverse
  have hresolve : resolve a (st.withMode (.command (d :: letters))) (some c) =
      resolveCommand a (st.withMode (.command (d :: letters))) (some c)
        (.ofName (String.ofList (d :: letters).reverse)) := by
    simp [resolve, State.withMode, hc]
  rw [hletters, hresolve, ← hletters, List.reverse_reverse, String.ofList_toList,
    resolveCommand_withMode, h]

/-! ## Leaves between braces -/

theorem ofName_of_greekLetter {name : String} {c : Char} (h : greekLetter? name = some c) :
    name ≠ "" ∧ name.toList.all Char.isAlpha = true ∧
      Command.ofName name = .leaf (.greek c) := by
  have hall : ∀ entry ∈ greekLetters, entry.1 ≠ "" ∧ entry.1.toList.all Char.isAlpha = true ∧
      Command.ofName entry.1 = .leaf (.greek entry.2) := by
    decide +kernel
  exact hall _ (mem_greekLetters h)

theorem ofName_of_isFunctionName {name : String} (h : isFunctionName name = true) :
    name ≠ "" ∧ name.toList.all Char.isAlpha = true ∧
      Command.ofName name = .leaf (.function name) := by
  have hall : ∀ name ∈ functionNames, name ≠ "" ∧ name.toList.all Char.isAlpha = true ∧
      Command.ofName name = .leaf (.function name) := by
    decide +kernel
  exact hall _ (List.contains_iff_mem.1 h)

theorem ofName_of_substitution {name : String} {c : Char}
    (h : substitution? name = some (.operator c)) :
    name ≠ "" ∧ name.toList.all Char.isAlpha = true ∧
      Command.ofName name = .leaf (.operator c) := by
  have hall : ∀ entry ∈ substitutions, entry.1 ≠ "" ∧ entry.1.toList.all Char.isAlpha = true ∧
      Command.structural.lookup entry.1 = none ∧ greekLetter? entry.1 = none ∧
      isFunctionName entry.1 = false := by
    decide +kernel
  obtain ⟨hne, halpha, hstructural, hgreek, hfunction⟩ := hall _ (mem_substitutions h)
  refine ⟨hne, halpha, ?_⟩
  simp only at hstructural hgreek hfunction
  rw [Command.ofName, hstructural, Command.leafOfName, hgreek, hfunction, h]
  rfl

section

variable {items xs : Array Formula} {frames : List Frame}

/-- In a sequence that does not close here a part begins. -/
theorem consume_primary {closer : Closer} {c : Char} (hspace : isWhiteSpace c = false)
    (hclose : closer.char ≠ c) :
    consume a ⟨items, .sequence closer xs :: frames, .ready⟩ c =
      (Move.primary c).perform a ⟨items, .sequence closer xs :: frames, .ready⟩ := by
  have hmove : Move.of ⟨items, .sequence closer xs :: frames, .ready⟩ c = Move.primary c := by
    show (if isWhiteSpace c then _ else if closer.char = c then _ else _) = _
    rw [hspace, if_neg Bool.false_ne_true, if_neg hclose]
  rw [consume_eq, hmove]

theorem run_turn {closer : Closer} {c : Char} {mode : Mode} (hspace : isWhiteSpace c = false)
    (hclose : closer.char ≠ c) (hprimary : Move.primary c = .turn mode) (tail : List Char) :
    run a ⟨items, .sequence closer xs :: frames, .ready⟩ (c :: tail) =
      run a ⟨items, .sequence closer xs :: frames, mode⟩ tail := by
  have hconsume := @consume_primary a items xs frames closer c hspace hclose
  rw [hprimary] at hconsume
  exact run_step rfl hconsume tail

/-- The brace after a number ends it. -/
theorem run_number {digits : String} (hne : digits ≠ "")
    (hall : ∀ c ∈ digits.toList, c.isDigit ∨ c = '.') (tail : List Char) :
    run a ⟨items, .sequence .brace xs :: frames, .ready⟩ (digits.toList ++ '\x7d' :: tail) =
      run a ⟨items, .sequence .brace xs :: frames, .finished (.number digits)⟩
        ('\x7d' :: tail) := by
  obtain ⟨c, cs, hcs⟩ : ∃ c cs, digits.toList = c :: cs :=
    List.exists_cons_of_ne_nil (by simpa using hne)
  have hdigits : String.ofList (cs.reverse ++ [c]).reverse = digits := by
    simp [← hcs]
  rw [hcs, List.forall_mem_cons] at hall
  have hclose : Closer.brace.char ≠ c := (ne_of_digit hall.1 (by decide)).symm
  have hnumeric : ∀ d ∈ cs, (d.isDigit || d == '.') = true := by simpa using hall.2
  have hreach := @reach_digits a ⟨items, .sequence .brace xs :: frames, .ready⟩ cs hnumeric [c]
  rw [hcs, List.cons_append,
    run_turn (isWhiteSpace_of_digit hall.1) hclose (primary_of_digit hall.1)]
  refine (run_append hreach).trans (run_congr ?_ tail)
  rw [← hdigits]
  rfl

theorem run_alphabetic {c : Char} (h : isAlphabetic c = true) (tail : List Char) :
    run a ⟨items, .sequence .brace xs :: frames, .ready⟩ (c :: tail) =
      run a ⟨items, .sequence .brace xs :: frames, .finished (.letter c)⟩ tail := by
  have hclose : Closer.brace.char ≠ c := by
    rintro rfl
    exact absurd h (by decide)
  exact run_turn (isWhiteSpace_of_isAlphabetic h) hclose (primary_of_isAlphabetic h) _

/-- Literal text is taken up to the brace that closes the one of its command. -/
theorem run_text {s : String} (hne : s ≠ "") (hbalanced : balanced 0 s.toList = true)
    (tail : List Char) :
    run a ⟨items, frames, .ready⟩ ("\\text\x7b".toList ++ (s.toList ++ ['\x7d']) ++ tail) =
      run a ⟨items, frames, .finished (.text s)⟩ tail := by
  have hlist : "\\text\x7b".toList ++ (s.toList ++ ['\x7d']) ++ tail =
      '\\' :: ("text".toList ++ '\x7b' :: (s.toList ++ '\x7d' :: tail)) := by
    simp
  have hstart : run a ⟨items, frames, .ready⟩
      ('\\' :: ("text".toList ++ '\x7b' :: (s.toList ++ '\x7d' :: tail))) =
      run a ⟨items, frames, .rawStart "text"⟩ ('\x7b' :: (s.toList ++ '\x7d' :: tail)) :=
    run_command rfl (by decide) (by decide) (by decide) rfl _
  have hraw := @run_raw a ⟨items, frames, .ready⟩ s.toList 0 hbalanced [] ('\x7d' :: tail)
  have hreverse : s.toList.reverse ++ [] ≠ [] := by simpa using hne
  have hend := @run_raw_close a ⟨items, frames, .ready⟩ _ hreverse tail
  rw [hlist, hstart, run_step rfl rfl]
  refine (hraw.trans hend).trans ?_
  rw [List.append_nil, List.reverse_reverse, String.ofList_toList]
  rfl

/-- A leaf is read back before the brace that closes around it. -/
theorem run_leaf {l : Leaf} (hl : l.Legible)
    (hbalanced : ∀ s, l = .text s → balanced 0 s.toList = true) {cs : List Char}
    (hw : l.Written cs) (tail : List Char) :
    run a ⟨items, .sequence .brace xs :: frames, .ready⟩ (cs ++ '\x7d' :: tail) =
      run a ⟨items, .sequence .brace xs :: frames, .finished (.leaf l)⟩ ('\x7d' :: tail) := by
  have hcommand : ∀ {name : String}, name ≠ "" ∧ name.toList.all Char.isAlpha = true ∧
      Command.ofName name = .leaf l →
      run a ⟨items, .sequence .brace xs :: frames, .ready⟩
          ('\\' :: (name.toList ++ '\x7d' :: tail)) =
        run a ⟨items, .sequence .brace xs :: frames, .finished (.leaf l)⟩ ('\x7d' :: tail) := by
    rintro name ⟨hne, halpha, hname⟩
    refine run_command rfl hne halpha (by decide) ?_ tail
    rw [hname]
    rfl
  cases hw with
  | number digits => exact run_number hl.1 hl.2 tail
  | letter c => exact run_alphabetic hl _
  | sign h =>
    obtain ⟨hspace, hclose, hprimary⟩ := primary_of_sign h
    exact run_turn hspace hclose hprimary _
  | operator h => exact hcommand (ofName_of_substitution h)
  | greek h => exact hcommand (ofName_of_greekLetter h)
  | function name => exact hcommand (ofName_of_isFunctionName hl)
  | text s => exact run_text hl (hbalanced s rfl) _

end

end Latex

end FormulaDrawing
