import FormulaDrawing.Proofs.Latex.Descent

/-!
# Sequences without their closing characters

The end of the text closes every sequence, so the closing characters that are missing there can be
written out, innermost first, and the formula stays the same (`parse_append_closing`).

The end of the text and the closing character of a sequence around it call for the same reaction of
a state (`State.AlikeAtClose`): either completes what is pending and shows that arguments are
missing. In literal text and after a backslash that is not so; there a closing character would be
text.
-/

namespace FormulaDrawing.Latex

variable {a : Allowance} {st st' : State} {items : Array Formula} {frames : List Frame}
  {next : Option Char}

/-! ## What is to be closed -/

/-- The closing characters of the sequences in frames, innermost first. -/
def closers : List Frame → List Char
  | [] => []
  | .sequence closer _ :: frames => closer.char :: closers frames
  | .argument _ :: frames => closers frames

/-- The closing character that is missing. -/
def Cut.closing : Cut → List Char
  | .closer c => [c.char]
  | _ => []

theorem closing_frameCuts (begun : Bool) (frames : List Frame) :
    (frameCuts begun frames).flatMap Cut.closing = closers frames := by
  induction frames generalizing begun with
  | nil => rfl
  | cons frame frames ih =>
    cases frame with
    | sequence closer xs =>
      rw [frameCuts, closers, List.flatMap_cons, List.flatMap_append, ih]
      cases closer <;> rfl
    | argument slot =>
      rw [frameCuts, closers, List.flatMap_append, List.flatMap_append, ih]
      cases begun <;> cases slot <;> rfl

/-- The end of the text cuts off the closing characters of the frames. -/
theorem closing_cuts (st : State) : st.cuts.flatMap Cut.closing = closers st.frames := by
  have hmode : ∀ mode : Mode, mode.cuts.flatMap Cut.closing = [] := by
    intro mode
    unfold Mode.cuts
    split <;> rfl
  rw [State.cuts, List.flatMap_append, hmode, List.nil_append]
  unfold Reaction.cuts
  split <;> exact closing_frameCuts _ _

/-! ## Reacting to a closing character -/

theorem closesAny_closers (frames : List Frame) :
    closesAny frames (closers frames).head? = true := by
  induction frames with
  | nil => rfl
  | cons frame frames ih =>
    cases frame with
    | sequence closer xs => simp [closers, closesAny]
    | argument slot => rw [closesAny_argument, closers, ih]

/-- What closes a sequence is the end of the text or a closing character. -/
theorem eq_closer_of_closesAny {c : Char} (h : closesAny frames (some c) = true) :
    ∃ closer : Closer, c = closer.char := by
  by_contra hne
  push Not at hne
  rw [closesAny_eq_false fun closer => (hne closer).symm] at h
  cases h

/-- Whether a lookahead goes on with nothing that stands before it: with no name and no number, and
not after a command as white space, an index, a limit or the brace of literal text. -/
def breaksOff (next : Option Char) : Bool :=
  !next.any fun c => c.isAlpha || c.isDigit || c == '.' || Unicode.isWhiteSpace c ||
    c == '[' || c == '_' || c == '^' || c == '\x7b'

theorem breaksOff_of_closesAny (h : closesAny frames next = true) : breaksOff next = true := by
  cases next with
  | none => rfl
  | some c =>
    obtain ⟨closer, rfl⟩ := eq_closer_of_closesAny h
    cases closer <;> decide

theorem awaitsLimit_of_breaksOff (h : breaksOff next = true) (lower upper : Option Formula) :
    awaitsLimit lower upper next = false := by
  cases next with
  | none => rfl
  | some c =>
    simp only [breaksOff, Option.any_some, Bool.not_eq_true', Bool.or_eq_false_iff] at h
    simp [awaitsLimit, h]

/-- A command reacts to such a lookahead as it does to the end of the text. -/
theorem Reaction.ofCommand_of_breaksOff (h : breaksOff next = true) (command : Command) :
    Reaction.ofCommand next command = Reaction.ofCommand none command := by
  have hawait := awaitsLimit_of_breaksOff h none none
  cases next with
  | none => rfl
  | some c =>
    simp only [breaksOff, Option.any_some, Bool.not_eq_true', Bool.or_eq_false_iff,
      beq_eq_false_iff_ne] at h
    cases command with
    | bigOperator op =>
      simp only [Reaction.ofCommand, hawait]
      rfl
    | root | limit | sizing | rawText name => simp [Reaction.ofCommand, Reaction.ofRoot, h]
    | fraction | space | leaf leaf => rfl

/-- So does every mode but those that any character is text for. -/
theorem Reaction.of_of_breaksOff {mode : Mode} (h : breaksOff next = true)
    (hmode : mode.cuts = []) : Reaction.of mode next = Reaction.of mode none := by
  cases mode with
  | ready | finished | skipped => rfl
  | number digits =>
    cases next with
    | none => rfl
    | some c =>
      simp only [breaksOff, Option.any_some, Bool.not_eq_true', Bool.or_eq_false_iff] at h
      simp [Reaction.of, h]
  | command name =>
    cases name with
    | nil => cases hmode
    | cons d name =>
      have halpha : next.any Char.isAlpha = false := by
        cases next with
        | none => rfl
        | some c =>
          simp only [breaksOff, Option.any_some, Bool.not_eq_true', Bool.or_eq_false_iff] at h
          simp [h]
      simp only [Reaction.of, halpha, Option.any_none, Bool.false_eq_true, if_false]
      exact Reaction.ofCommand_of_breaksOff h _
  | limits op lower upper =>
    simp only [Reaction.of, awaitsLimit_of_breaksOff h]
    rfl
  | radical => exact Reaction.ofCommand_of_breaksOff h .root
  | limit => exact Reaction.ofCommand_of_breaksOff h .limit
  | sizing => exact Reaction.ofCommand_of_breaksOff h .sizing
  | rawStart name => exact Reaction.ofCommand_of_breaksOff h (.rawText name)
  | raw text inner => cases hmode

/-- So a state resolves before such a lookahead as its mode has it at the end of the text. -/
theorem resolve_of_breaksOff (h : breaksOff next = true) (hmode : st.mode.cuts = []) :
    resolve a st next = (Reaction.of st.mode none).perform a st next := by
  rw [resolve_eq, Reaction.of_of_breaksOff h hmode]

/-- At the end of the text nothing waits on. -/
theorem Reaction.of_none_ne (mode : Mode) :
    Reaction.of mode none ≠ .stay ∧ ∀ mode', Reaction.of mode none ≠ .wait mode' := by
  have hcommand : ∀ command, Reaction.ofCommand none command ≠ .stay ∧
      ∀ mode', Reaction.ofCommand none command ≠ .wait mode' := by
    intro command
    cases command <;> refine ⟨?_, fun mode' => ?_⟩ <;> intro h <;> cases h
  cases mode with
  | command name =>
    cases name with
    | nil => refine ⟨?_, fun mode' => ?_⟩ <;> intro h <;> cases h
    | cons c name => exact hcommand _
  | limit => exact hcommand .limit
  | sizing => exact hcommand .sizing
  | rawStart name => exact hcommand (.rawText name)
  | raw text inner =>
    simp only [Reaction.of, Reaction.ofRaw, Option.isSome_none, Bool.false_eq_true, if_false]
    split <;> refine ⟨?_, fun mode' => ?_⟩ <;> intro h <;> cases h
  | _ => refine ⟨?_, fun mode' => ?_⟩ <;> intro h <;> cases h

/-! ## States alike at a close -/

/-- Both states react alike to what closes a sequence of `frames`. -/
def State.AlikeAtClose (a : Allowance) (frames : List Frame) (st st' : State) : Prop :=
  ∀ next, closesAny frames next = true → resolve a st next = resolve a st' next

theorem State.AlikeAtClose.run_nil (h : State.AlikeAtClose a frames st st') :
    run a st [] = run a st' [] := by
  rw [run, run, h none rfl]

theorem State.AlikeAtClose.run_closers (h : State.AlikeAtClose a frames st st') :
    run a st (closers frames) = run a st' (closers frames) := by
  have hhead := h _ (closesAny_closers frames)
  cases hcs : closers frames with
  | nil => exact h.run_nil
  | cons c cs =>
    rw [hcs] at hhead
    exact run_congr hhead cs

/-- An argument in front of a closing character completes its structure. -/
theorem alikeAtClose_argument (slot : Slot) (x : Formula) :
    State.AlikeAtClose a frames ⟨items, .argument slot :: frames, .finished x⟩
      ⟨items, frames, .finished (slot.fill x)⟩ := by
  intro next hnext
  have hawait := awaitsLimit_of_breaksOff (breaksOff_of_closesAny hnext)
  cases slot with
  | numerator => simp [resolve, State.deliver, deliver, hnext, Slot.fill]
  | lowerLimit op upper => simp [resolve, State.deliver, deliver, hawait, Slot.fill]
  | upperLimit op lower => simp [resolve, State.deliver, deliver, hawait, Slot.fill]
  | _ => rfl

/-- An argument is missing there. -/
theorem alikeAtClose_missing (slot : Slot) :
    State.AlikeAtClose a frames ⟨items, .argument slot :: frames, .ready⟩
      ⟨items, .argument slot :: frames, .finished .missing⟩ :=
  fun _ => resolve_missing slot

/-- A sequence that has closed is complete; so is the root that an index belongs to. -/
theorem alikeAtClose_closeSequence (closer : Closer) (xs : Array Formula) :
    State.AlikeAtClose a frames (closeSequence ⟨items, frames, .ready⟩ frames xs closer)
      ⟨items, frames, .finished (closer.complete xs.toList)⟩ := by
  intro next hnext
  cases closer with
  | bracket =>
    exact (alikeAtClose_missing _ next hnext).trans (alikeAtClose_argument _ .missing next hnext)
  | _ => rfl

/-! ## Closing what is open -/

/-- The end of the text closes a sequence. -/
theorem run_open_nil (closer : Closer) (xs : Array Formula) :
    run a ⟨items, .sequence closer xs :: frames, .ready⟩ [] =
      run a (closeSequence ⟨items, frames, .ready⟩ frames xs closer) [] := by
  rw [← ending_fst [], ending_close, ending_fst]

/-- After a part, the closing characters do what the end of the text does. -/
theorem run_closers_finished (frames : List Frame) (x : Formula) :
    run a ⟨items, frames, .finished x⟩ (closers frames) =
      run a ⟨items, frames, .finished x⟩ [] := by
  induction frames generalizing x with
  | nil => rfl
  | cons frame frames ih =>
    cases frame with
    | argument slot =>
      have halike := @alikeAtClose_argument a items frames slot x
      rw [closers, halike.run_closers, halike.run_nil, ih]
    | sequence closer xs =>
      have hclosed := @alikeAtClose_closeSequence a items frames closer (xs.push x)
      rw [closers, (alike_sequence closer x).run, (alike_sequence closer x).run, run_close,
        run_open_nil, hclosed.run_closers, hclosed.run_nil, ih]

/-- So they do between parts. -/
theorem run_closers_ready (frames : List Frame) :
    run a ⟨items, frames, .ready⟩ (closers frames) = run a ⟨items, frames, .ready⟩ [] := by
  cases frames with
  | nil => rfl
  | cons frame frames =>
    cases frame with
    | argument slot =>
      have halike := @alikeAtClose_missing a items frames slot
      have hfinished := @run_closers_finished a items (.argument slot :: frames) .missing
      rw [closers] at hfinished ⊢
      rw [halike.run_closers, halike.run_nil, hfinished]
    | sequence closer xs =>
      have hclosed := @alikeAtClose_closeSequence a items frames closer xs
      rw [closers, run_close, run_open_nil, hclosed.run_closers, hclosed.run_nil,
        run_closers_finished]

/-- A state whose run completes here is, for what closes a sequence, after a part or between
parts. -/
theorem exists_alikeAtClose {contents : List Formula} (hmode : st.mode.cuts = [])
    (hrun : run a st [] = .complete contents) :
    ∃ frames mode, (mode = .ready ∨ ∃ x, mode = .finished x) ∧
      closers frames = closers st.frames ∧
      State.AlikeAtClose a st.frames st ⟨st.items, frames, mode⟩ := by
  have hreact : ∀ next, closesAny st.frames next = true →
      resolve a st next = (Reaction.of st.mode none).perform a st next :=
    fun _ hnext => resolve_of_breaksOff (breaksOff_of_closesAny hnext) hmode
  obtain ⟨hstay, hwait⟩ := Reaction.of_none_ne st.mode
  obtain ⟨items, frames, mode⟩ := st
  cases hreaction : Reaction.of mode none with
  | stay => exact absurd hreaction hstay
  | wait mode' => exact absurd hreaction (hwait mode')
  | settle =>
    have hready : mode = .ready := Reaction.eq_ready_of_settle hreaction
    exact ⟨frames, mode, .inl hready, rfl, fun _ _ => rfl⟩
  | deliver x =>
    simp only [hreaction] at hreact
    exact ⟨frames, .finished x, .inr ⟨x, rfl⟩, rfl, hreact⟩
  | skip =>
    simp only [hreaction] at hreact
    match frames with
    | .argument slot :: frames =>
      exact ⟨.argument slot :: frames, .finished .missing, .inr ⟨.missing, rfl⟩, rfl, hreact⟩
    | .sequence closer xs :: frames =>
      exact ⟨.sequence closer xs :: frames, .ready, .inl rfl, rfl, hreact⟩
    | [] => exact ⟨[], .ready, .inl rfl, rfl, hreact⟩
  | argue slot =>
    simp only [hreaction] at hreact
    obtain ⟨st₁, hresolve, -⟩ := run_nil_eq_complete_iff.1 hrun
    rw [hreact none rfl] at hresolve
    obtain ⟨hroom, -⟩ := pushArgument_eq_ok_iff.1 hresolve
    refine ⟨.argument slot :: frames, .ready, .inl rfl, rfl, fun next hnext => ?_⟩
    rw [hreact next hnext]
    exact resolve_pushArgument hroom next slot

/-- What is open at the end of a run can be closed there. -/
theorem run_closers {contents : List Formula} (hmode : st.mode.cuts = [])
    (hrun : run a st [] = .complete contents) :
    run a st (closers st.frames) = .complete contents := by
  obtain ⟨frames, mode, hready, hclosers, halike⟩ := exists_alikeAtClose hmode hrun
  rw [halike.run_closers, ← hrun, halike.run_nil, ← hclosers]
  rcases hready with rfl | ⟨x, rfl⟩
  · exact run_closers_ready frames
  · exact run_closers_finished frames x

/-! ## Reading -/

/-- What the end of a source cuts off. -/
def cuts (source : String) (limit : Nat) : List Cut := ((Cursor.ofSource source).read limit).2.cuts

/-- The closing characters that are missing at the end of a source, innermost first. -/
def closing (source : String) (limit : Nat) : String :=
  String.ofList ((cuts source limit).flatMap Cut.closing)

/-- The end of a source cuts off what is open in the state that its run reaches. -/
theorem exists_reach_of_read {source : String} {limit : Nat} {t : Formula}
    (h : read source limit = .ok t) :
    ∃ st contents, reach ⟨0, limit⟩ .initial source.toList = .ok st ∧
      run ⟨0, limit⟩ st [] = .complete contents ∧ .equation contents = t ∧
      cuts source limit = st.cuts := by
  obtain ⟨contents, hrun, ht⟩ := read_eq_ok_iff.1 h
  rw [← List.append_nil source.toList] at hrun
  obtain ⟨st, hreach, hrun⟩ := exists_reach_of_run hrun
  refine ⟨st, contents, hreach, hrun, ht, ?_⟩
  obtain ⟨st₁, hresolve, -⟩ := run_nil_eq_complete_iff.1 hrun
  have hending : ending ⟨0, limit⟩ [] (.ok .initial) source.toList =
      ending ⟨0, limit⟩ [] (.ok st) [] := by
    rw [← List.append_nil source.toList]
    exact ending_of_reach hreach []
  rcases read_cases limit (p := Cursor.ofSource source) rfl with
    ⟨_, -, -, -, hcuts⟩ | ⟨_, -, hanswer⟩
  · refine hcuts.trans ((congrArg Prod.snd hending).trans ?_)
    rw [ending, hresolve]
    rfl
  · have hread := (read_eq limit (p := Cursor.ofSource source) rfl).1.symm.trans hanswer
    rw [show (Reader.mk (Cursor.ofSource source).rest (Cursor.ofSource source).depth limit).read.1 =
      read source limit from rfl, h] at hread
    cases hread

/-- Unless a closing character would be text, a source with its missing closing characters is
read to the same formula. -/
theorem read_append_closing {source : String} {limit : Nat} {t : Formula}
    (h : read source limit = .ok t) (hraw : .rawText ∉ cuts source limit)
    (hcommand : .command ∉ cuts source limit) :
    read (source ++ closing source limit) limit = .ok t := by
  obtain ⟨st, contents, hreach, hrun, ht, hcuts⟩ := exists_reach_of_read h
  have hmode : st.mode.cuts = [] := by
    rw [hcuts, State.cuts, List.mem_append] at hraw hcommand
    obtain ⟨items, frames, mode⟩ := st
    cases mode with
    | raw text inner => exact absurd (.inl (List.mem_singleton_self _)) hraw
    | command name =>
      cases name with
      | nil => exact absurd (.inl (List.mem_singleton_self _)) hcommand
      | cons c name => rfl
    | _ => rfl
  have hclosing : (closing source limit).toList = closers st.frames := by
    rw [closing, String.toList_ofList, hcuts, closing_cuts]
  refine read_eq_ok_iff.2 ⟨contents, ?_, ht⟩
  rw [String.toList_append, hclosing, run_append hreach]
  exact run_closers hmode hrun

/-- Unclosed sequences mean the same as closed ones. -/
theorem parse_append_closing {source : String} {limit : Nat} {t : Formula}
    (h : read source limit = .ok t) (hraw : .rawText ∉ cuts source limit)
    (hcommand : .command ∉ cuts source limit) :
    parse (source ++ closing source limit) limit = parse source limit := by
  rw [parse_of_read h, parse_of_read (read_append_closing h hraw hcommand)]

/-- A numerator in bars, neither of them closed, without a denominator. -/
theorem parse_append_closing_fraction :
    closing "|\\frac\x7b1" 3 = "\x7d|" ∧
      parse ("|\\frac\x7b1" ++ closing "|\\frac\x7b1" 3) 3 = parse "|\\frac\x7b1" 3 := by
  obtain ⟨t, hread⟩ : ∃ t, read "|\\frac\x7b1" 3 = .ok t := ⟨_, rfl⟩
  exact ⟨by decide +kernel, parse_append_closing hread (by decide +kernel) (by decide +kernel)⟩

end FormulaDrawing.Latex
