import FormulaDrawing.Proofs.Latex.Unclosed

/-!
# Fragments one after the other

A source whose end cuts nothing off is a complete fragment: what is still pending there is put in
its place, whatever character comes next, if only that character goes on with nothing. So the
machine is back at the root, and a text that follows is read there as if it began:

    run a (st.after xs) cs = (run a st cs).after xs.toList          (run_after)

since no step looks at the items that the root already has.
-/

namespace FormulaDrawing.Latex

variable {a : Allowance} {st : State} {frames : List Frame} {next : Option Char}

/-! ## More items at the root -/

/-- The same state after more items of the root. -/
def State.after (st : State) (xs : Array Formula) : State := { st with items := xs ++ st.items }

def Outcome.after (xs : List Formula) : Outcome → Outcome
  | .complete items => .complete (xs ++ items)
  | .tooDeep depth rest => .tooDeep depth rest

theorem Outcome.after_eq_complete_iff {xs all : List Formula} {outcome : Outcome} :
    outcome.after xs = .complete all ↔ ∃ items, outcome = .complete items ∧ all = xs ++ items := by
  cases outcome with
  | complete items => simp [Outcome.after, eq_comm]
  | tooDeep depth rest => simp [Outcome.after]

theorem deliver_after (xs items : Array Formula) (x : Formula) (frames : List Frame) :
    deliver next (xs ++ items) x frames = (deliver next items x frames).after xs := by
  fun_induction deliver next items x frames with
  | case1 x => rw [deliver, State.after, Array.push_append]
  | case2 x closer ys frames => rw [deliver, State.after]
  | case3 x frames hclose ih => rw [deliver, if_pos hclose, ih]
  | case4 x frames hclose => rw [deliver, if_neg hclose, State.after]
  | case5 x frames op upper hawait => rw [deliver, if_pos hawait, State.after]
  | case6 x frames op upper hawait ih => rw [deliver, if_neg hawait, ih]
  | case7 x frames op lower hawait => rw [deliver, if_pos hawait, State.after]
  | case8 x frames op lower hawait ih => rw [deliver, if_neg hawait, ih]
  | case9 x frames slot hnumerator hlower hupper ih =>
    rw [deliver]
    · exact ih
    · exact hnumerator
    · exact hlower
    · exact hupper

theorem settle_after (st : State) (xs : Array Formula) (next : Option Char) :
    (st.after xs).settle next = (st.settle next).after xs := by
  obtain ⟨items, _ | ⟨_ | slot, frames⟩, mode⟩ := st
  · rfl
  · rfl
  · show (if closesAny (.argument slot :: frames) next then _ else _) =
      State.after (if closesAny (.argument slot :: frames) next then _ else _) xs
    by_cases hclose : closesAny (.argument slot :: frames) next = true
    · rw [if_pos hclose, if_pos hclose]
      exact deliver_after xs items .missing _
    · rw [if_neg hclose, if_neg hclose]

theorem deliverNothing_after (st : State) (xs : Array Formula) (next : Option Char) :
    (st.after xs).deliverNothing next = (st.deliverNothing next).after xs := by
  obtain ⟨items, _ | ⟨_ | slot, frames⟩, mode⟩ := st
  · rfl
  · rfl
  · exact deliver_after xs items .missing _

theorem push_after (st : State) (xs : Array Formula) (frame : Frame) :
    push a (st.after xs) frame = (push a st frame).map (·.after xs) := by
  show (if a.limit < a.used + st.frames.length + 1 then _ else _) = _
  unfold push
  simp only
  split <;> rfl

theorem resolve_after (st : State) (xs : Array Formula) (next : Option Char) :
    resolve a (st.after xs) next = (resolve a st next).map (·.after xs) := by
  rw [resolve_eq, resolve_eq]
  show (Reaction.of st.mode next).perform a (st.after xs) next = _
  cases Reaction.of st.mode next with
  | stay | wait mode => rfl
  | settle => exact congrArg Except.ok (settle_after st xs next)
  | deliver x => exact congrArg Except.ok (deliver_after xs st.items x st.frames)
  | skip => exact congrArg Except.ok (deliverNothing_after st xs next)
  | argue slot =>
    show pushArgument a (st.after xs) next slot = (pushArgument a st next slot).map _
    rw [pushArgument, pushArgument, push_after]
    cases push a st (.argument slot) with
    | error depth => rfl
    | ok st' => exact congrArg Except.ok (settle_after st' xs next)

theorem consume_after (st : State) (xs : Array Formula) (c : Char) :
    consume a (st.after xs) c = (consume a st c).map (·.after xs) := by
  rw [consume_eq, consume_eq]
  show (Move.of st c).perform a (st.after xs) = _
  cases Move.of st c with
  | turn mode => rfl
  | push frame => exact push_after st xs frame
  | close closer items frames => cases closer <;> rfl

theorem finish_after (xs items : Array Formula) (pending : Option Formula) (frames : List Frame) :
    finish (xs ++ items) pending frames = xs ++ finish items pending frames := by
  induction frames generalizing pending with
  | nil => cases pending <;> simp [finish]
  | cons frame frames ih =>
    cases frame with
    | argument slot => cases pending <;> exact ih _
    | sequence closer ys => cases pending <;> exact ih _

/-- What the root already has stays in front of what is read. -/
theorem run_after (st : State) (xs : Array Formula) (cs : List Char) :
    run a (st.after xs) cs = (run a st cs).after xs.toList := by
  induction cs generalizing st with
  | nil =>
    rw [run, run, resolve_after]
    cases resolve a st none with
    | error depth => rfl
    | ok st' =>
      show Outcome.complete (finish (xs ++ st'.items) none st'.frames).toList = _
      rw [finish_after, Array.toList_append]
      rfl
  | cons c cs ih =>
    rw [run, run, resolve_after]
    cases resolve a st (some c) with
    | error depth => rfl
    | ok st₁ =>
      simp only [Except.map]
      rw [consume_after]
      cases consume a st₁ c with
      | error depth => rfl
      | ok st₂ => exact ih st₂

/-! ## Where nothing is cut off -/

/-- Arguments that are all complete with what is pending are put in their place. -/
theorem deliver_of_frameCuts (h : frameCuts true frames = []) (hnext : breaksOff next = true)
    (items : Array Formula) (x : Formula) :
    deliver next items x frames = ⟨finish items (some x) frames, [], .ready⟩ := by
  have hawait := awaitsLimit_of_breaksOff hnext
  induction frames generalizing x with
  | nil => rfl
  | cons frame frames ih =>
    cases frame with
    | sequence closer xs => cases h
    | argument slot =>
      obtain ⟨-, h⟩ := List.append_eq_nil_iff.1 h
      obtain ⟨hslot, hframes⟩ := List.append_eq_nil_iff.1 h
      cases slot with
      | numerator => cases hslot
      | lowerLimit op upper | upperLimit op lower =>
        rw [deliver, hawait, if_neg Bool.false_ne_true]
        exact ih hframes _
      | script side | denominator n | radicand index | approach =>
        rw [deliver]
        · exact ih hframes _
        all_goals simp

/-- Where the end of the text cuts nothing off, the machine comes back to the root, at whatever
goes on with nothing. -/
theorem exists_resolve_of_cuts (a : Allowance) (h : st.cuts = []) :
    ∃ items, ∀ next, breaksOff next = true → resolve a st next = .ok ⟨items, [], .ready⟩ := by
  obtain ⟨hmode, hframes⟩ := List.append_eq_nil_iff.1 h
  have hreact : ∀ next, breaksOff next = true →
      resolve a st next = (Reaction.of st.mode none).perform a st next :=
    fun _ hnext => resolve_of_breaksOff hnext hmode
  obtain ⟨hstay, hwait⟩ := Reaction.of_none_ne st.mode
  obtain ⟨items, frames, mode⟩ := st
  cases hreaction : Reaction.of mode none with
  | stay => exact absurd hreaction hstay
  | wait mode' => exact absurd hreaction (hwait mode')
  | settle =>
    obtain rfl : mode = .ready := Reaction.eq_ready_of_settle hreaction
    obtain _ | ⟨_ | _, frames⟩ := frames
    · exact ⟨items, fun _ _ => rfl⟩
    · cases hframes
    · cases hframes
  | deliver x =>
    simp only [hreaction] at hreact hframes
    refine ⟨finish items (some x) frames, fun next hnext => ?_⟩
    rw [hreact next hnext, Reaction.perform, State.deliver, deliver_of_frameCuts hframes hnext]
  | skip =>
    simp only [hreaction] at hreact hframes
    obtain _ | ⟨_ | slot, frames⟩ := frames
    · exact ⟨items, hreact⟩
    · cases hframes
    · -- white space where an argument is due leaves it missing
      refine ⟨finish items (some .missing) (.argument slot :: frames), fun next hnext => ?_⟩
      rw [hreact next hnext, Reaction.perform, State.deliverNothing, State.deliver,
        deliver_of_frameCuts hframes hnext]
  | argue slot =>
    rw [hreaction] at hframes
    cases hframes

/-! ## Sources -/

theorem toList_quad (u v : String) :
    (u ++ "\\quad " ++ v).toList = u.toList ++ ("\\quad".toList ++ [' '] ++ v.toList) := by
  simp

/-- A source whose end cuts nothing off is read alike before another one, a wide space between
them: the parts of both follow one another. -/
theorem read_append_quad {u v : String} {limit : Nat} {s t : Formula} (hu : read u limit = .ok s)
    (hv : read v limit = .ok t) (hcuts : cuts u limit = []) :
    read (u ++ "\\quad " ++ v) limit = .ok (.equation (s.children ++ t.children)) := by
  obtain ⟨st, contents, hreach, hrun, rfl, hst⟩ := exists_reach_of_read hu
  obtain ⟨more, hmore, rfl⟩ := read_eq_ok_iff.1 hv
  rw [hst] at hcuts
  obtain ⟨items, hresolve⟩ := exists_resolve_of_cuts ⟨0, limit⟩ hcuts
  have hcontents : items.toList = contents := by
    obtain ⟨st', hend, hfinish⟩ := run_nil_eq_complete_iff.1 hrun
    rw [hresolve none rfl] at hend
    cases hend
    exact hfinish
  -- the wide space is skipped at the root
  have hquad : reach ⟨0, limit⟩ st ("\\quad".toList ++ [' ']) =
      .ok (State.initial.after items) := by
    have hready := hresolve (some '\\') (by decide)
    rw [reach_inkFree (by decide) hready rfl]
    rfl
  refine read_eq_ok_iff.2 ⟨contents ++ more, ?_, rfl⟩
  rw [toList_quad, run_append hreach, run_append hquad, run_after, hmore, hcontents]
  rfl

/-- An operator at the end of one source takes no limit from the next. -/
theorem read_append_quad_limit :
    cuts "\\int_0" 1 = [] ∧
      read ("\\int_0" ++ "\\quad " ++ "^2") 1 =
        .ok (.equation [.bigOperator .integral (some (.number "0")) none,
          .script .superscript (.number "2")]) := by
  have hcuts : cuts "\\int_0" 1 = [] := by decide +kernel
  have hu : read "\\int_0" 1 = .ok (.equation [.bigOperator .integral (some (.number "0")) none]) :=
    rfl
  have hv : read "^2" 1 = .ok (.equation [.script .superscript (.number "2")]) := rfl
  exact ⟨hcuts, read_append_quad hu hv hcuts⟩

end FormulaDrawing.Latex
