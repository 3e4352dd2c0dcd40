import FormulaDrawing.Proofs.Latex.Completion
import FormulaDrawing.Proofs.Latex.InkFree

/-!
# Groups inside delimiters

A group between delimiters is read with one more frame at the bottom of the stack. Two runs over the
group are compared here, one above that frame and one without it. Steps keep to what is on top, with
one exception: a character that closes any frame cuts off an argument that is waited for, and the
frame of the delimiters counts there. So a lookahead leads

    st to st₁        and so        st.above base to st₁.over c base        (resolve_above)

where `over` cuts the argument off that the lone run goes on to wait for, and everywhere else is
`above`. If no argument in the group is ever waited for where the closing delimiter stands, the runs
stay side by side to the end. If one is, they part there for good: the lone run fills the argument
with a character or the content of bars, the other with an empty group, and what comes after cannot
make up for it (`Completes.ne_of_apart`).
-/

namespace FormulaDrawing

/-- The sequence between two delimiters. -/
def Delimiter.closer : Delimiter → Latex.Closer
  | .parentheses => .parenthesis
  | .bars => .bar

namespace Latex

variable {a a' : Allowance} {st st₁ st₂ : State} {base : List Frame} {c : Char}

/-! ## Inside one group -/

/-- The outermost frame is a braced group. -/
def Grouped (frames : List Frame) : Prop := ∃ fs xs, frames = fs ++ [.sequence .brace xs]

theorem not_grouped_nil : ¬ Grouped [] := by
  rintro ⟨fs, xs, h⟩
  simp at h

theorem grouped_cons_iff {frame : Frame} {frames : List Frame} :
    Grouped (frame :: frames) ↔
      Grouped frames ∨ frames = [] ∧ ∃ xs, frame = .sequence .brace xs := by
  constructor
  · rintro ⟨_ | ⟨f, fs⟩, xs, h⟩
    · cases h
      exact .inr ⟨rfl, xs, rfl⟩
    · cases h
      exact .inl ⟨fs, xs, rfl⟩
  · rintro (⟨fs, xs, rfl⟩ | ⟨rfl, xs, rfl⟩)
    · exact ⟨frame :: fs, xs, rfl⟩
    · exact ⟨[], xs, rfl⟩

theorem grouped_argument_iff {slot : Slot} {frames : List Frame} :
    Grouped (.argument slot :: frames) ↔ Grouped frames := by
  rw [grouped_cons_iff]
  simp

theorem Grouped.cons {frames : List Frame} (h : Grouped frames) (frame : Frame) :
    Grouped (frame :: frames) :=
  grouped_cons_iff.2 (.inl h)

/-- The machine is still inside the group that the text began with. -/
structure State.InGroup (st : State) : Prop where
  items_eq : st.items = #[]
  grouped : Grouped st.frames

theorem deliver_inGroup {next : Option Char} {items : Array Formula} {x : Formula}
    {frames : List Frame} (hitems : items = #[]) (h : Grouped frames) :
    (deliver next items x frames).InGroup := by
  fun_induction deliver next items x frames with
  | case1 => exact (not_grouped_nil h).elim
  | case2 x closer xs frames =>
    rcases grouped_cons_iff.1 h with h | ⟨rfl, ys, hframe⟩
    · exact ⟨hitems, h.cons _⟩
    · cases hframe
      exact ⟨hitems, [], _, rfl⟩
  | case4 x frames hclose => exact ⟨hitems, (grouped_argument_iff.1 h).cons _⟩
  | case5 x frames op upper hawait => exact ⟨hitems, grouped_argument_iff.1 h⟩
  | case7 x frames op lower hawait => exact ⟨hitems, grouped_argument_iff.1 h⟩
  | case3 x frames hclose ih => exact ih (grouped_argument_iff.1 h)
  | case6 x frames op upper hawait ih => exact ih (grouped_argument_iff.1 h)
  | case8 x frames op lower hawait ih => exact ih (grouped_argument_iff.1 h)
  | case9 x frames slot _ _ _ ih => exact ih (grouped_argument_iff.1 h)

theorem State.InGroup.settle (h : st.InGroup) (next : Option Char) : (st.settle next).InGroup := by
  unfold State.settle
  split
  · split
    · exact deliver_inGroup h.items_eq h.grouped
    · exact h
  · exact h

theorem State.InGroup.deliverNothing (h : st.InGroup) (next : Option Char) :
    (st.deliverNothing next).InGroup := by
  unfold State.deliverNothing
  split
  · exact deliver_inGroup h.items_eq h.grouped
  · exact ⟨h.items_eq, h.grouped⟩

theorem State.InGroup.resolve {next : Option Char} (h : st.InGroup)
    (hr : resolve a st next = .ok st₁) : st₁.InGroup := by
  cases resolves_of_ok hr with
  | stay => exact h
  | wait mode => exact ⟨h.items_eq, h.grouped⟩
  | settle => exact h.settle next
  | deliver x => exact deliver_inGroup h.items_eq h.grouped
  | skip => exact h.deliverNothing next
  | argue slot =>
    have hpushed : State.InGroup ⟨st.items, .argument slot :: st.frames, .ready⟩ :=
      ⟨h.items_eq, h.grouped.cons _⟩
    exact hpushed.settle next

/-- Inside the group a character leads on inside, or closes it. -/
theorem State.InGroup.consume (h : st.InGroup) (hc : consume a st c = .ok st₁) :
    st₁.InGroup ∨ ∃ g, st₁ = ⟨#[], [], .finished g⟩ := by
  cases consumes_of_ok hc with
  | turn mode => exact .inl ⟨h.items_eq, h.grouped⟩
  | push frame => exact .inl ⟨h.items_eq, h.grouped.cons _⟩
  | close closer xs frames hmove htop =>
    obtain ⟨hitems, hgrouped⟩ := h
    rw [htop] at hgrouped
    rcases grouped_cons_iff.1 hgrouped with hframes | ⟨rfl, ys, hframe⟩
    · left
      cases closer with
      | brace | parenthesis | bar => exact ⟨hitems, hframes⟩
      | bracket => exact ⟨hitems, hframes.cons _⟩
    · cases hframe
      right
      exact ⟨_, by rw [closeSequence, hitems]⟩

/-! ## The items of the root -/

theorem size_deliver (next : Option Char) (items : Array Formula) (x : Formula)
    (frames : List Frame) : items.size ≤ (deliver next items x frames).items.size := by
  fun_induction deliver next items x frames with
  | case1 x => simp
  | case2 | case4 | case5 | case7 => exact Nat.le_refl _
  | case3 x frames hclose ih => exact ih
  | case6 x frames op upper hawait ih => exact ih
  | case8 x frames op lower hawait ih => exact ih
  | case9 x frames slot _ _ _ ih => exact ih

theorem size_settle (st : State) (next : Option Char) :
    st.items.size ≤ (st.settle next).items.size := by
  unfold State.settle
  split
  · split
    · exact size_deliver _ _ _ _
    · exact Nat.le_refl _
  · exact Nat.le_refl _

theorem size_resolve {next : Option Char} (h : resolve a st next = .ok st₁) :
    st.items.size ≤ st₁.items.size := by
  cases resolves_of_ok h with
  | stay | wait mode => exact Nat.le_refl _
  | settle => exact size_settle st next
  | deliver x => exact size_deliver _ _ _ _
  | skip =>
    unfold State.deliverNothing
    split
    · exact size_deliver _ _ _ _
    · exact Nat.le_refl _
  | argue slot => exact size_settle ⟨st.items, .argument slot :: st.frames, .ready⟩ next

theorem size_consume (h : consume a st c = .ok st₁) : st₁.items.size = st.items.size := by
  cases consumes_of_ok h with
  | turn mode | push frame => rfl
  | close closer xs frames => cases closer <;> rfl

/-- The root loses no item. -/
theorem size_reach {cs : List Char} (h : reach a st cs = .ok st₁) :
    st.items.size ≤ st₁.items.size := by
  induction cs generalizing st with
  | nil => cases h; exact Nat.le_refl _
  | cons c cs ih =>
    obtain ⟨st₂, st₃, hr, hc, hreach⟩ := reach_cons_eq_ok_iff.1 h
    have hresolve := size_resolve hr
    have hconsume := size_consume hc
    have hrest := ih hreach
    omega

/-- After the group that the text began with, the root has an item. -/
theorem eq_nil_of_reach_finished {g : Formula} {cs : List Char}
    (h : reach a ⟨#[], [], .finished g⟩ cs = .ok st) (hitems : st.items = #[]) : cs = [] := by
  cases cs with
  | nil => rfl
  | cons c cs =>
    obtain ⟨st₁, st₂, hr, hc, hreach⟩ := reach_cons_eq_ok_iff.1 h
    cases hr
    have hconsume := size_consume hc
    have hrest := size_reach hreach
    rw [hconsume, hitems] at hrest
    cases hrest

/-! ## Steps above other frames -/

/-- The same state with more frames below. -/
def State.above (st : State) (base : List Frame) : State := ⟨st.items, st.frames ++ base, st.mode⟩

/-- Whether an argument is waited for between parts. -/
def State.awaits (st : State) : Bool :=
  match st.mode with
  | .ready => awaitsArgument st.frames
  | _ => false

theorem State.awaits_eq_false (h : st.mode ≠ .ready) : st.awaits = false := by
  unfold State.awaits
  split
  next hmode => exact absurd hmode h
  next => rfl

theorem closesAny_append (frames base : List Frame) (c : Char) :
    closesAny (frames ++ base) (some c) = (closesAny frames (some c) || closesAny base (some c)) :=
  List.any_append

/-- What a lookahead leaves above other frames: these cut an argument off that is waited for. -/
def State.over (st : State) (c : Char) (base : List Frame) : State :=
  if closesAny base (some c) && st.awaits then
    Latex.deliver (some c) st.items .missing (st.frames ++ base)
  else st.above base

theorem State.over_of_closesAny (h : closesAny base (some c) = false) :
    st.over c base = st.above base := by
  rw [State.over, h, Bool.false_and, if_neg Bool.false_ne_true]

theorem State.over_of_awaits (h : st.awaits = false) : st.over c base = st.above base := by
  rw [State.over, h, Bool.and_false, if_neg Bool.false_ne_true]

theorem deliver_above {items : Array Formula} {x : Formula} {frames : List Frame}
    (h : Grouped frames) :
    deliver (some c) items x (frames ++ base) = (deliver (some c) items x frames).over c base := by
  have hargument : ∀ {slot frames}, Grouped (.argument slot :: frames) → Grouped frames :=
    grouped_argument_iff.1
  fun_induction deliver (some c) items x frames with
  | case1 => exact (not_grouped_nil h).elim
  | case2 x closer xs frames =>
    rw [State.over_of_awaits rfl]
    rfl
  | case3 x frames hclose ih =>
    rw [List.cons_append, deliver, closesAny_append, hclose]
    exact ih (hargument h)
  | case4 x frames hclose =>
    -- the denominator is missing where the frames below close
    rw [Bool.not_eq_true] at hclose
    rw [List.cons_append, deliver, closesAny_append, hclose, Bool.false_or, State.over]
    cases closesAny base (some c) with
    | false => rfl
    | true =>
      simp only [State.awaits, awaitsArgument, Bool.and_self, if_true, List.cons_append]
      rw [deliver]
      · rfl
      all_goals simp
  | case5 x frames op upper hwait =>
    rw [List.cons_append, deliver, if_pos hwait, State.over_of_awaits rfl]
    rfl
  | case7 x frames op lower hwait =>
    rw [List.cons_append, deliver, if_pos hwait, State.over_of_awaits rfl]
    rfl
  | case6 x frames op upper hwait ih =>
    rw [List.cons_append, deliver, if_neg hwait]
    exact ih (hargument h)
  | case8 x frames op lower hwait ih =>
    rw [List.cons_append, deliver, if_neg hwait]
    exact ih (hargument h)
  | case9 x frames slot hnumerator hlower hupper ih =>
    rw [List.cons_append, deliver]
    · exact ih (hargument h)
    · exact hnumerator
    · exact hlower
    · exact hupper

theorem settle_above (h : st.InGroup) (hst : st.mode = .ready) :
    (st.above base).settle (some c) = (st.settle (some c)).over c base := by
  obtain ⟨items, _ | ⟨closer | slot, frames⟩, mode⟩ := st
  · exact (not_grouped_nil h.grouped).elim
  · have hmode : mode = .ready := hst
    subst hmode
    exact (State.over_of_awaits rfl).symm
  · have hmode : mode = .ready := hst
    subst hmode
    have happend := closesAny_append (.argument slot :: frames) base c
    show (if closesAny (.argument slot :: frames ++ base) (some c) = true then
        deliver (some c) items .missing (.argument slot :: frames ++ base) else _) =
      State.over (if closesAny (.argument slot :: frames) (some c) = true then
        deliver (some c) items .missing (.argument slot :: frames) else _) c base
    cases hcut : closesAny (.argument slot :: frames) (some c) with
    | true =>
      rw [hcut, Bool.true_or] at happend
      rw [if_pos happend, if_pos rfl]
      exact deliver_above h.grouped
    | false =>
      rw [hcut, Bool.false_or] at happend
      rw [happend, if_neg Bool.false_ne_true, State.over]
      cases closesAny base (some c) <;> rfl

theorem deliverNothing_above (h : st.InGroup) :
    (st.above base).deliverNothing (some c) = (st.deliverNothing (some c)).over c base := by
  obtain ⟨items, _ | ⟨⟨closer, xs⟩ | slot, frames⟩, mode⟩ := st
  · exact (not_grouped_nil h.grouped).elim
  · exact (@State.over_of_awaits ⟨items, .sequence closer xs :: frames, .ready⟩ base c rfl).symm
  · exact deliver_above h.grouped

theorem Reaction.of_ne_wait_ready (mode : Mode) (next : Option Char) :
    Reaction.of mode next ≠ .wait .ready := by
  cases mode with
  | _ =>
    simp only [Reaction.of, Reaction.ofCommand, Reaction.ofRoot, Reaction.ofRaw]
    repeat' split
    all_goals simp

/-- The allowance above other frames. -/
def Allowance.above (a : Allowance) (base : List Frame) : Allowance :=
  ⟨a.used + base.length, a.limit⟩

theorem push_above (st : State) (base : List Frame) (frame : Frame) :
    push a (st.above base) frame = (push (a.above base) st frame).map (·.above base) := by
  have hdepth : a.used + (st.above base).frames.length + 1 =
      (a.above base).used + st.frames.length + 1 := by
    simp only [State.above, Allowance.above, List.length_append]
    omega
  unfold push
  simp only [hdepth]
  show (if a.limit < _ then _ else _) = Except.map _ (if a.limit < _ then _ else _)
  split <;> rfl

/-- A lookahead above other frames is resolved as without them, and then these may cut off an
argument. -/
theorem resolve_above (h : st.InGroup) (base : List Frame) (c : Char) :
    resolve a (st.above base) (some c) =
      (resolve (a.above base) st (some c)).map (·.over c base) := by
  rw [resolve_eq, resolve_eq]
  -- the frames below change nothing about what the lookahead calls for
  show (Reaction.of st.mode (some c)).perform a (st.above base) (some c) = _
  cases hreaction : Reaction.of st.mode (some c) with
  | stay =>
    refine congrArg Except.ok (State.over_of_awaits (State.awaits_eq_false fun hready => ?_)).symm
    rw [hready] at hreaction
    cases hreaction
  | wait mode =>
    have hawaits : (st.withMode mode).awaits = false := by
      refine State.awaits_eq_false fun hready => ?_
      have hmode : mode = .ready := hready
      exact Reaction.of_ne_wait_ready _ _ (hmode ▸ hreaction)
    exact congrArg Except.ok (State.over_of_awaits hawaits).symm
  | settle => exact congrArg Except.ok (settle_above h (Reaction.eq_ready_of_settle hreaction))
  | deliver x => exact congrArg Except.ok (deliver_above h.grouped)
  | skip => exact congrArg Except.ok (deliverNothing_above h)
  | argue slot =>
    show pushArgument a (st.above base) (some c) slot =
      (pushArgument (a.above base) st (some c) slot).map _
    rw [pushArgument, pushArgument, push_above]
    cases hpush : push (a.above base) st (.argument slot) with
    | error depth => rfl
    | ok st₁ =>
      obtain ⟨-, rfl⟩ := push_eq_ok_iff.1 hpush
      have hpushed : State.InGroup ⟨st.items, .argument slot :: st.frames, .ready⟩ :=
        ⟨h.items_eq, h.grouped.cons _⟩
      exact congrArg Except.ok (settle_above hpushed rfl)

/-- A move above other frames. -/
def Move.above (base : List Frame) : Move → Move
  | .close closer items frames => .close closer items (frames ++ base)
  | move => move

theorem Move.above_primary (c : Char) : (Move.primary c).above base = Move.primary c := by
  unfold Move.primary
  repeat' split
  all_goals rfl

theorem Move.ready_above {frames : List Frame} (h : frames ≠ []) (mode : Mode) :
    Move.ready mode (frames ++ base) c = (Move.ready mode frames c).above base := by
  unfold Move.ready
  by_cases hspace : Unicode.isWhiteSpace c = true
  · rw [if_pos hspace, if_pos hspace]
    rfl
  · rw [if_neg hspace, if_neg hspace]
    obtain _ | ⟨⟨closer, xs⟩ | slot, frames⟩ := frames
    · exact absurd rfl h
    · show (if closer.char = c then _ else _) = Move.above base (if closer.char = c then _ else _)
      by_cases hclose : closer.char = c
      · rw [if_pos hclose, if_pos hclose]
        rfl
      · rw [if_neg hclose, if_neg hclose, Move.above_primary]
    · show (if c.isDigit then _ else _) = Move.above base (if c.isDigit then _ else _)
      by_cases hdigit : c.isDigit = true
      · rw [if_pos hdigit]
        rfl
      · rw [if_neg hdigit, Move.above_primary]

theorem Move.of_above (h : st.frames ≠ []) :
    Move.of (st.above base) c = (Move.of st c).above base := by
  obtain ⟨items, frames, mode⟩ := st
  cases mode with
  | ready | finished x | skipped => exact Move.ready_above h _
  | number digits | command name | sizing | rawStart name | raw text inner => rfl
  | limits op lower upper =>
    simp only [Move.of, State.above]
    repeat' split
    all_goals rfl
  | radical | limit =>
    simp only [Move.of, State.above]
    split <;> rfl

/-- A character above other frames is consumed as without them. -/
theorem consume_above (h : st.frames ≠ []) (base : List Frame) (c : Char) :
    consume a (st.above base) c = (consume (a.above base) st c).map (·.above base) := by
  rw [consume_eq, consume_eq, Move.of_above h]
  cases Move.of st c with
  | turn mode => rfl
  | push frame => exact push_above st base frame
  | close closer xs frames => cases closer <;> rfl

theorem eq_of_map_eq_ok {f : State → State} {start : Except Nat State}
    (h : start.map f = .ok st₁) : ∃ st, start = .ok st ∧ f st = st₁ := by
  cases start with
  | error depth => cases h
  | ok st => exact ⟨st, rfl, Except.ok.inj h⟩

/-- Whatever the allowances, the lookahead leads two runs to states that belong together. -/
theorem eq_over_of_resolve (h : st.InGroup) (hr : resolve a st (some c) = .ok st₁)
    (hr' : resolve a' (st.above base) (some c) = .ok st₂) : st₂ = st₁.over c base := by
  rw [resolve_above h] at hr'
  obtain ⟨st₁', hlone, rfl⟩ := eq_of_map_eq_ok hr'
  rw [resolve_agree hr hlone]

theorem eq_above_of_consume (h : st.frames ≠ []) (hc : consume a st c = .ok st₁)
    (hc' : consume a' (st.above base) c = .ok st₂) : st₂ = st₁.above base := by
  rw [consume_above h] at hc'
  obtain ⟨st₁', hlone, rfl⟩ := eq_of_map_eq_ok hc'
  rw [consume_agree hc hlone]

/-! ## Arguments at a closing character -/

/-- In a text that is read from a state on, an argument is waited for where the character stands.
One that a sequence of the text cuts off there is complete, and waits no more. -/
def Meets (a : Allowance) (st : State) (c : Char) (cs : List Char) : Prop :=
  ∃ v w st₁ st₂, cs = v ++ c :: w ∧ reach a st v = .ok st₁ ∧ resolve a st₁ (some c) = .ok st₂ ∧
    st₂.awaits = true

theorem not_meets_nil : ¬ Meets a st c [] := by
  rintro ⟨v, w, st₁, st₂, h, -⟩
  simp at h

theorem meets_cons_iff {k : Char} {cs : List Char} (hr : resolve a st (some c) = .ok st₁)
    (hc : consume a st₁ c = .ok st₂) :
    Meets a st k (c :: cs) ↔ c = k ∧ st₁.awaits = true ∨ Meets a st₂ k cs := by
  constructor
  · rintro ⟨_ | ⟨d, v⟩, w, st₃, st₄, hlist, hreach, hresolve, hawaits⟩
    · cases hlist
      cases hreach
      rw [hr] at hresolve
      cases hresolve
      exact .inl ⟨rfl, hawaits⟩
    · cases hlist
      obtain ⟨st₁', st₂', hr', hc', hreach⟩ := reach_cons_eq_ok_iff.1 hreach
      rw [hr] at hr'
      cases hr'
      rw [hc] at hc'
      cases hc'
      exact .inr ⟨v, w, st₃, st₄, rfl, hreach, hresolve, hawaits⟩
  · rintro (⟨rfl, hawaits⟩ | ⟨v, w, st₃, st₄, rfl, hreach, hresolve, hawaits⟩)
    · exact ⟨[], cs, st, st₁, rfl, rfl, hr, hawaits⟩
    · exact ⟨c :: v, w, st₃, st₄, rfl, reach_cons_eq_ok_iff.2 ⟨st₁, st₂, hr, hc, hreach⟩, hresolve,
        hawaits⟩

/-- Where the closing character of a delimiter is read as an argument, the argument is no group. -/
theorem exists_completes_of_awaits {d : Delimiter} {all : List Formula}
    (hawaits : st₁.awaits = true) (hc : consume a st₁ d.closer.char = .ok st₂)
    (h : st₂.Completes all) :
    ∃ x xs, (∀ ys, x ≠ .group ys) ∧ Completes st₁.items.toList st₁.frames (x :: xs) all := by
  obtain ⟨items, frames, mode⟩ := st₁
  have hready : mode = .ready := by
    by_contra hne
    rw [State.awaits_eq_false hne] at hawaits
    cases hawaits
  subst hready
  obtain _ | ⟨⟨closer, xs⟩ | slot, frames⟩ := frames
  · cases hawaits
  · cases hawaits
  · cases d with
    | parentheses =>
      cases hc
      obtain ⟨more, hhead, hmore⟩ := h
      obtain ⟨rest, rfl⟩ := List.head?_eq_some_iff.1 hhead
      exact ⟨.leaf (.text _), rest, nofun, hmore⟩
    | bars =>
      have hpush : push a ⟨items, .argument slot :: frames, .ready⟩ (.sequence .bar #[]) =
          .ok st₂ := hc
      obtain ⟨-, rfl⟩ := push_eq_ok_iff.1 hpush
      obtain ⟨more, -, hmore⟩ := h
      cases hmore with
      | sequence hy hrest =>
        cases hy
        exact ⟨.delimited .bars _, _, nofun, hrest⟩

theorem apart_missing {x : Formula} (h : ∀ ys, x ≠ .group ys) : Apart x .missing := by
  refine ⟨fun hx => ?_, fun hx => h [] (hx.eq_of_not_group h).symm⟩
  cases hx
  exact h [] rfl

/-! ## Two runs -/

/-- The same frames got parts that are apart, once above the sequence between two delimiters. -/
def Parted (d : Delimiter) (g : Formula) (all : List Formula) : Prop :=
  ∃ frames x xs y ys, Apart x y ∧ Completes [] frames (x :: xs) [g] ∧
    Completes [] (frames ++ [.sequence d.closer #[]]) (y :: ys) all

variable {d : Delimiter} {g : Formula} {all : List Formula} {st₁' st₂' : State}

theorem Parted.ne (h : Parted d g all) : all ≠ [.delimited d [g]] := by
  obtain ⟨frames, x, xs, y, ys, hapart, hx, hy⟩ := h
  have hyields : d.closer.Yields [g] (.delimited d [g]) := by
    cases d with
    | parentheses => exact .parenthesis [g]
    | bars => exact .bar [g]
  exact hx.ne_of_apart hapart hy hyields

theorem closesAny_singleton (closer : Closer) (c : Char) :
    closesAny [.sequence closer #[]] (some c) = (closer.char == c) := by
  simp [closesAny]

/-- Where no argument is waited for at the closing character, both runs take the same step. -/
theorem step_above (h : st.InGroup) (hr : resolve a st (some c) = .ok st₁)
    (hc : consume a st₁ c = .ok st₂)
    (hr' : resolve a' (st.above [.sequence d.closer #[]]) (some c) = .ok st₁')
    (hc' : consume a' st₁' c = .ok st₂') (hmeet : ¬(c = d.closer.char ∧ st₁.awaits = true)) :
    st₂' = st₂.above [.sequence d.closer #[]] := by
  have hgroup := h.resolve hr
  have hframes : st₁.frames ≠ [] := fun hnil => not_grouped_nil (hnil ▸ hgroup.grouped)
  have hover : st₁.over c [.sequence d.closer #[]] = st₁.above [.sequence d.closer #[]] := by
    cases hawaits : st₁.awaits with
    | false => exact State.over_of_awaits hawaits
    | true =>
      refine State.over_of_closesAny ?_
      rw [closesAny_singleton, beq_eq_false_iff_ne]
      exact fun hchar => hmeet ⟨hchar.symm, hawaits⟩
  rw [eq_over_of_resolve h hr hr', hover] at hc'
  exact eq_above_of_consume hframes hc hc'

/-- Where one is, the lone run reads an argument and the other run goes without. -/
theorem parted_of_awaits {cs cs' : List Char} (h : st.InGroup)
    (hr : resolve a st (some d.closer.char) = .ok st₁)
    (hc : consume a st₁ d.closer.char = .ok st₂) (hrun : run a st₂ cs = .complete [g])
    (hr' : resolve a' (st.above [.sequence d.closer #[]]) (some d.closer.char) = .ok st₁')
    (hc' : consume a' st₁' d.closer.char = .ok st₂') (hrun' : run a' st₂' cs' = .complete all)
    (hawaits : st₁.awaits = true) : Parted d g all := by
  have hitems := (h.resolve hr).items_eq
  obtain ⟨x, xs, hx, hfilled⟩ := exists_completes_of_awaits hawaits hc (run_completes hrun)
  have hcut : st₁'.Completes all :=
    consume_completes (resolve_accepts hr') hc' (run_completes hrun')
  rw [eq_over_of_resolve h hr hr', State.over, closesAny_singleton, beq_self_eq_true, hawaits,
    Bool.and_self, if_pos rfl] at hcut
  obtain ⟨ys, hmissing⟩ := deliver_completes hcut
  rw [hitems] at hfilled hmissing
  exact ⟨_, x, xs, _, ys, apart_missing hx, hfilled, hmissing⟩

/-- A run over the rest of the group goes on after it as without the frame below, unless an argument
is waited for at the character that closes that frame. -/
theorem run_above {cs tail : List Char} (h : st.InGroup)
    (hreach : reach a st cs = .ok ⟨#[], [], .finished g⟩)
    (hrun : run a' (st.above [.sequence d.closer #[]]) (cs ++ tail) = .complete all) :
    ¬ Meets a st d.closer.char cs ∧
        run a' ⟨#[], [.sequence d.closer #[]], .finished g⟩ tail = .complete all ∨
      Meets a st d.closer.char cs ∧ Parted d g all := by
  induction cs generalizing st with
  | nil =>
    cases hreach
    exact (not_grouped_nil h.grouped).elim
  | cons c cs ih =>
    obtain ⟨st₁, st₂, hr, hc, hrest⟩ := reach_cons_eq_ok_iff.1 hreach
    obtain ⟨st₁', st₂', hr', hc', hrest'⟩ := run_cons_eq_complete_iff.1 hrun
    rw [meets_cons_iff hr hc]
    by_cases hmeet : c = d.closer.char ∧ st₁.awaits = true
    · obtain ⟨rfl, hawaits⟩ := hmeet
      have hend : run a st₂ cs = .complete [g] := run_of_reach hrest
      exact .inr ⟨.inl ⟨rfl, hawaits⟩, parted_of_awaits h hr hc hend hr' hc' hrest' hawaits⟩
    · have hstep := step_above h hr hc hr' hc' hmeet
      subst hstep
      rcases (h.resolve hr).consume hc with hgroup | ⟨g', rfl⟩
      · have hih := ih hgroup hrest hrest'
        rwa [or_iff_right hmeet]
      · -- the group closes, which is where the text ends
        have hnil := eq_nil_of_reach_finished hrest rfl
        subst hnil
        cases hrest
        exact .inl ⟨fun hmeets => hmeets.elim hmeet not_meets_nil, hrest'⟩

/-! ## Sources -/

/-- A source begins with a brace, and its last character closes that brace around a part. -/
def Encloses (u : String) (limit : Nat) (g : Formula) : Prop :=
  reach ⟨0, limit⟩ .initial ("\x7b" ++ u ++ "\x7d").toList = .ok ⟨#[], [], .finished g⟩

/-- Somewhere in a source an argument is waited for where the character stands. -/
def AwaitsAt (source : String) (limit : Nat) (c : Char) : Prop :=
  Meets ⟨0, limit⟩ .initial c source.toList

/-- A text between delimiters. -/
def delimit (d : Delimiter) (s : String) : String :=
  String.singleton d.signs.1 ++ s ++ String.singleton d.signs.2

variable {u : String} {limit : Nat}

theorem parse_of_encloses (h : Encloses u limit g) :
    parse ("\x7b" ++ u ++ "\x7d") limit = .equation [g] := by
  have hrun : run ⟨0, limit⟩ .initial ("\x7b" ++ u ++ "\x7d").toList = .complete [g] :=
    run_of_reach h
  exact parse_of_read (read_eq_ok_iff.2 ⟨[g], hrun, rfl⟩)

theorem toList_braces (u : String) :
    ("\x7b" ++ u ++ "\x7d").toList = '\x7b' :: (u.toList ++ ['\x7d']) := by
  simp

/-- The first brace opens the group, and the rest of the source closes it. -/
theorem Encloses.open_group (h : Encloses u limit g) :
    consume ⟨0, limit⟩ .initial '\x7b' = .ok ⟨#[], [.sequence .brace #[]], .ready⟩ ∧
      reach ⟨0, limit⟩ ⟨#[], [.sequence .brace #[]], .ready⟩ (u.toList ++ ['\x7d']) =
        .ok ⟨#[], [], .finished g⟩ := by
  unfold Encloses at h
  rw [toList_braces] at h
  obtain ⟨st₁, st₂, hr, hc, hreach⟩ := reach_cons_eq_ok_iff.1 h
  cases hr
  have hpush : push ⟨0, limit⟩ .initial (.sequence .brace #[]) = .ok st₂ := hc
  obtain ⟨-, rfl⟩ := push_eq_ok_iff.1 hpush
  exact ⟨hc, hreach⟩

/-- In braces an argument is waited for where one is in the group. -/
theorem Encloses.awaitsAt_iff (h : Encloses u limit g) :
    AwaitsAt ("\x7b" ++ u ++ "\x7d") limit d.closer.char ↔
      Meets ⟨0, limit⟩ ⟨#[], [.sequence .brace #[]], .ready⟩ d.closer.char
        (u.toList ++ ['\x7d']) := by
  unfold AwaitsAt
  rw [toList_braces, meets_cons_iff rfl h.open_group.1, or_iff_right]
  rintro ⟨-, hawaits⟩
  cases hawaits

/-- After the opening delimiter and the brace the machine is in the group, above the sequence
between the delimiters. -/
theorem run_delimit
    (h : run ⟨0, limit⟩ .initial (delimit d ("\x7b" ++ u ++ "\x7d")).toList = .complete all) :
    run ⟨0, limit⟩ (State.above ⟨#[], [.sequence .brace #[]], .ready⟩ [.sequence d.closer #[]])
      (u.toList ++ ['\x7d'] ++ [d.closer.char]) = .complete all := by
  have hlist : (delimit d ("\x7b" ++ u ++ "\x7d")).toList =
      d.signs.1 :: '\x7b' :: (u.toList ++ ['\x7d'] ++ [d.closer.char]) := by
    cases d <;> simp [delimit, Delimiter.signs, Delimiter.closer, Closer.char]
  rw [hlist] at h
  obtain ⟨st₁, st₂, hr, hc, h⟩ := run_cons_eq_complete_iff.1 h
  obtain ⟨st₃, st₄, hr', hc', h⟩ := run_cons_eq_complete_iff.1 h
  cases hr
  have hopen : push ⟨0, limit⟩ .initial (.sequence d.closer #[]) = .ok st₂ := by
    cases d <;> exact hc
  obtain ⟨-, rfl⟩ := push_eq_ok_iff.1 hopen
  cases hr'
  have hbrace : push ⟨0, limit⟩ ⟨#[], [.sequence d.closer #[]], .ready⟩ (.sequence .brace #[]) =
      .ok st₄ := by
    cases d <;> exact hc'
  obtain ⟨-, rfl⟩ := push_eq_ok_iff.1 hbrace
  exact h

theorem run_delimit_finished (d : Delimiter) (g : Formula) :
    run a ⟨#[], [.sequence d.closer #[]], .finished g⟩ [d.closer.char] =
      .complete [.delimited d [g]] := by
  cases d <;> rfl

/-- A group is one part also between delimiters, and what it holds is the same there, exactly if no
argument in it is waited for where the closing delimiter stands. -/
theorem parse_delimit_iff (d : Delimiter) {u : String} {limit : Nat} {g : Formula}
    (hlimit : u.length + 4 ≤ limit) (hg : Encloses u limit g) :
    parse ("\x7b" ++ u ++ "\x7d") limit = .equation [g] ∧
      (parse (delimit d ("\x7b" ++ u ++ "\x7d")) limit = .equation [.delimited d [g]] ↔
        ¬ AwaitsAt ("\x7b" ++ u ++ "\x7d") limit d.signs.2) := by
  refine ⟨parse_of_encloses hg, ?_⟩
  have hsign : d.signs.2 = d.closer.char := by cases d <;> rfl
  have hlength : (delimit d ("\x7b" ++ u ++ "\x7d")).length ≤ limit := by
    simp only [delimit, String.length_append, String.length_singleton]
    have hone : "\x7b".length = 1 ∧ "\x7d".length = 1 := ⟨rfl, rfl⟩
    omega
  obtain ⟨t, ht⟩ := read_of_length_le hlength
  obtain ⟨all, hrun, rfl⟩ := read_eq_ok_iff.1 ht
  have hgroup : State.InGroup ⟨#[], [.sequence .brace #[]], .ready⟩ := ⟨rfl, [], _, rfl⟩
  rw [parse_of_read ht, hsign, hg.awaitsAt_iff, Formula.equation.injEq]
  rcases run_above hgroup hg.open_group.2 (run_delimit hrun) with
    ⟨hmeets, hend⟩ | ⟨hmeets, hparted⟩
  · rw [run_delimit_finished] at hend
    cases hend
    exact iff_of_true rfl hmeets
  · exact iff_of_false hparted.ne (not_not_intro hmeets)

/-- In `{x^)}` the exponent is a bracket, and between parentheses it is missing: the bracket would
close those. -/
theorem not_parse_delimit_caret :
    ¬ ∀ (u : String) (limit : Nat) (g : Formula), u.length + 4 ≤ limit → Encloses u limit g →
      parse (delimit .parentheses ("\x7b" ++ u ++ "\x7d")) limit =
          .equation [.delimited .parentheses [g]] ∧
        parse (delimit .bars ("\x7b" ++ u ++ "\x7d")) limit =
          .equation [.delimited .bars [g]] := by
  intro h
  have hg : Encloses "x^)" 7
      (.group [.leaf (.letter 'x'), .script .superscript (.leaf (.text ")"))]) := rfl
  have hparse : parse (delimit .parentheses ("\x7b" ++ "x^)" ++ "\x7d")) 7 =
      .equation [.delimited .parentheses [.group [.leaf (.letter 'x'),
        .script .superscript (.group []), .leaf (.text ")")]]] := rfl
  have heq := hparse.symm.trans (h "x^)" 7 _ (by decide) hg).1
  cases heq

/-- In `{(x^)_2}` the exponent is cut off by the brackets of the group itself. -/
theorem parse_delimit_iff_brackets :
    "(x^)_2".length + 4 ≤ 10 ∧
      Encloses "(x^)_2" 10 (.group [.delimited .parentheses [.leaf (.letter 'x'),
        .script .superscript (.group [])], .script .subscript (.leaf (.number "2"))]) ∧
      parse (delimit .parentheses ("\x7b" ++ "(x^)_2" ++ "\x7d")) 10 =
        .equation [.delimited .parentheses [.group [.delimited .parentheses [.leaf (.letter 'x'),
          .script .superscript (.group [])], .script .subscript (.leaf (.number "2"))]]] ∧
      ¬ AwaitsAt ("\x7b" ++ "(x^)_2" ++ "\x7d") 10 ')' := by
  have hg : Encloses "(x^)_2" 10 (.group [.delimited .parentheses [.leaf (.letter 'x'),
      .script .superscript (.group [])], .script .subscript (.leaf (.number "2"))]) := rfl
  exact ⟨by decide, hg, rfl, (parse_delimit_iff .parentheses (by decide) hg).2.1 rfl⟩

end Latex

end FormulaDrawing
