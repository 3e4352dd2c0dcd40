import FormulaDrawing.Proofs.Latex.WhiteSpace

/-!
# Counting parts

Two runs that go on with the same letters give different formulas if they differ in how many parts
their innermost sequences have when the letters come. The arguments that wait for letters do not
blur that: each takes one letter, and a fraction takes one more than its structure counts, so
`State.progress` subtracts the denominators to come from the items that are there. A part that is
delivered adds one to it (`deliver_progress`), and `n` letters add `n` (`run_letters`).
-/

namespace FormulaDrawing.Latex

open Unicode

/-! ## The innermost sequence -/

/-- The items of the innermost open sequence, or of the root. -/
def innermost (items : Array Formula) : List Frame → Array Formula
  | [] => items
  | .sequence _ xs :: _ => xs
  | .argument _ :: frames => innermost items frames

/-- What is around the items of the innermost sequence. -/
def base (items : Array Formula) : List Frame → Option (Array Formula × Closer × List Frame)
  | [] => none
  | .sequence closer _ :: frames => some (items, closer, frames)
  | .argument _ :: frames => base items frames

/-- The fractions on top that still wait for their numerators. -/
def debt : List Frame → Nat
  | .argument .numerator :: frames => debt frames + 1
  | .argument _ :: frames => debt frames
  | _ => 0

/-- Whether an argument is waited for. -/
def awaitsArgument : List Frame → Bool
  | .argument _ :: _ => true
  | _ => false

namespace State

def base (st : State) : Option (Array Formula × Closer × List Frame) :=
  Latex.base st.items st.frames

/-- The items of the innermost sequence less the denominators to come. -/
def progress (st : State) : Int := (innermost st.items st.frames).size - debt st.frames

end State

theorem debt_argument_of_ne {slot : Slot} (h : slot ≠ .numerator) (frames : List Frame) :
    debt (.argument slot :: frames) = debt frames := by
  cases slot with
  | numerator => exact absurd rfl h
  | _ => rfl

theorem debt_of_awaitsArgument {frames : List Frame} (h : awaitsArgument frames = false) :
    debt frames = 0 := by
  unfold awaitsArgument at h
  split at h
  · cases h
  next hne =>
    unfold debt
    split
    next => exact (hne _ _ rfl).elim
    next => exact (hne _ _ rfl).elim
    next => rfl

/-! ## Delivering -/

variable {a : Allowance}

/-- Delivering leaves what is around the innermost sequence. -/
theorem deliver_base (next : Option Char) (items : Array Formula) (x : Formula)
    (frames : List Frame) : (deliver next items x frames).base = base items frames := by
  fun_induction deliver next items x frames with
  | case1 | case2 | case4 | case5 | case7 => rfl
  | case3 x frames hclose ih => exact ih
  | case6 x frames op upper hawait ih => exact ih
  | case8 x frames op lower hawait ih => exact ih
  | case9 x frames slot _ _ _ ih => exact ih

/-- A lookahead that cuts no argument off adds one part, unless a big operator waits on for it. -/
theorem deliver_progress {next : Option Char} (hnext : ∀ frames, closesAny frames next = false)
    (items : Array Formula) (x : Formula) (frames : List Frame) :
    ((deliver next items x frames).mode = .ready ∧
        (deliver next items x frames).progress =
          (innermost items frames).size - debt frames + 1) ∨
      ∃ op lower upper, (deliver next items x frames).mode = .limits op lower upper ∧
        awaitsLimit lower upper next = true ∧
        (deliver next items x frames).progress = (innermost items frames).size - debt frames := by
  fun_induction deliver next items x frames with
  | case1 x => exact .inl ⟨rfl, by simp [State.progress, innermost, debt]⟩
  | case2 x closer xs frames => exact .inl ⟨rfl, by simp [State.progress, innermost, debt]⟩
  | case3 x frames hclose ih =>
    rw [hnext] at hclose
    cases hclose
  | case4 x frames hclose =>
    refine .inl ⟨rfl, ?_⟩
    simp only [State.progress, innermost, debt]
    omega
  | case5 x frames op upper hawait => exact .inr ⟨op, some x, upper, rfl, hawait, rfl⟩
  | case6 x frames op upper hawait ih => exact ih
  | case7 x frames op lower hawait => exact .inr ⟨op, lower, some x, rfl, hawait, rfl⟩
  | case8 x frames op lower hawait ih => exact ih
  | case9 x frames slot hslot _ _ ih =>
    rw [debt_argument_of_ne hslot]
    exact ih

/-- Where no fraction waits, a part goes right into the innermost sequence. -/
theorem deliver_of_debt (next : Option Char)
    (hnext : ∀ lower upper, awaitsLimit lower upper next = false) (items : Array Formula)
    (x : Formula) {frames : List Frame} (hdebt : debt frames = 0) :
    (deliver next items x frames).mode = .ready ∧
      awaitsArgument (deliver next items x frames).frames = false ∧
      (deliver next items x frames).progress = (innermost items frames).size + 1 := by
  fun_induction deliver next items x frames with
  | case1 x => exact ⟨rfl, rfl, by simp [State.progress, innermost, debt]⟩
  | case2 x closer xs frames => exact ⟨rfl, rfl, by simp [State.progress, innermost, debt]⟩
  | case3 | case4 => simp only [debt, Nat.add_eq_zero_iff] at hdebt; omega
  | case5 x frames op upper hawait => rw [hnext] at hawait; cases hawait
  | case7 x frames op lower hawait => rw [hnext] at hawait; cases hawait
  | case6 x frames op upper hawait ih => exact ih hdebt
  | case8 x frames op lower hawait ih => exact ih hdebt
  | case9 x frames slot hslot _ _ ih =>
    rw [debt_argument_of_ne hslot] at hdebt
    exact ih hdebt

/-- A fraction that gets its numerator waits for its denominator. -/
theorem deliver_debt {next : Option Char} (hnext : ∀ frames, closesAny frames next = false)
    (hawait : ∀ lower upper, awaitsLimit lower upper next = false) (items : Array Formula)
    (x : Formula) {frames : List Frame} (hdebt : debt frames ≠ 0) :
    debt (deliver next items x frames).frames + 1 = debt frames := by
  fun_induction deliver next items x frames with
  | case1 | case2 => exact absurd rfl hdebt
  | case3 x frames hclose ih => rw [hnext] at hclose; cases hclose
  | case4 x frames hclose => rfl
  | case5 x frames op upper h => rw [hawait] at h; cases h
  | case7 x frames op lower h => rw [hawait] at h; cases h
  | case6 x frames op upper h ih => exact ih hdebt
  | case8 x frames op lower h ih => exact ih hdebt
  | case9 x frames slot hslot _ _ ih =>
    rw [debt_argument_of_ne hslot] at hdebt ⊢
    exact ih hdebt

/-! ## Letters -/

/-- A character that neither closes a sequence nor is waited for. -/
structure Inert (c : Char) : Prop where
  closes : ∀ closer : Closer, closer.char ≠ c
  awaits : ∀ lower upper, awaitsLimit lower upper (some c) = false

theorem inert_of_mem {c : Char} (h : c ∈ ['x', '\\', '\x7b']) : Inert c := by
  simp only [List.mem_cons, List.not_mem_nil, or_false] at h
  constructor
  · intro closer
    rcases h with rfl | rfl | rfl <;> cases closer <;> decide
  · intro lower upper
    rcases h with rfl | rfl | rfl <;> rfl

theorem inert_letter : Inert 'x' := inert_of_mem (by simp)

theorem inert_backslash : Inert '\\' := inert_of_mem (by simp)

theorem inert_brace : Inert '\x7b' := inert_of_mem (by simp)

/-- What is inert sees a part put in its place. -/
theorem Inert.deliver {c : Char} (hc : Inert c) (items : Array Formula) (x : Formula)
    (frames : List Frame) :
    (deliver (some c) items x frames).mode = .ready ∧
      (deliver (some c) items x frames).progress =
        (innermost items frames).size - debt frames + 1 := by
  rcases deliver_progress (closesAny_eq_false hc.closes) items x frames with
    h | ⟨op, lower, upper, -, hawait, -⟩
  · exact h
  · rw [hc.awaits] at hawait
    cases hawait

theorem Inert.settle {c : Char} (hc : Inert c) (st : State) : st.settle (some c) = st :=
  settle_of_closesAny (closesAny_eq_false hc.closes)

theorem Inert.resolve_ready {c : Char} (hc : Inert c) {st : State} (hst : st.mode = .ready) :
    resolve a st (some c) = .ok st := by
  rw [resolve_eq, hst]
  exact congrArg Except.ok (hc.settle st)

/-- The letter that runs go on with. -/
def x : Formula := .letter 'x'

theorem consume_letter {st : State} (hst : st.mode = .ready) :
    consume a st 'x' = .ok (st.withMode (.finished x)) := by
  rw [consume_eq, Move.of_eq_primary hst (by decide) (by decide) inert_letter.closes]
  rfl

/-- Another letter shows that a letter is complete. -/
theorem run_letter_letter {st : State} (hst : st.mode = .ready) (cs : List Char) :
    run a st ('x' :: 'x' :: cs) = run a (st.deliver (some 'x') x) ('x' :: cs) := by
  have hready : (st.deliver (some 'x') x).mode = .ready := (inert_letter.deliver _ _ _).1
  have hresolve : resolve a (st.withMode (.finished x)) (some 'x') =
      .ok (st.deliver (some 'x') x) := rfl
  rw [run, inert_letter.resolve_ready hst]
  simp only [consume_letter hst]
  rw [run, run, hresolve, inert_letter.resolve_ready hready]

theorem run_letter {st : State} (hst : st.mode = .ready) :
    run a st ['x'] = .complete
      (finish (st.deliver none x).items none (st.deliver none x).frames).toList := by
  have hresolve : resolve a (st.withMode (.finished x)) none = .ok (st.deliver none x) := rfl
  rw [run, inert_letter.resolve_ready hst]
  simp only [consume_letter hst]
  rw [run, hresolve]

/-- Enough letters fill the arguments that are waited for, and then the innermost sequence. -/
theorem run_letters {st : State} (hst : st.mode = .ready) {n : Nat} (hn : debt st.frames < n) :
    ∃ items frames, awaitsArgument frames = false ∧ base items frames = st.base ∧
      ((innermost items frames).size : Int) = st.progress + n ∧
      run a st (List.replicate n 'x') = .complete (finish items none frames).toList := by
  induction n generalizing st with
  | zero => omega
  | succ n ih =>
    cases n with
    | zero =>
      have hdebt : debt st.frames = 0 := by omega
      obtain ⟨hready, harg, hprogress⟩ := deliver_of_debt none (fun _ _ => rfl)
        st.items x hdebt
      have hdone := debt_of_awaitsArgument harg
      refine ⟨_, _, harg, deliver_base none st.items x st.frames, ?_, run_letter hst⟩
      simp only [State.progress, hdone] at hprogress
      simp only [State.progress, hdebt]
      omega
    | succ n =>
      have hnext : (st.deliver (some 'x') x).mode = .ready := (inert_letter.deliver _ _ _).1
      have hprogress : (st.deliver (some 'x') x).progress = st.progress + 1 :=
        (inert_letter.deliver _ _ _).2
      have hdebt : debt (st.deliver (some 'x') x).frames < n + 1 := by
        by_cases h : debt st.frames = 0
        · have hdone := (deliver_of_debt _ inert_letter.awaits st.items x h).2.1
          have := debt_of_awaitsArgument hdone
          simp only [State.deliver]
          omega
        · have := deliver_debt (closesAny_eq_false inert_letter.closes) inert_letter.awaits
            st.items x h
          simp only [State.deliver]
          omega
      obtain ⟨items, frames, harg, hbase, hsize, hrun⟩ := ih hnext hdebt
      refine ⟨items, frames, harg, hbase.trans (deliver_base _ _ _ _), ?_, ?_⟩
      · rw [hsize, hprogress]
        push_cast
        omega
      · rw [List.replicate_succ, List.replicate_succ, run_letter_letter hst,
          ← List.replicate_succ, hrun]

/-! ## The end of the text -/

theorem collapse_of_length_ne {xs : List Formula} (h : xs.length ≠ 1) :
    Formula.collapse xs = .group xs := by
  unfold Formula.collapse
  split
  next => exact absurd rfl h
  next => rfl

/-- Sequences of one length collapse to one formula only if they are one sequence. -/
theorem collapse_injective {xs ys : List Formula} (hlength : xs.length = ys.length)
    (h : Formula.collapse xs = Formula.collapse ys) : xs = ys := by
  by_cases hone : xs.length = 1
  · obtain ⟨x, rfl⟩ := List.length_eq_one_iff.1 hone
    obtain ⟨y, rfl⟩ := List.length_eq_one_iff.1 (hlength ▸ hone)
    exact congrArg (fun z => [z]) h
  · rw [collapse_of_length_ne hone, collapse_of_length_ne (hlength ▸ hone)] at h
    exact Formula.group.inj h

theorem Slot.fill_injective {slot : Slot} {x y : Formula} (h : slot.fill x = slot.fill y) :
    x = y := by
  cases slot <;> simpa [Slot.fill] using h

/-- What a sequence completes to at the end of the text. -/
def Closer.complete (closer : Closer) (xs : List Formula) : Formula :=
  match closer with
  | .brace => .collapse xs
  | .parenthesis => .delimited .parentheses xs
  | .bar => .delimited .bars xs
  | .bracket => .root (some (.collapse xs)) .missing

theorem Closer.complete_injective {closer : Closer} {xs ys : List Formula}
    (hlength : xs.length = ys.length ∨ xs.length ≠ 1 ∧ ys.length ≠ 1)
    (h : closer.complete xs = closer.complete ys) : xs = ys := by
  have hcollapse : Formula.collapse xs = Formula.collapse ys → xs = ys := by
    intro h
    rcases hlength with hlength | ⟨hxs, hys⟩
    · exact collapse_injective hlength h
    · rw [collapse_of_length_ne hxs, collapse_of_length_ne hys] at h
      exact Formula.group.inj h
  cases closer with
  | brace => exact hcollapse h
  | parenthesis | bar => exact (Formula.delimited.inj h).2
  | bracket => exact hcollapse (Option.some.inj (Formula.root.inj h).1)

theorem finish_sequence (items : Array Formula) (pending : Option Formula) (closer : Closer)
    (xs : Array Formula) (frames : List Frame) :
    finish items pending (.sequence closer xs :: frames) =
      finish items (some (closer.complete (xs.toList ++ pending.toList))) frames := by
  cases pending <;> cases closer <;> simp [finish, Closer.complete]

/-- Different pending parts complete to different formulas. -/
theorem finish_injective {items : Array Formula} {x y : Formula} {frames : List Frame}
    (h : finish items (some x) frames = finish items (some y) frames) : x = y := by
  induction frames generalizing x y with
  | nil => exact Array.back_eq_of_push_eq h
  | cons frame frames ih =>
    cases frame with
    | argument slot =>
      simp only [finish, Option.getD_some] at h
      exact Slot.fill_injective (ih h)
    | sequence closer xs =>
      rw [finish_sequence, finish_sequence] at h
      have := Closer.complete_injective (.inl (by simp)) (ih h)
      simpa using this

/-- Innermost sequences of different lengths complete to different formulas. -/
theorem finish_ne {items₁ items₂ : Array Formula} {frames₁ frames₂ : List Frame}
    (h₁ : awaitsArgument frames₁ = false) (h₂ : awaitsArgument frames₂ = false)
    (hbase : base items₁ frames₁ = base items₂ frames₂)
    (hne : (innermost items₁ frames₁).size ≠ (innermost items₂ frames₂).size)
    (htwo₁ : 2 ≤ (innermost items₁ frames₁).size) (htwo₂ : 2 ≤ (innermost items₂ frames₂).size) :
    finish items₁ none frames₁ ≠ finish items₂ none frames₂ := by
  intro h
  cases frames₁ with
  | nil =>
    cases frames₂ with
    | nil => exact hne (congrArg Array.size h)
    | cons frame frames₂ =>
      cases frame with
      | argument slot => cases h₂
      | sequence closer ys => cases hbase
  | cons frame frames₁ =>
    cases frame with
    | argument slot => cases h₁
    | sequence closer xs =>
      cases frames₂ with
      | nil => cases hbase
      | cons frame frames₂ =>
        cases frame with
        | argument slot => cases h₂
        | sequence closer' ys =>
          cases hbase
          rw [finish_sequence, finish_sequence] at h
          simp only [innermost] at hne htwo₁ htwo₂
          have hcomplete := finish_injective h
          have heq := Closer.complete_injective (.inr ?_) hcomplete
          · exact hne (by simpa using congrArg List.length heq)
          · simp only [Option.toList_none, List.append_nil, Array.length_toList]
            omega

/-- With enough letters to come, runs of different progress end in different formulas. -/
theorem exists_run_letters_ne {st₁ st₂ : State} (h₁ : st₁.mode = .ready) (h₂ : st₂.mode = .ready)
    (hbase : st₁.base = st₂.base) (hne : st₁.progress ≠ st₂.progress) :
    ∃ n items₁ items₂, run a st₁ ('x' :: List.replicate n 'x') = .complete items₁ ∧
      run a st₂ ('x' :: List.replicate n 'x') = .complete items₂ ∧ items₁ ≠ items₂ := by
  have hn₁ : debt st₁.frames < debt st₁.frames + debt st₂.frames + 1 + 1 := by omega
  have hn₂ : debt st₂.frames < debt st₁.frames + debt st₂.frames + 1 + 1 := by omega
  obtain ⟨items₁, frames₁, harg₁, hbase₁, hsize₁, hrun₁⟩ := run_letters (a := a) h₁ hn₁
  obtain ⟨items₂, frames₂, harg₂, hbase₂, hsize₂, hrun₂⟩ := run_letters (a := a) h₂ hn₂
  refine ⟨debt st₁.frames + debt st₂.frames + 1, _, _, hrun₁, hrun₂, fun heq => ?_⟩
  unfold State.progress at hsize₁ hsize₂ hne
  refine finish_ne harg₁ harg₂ (by rw [hbase₁, hbase₂, hbase]) ?_ ?_ ?_ (Array.toList_inj.1 heq)
  · intro hsize
    rw [hsize] at hsize₁
    omega
  · omega
  · omega

end FormulaDrawing.Latex
