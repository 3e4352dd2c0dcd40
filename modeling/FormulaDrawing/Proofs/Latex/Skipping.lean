import FormulaDrawing.Proofs.Latex.Progress
import FormulaDrawing.Proofs.Latex.Threshold
import Mathlib.Tactic.Set

/-!
# Commands without ink between two parts

A state that stands between two parts of a sequence (`State.standsBetween`) waits for nothing: it
reads a command without ink and a space as it reads the space.

    run a (st'.deliverNothing (some ' ')) cs = run a st cs   (run_deliverNothing_of_standsBetween)

where `st'` is the state that the backslash of the command meets. Every command without ink comes
down to `deliverNothing` (`reach_inkFree`): a missing argument, if one is waited for.
-/

namespace FormulaDrawing.Latex

open Unicode

/-- The commands that leave no ink. -/
def inkFreeCommands : List String :=
  ["\\,", "\\;", "\\:", "\\!", "\\quad", "\\qquad", "\\left", "\\right"]

/-! ## Where white space is skipped -/

/-- Whether an argument completes its structure whatever follows. -/
def Slot.isLast : Slot → Bool
  | .numerator => false
  | .lowerLimit _ upper => upper.isSome
  | .upperLimit _ lower => lower.isSome
  | _ => true

/-- Whether the arguments on top complete one after the other whatever follows. -/
def completes : List Frame → Bool
  | .argument slot :: frames => slot.isLast && completes frames
  | _ => true

/-- Whether a state stands between two parts of a sequence: no argument is waited for, and a big
operator waits for nothing but the end of white space. -/
def State.standsBetween (st : State) : Bool :=
  match st.mode with
  | .ready => !awaitsArgument st.frames
  | .limits _ (some _) (some _) => completes st.frames
  | _ => false

/-- The modes that skip white space. -/
def Mode.Skips : Mode → Prop
  | .ready | .limits _ _ _ | .radical | .limit | .rawStart _ => True
  | _ => False

variable {a : Allowance}

theorem Mode.skips_of_consume {st st' : State} (hresolve : resolve a st (some ' ') = .ok st')
    (hconsume : consume a st' ' ' = .ok st') : st'.mode.Skips := by
  have haccepts := resolve_accepts hresolve
  obtain ⟨items, frames, mode⟩ := st'
  cases mode with
  | ready | limits op lower upper | radical | limit | rawStart name => trivial
  | finished y | skipped => exact haccepts.elim
  | number digits =>
    have hnumber : (' '.isDigit || ' ' == '.') = true := haccepts
    exact absurd hnumber (by decide)
  | sizing =>
    have hdot : (some ' ' == some '.') = true := haccepts
    exact absurd hdot (by decide)
  | command name =>
    cases name with
    | nil =>
      simp only [consume, Except.ok.injEq, State.withMode, State.mk.injEq] at hconsume
      exact absurd hconsume.2.2 (by simp [show ' '.isAlpha = false by decide, spacingCharacters])
    | cons d name =>
      exact absurd haccepts (by simp [Mode.Accepts, show ' '.isAlpha = false by decide])
  | raw text inner =>
    simp only [consume, Except.ok.injEq, State.withMode, State.mk.injEq] at hconsume
    have := hconsume.2.2
    rw [if_neg (by decide), if_neg (by decide)] at this
    exact absurd (Mode.raw.inj this).1 (List.cons_ne_self _ _)

/-! ## Reading a command without ink -/

/-- Two states that react alike to a character read on alike from it. -/
theorem run_congr {st st' : State} {c : Char} (h : resolve a st (some c) = resolve a st' (some c))
    (cs : List Char) : run a st (c :: cs) = run a st' (c :: cs) := by
  rw [run, run, h]

theorem run_step {st st₁ st₂ : State} {c : Char} (hresolve : resolve a st (some c) = .ok st₁)
    (hconsume : consume a st₁ c = .ok st₂) (cs : List Char) :
    run a st (c :: cs) = run a st₂ cs := by
  rw [run, hresolve]
  simp only [hconsume]

/-- White space is skipped by a state that waits. -/
theorem consume_space {st : State} (h : st.mode = .ready ∨ ∃ op lower upper,
    st.mode = .limits op lower upper) : consume a st ' ' = .ok st := by
  obtain ⟨items, frames, mode⟩ := st
  rcases h with rfl | ⟨op, lower, upper, rfl⟩ <;> rfl

theorem deliverNothing_withMode (st : State) (mode : Mode) (next : Option Char) :
    (st.withMode mode).deliverNothing next = st.deliverNothing next := by
  obtain ⟨items, frames, m⟩ := st
  cases frames with
  | nil => rfl
  | cons frame frames => cases frame <;> rfl

theorem consume_space_deliverNothing (st : State) :
    consume a (st.deliverNothing (some ' ')) ' ' = .ok (st.deliverNothing (some ' ')) := by
  refine consume_space ?_
  unfold State.deliverNothing
  split
  · have hspace : ∀ frames, closesAny frames (some ' ') = false :=
      closesAny_of_isWhiteSpace (by decide)
    rcases deliver_progress hspace st.items .missing st.frames with h | ⟨op, lower, upper, h, -⟩
    · exact .inl h.1
    · exact .inr ⟨op, lower, upper, h⟩
  · exact .inl rfl

theorem reach_spacing {d : Char} (halpha : d.isAlpha = false)
    (hspacing : spacingCharacters.contains d = true) (st : State) :
    reach a (st.withMode (.command [])) [d, ' '] = .ok (st.deliverNothing (some ' ')) := by
  refine reach_cons_eq_ok_iff.2 ⟨_, st.withMode .skipped, rfl, ?_, ?_⟩
  · simp only [State.withMode, consume, halpha, hspacing, Bool.false_eq_true, if_false, if_true]
  · refine reach_cons_eq_ok_iff.2 ⟨_, _, ?_, consume_space_deliverNothing st, rfl⟩
    exact congrArg Except.ok (deliverNothing_withMode st _ _)

theorem reach_letters (st : State) {letters : List Char} (h : ∀ d ∈ letters, d.isAlpha = true)
    (name : List Char) :
    reach a (st.withMode (.command name)) letters =
      .ok (st.withMode (.command (letters.reverse ++ name))) := by
  induction letters generalizing name with
  | nil => rfl
  | cons d letters ih =>
    rw [List.forall_mem_cons] at h
    refine reach_cons_eq_ok_iff.2 ⟨st.withMode (.command name), st.withMode (.command (d :: name)),
      ?_, ?_, ?_⟩
    · cases name with
      | nil => rfl
      | cons e name => simp [resolve, State.withMode, h.1]
    · simp [consume, State.withMode, h.1]
    · rw [ih h.2, List.reverse_cons, List.append_assoc]
      rfl

theorem reach_named {letters : List Char} (hletters : letters.all Char.isAlpha = true)
    (hne : letters ≠ [])
    (hcommand : ∀ st, resolveCommand a st (some ' ') (.ofName (String.ofList letters)) =
      .ok (st.deliverNothing (some ' '))) (st : State) :
    reach a (st.withMode (.command [])) (letters ++ [' ']) =
      .ok (st.deliverNothing (some ' ')) := by
  rw [reach_append (reach_letters st (List.all_eq_true.1 hletters) []), List.append_nil]
  refine reach_cons_eq_ok_iff.2 ⟨st.deliverNothing (some ' '), _, ?_,
    consume_space_deliverNothing st, rfl⟩
  obtain ⟨d, name, hname⟩ := List.exists_cons_of_ne_nil (List.reverse_ne_nil_iff.2 hne)
  have hresolve : resolve a (st.withMode (.command (d :: name))) (some ' ') =
      resolveCommand a (st.withMode (.command (d :: name))) (some ' ')
        (.ofName (String.ofList (d :: name).reverse)) := by
    rw [resolve]
    exact if_neg (by decide)
  rw [hname, hresolve, ← hname, List.reverse_reverse, hcommand, deliverNothing_withMode]

theorem consume_backslash {st : State} (hready : st.mode = .ready) :
    consume a st '\\' = .ok (st.withMode (.command [])) := by
  rw [consume_eq, Move.of_eq_primary hready (by decide) (by decide) inert_backslash.closes]
  rfl

/-- Where a command without ink and a space are read, nothing is delivered. -/
theorem reach_inkFree {c : String} (hc : c ∈ inkFreeCommands) {st st' : State}
    (h : resolve a st (some '\\') = .ok st') (hready : st'.mode = .ready) :
    reach a st (c.toList ++ [' ']) = .ok (st'.deliverNothing (some ' ')) := by
  have hstart : ∀ cs, reach a (st'.withMode (.command [])) (cs ++ [' ']) =
      .ok (st'.deliverNothing (some ' ')) →
      reach a st ('\\' :: cs ++ [' ']) = .ok (st'.deliverNothing (some ' ')) := fun cs hcs =>
    reach_cons_eq_ok_iff.2 ⟨st', _, h, consume_backslash hready, hcs⟩
  simp only [inkFreeCommands, List.mem_cons, List.not_mem_nil, or_false] at hc
  rcases hc with rfl | rfl | rfl | rfl | rfl | rfl | rfl | rfl
  · exact hstart [','] (reach_spacing rfl rfl st')
  · exact hstart [';'] (reach_spacing rfl rfl st')
  · exact hstart [':'] (reach_spacing rfl rfl st')
  · exact hstart ['!'] (reach_spacing rfl rfl st')
  · exact hstart "quad".toList (reach_named (by decide) (by decide) (fun _ => rfl) st')
  · exact hstart "qquad".toList (reach_named (by decide) (by decide) (fun _ => rfl) st')
  · exact hstart "left".toList (reach_named (by decide) (by decide) (fun _ => rfl) st')
  · exact hstart "right".toList (reach_named (by decide) (by decide) (fun _ => rfl) st')

/-! ## Between two parts -/

theorem withMode_eq_self {st : State} {mode : Mode} (h : st.mode = mode) :
    st.withMode mode = st := by
  subst h
  rfl

theorem deliverNothing_of_awaitsArgument {st : State} (h : awaitsArgument st.frames = false)
    (next : Option Char) : st.deliverNothing next = st.withMode .ready := by
  unfold State.deliverNothing
  split
  next slot frames hframes => rw [hframes] at h; cases h
  next => rfl

theorem settle_of_awaitsArgument {st : State} (h : awaitsArgument st.frames = false)
    (next : Option Char) : st.settle next = st := by
  refine settle_eq_self fun slot frames hframes => ?_
  rw [hframes] at h
  cases h

theorem debt_of_completes {frames : List Frame} (h : completes frames = true) :
    debt frames = 0 := by
  induction frames with
  | nil => rfl
  | cons frame frames ih =>
    cases frame with
    | sequence closer xs => rfl
    | argument slot =>
      obtain ⟨hslot, hframes⟩ := Bool.and_eq_true_iff.1 h
      rw [debt_argument_of_ne, ih hframes]
      rintro rfl
      cases hslot

theorem resolve_limits_of_awaitsLimit {items : Array Formula} {frames : List Frame}
    {op : BigOperator} {lower upper : Option Formula} {next : Option Char}
    (h : awaitsLimit lower upper next = true) :
    resolve a ⟨items, frames, .limits op lower upper⟩ next =
      .ok ⟨items, frames, .limits op lower upper⟩ := by
  rw [resolve_eq, Reaction.of, if_pos h]
  rfl

theorem resolve_limits_of_not_awaitsLimit {items : Array Formula} {frames : List Frame}
    {op : BigOperator} {lower upper : Option Formula} {next : Option Char}
    (h : awaitsLimit lower upper next = false) :
    resolve a ⟨items, frames, .limits op lower upper⟩ next =
      .ok (deliver next items (.bigOperator op lower upper) frames) := by
  rw [resolve_eq, Reaction.of, h, if_neg Bool.false_ne_true]
  rfl

/-- Structures that complete whatever follows complete in the same place whatever follows. -/
theorem deliver_of_completes {next : Option Char} (hnext : next.any isWhiteSpace = false)
    {frames : List Frame} (h : completes frames = true) (items : Array Formula) (y : Formula) :
    deliver next items y frames = deliver none items y frames := by
  have hawait : ∀ y z, awaitsLimit (some y) (some z) next = false := by
    intro y z
    cases next with
    | none => rfl
    | some c =>
      have hc : isWhiteSpace c = false := hnext
      simp [awaitsLimit, hc]
  have hnone : ∀ lower upper, awaitsLimit lower upper none = false := fun _ _ => rfl
  induction frames generalizing y with
  | nil => rfl
  | cons frame frames ih =>
    cases frame with
    | sequence closer xs => rfl
    | argument slot =>
      obtain ⟨hslot, hframes⟩ := Bool.and_eq_true_iff.1 h
      cases slot with
      | numerator => cases hslot
      | lowerLimit op upper =>
        obtain ⟨z, rfl⟩ := Option.isSome_iff_exists.1 hslot
        simp only [deliver, hawait, hnone, Bool.false_eq_true, if_false]
        exact ih hframes _
      | upperLimit op lower =>
        obtain ⟨z, rfl⟩ := Option.isSome_iff_exists.1 hslot
        simp only [deliver, hawait, hnone, Bool.false_eq_true, if_false]
        exact ih hframes _
      | script side | denominator n | radicand index | approach =>
        simp only [deliver]
        exact ih hframes _

/-- A big operator with both limits, where nothing else is waited for, reads on as if it had been
put in its place. -/
theorem run_limits_of_completes {items : Array Formula} {frames : List Frame} {op : BigOperator}
    {y z : Formula} (h : completes frames = true) (cs : List Char) :
    run a ⟨items, frames, .limits op (some y) (some z)⟩ cs =
      run a (deliver none items (.bigOperator op (some y) (some z)) frames) cs := by
  obtain ⟨hready, harg, -⟩ := deliver_of_debt none (fun _ _ => rfl) items
    (.bigOperator op (some y) (some z)) (debt_of_completes h)
  set st := deliver none items (.bigOperator op (some y) (some z)) frames with hst
  have hresolve : ∀ next, resolve a st next = .ok st := by
    intro next
    rw [resolve_eq, hready]
    exact congrArg Except.ok (settle_of_awaitsArgument harg next)
  induction cs with
  | nil =>
    rw [run, run, hresolve]
    rfl
  | cons c cs ih =>
    by_cases hc : isWhiteSpace c
    · -- both stay as they are
      have hlimits : resolve a ⟨items, frames, .limits op (some y) (some z)⟩ (some c) =
          .ok ⟨items, frames, .limits op (some y) (some z)⟩ :=
        resolve_limits_of_awaitsLimit (awaitsLimit_of_isWhiteSpace hc _ _)
      have hskip : consume a ⟨items, frames, .limits op (some y) (some z)⟩ c =
          .ok ⟨items, frames, .limits op (some y) (some z)⟩ := by
        have hlow : c ≠ '_' := by rintro rfl; exact absurd hc (by decide)
        have hhigh : c ≠ '^' := by rintro rfl; exact absurd hc (by decide)
        simp only [consume, hlow, hhigh, if_false]
      have hskip' : consume a st c = .ok st := by
        simp only [consume, hready, consumeReady, hc, if_true]
      rw [run, run, hlimits, hresolve]
      simp only [hskip, hskip', ih]
    · refine run_congr ?_ cs
      rw [Bool.not_eq_true] at hc
      have hnext : (some c).any isWhiteSpace = false := hc
      have hawait : awaitsLimit (some y) (some z) (some c) = false := by simp [awaitsLimit, hc]
      rw [hresolve, resolve_limits_of_not_awaitsLimit hawait, deliver_of_completes hnext h]

/-- Between two parts a command without ink is skipped like white space. -/
theorem run_deliverNothing_of_standsBetween {st st' : State} (h : st.standsBetween = true)
    (hresolve : resolve a st (some '\\') = .ok st') (cs : List Char) :
    run a (st'.deliverNothing (some ' ')) cs = run a st cs := by
  obtain ⟨items, frames, mode⟩ := st
  cases mode with
  | ready =>
    have harg : awaitsArgument frames = false := by
      simpa [State.standsBetween] using h
    rw [inert_backslash.resolve_ready rfl] at hresolve
    cases hresolve
    rw [deliverNothing_of_awaitsArgument harg, withMode_eq_self rfl]
  | limits op lower upper =>
    cases lower with
    | none => cases h
    | some y =>
      cases upper with
      | none => cases h
      | some z =>
        have hcompletes : completes frames = true := h
        obtain ⟨hready, harg, -⟩ := deliver_of_debt none (fun _ _ => rfl) items
          (.bigOperator op (some y) (some z)) (debt_of_completes hcompletes)
        rw [resolve_limits_of_not_awaitsLimit (inert_backslash.awaits _ _),
          deliver_of_completes (by decide) hcompletes] at hresolve
        cases hresolve
        rw [deliverNothing_of_awaitsArgument harg, withMode_eq_self hready,
          run_limits_of_completes hcompletes]
  | _ => cases h

end FormulaDrawing.Latex
