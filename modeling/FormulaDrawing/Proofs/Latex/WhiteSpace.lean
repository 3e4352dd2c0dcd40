import FormulaDrawing.Proofs.Latex.Step

/-!
# White space between parts

White space as lookahead completes whatever it can and closes nothing, so a part that was put in
its place before white space is in the same place as if the white space had not been there:

    resolve a (deliver (some ' ') items x frames) next = .ok (deliver next items x frames)

and a state that has reacted to white space reacts to a command as it would have before
(`resolve_of_isWhiteSpace`).
-/

namespace FormulaDrawing.Latex

open Unicode

variable {a : Allowance} {c : Char}

/-! ## Characters -/

/-- Between the space and the first control character above ASCII nothing is white space. -/
theorem isWhiteSpace_eq_false (h : 0x20 < c.toNat ∧ c.toNat < 0x85) : isWhiteSpace c = false := by
  have hlow : ¬ c.toNat < 0x9 ∧ ¬ c.toNat ≤ 0xD ∧ ¬ c.toNat < 0x20 ∧ ¬ c.toNat ≤ 0x20 := by omega
  simp [isWhiteSpace, whiteSpace, inRanges, hlow, h.2]

theorem toNat_of_isDigit (h : c.isDigit = true) : 48 ≤ c.toNat ∧ c.toNat ≤ 57 := by
  simp only [Char.isDigit, ge_iff_le, Bool.and_eq_true, decide_eq_true_eq,
    UInt32.le_iff_toNat_le] at h
  exact h

theorem toNat_of_isAlpha (h : c.isAlpha = true) : 65 ≤ c.toNat ∧ c.toNat ≤ 122 := by
  have hcase : c.isUpper = true ∨ c.isLower = true := (Bool.or_eq_true _ _).mp h
  rcases hcase with hupper | hlower
  · have hrange : 65 ≤ c.toNat ∧ c.toNat ≤ 90 := of_decide_eq_true hupper
    omega
  · have hboth := (Bool.and_eq_true _ _).mp hlower
    have hlow : 97 ≤ c.toNat := of_decide_eq_true hboth.1
    have hhigh : c.toNat ≤ 122 := of_decide_eq_true hboth.2
    omega

theorem isDigit_of_isWhiteSpace (hc : isWhiteSpace c = true) : c.isDigit = false := by
  cases h : c.isDigit with
  | false => rfl
  | true =>
    have hrange := toNat_of_isDigit h
    rw [isWhiteSpace_eq_false (by omega)] at hc
    cases hc

theorem isAlpha_of_isWhiteSpace (hc : isWhiteSpace c = true) : c.isAlpha = false := by
  cases h : c.isAlpha with
  | false => rfl
  | true =>
    have hrange := toNat_of_isAlpha h
    rw [isWhiteSpace_eq_false (by omega)] at hc
    cases hc

/-! ## Lookaheads that close nothing -/

theorem closesAny_eq_false (h : ∀ closer : Closer, closer.char ≠ c) (frames : List Frame) :
    closesAny frames (some c) = false := by
  simp only [closesAny, List.any_eq_false]
  intro frame _
  cases frame with
  | argument slot => exact Bool.false_ne_true
  | sequence closer items => simpa using h closer

theorem closesAny_of_isWhiteSpace (hc : isWhiteSpace c = true) (frames : List Frame) :
    closesAny frames (some c) = false := by
  refine closesAny_eq_false ?_ frames
  rintro closer rfl
  cases closer <;> exact absurd hc (by decide)

theorem closesAny_backslash (frames : List Frame) : closesAny frames (some '\\') = false := by
  refine closesAny_eq_false (fun closer => ?_) frames
  cases closer <;> decide

theorem settle_eq_self {st : State} {next : Option Char}
    (h : ∀ slot frames, st.frames ≠ .argument slot :: frames) : st.settle next = st := by
  unfold State.settle
  split
  next slot frames hframes => exact absurd hframes (h slot frames)
  next => rfl

/-- What closes nothing cuts no argument off. -/
theorem settle_of_closesAny {st : State} {next : Option Char}
    (h : ∀ frames, closesAny frames next = false) : st.settle next = st := by
  unfold State.settle
  split
  · rw [h, if_neg Bool.false_ne_true]
  · rfl

theorem awaitsLimit_of_isWhiteSpace (hc : isWhiteSpace c = true) (lower upper : Option Formula) :
    awaitsLimit lower upper (some c) = true := by
  simp [awaitsLimit, hc]

/-- What was delivered before white space is where it is delivered without it. -/
theorem resolve_deliver_of_isWhiteSpace (hc : isWhiteSpace c = true) (items : Array Formula)
    (x : Formula) (frames : List Frame) (next : Option Char) :
    resolve a (deliver (some c) items x frames) next = .ok (deliver next items x frames) := by
  fun_induction deliver (some c) items x frames with
  | case1 x => rfl
  | case2 x closer xs frames => rfl
  | case3 x frames hclose ih =>
    rw [closesAny_of_isWhiteSpace hc] at hclose
    cases hclose
  | case4 x frames hclose =>
    simp only [resolve, State.settle, closesAny_argument, deliver]
    split
    · simp only [State.deliver, deliver, Slot.fill]
    · rfl
  | case5 x frames op upper hawait =>
    simp only [resolve, deliver]
    split <;> rfl
  | case6 x frames op upper hawait ih =>
    exact absurd (awaitsLimit_of_isWhiteSpace hc _ _) hawait
  | case7 x frames op lower hawait =>
    simp only [resolve, deliver]
    split <;> rfl
  | case8 x frames op lower hawait ih =>
    exact absurd (awaitsLimit_of_isWhiteSpace hc _ _) hawait
  | case9 x frames slot h1 h2 h3 ih =>
    rw [ih]
    cases slot with
    | numerator => exact (h1 rfl).elim
    | lowerLimit op upper => exact (h2 op upper rfl).elim
    | upperLimit op lower => exact (h3 op lower rfl).elim
    | _ => simp only [deliver]

/-- An argument that is missing before white space is missing without it. -/
theorem resolve_deliverNothing_of_isWhiteSpace (hc : isWhiteSpace c = true) (st : State)
    (next : Option Char) :
    resolve a (st.deliverNothing (some c)) next = .ok (st.deliverNothing next) := by
  unfold State.deliverNothing
  split
  next slot frames h => exact resolve_deliver_of_isWhiteSpace hc _ _ _ _
  next h => exact congrArg Except.ok (settle_eq_self h)

theorem resolve_pushArgument_of_isWhiteSpace (hc : isWhiteSpace c = true) {st st' : State}
    {slot : Slot} (h : pushArgument a st (some c) slot = .ok st') :
    resolve a st' (some '\\') = pushArgument a st (some '\\') slot := by
  obtain ⟨hroom, rfl⟩ := pushArgument_eq_ok_iff.1 h
  have hpush : pushArgument a st (some '\\') slot = .ok _ :=
    pushArgument_eq_ok_iff.2 ⟨hroom, rfl⟩
  rw [hpush, settle_of_closesAny (closesAny_of_isWhiteSpace hc)]
  rfl

/-- A command reacts to what follows it as it does after white space. -/
theorem resolve_resolveCommand_of_isWhiteSpace (hc : isWhiteSpace c = true) (hdot : c ≠ '.')
    {st st' : State} {command : Command}
    (h : resolveCommand a st (some c) command = .ok st') :
    resolve a st' (some '\\') = resolveCommand a st (some '\\') command := by
  cases command with
  | fraction => exact resolve_pushArgument_of_isWhiteSpace hc h
  | root =>
    simp only [resolveCommand, resolveRadical, hc, Bool.true_or, if_true] at h
    cases h
    rfl
  | bigOperator op =>
    simp only [resolveCommand, awaitsLimit_of_isWhiteSpace hc, if_true] at h
    cases h
    rfl
  | limit =>
    simp only [resolveCommand, Option.any_some, hc, Bool.true_or, if_true] at h
    cases h
    rfl
  | sizing =>
    have hne : (some c == some '.') = false := by simpa using hdot
    simp only [resolveCommand, hne, Bool.false_eq_true, if_false] at h
    cases h
    exact resolve_deliverNothing_of_isWhiteSpace hc st _
  | space =>
    cases h
    exact resolve_deliverNothing_of_isWhiteSpace hc st _
  | rawText name =>
    simp only [resolveCommand, Option.any_some, hc, Bool.true_or, if_true] at h
    cases h
    rfl
  | leaf leaf =>
    cases h
    exact resolve_deliver_of_isWhiteSpace hc _ _ _ _

/-- White space before a command changes nothing that the command meets. -/
theorem resolve_of_isWhiteSpace (hc : isWhiteSpace c = true) {st st' : State}
    (h : resolve a st (some c) = .ok st') :
    resolve a st' (some '\\') = resolve a st (some '\\') := by
  have hdot : c ≠ '.' := by
    rintro rfl
    exact absurd hc (by decide)
  have hcommand : ∀ {st : State} (command : Command),
      (∀ next, resolve a st next = resolveCommand a st next command) →
      resolve a st (some c) = .ok st' → resolve a st' (some '\\') = resolve a st (some '\\') := by
    intro st command heq h
    rw [heq] at h ⊢
    exact resolve_resolveCommand_of_isWhiteSpace hc hdot h
  obtain ⟨items, frames, mode⟩ := st
  cases mode with
  | ready =>
    cases h
    rw [settle_of_closesAny (closesAny_of_isWhiteSpace hc)]
  | finished x =>
    cases h
    exact resolve_deliver_of_isWhiteSpace hc _ _ _ _
  | skipped =>
    cases h
    exact resolve_deliverNothing_of_isWhiteSpace hc _ _
  | number digits =>
    have hnumber : (c.isDigit || c == '.') = false := by
      simp [isDigit_of_isWhiteSpace hc, hdot]
    simp only [resolve, Option.any_some, hnumber, Bool.false_eq_true, if_false] at h
    cases h
    exact resolve_deliver_of_isWhiteSpace hc _ _ _ _
  | command name =>
    cases name with
    | nil => cases h; rfl
    | cons d name =>
      simp only [resolve, Option.any_some, isAlpha_of_isWhiteSpace hc, Bool.false_eq_true,
        if_false] at h
      exact resolve_resolveCommand_of_isWhiteSpace hc hdot h
  | limits op lower upper =>
    simp only [resolve, awaitsLimit_of_isWhiteSpace hc, if_true] at h
    cases h
    rfl
  | radical => exact hcommand .root (fun _ => rfl) h
  | limit => exact hcommand .limit (fun _ => rfl) h
  | sizing => exact hcommand .sizing (fun _ => rfl) h
  | rawStart name => exact hcommand (.rawText name) (fun _ => rfl) h
  | raw text inner => cases h; rfl

end FormulaDrawing.Latex
