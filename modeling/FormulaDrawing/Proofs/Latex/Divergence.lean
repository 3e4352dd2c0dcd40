import FormulaDrawing.Proofs.Latex.Skipping

/-!
# Commands without ink where something is waited for

White space lets an argument or a limit come, and a command without ink does not: it stands for a
missing argument, and it ends the wait for limits. From a state that skips white space and does not
stand between two parts, some text tells the two apart (`diverge_of_not_standsBetween`): after it
both runs are in the same sequence, one of them at least one part ahead.
-/

namespace FormulaDrawing.Latex

open Unicode

variable {a : Allowance}

/-- Two states read on from some text alike with different numbers of parts. -/
def Diverge (a : Allowance) (st st' : State) : Prop :=
  ∃ w st₁ st₂, st₁.mode = .ready ∧ st₂.mode = .ready ∧ st₁.base = st₂.base ∧
    st₁.progress < st₂.progress ∧
    (∀ cs, run a st (w ++ 'x' :: cs) = run a st₁ ('x' :: cs)) ∧
    ∀ cs, run a st' (w ++ 'x' :: cs) = run a st₂ ('x' :: cs)

theorem deliverNothing_base (st : State) (next : Option Char) :
    (st.deliverNothing next).base = st.base := by
  unfold State.deliverNothing
  split
  · exact deliver_base next st.items .missing st.frames
  · rfl

/-- What is missing leaves the room that there was. -/
theorem deliverNothing_room (st : State) (next : Option Char)
    (hroom : a.used + st.frames.length + 1 ≤ a.limit) :
    a.used + (st.deliverNothing next).frames.length + 1 ≤ a.limit := by
  have hweight := st.deliverNothing_weight_le next
  have hframes := frames_le_weight (st.deliverNothing next)
  omega

theorem Inert.deliverNothing {c : Char} (hc : Inert c) (st : State) :
    (st.deliverNothing (some c)).mode = .ready ∧
      (st.deliverNothing (some c)).progress =
        st.progress + if awaitsArgument st.frames then 1 else 0 := by
  cases h : awaitsArgument st.frames with
  | false =>
    rw [deliverNothing_of_awaitsArgument h]
    exact ⟨rfl, by simp [State.progress, State.withMode]⟩
  | true =>
    unfold State.deliverNothing
    split
    · exact hc.deliver _ _ _
    next hne =>
      unfold awaitsArgument at h
      split at h
      next slot frames hframes => exact (hne slot frames hframes).elim
      next => cases h

/-- The signs that begin scripts and limits. -/
def IsSign (d : Char) : Prop := d = '_' ∨ d = '^'

theorem IsSign.closes {d : Char} (hd : IsSign d) (closer : Closer) : closer.char ≠ d := by
  rcases hd with rfl | rfl <;> cases closer <;> decide

theorem IsSign.le_deliverNothing {d : Char} (hd : IsSign d) (st : State) :
    ((st.deliverNothing (some d)).mode = .ready ∨
        ∃ op lower upper, (st.deliverNothing (some d)).mode = .limits op lower upper) ∧
      st.progress ≤ (st.deliverNothing (some d)).progress := by
  unfold State.deliverNothing
  split
  · rcases deliver_progress (closesAny_eq_false hd.closes) st.items .missing st.frames with
      ⟨hmode, hprogress⟩ | ⟨op, lower, upper, hmode, -, hprogress⟩
    · refine ⟨.inl hmode, ?_⟩
      rw [State.deliver, hprogress, State.progress]
      omega
    · refine ⟨.inr ⟨op, lower, upper, hmode⟩, ?_⟩
      exact Int.le_of_eq hprogress.symm
  · exact ⟨.inl rfl, Int.le_refl _⟩

/-- A sign begins an argument that is no numerator. -/
theorem IsSign.consume {st : State} {d : Char} (hd : IsSign d)
    (hmode : st.mode = .ready ∨ (∃ op lower upper, st.mode = .limits op lower upper) ∨
      st.mode = .limit ∧ d = '_')
    (hroom : a.used + st.frames.length + 1 ≤ a.limit) :
    ∃ slot, slot ≠ .numerator ∧
      consume a st d = .ok ⟨st.items, .argument slot :: st.frames, .ready⟩ := by
  have hpush : ∀ slot, (Move.push (.argument slot)).perform a st =
      .ok ⟨st.items, .argument slot :: st.frames, .ready⟩ :=
    fun slot => push_eq_ok_iff.2 ⟨hroom, rfl⟩
  have hmove : ∃ slot, slot ≠ .numerator ∧ Move.of st d = .push (.argument slot) := by
    rcases hmode with hready | ⟨op, lower, upper, hlimits⟩ | ⟨hlimit, rfl⟩
    · have hprimary : ∃ slot, slot ≠ .numerator ∧ Move.primary d = .push (.argument slot) := by
        rcases hd with rfl | rfl
        · exact ⟨.script .subscript, by simp, rfl⟩
        · exact ⟨.script .superscript, by simp, rfl⟩
      have hspace : isWhiteSpace d = false := by rcases hd with rfl | rfl <;> decide
      have hdigit : d.isDigit = false := by rcases hd with rfl | rfl <;> decide
      rw [Move.of_eq_primary hready hspace hdigit hd.closes]
      exact hprimary
    · rw [Move.of, hlimits]
      rcases hd with rfl | rfl
      · exact ⟨.lowerLimit op upper, by simp, rfl⟩
      · exact ⟨.upperLimit op lower, by simp, rfl⟩
    · rw [Move.of, hlimit]
      exact ⟨.approach, by simp, rfl⟩
  obtain ⟨slot, hslot, hof⟩ := hmove
  exact ⟨slot, hslot, by rw [consume_eq, hof, hpush]⟩

theorem diverge_of_letter {st st' st₁ : State} (h₁ : resolve a st (some 'x') = .ok st₁)
    (hready : st₁.mode = .ready) (hbase : st₁.base = st'.base)
    (hprogress : st₁.progress < st'.progress + if awaitsArgument st'.frames then 1 else 0) :
    Diverge a st (st'.deliverNothing (some ' ')) := by
  obtain ⟨hready', hprogress'⟩ := inert_letter.deliverNothing st'
  have h₂ : resolve a (st'.deliverNothing (some ' ')) (some 'x') =
      .ok (st'.deliverNothing (some 'x')) :=
    resolve_deliverNothing_of_isWhiteSpace (by decide) st' _
  refine ⟨[], st₁, st'.deliverNothing (some 'x'), hready, hready', ?_, ?_, fun cs => ?_,
    fun cs => ?_⟩
  · rw [hbase, deliverNothing_base]
  · rw [hprogress']
    exact hprogress
  · exact run_congr (h₁.trans (inert_letter.resolve_ready hready).symm) cs
  · exact run_congr (h₂.trans (inert_letter.resolve_ready hready').symm) cs

theorem progress_argument {items : Array Formula} {frames : List Frame} {slot : Slot}
    (h : slot ≠ .numerator) (mode : Mode) :
    State.progress ⟨items, .argument slot :: frames, .ready⟩ =
      State.progress ⟨items, frames, mode⟩ := by
  simp only [State.progress, innermost, debt_argument_of_ne h]

theorem diverge_of_sign {st st' st₁ : State} {d : Char} (hd : IsSign d)
    (h₁ : resolve a st (some d) = .ok st₁)
    (hmode : (∃ op lower upper, st₁.mode = .limits op lower upper) ∨ st₁.mode = .limit ∧ d = '_')
    (hroom₁ : a.used + st₁.frames.length + 1 ≤ a.limit)
    (hroom' : a.used + st'.frames.length + 1 ≤ a.limit) (hbase : st₁.base = st'.base)
    (hprogress : st₁.progress < st'.progress) :
    Diverge a st (st'.deliverNothing (some ' ')) := by
  obtain ⟨slot₁, hslot₁, hconsume₁⟩ := hd.consume (.inr hmode) hroom₁
  obtain ⟨hmode₂, hprogress₂⟩ := hd.le_deliverNothing st'
  have hroom₂ := deliverNothing_room st' (some d) hroom'
  obtain ⟨slot₂, hslot₂, hconsume₂⟩ := hd.consume (hmode₂.imp_right .inl) hroom₂
  have h₂ : resolve a (st'.deliverNothing (some ' ')) (some d) =
      .ok (st'.deliverNothing (some d)) :=
    resolve_deliverNothing_of_isWhiteSpace (by decide) st' _
  refine ⟨[d], _, _, rfl, rfl, ?_, ?_, fun cs => run_step h₁ hconsume₁ _,
    fun cs => run_step h₂ hconsume₂ _⟩
  · exact hbase.trans (deliverNothing_base st' (some d)).symm
  · rw [progress_argument hslot₁ st₁.mode,
      progress_argument hslot₂ (st'.deliverNothing (some d)).mode]
    exact Int.lt_of_lt_of_le hprogress hprogress₂

/-- What does not complete whatever follows waits for a denominator after a command, or for a limit
that a sign begins. -/
theorem deliver_of_not_completes {frames : List Frame} (h : completes frames = false)
    (items : Array Formula) (y : Formula) :
    awaitsArgument (deliver (some '\\') items y frames).frames = true ∨
      ∃ d, IsSign d ∧ ∃ op lower upper,
        (deliver (some d) items y frames).mode = .limits op lower upper := by
  have hawait : ∀ y z d, d = '\\' ∨ IsSign d →
      awaitsLimit (some y) (some z) (some d) = false := by
    rintro y z d (rfl | rfl | rfl) <;> rfl
  induction frames generalizing y with
  | nil => cases h
  | cons frame frames ih =>
    cases frame with
    | sequence closer xs => cases h
    | argument slot =>
      cases slot with
      | numerator =>
        left
        simp only [deliver, closesAny_backslash, Bool.false_eq_true, if_false, awaitsArgument]
      | lowerLimit op upper =>
        cases upper with
        | none => exact .inr ⟨'^', .inr rfl, op, some y, none, rfl⟩
        | some z =>
          refine (ih h (.bigOperator op (some y) (some z))).imp (fun hbackslash => ?_) ?_
          · simpa only [deliver, hawait y z _ (.inl rfl), Bool.false_eq_true, if_false]
              using hbackslash
          · rintro ⟨d, hd, hmode⟩
            refine ⟨d, hd, ?_⟩
            simpa only [deliver, hawait y z _ (.inr hd), Bool.false_eq_true, if_false] using hmode
      | upperLimit op lower =>
        cases lower with
        | none => exact .inr ⟨'_', .inl rfl, op, none, some y, rfl⟩
        | some z =>
          refine (ih h (.bigOperator op (some z) (some y))).imp (fun hbackslash => ?_) ?_
          · simpa only [deliver, hawait z y _ (.inl rfl), Bool.false_eq_true, if_false]
              using hbackslash
          · rintro ⟨d, hd, hmode⟩
            refine ⟨d, hd, ?_⟩
            simpa only [deliver, hawait z y _ (.inr hd), Bool.false_eq_true, if_false] using hmode
      | script side | denominator n | radicand index | approach => exact ih h _

/-! ## Literal text -/

/-- Empty literal text is nothing. -/
theorem run_rawStart_empty {st : State} {name : String} (hmode : st.mode = .rawStart name)
    (cs : List Char) : run a st ('\x7b' :: '\x7d' :: 'x' :: cs) =
      run a (st.deliverNothing (some 'x')) ('x' :: cs) := by
  have hstart : resolve a st (some '\x7b') = .ok (st.withMode (.rawStart name)) := by
    rw [resolve, hmode]
    rfl
  have hopen : consume a (st.withMode (.rawStart name)) '\x7b' =
      .ok (st.withMode (.raw [] 0)) := rfl
  have hraw : resolve a (st.withMode (.raw [] 0)) (some '\x7d') =
      .ok (st.withMode (.raw [] 0)) := rfl
  have hclose : consume a (st.withMode (.raw [] 0)) '\x7d' = .ok (st.withMode .skipped) := rfl
  have hskipped : resolve a (st.withMode .skipped) (some 'x') =
      .ok (st.deliverNothing (some 'x')) :=
    congrArg Except.ok (deliverNothing_withMode st _ _)
  have hready := (inert_letter.deliverNothing st).1
  rw [run_step hstart hopen, run_step hraw hclose]
  exact run_congr (hskipped.trans (inert_letter.resolve_ready hready).symm) cs

/-- An empty group is a missing part. -/
theorem run_group_empty {st : State} (hready : st.mode = .ready)
    (hroom : a.used + st.frames.length + 1 ≤ a.limit) (cs : List Char) :
    run a st ('\x7b' :: '\x7d' :: 'x' :: cs) =
      run a (st.deliver (some 'x') .missing) ('x' :: cs) := by
  have hopen : consume a st '\x7b' =
      .ok ⟨st.items, .sequence .brace #[] :: st.frames, .ready⟩ := by
    rw [consume_eq, Move.of_eq_primary hready (by decide) (by decide) inert_brace.closes]
    exact push_eq_ok_iff.2 ⟨hroom, rfl⟩
  have hgroup : resolve a ⟨st.items, .sequence .brace #[] :: st.frames, .ready⟩ (some '\x7d') =
      .ok ⟨st.items, .sequence .brace #[] :: st.frames, .ready⟩ := rfl
  have hclose : consume a ⟨st.items, .sequence .brace #[] :: st.frames, .ready⟩ '\x7d' =
      .ok (st.withMode (.finished .missing)) := rfl
  have hfinished : resolve a (st.withMode (.finished .missing)) (some 'x') =
      .ok (st.deliver (some 'x') .missing) := rfl
  have hready' : (st.deliver (some 'x') .missing).mode = .ready := (inert_letter.deliver _ _ _).1
  rw [run_step (inert_brace.resolve_ready hready) hopen, run_step hgroup hclose]
  exact run_congr (hfinished.trans (inert_letter.resolve_ready hready').symm) cs

/-- A brace after white space begins literal text, and after a command without ink a group. -/
theorem diverge_of_rawStart {st st' : State} {name : String} (hmode : st.mode = .rawStart name)
    (hresolve : resolve a st (some '\\') = .ok st')
    (hroom : a.used + st'.frames.length + 1 ≤ a.limit) :
    Diverge a st (st'.deliverNothing (some ' ')) := by
  have hdeliver : st' = st.deliver (some '\\') (.text name) := by
    rw [resolve, hmode] at hresolve
    exact (Except.ok.inj hresolve).symm
  obtain ⟨-, hprogress'⟩ := inert_backslash.deliver st.items (.text name) st.frames
  obtain ⟨hready₁, hprogress₁⟩ := inert_brace.deliverNothing st'
  have hroom₁ := deliverNothing_room st' (some '\x7b') hroom
  have hbrace : resolve a (st'.deliverNothing (some ' ')) (some '\x7b') =
      .ok (st'.deliverNothing (some '\x7b')) :=
    resolve_deliverNothing_of_isWhiteSpace (by decide) st' _
  set st₁ := st'.deliverNothing (some '\x7b')
  obtain ⟨hready, hprogress⟩ := inert_letter.deliverNothing st
  obtain ⟨hready₂, hprogress₂⟩ := inert_letter.deliver st₁.items .missing st₁.frames
  refine ⟨['\x7b', '\x7d'], st.deliverNothing (some 'x'), st₁.deliver (some 'x') .missing, hready,
    hready₂, ?_, ?_, run_rawStart_empty hmode, fun cs => ?_⟩
  · rw [deliverNothing_base, State.deliver, deliver_base]
    have hbase₁ : st₁.base = st'.base := deliverNothing_base st' _
    have hbase' : st'.base = st.base := by
      rw [hdeliver]
      exact deliver_base _ _ _ _
    exact (hbase₁.trans hbase').symm
  · have hnext : st.progress + 1 = st'.progress := by
      rw [hdeliver, State.deliver, hprogress', State.progress]
    have hlast : (st₁.deliver (some 'x') .missing).progress = st₁.progress + 1 := hprogress₂
    rw [hprogress, hlast, hprogress₁]
    split <;> split <;> omega
  · rw [← run_group_empty hready₁ hroom₁]
    exact run_congr (hbrace.trans (inert_brace.resolve_ready hready₁).symm) _

/-! ## Limits -/

theorem diverge_of_limit {items : Array Formula} {frames : List Frame} {st' : State}
    (hresolve : resolve a ⟨items, frames, .limit⟩ (some '\\') = .ok st')
    (hroom : a.used + frames.length + 1 ≤ a.limit)
    (hroom' : a.used + st'.frames.length + 1 ≤ a.limit) :
    Diverge a ⟨items, frames, .limit⟩ (st'.deliverNothing (some ' ')) := by
  have hdeliver : st' = deliver (some '\\') items (.limit none) frames :=
    (Except.ok.inj hresolve).symm
  obtain ⟨-, hprogress⟩ := inert_backslash.deliver items (.limit none) frames
  have hsign : IsSign '_' := .inl rfl
  have hstays : resolve a ⟨items, frames, .limit⟩ (some '_') = .ok ⟨items, frames, .limit⟩ := rfl
  refine diverge_of_sign hsign hstays (.inr ⟨rfl, rfl⟩) hroom hroom' ?_ ?_
  · rw [hdeliver, deliver_base]
    rfl
  · rw [hdeliver, hprogress]
    exact Int.lt_succ _

/-- A sign after white space begins a limit, and after a command without ink a script. -/
theorem diverge_of_awaitsLimit {items : Array Formula} {frames : List Frame} {op : BigOperator}
    {lower upper : Option Formula} {d : Char} {st' : State} (hd : IsSign d)
    (hawait : awaitsLimit lower upper (some d) = true)
    (hresolve : resolve a ⟨items, frames, .limits op lower upper⟩ (some '\\') = .ok st')
    (hroom : a.used + frames.length + 1 ≤ a.limit)
    (hroom' : a.used + st'.frames.length + 1 ≤ a.limit) :
    Diverge a ⟨items, frames, .limits op lower upper⟩ (st'.deliverNothing (some ' ')) := by
  rw [resolve_limits_of_not_awaitsLimit (inert_backslash.awaits _ _)] at hresolve
  cases hresolve
  obtain ⟨-, hprogress⟩ := inert_backslash.deliver items (.bigOperator op lower upper) frames
  refine diverge_of_sign hd (resolve_limits_of_awaitsLimit hawait) (.inl ⟨op, lower, upper, rfl⟩)
    hroom hroom' ?_ ?_
  · rw [deliver_base]
    rfl
  · rw [hprogress]
    exact Int.lt_succ _

/-- A command without ink ends the wait of structures around a big operator with both limits. -/
theorem diverge_of_not_completes {items : Array Formula} {frames : List Frame} {op : BigOperator}
    {y z : Formula} {st' : State} (h : completes frames = false)
    (hresolve : resolve a ⟨items, frames, .limits op (some y) (some z)⟩ (some '\\') = .ok st')
    (hroom : a.used + frames.length + 1 ≤ a.limit)
    (hroom' : a.used + st'.frames.length + 1 ≤ a.limit) :
    Diverge a ⟨items, frames, .limits op (some y) (some z)⟩ (st'.deliverNothing (some ' ')) := by
  rw [resolve_limits_of_not_awaitsLimit (inert_backslash.awaits _ _)] at hresolve
  cases hresolve
  set x : Formula := .bigOperator op (some y) (some z) with hx
  obtain ⟨-, hprogress⟩ := inert_backslash.deliver items x frames
  rcases deliver_of_not_completes h items x with harg | ⟨d, hd, op', lower, upper, hmode⟩
  · -- the command cuts a denominator off
    obtain ⟨hready, hletter⟩ := inert_letter.deliver items x frames
    have hgoes : resolve a ⟨items, frames, .limits op (some y) (some z)⟩ (some 'x') =
        .ok (deliver (some 'x') items x frames) := resolve_limits_of_not_awaitsLimit rfl
    refine diverge_of_letter hgoes hready ?_ ?_
    · rw [deliver_base, deliver_base]
    · rw [hletter, hprogress, harg, if_pos rfl]
      exact Int.lt_succ _
  · -- the command ends the wait for a limit of an operator further out
    have hgoes : resolve a ⟨items, frames, .limits op (some y) (some z)⟩ (some d) =
        .ok (deliver (some d) items x frames) :=
      resolve_limits_of_not_awaitsLimit (by rcases hd with rfl | rfl <;> rfl)
    have hwaits : (deliver (some d) items x frames).progress =
        (innermost items frames).size - debt frames := by
      rcases deliver_progress (closesAny_eq_false hd.closes) items x frames with
        ⟨hready, -⟩ | ⟨_, _, _, -, -, hwaits⟩
      · rw [hmode] at hready
        cases hready
      · exact hwaits
    have hframes := deliver_weight_le (some d) items x frames
    have hlength := frames_le_weight (deliver (some d) items x frames)
    refine diverge_of_sign hd hgoes (.inl ⟨op', lower, upper, hmode⟩) (by omega) hroom' ?_ ?_
    · rw [deliver_base, deliver_base]
    · rw [hwaits, hprogress]
      exact Int.lt_succ _

/-! ## Radicands -/

theorem diverge_of_radical {items : Array Formula} {frames : List Frame} {st' : State}
    (hresolve : resolve a ⟨items, frames, .radical⟩ (some '\\') = .ok st')
    (hroom : a.used + frames.length + 1 ≤ a.limit) :
    Diverge a ⟨items, frames, .radical⟩ (st'.deliverNothing (some ' ')) := by
  have hpush : ∀ {c}, Inert c → isWhiteSpace c = false → c ≠ '[' →
      resolve a ⟨items, frames, .radical⟩ (some c) =
        .ok ⟨items, .argument (.radicand none) :: frames, .ready⟩ := by
    intro c hc hspace hbracket
    simp only [resolve, resolveRadical, hspace, Bool.false_or, beq_iff_eq, hbracket, if_false]
    exact pushArgument_eq_ok_iff.2 ⟨hroom, hc.settle _⟩
  rw [hpush inert_backslash (by decide) (by decide)] at hresolve
  cases hresolve
  refine diverge_of_letter (hpush inert_letter (by decide) (by decide)) rfl rfl ?_
  simp only [awaitsArgument, if_true]
  omega

/-! ## Every wait -/

/-- Where something is waited for, a command without ink is not skipped like white space. -/
theorem diverge_of_not_standsBetween {st st' : State} (hskips : st.mode.Skips)
    (h : st.standsBetween = false) (hresolve : resolve a st (some '\\') = .ok st')
    (hroom : a.used + st.frames.length + 2 ≤ a.limit) :
    Diverge a st (st'.deliverNothing (some ' ')) := by
  have hroom' : a.used + st'.frames.length + 1 ≤ a.limit := by
    have := resolve_weight_le hresolve
    have := frames_le_weight st'
    have := Mode.pending_le st.mode
    simp only [State.weight] at *
    omega
  obtain ⟨items, frames, mode⟩ := st
  have hroom₁ : a.used + frames.length + 1 ≤ a.limit := Nat.le_of_succ_le hroom
  cases mode with
  | ready =>
    have harg : awaitsArgument frames = true := by simpa [State.standsBetween] using h
    rw [inert_backslash.resolve_ready rfl] at hresolve
    cases hresolve
    refine diverge_of_letter (inert_letter.resolve_ready rfl) rfl rfl ?_
    rw [harg, if_pos rfl]
    omega
  | radical => exact diverge_of_radical hresolve hroom₁
  | limit => exact diverge_of_limit hresolve hroom₁ hroom'
  | rawStart name => exact diverge_of_rawStart rfl hresolve hroom'
  | limits op lower upper =>
    cases lower with
    | none =>
      have hawait : awaitsLimit none upper (some '_') = true := by cases upper <;> rfl
      exact diverge_of_awaitsLimit (.inl rfl) hawait hresolve hroom₁ hroom'
    | some y =>
      cases upper with
      | none => exact diverge_of_awaitsLimit (.inr rfl) rfl hresolve hroom₁ hroom'
      | some z => exact diverge_of_not_completes h hresolve hroom₁ hroom'
  | _ => exact hskips.elim

end FormulaDrawing.Latex
