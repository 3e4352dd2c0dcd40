import FormulaDrawing.Proofs.Latex.Step
import Mathlib.Data.Nat.Find

/-!
# The nesting limit has a threshold

Whether a source is read depends on the limit in one way only: from a threshold on, every limit
gives the same formula, and below it every limit is exceeded by one level.

Three facts about runs carry this. A complete run stays the same under a greater limit
(`run_mono`). A run that fails does so one level past the limit (`run_depth`). A run that has as
much room as it has characters left is complete (`run_complete`): every structure weighs at most
the characters it was written with, where a command that may still begin an argument weighs one
frame already (`State.weight`).
-/

namespace FormulaDrawing.Latex

/-! ## Weight -/

/-- The frames that the lookahead alone can add. -/
def Mode.pending : Mode → Nat
  | .command _ | .radical => 1
  | _ => 0

/-- The frames, and those that the lookahead can add. -/
def State.weight (st : State) : Nat := st.frames.length + st.mode.pending

theorem Mode.pending_le (mode : Mode) : mode.pending ≤ 1 := by
  cases mode <;> simp [Mode.pending]

theorem deliver_weight_le (next : Option Char) (items : Array Formula) (x : Formula)
    (frames : List Frame) : (deliver next items x frames).weight ≤ frames.length := by
  fun_induction deliver next items x frames with
  | case1 x => simp [State.weight, Mode.pending]
  | case2 x closer xs frames => simp [State.weight, Mode.pending]
  | case3 x frames hclose ih => simp only [List.length_cons]; omega
  | case4 x frames hclose => simp [State.weight, Mode.pending]
  | case5 x frames op upper hawait => simp [State.weight, Mode.pending]
  | case6 x frames op upper hawait ih => simp only [List.length_cons]; omega
  | case7 x frames op lower hawait => simp [State.weight, Mode.pending]
  | case8 x frames op lower hawait ih => simp only [List.length_cons]; omega
  | case9 x frames slot _ _ _ ih => simp only [List.length_cons]; omega

theorem State.settle_weight_le (st : State) (next : Option Char) :
    (st.settle next).weight ≤ st.weight := by
  unfold State.settle
  split
  · split
    · have := deliver_weight_le next st.items .missing st.frames
      exact Nat.le_trans this (Nat.le_add_right _ _)
    · exact Nat.le_refl _
  · exact Nat.le_refl _

theorem State.deliverNothing_weight_le (st : State) (next : Option Char) :
    (st.deliverNothing next).weight ≤ st.frames.length := by
  unfold State.deliverNothing
  split
  · exact deliver_weight_le next st.items .missing st.frames
  · simp [State.withMode, State.weight, Mode.pending]

/-- Only a mode that is counted as a frame begins an argument. -/
theorem Reaction.of_eq_argue {mode : Mode} {next : Option Char} {slot : Slot}
    (h : Reaction.of mode next = .argue slot) : mode.pending = 1 := by
  cases mode with
  | command name => rfl
  | radical => rfl
  | _ =>
    simp only [Reaction.of, Reaction.ofCommand, Reaction.ofRaw] at h
    repeat' split at h
    all_goals cases h

theorem Reaction.of_eq_wait {mode mode' : Mode} {next : Option Char}
    (h : Reaction.of mode next = .wait mode') : mode'.pending ≤ mode.pending := by
  cases mode with
  | command name => exact Mode.pending_le mode'
  | radical => exact Mode.pending_le mode'
  | _ =>
    simp only [Reaction.of, Reaction.ofCommand, Reaction.ofRaw] at h
    repeat' split at h
    all_goals cases h
    all_goals exact Nat.le_refl _

/-- A lookahead adds no weight. -/
theorem resolve_weight_le {a : Allowance} {st st' : State} {next : Option Char}
    (h : resolve a st next = .ok st') : st'.weight ≤ st.weight := by
  cases resolves_of_ok h with
  | stay => exact Nat.le_refl _
  | settle => exact st.settle_weight_le next
  | wait mode hr => exact Nat.add_le_add_left (Reaction.of_eq_wait hr) _
  | deliver x =>
    exact Nat.le_trans (deliver_weight_le next st.items x st.frames) (Nat.le_add_right _ _)
  | skip => exact Nat.le_trans (st.deliverNothing_weight_le next) (Nat.le_add_right _ _)
  | argue slot hr =>
    have hp := Reaction.of_eq_argue hr
    refine Nat.le_trans (State.settle_weight_le _ next) ?_
    simp only [State.weight, hp, List.length_cons]
    simp [Mode.pending]

theorem closeSequence_weight_le (st : State) (frames : List Frame) (items : Array Formula)
    (closer : Closer) : (closeSequence st frames items closer).weight ≤ frames.length + 1 := by
  cases closer <;> simp [closeSequence, State.weight, Mode.pending]

/-- A character adds at most one frame. -/
theorem consume_weight_le {a : Allowance} {st st' : State} {c : Char}
    (h : consume a st c = .ok st') : st'.weight ≤ st.weight + 1 := by
  cases consumes_of_ok h with
  | turn mode =>
    have := Mode.pending_le mode
    simp only [State.weight, State.withMode]
    omega
  | push frame =>
    simp only [State.weight, Mode.pending, List.length_cons]
    omega
  | close closer items frames hm hf =>
    have := closeSequence_weight_le st frames items closer
    simp only [State.weight, hf, List.length_cons] at this ⊢
    omega

/-! ## Errors -/

/-- A lookahead fails by the frame of an argument that is counted already. -/
theorem depth_of_resolve_error {a : Allowance} {st : State} {next : Option Char} {depth : Nat}
    (h : resolve a st next = .error depth) :
    depth = a.used + st.frames.length + 1 ∧ a.limit < depth ∧ depth = a.used + st.weight := by
  rw [resolve_eq] at h
  cases hr : Reaction.of st.mode next with
  | argue slot =>
    have hp := Reaction.of_eq_argue hr
    rw [hr] at h
    obtain ⟨hdepth, hlimit⟩ := pushArgument_eq_error_iff.1 h
    refine ⟨hdepth, hlimit, ?_⟩
    simp only [State.weight, hp]
    omega
  | _ => rw [hr] at h; cases h

theorem depth_of_consume_error {a : Allowance} {st : State} {c : Char} {depth : Nat}
    (h : consume a st c = .error depth) :
    depth = a.used + st.frames.length + 1 ∧ a.limit < depth := by
  rw [consume_eq] at h
  cases hm : Move.of st c with
  | push frame => rw [hm] at h; exact push_eq_error_iff.1 h
  | _ => rw [hm] at h; cases h

/-! ## Frames under a bound -/

theorem frames_le_weight (st : State) : st.frames.length ≤ st.weight := Nat.le_add_right _ _

theorem State.settle_frames_le (st : State) (next : Option Char) :
    (st.settle next).frames.length ≤ st.frames.length := by
  unfold State.settle
  split
  · split
    · exact Nat.le_trans (frames_le_weight _) (deliver_weight_le next st.items .missing st.frames)
    · exact Nat.le_refl _
  · exact Nat.le_refl _

/-- A bound at or past the limit, once it holds of the frames, goes on to hold. -/
theorem frames_of_resolve {a : Allowance} {st st' : State} {next : Option Char} {bound : Nat}
    (h : resolve a st next = .ok st') (hlimit : a.limit ≤ bound)
    (hst : a.used + st.frames.length ≤ bound) : a.used + st'.frames.length ≤ bound := by
  cases resolves_of_ok h with
  | stay | wait mode => exact hst
  | settle =>
    have := st.settle_frames_le next
    omega
  | deliver x =>
    have := deliver_weight_le next st.items x st.frames
    have := frames_le_weight (deliver next st.items x st.frames)
    omega
  | skip =>
    have := st.deliverNothing_weight_le next
    have := frames_le_weight (st.deliverNothing next)
    omega
  | argue slot hr hroom =>
    have := State.settle_frames_le ⟨st.items, .argument slot :: st.frames, .ready⟩ next
    simp only [List.length_cons] at this
    omega

theorem frames_of_consume {a : Allowance} {st st' : State} {c : Char} {bound : Nat}
    (h : consume a st c = .ok st') (hlimit : a.limit ≤ bound)
    (hst : a.used + st.frames.length ≤ bound) : a.used + st'.frames.length ≤ bound := by
  cases consumes_of_ok h with
  | turn mode => exact hst
  | push frame hm hroom =>
    simp only [List.length_cons]
    omega
  | close closer items frames hm hf =>
    have := closeSequence_weight_le st frames items closer
    have := frames_le_weight (closeSequence st frames items closer)
    rw [hf, List.length_cons] at hst
    omega

/-! ## Greater limits -/

theorem resolve_mono {used limit limit' : Nat} {st st' : State} {next : Option Char}
    (h : resolve ⟨used, limit⟩ st next = .ok st') (hlimit : limit ≤ limit') :
    resolve ⟨used, limit'⟩ st next = .ok st' := by
  rw [resolve_eq] at h ⊢
  cases hr : Reaction.of st.mode next with
  | argue slot =>
    rw [hr] at h
    obtain ⟨hroom, rfl⟩ := pushArgument_eq_ok_iff.1 h
    exact pushArgument_eq_ok_iff.2 ⟨Nat.le_trans hroom hlimit, rfl⟩
  | _ => rw [hr] at h; exact h

theorem consume_mono {used limit limit' : Nat} {st st' : State} {c : Char}
    (h : consume ⟨used, limit⟩ st c = .ok st') (hlimit : limit ≤ limit') :
    consume ⟨used, limit'⟩ st c = .ok st' := by
  rw [consume_eq] at h ⊢
  cases hm : Move.of st c with
  | push frame =>
    rw [hm] at h
    obtain ⟨hroom, rfl⟩ := push_eq_ok_iff.1 h
    exact push_eq_ok_iff.2 ⟨Nat.le_trans hroom hlimit, rfl⟩
  | _ => rw [hm] at h; exact h

theorem reach_mono {used limit limit' : Nat} {st st' : State} {cs : List Char}
    (h : reach ⟨used, limit⟩ st cs = .ok st') (hlimit : limit ≤ limit') :
    reach ⟨used, limit'⟩ st cs = .ok st' := by
  induction cs generalizing st with
  | nil => exact h
  | cons c cs ih =>
    obtain ⟨st1, st2, hr, hc, hs⟩ := reach_cons_eq_ok_iff.1 h
    exact reach_cons_eq_ok_iff.2 ⟨st1, st2, resolve_mono hr hlimit, consume_mono hc hlimit, ih hs⟩

/-! ## Other allowances -/

/-- An allowance decides whether a state is reached, and not which one. -/
theorem resolve_agree {a a' : Allowance} {st st₁ st₂ : State} {next : Option Char}
    (h₁ : resolve a st next = .ok st₁) (h₂ : resolve a' st next = .ok st₂) : st₁ = st₂ := by
  rw [resolve_eq] at h₁ h₂
  cases hr : Reaction.of st.mode next with
  | argue slot =>
    rw [hr] at h₁ h₂
    obtain ⟨-, rfl⟩ := pushArgument_eq_ok_iff.1 h₁
    obtain ⟨-, rfl⟩ := pushArgument_eq_ok_iff.1 h₂
    rfl
  | _ =>
    rw [hr] at h₁ h₂
    exact Except.ok.inj (h₁.symm.trans h₂)

theorem consume_agree {a a' : Allowance} {st st₁ st₂ : State} {c : Char}
    (h₁ : consume a st c = .ok st₁) (h₂ : consume a' st c = .ok st₂) : st₁ = st₂ := by
  rw [consume_eq] at h₁ h₂
  cases hm : Move.of st c with
  | push frame =>
    rw [hm] at h₁ h₂
    obtain ⟨-, rfl⟩ := push_eq_ok_iff.1 h₁
    obtain ⟨-, rfl⟩ := push_eq_ok_iff.1 h₂
    rfl
  | _ =>
    rw [hm] at h₁ h₂
    exact Except.ok.inj (h₁.symm.trans h₂)

theorem reach_agree {a a' : Allowance} {st st₁ st₂ : State} {cs : List Char}
    (h₁ : reach a st cs = .ok st₁) (h₂ : reach a' st cs = .ok st₂) : st₁ = st₂ := by
  induction cs generalizing st with
  | nil => exact Except.ok.inj (h₁.symm.trans h₂)
  | cons c cs ih =>
    obtain ⟨st₃, st₄, hr, hc, hs⟩ := reach_cons_eq_ok_iff.1 h₁
    obtain ⟨st₃', st₄', hr', hc', hs'⟩ := reach_cons_eq_ok_iff.1 h₂
    obtain rfl := resolve_agree hr hr'
    obtain rfl := consume_agree hc hc'
    exact ih hs hs'

/-! ## Runs -/

/-- A complete run stays the same under a greater limit. -/
theorem run_mono {used limit limit' : Nat} {st : State} {cs : List Char} {items : List Formula}
    (h : run ⟨used, limit⟩ st cs = .complete items) (hlimit : limit ≤ limit') :
    run ⟨used, limit'⟩ st cs = .complete items := by
  induction cs generalizing st with
  | nil =>
    obtain ⟨st1, hr, hitems⟩ := run_nil_eq_complete_iff.1 h
    exact run_nil_eq_complete_iff.2 ⟨st1, resolve_mono hr hlimit, hitems⟩
  | cons c cs ih =>
    obtain ⟨st1, st2, hr, hc, hs⟩ := run_cons_eq_complete_iff.1 h
    exact run_cons_eq_complete_iff.2
      ⟨st1, st2, resolve_mono hr hlimit, consume_mono hc hlimit, ih hs⟩

/-- A run fails one level past the limit, or past what was used up before if that is more. -/
theorem run_depth {a : Allowance} {st : State} {cs rest : List Char} {depth : Nat}
    (h : run a st cs = .tooDeep depth rest)
    (hst : a.used + st.frames.length ≤ max a.limit a.used) :
    depth = max a.limit a.used + 1 := by
  induction cs generalizing st with
  | nil =>
    simp only [run] at h
    cases hr : resolve a st none with
    | ok st1 => rw [hr] at h; cases h
    | error depth' =>
      rw [hr] at h
      cases h
      obtain ⟨hdepth, hlimit, -⟩ := depth_of_resolve_error hr
      omega
  | cons c cs ih =>
    simp only [run] at h
    cases hr : resolve a st (some c) with
    | error depth' =>
      rw [hr] at h
      cases h
      obtain ⟨hdepth, hlimit, -⟩ := depth_of_resolve_error hr
      omega
    | ok st1 =>
      have hst1 := frames_of_resolve hr (Nat.le_max_left ..) hst
      cases hc : consume a st1 c with
      | error depth' =>
        rw [hr] at h
        simp only [hc] at h
        cases h
        obtain ⟨hdepth, hlimit⟩ := depth_of_consume_error hc
        omega
      | ok st2 =>
        rw [hr] at h
        simp only [hc] at h
        exact ih h (frames_of_consume hc (Nat.le_max_left ..) hst1)

/-- A run with room for one frame for each character is complete. -/
theorem run_complete {a : Allowance} {st : State} {cs : List Char}
    (h : a.used + st.weight + cs.length ≤ a.limit) : ∃ items, run a st cs = .complete items := by
  induction cs generalizing st with
  | nil =>
    cases hr : resolve a st none with
    | ok st1 => exact ⟨_, run_nil_eq_complete_iff.2 ⟨st1, hr, rfl⟩⟩
    | error depth =>
      obtain ⟨-, hlimit, hdepth⟩ := depth_of_resolve_error hr
      simp only [List.length_nil] at h
      omega
  | cons c cs ih =>
    simp only [List.length_cons] at h
    cases hr : resolve a st (some c) with
    | error depth =>
      obtain ⟨-, hlimit, hdepth⟩ := depth_of_resolve_error hr
      omega
    | ok st1 =>
      have hw1 := resolve_weight_le hr
      cases hc : consume a st1 c with
      | error depth =>
        obtain ⟨hdepth, hlimit⟩ := depth_of_consume_error hc
        have := frames_le_weight st1
        omega
      | ok st2 =>
        have hw2 := consume_weight_le hc
        obtain ⟨items, hitems⟩ := @ih st2 (by omega)
        exact ⟨items, run_cons_eq_complete_iff.2 ⟨st1, st2, hr, hc, hitems⟩⟩

/-! ## Sources -/

theorem read_mono {source : String} {limit limit' : Nat} {t : Formula}
    (h : read source limit = .ok t) (hlimit : limit ≤ limit') : read source limit' = .ok t := by
  obtain ⟨items, hrun, ht⟩ := read_eq_ok_iff.1 h
  exact read_eq_ok_iff.2 ⟨items, run_mono hrun hlimit, ht⟩

/-- What is not read nests one level past the limit. -/
theorem read_error {source : String} {limit : Nat} (h : ∀ t, read source limit ≠ .ok t) :
    read source limit = .error (.nestingTooDeep (limit + 1) limit) := by
  cases hrun : run ⟨0, limit⟩ .initial source.toList with
  | complete items => exact absurd (read_eq_ok_iff.2 ⟨items, hrun, rfl⟩) (h _)
  | tooDeep depth rest =>
    have hdepth := run_depth hrun (by simp [State.initial])
    simp only [Nat.max_eq_left (Nat.zero_le limit)] at hdepth
    unfold read Reader.read Reader.ofSource
    simp only [hrun, hdepth]

theorem read_of_length_le {source : String} {limit : Nat} (h : source.length ≤ limit) :
    ∃ t, read source limit = .ok t := by
  have hroom : 0 + State.initial.weight + source.toList.length ≤ limit := by
    rw [String.length_toList]
    simpa [State.weight, State.initial, Mode.pending] using h
  obtain ⟨items, hrun⟩ := run_complete (a := ⟨0, limit⟩) hroom
  exact ⟨_, read_eq_ok_iff.2 ⟨items, hrun, rfl⟩⟩

theorem parse_of_read {source : String} {limit : Nat} {t : Formula}
    (h : read source limit = .ok t) : parse source limit = t := by
  unfold parse
  rw [h]

/-- Every source has a threshold, at most its number of characters: from it on every limit gives
one and the same formula, and below it every limit is exceeded by one level. So a greater limit
keeps what a smaller one read, and as many levels as characters are enough. -/
theorem exists_nesting_threshold (source : String) :
    ∃ k t, k ≤ source.length ∧
      (∀ limit, k ≤ limit → read source limit = .ok t ∧ parse source limit = t) ∧
      (∀ limit, limit < k →
        read source limit = .error (.nestingTooDeep (limit + 1) limit) ∧
          parse source limit = .equation [.text source]) ∧
      (∀ limit limit' t', read source limit = .ok t' → limit ≤ limit' →
        read source limit' = .ok t') ∧
      ∀ limit, source.length ≤ limit → read source limit = .ok t := by
  classical
  have hex : ∃ limit t, read source limit = .ok t := ⟨_, read_of_length_le (Nat.le_refl _)⟩
  obtain ⟨t, ht⟩ := Nat.find_spec hex
  have hle : Nat.find hex ≤ source.length :=
    Nat.find_min' hex (read_of_length_le (Nat.le_refl _))
  have habove : ∀ limit, Nat.find hex ≤ limit → read source limit = .ok t :=
    fun limit hlimit => read_mono ht hlimit
  refine ⟨Nat.find hex, t, hle, ?_, ?_, ?_, ?_⟩
  · intro limit hlimit
    exact ⟨habove limit hlimit, parse_of_read (habove limit hlimit)⟩
  · intro limit hlimit
    have herror := read_error fun t' ht' => Nat.find_min hex hlimit ⟨t', ht'⟩
    refine ⟨herror, ?_⟩
    unfold parse
    rw [herror]
  · intro limit limit' t' ht' hlimit
    exact read_mono ht' hlimit
  · intro limit hlimit
    exact habove limit (Nat.le_trans hle hlimit)

end FormulaDrawing.Latex
