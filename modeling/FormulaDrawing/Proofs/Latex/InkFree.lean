import FormulaDrawing.Proofs.Latex.Divergence

/-!
# Commands without ink

Where white space is skipped between two parts of a sequence, a command without ink is skipped as
well. Where an argument, or a limit of a big operator, may still come, white space lets it come and
a command without ink does not: it stands for a missing argument, and it ends the wait for limits.

    (∀ v, a command before the space in u ++ " " ++ v changes nothing) ↔ st.standsBetween = true

where `st` is the state in which the space is skipped (`inkFree_skipped_iff`).
-/

namespace FormulaDrawing.Latex

/-- A space after a source is skipped in a state. -/
def SkipsSpace (source : String) (limit : Nat) (st : State) : Prop :=
  ∃ st₀, reach ⟨0, limit⟩ .initial source.toList = .ok st₀ ∧
    resolve ⟨0, limit⟩ st₀ (some ' ') = .ok st ∧ consume ⟨0, limit⟩ st ' ' = .ok st

/-- A state that skips white space is between parts once it met a command. -/
theorem ready_of_resolve_backslash {st st' : State} (hskips : st.mode.Skips)
    (h : resolve a st (some '\\') = .ok st') : st'.mode = .ready := by
  obtain ⟨items, frames, mode⟩ := st
  cases mode with
  | ready =>
    rw [inert_backslash.resolve_ready rfl] at h
    cases h
    rfl
  | radical =>
    obtain ⟨-, rfl⟩ := pushArgument_eq_ok_iff.1 h
    rw [inert_backslash.settle]
  | limit =>
    cases h
    exact (inert_backslash.deliver _ _ _).1
  | rawStart name =>
    cases h
    exact (inert_backslash.deliver _ _ _).1
  | limits op lower upper =>
    rw [resolve_limits_of_not_awaitsLimit (inert_backslash.awaits _ _)] at h
    cases h
    exact (inert_backslash.deliver _ _ _).1
  | _ => exact hskips.elim

theorem resolve_backslash_of_room (a : Allowance) (st : State)
    (hroom : a.used + st.weight ≤ a.limit ∨ st.mode.pending = 0) :
    ∃ st', resolve a st (some '\\') = .ok st' := by
  cases h : resolve a st (some '\\') with
  | ok st' => exact ⟨st', rfl⟩
  | error depth =>
    obtain ⟨hdepth, hlimit, hweight⟩ := depth_of_resolve_error h
    simp only [State.weight] at *
    omega

theorem pending_of_standsBetween {st : State} (h : st.standsBetween = true) :
    st.mode.pending = 0 := by
  unfold State.standsBetween at h
  split at h
  next hmode => rw [hmode]; rfl
  next hmode => rw [hmode]; rfl
  next => cases h

theorem SkipsSpace.skips {source : String} {limit : Nat} {st : State}
    (h : SkipsSpace source limit st) : st.mode.Skips := by
  obtain ⟨st₀, -, hresolve, hconsume⟩ := h
  exact Mode.skips_of_consume hresolve hconsume

/-- A run over a source and a space goes on from the state that skips the space. -/
theorem SkipsSpace.run_of_complete {u : String} {limit M : Nat} {st : State}
    (h : SkipsSpace u limit st) {cs : List Char} {items : List Formula}
    (hrun : run ⟨0, M⟩ .initial (u.toList ++ ' ' :: cs) = .complete items) :
    ∃ st₀, reach ⟨0, M⟩ .initial u.toList = .ok st₀ ∧
      resolve ⟨0, M⟩ st₀ (some ' ') = .ok st ∧ run ⟨0, M⟩ st cs = .complete items := by
  obtain ⟨st₀, hreach, hresolve, hconsume⟩ := h
  obtain ⟨st₀', hreach', hrun'⟩ := exists_reach_of_run hrun
  obtain rfl := reach_agree hreach hreach'
  obtain ⟨st₁, st₂, hresolve', hconsume', hrest⟩ := run_cons_eq_complete_iff.1 hrun'
  obtain rfl := resolve_agree hresolve hresolve'
  obtain rfl := consume_agree hconsume hconsume'
  exact ⟨st₀, hreach', hresolve', hrest⟩

/-- A run over a source, a command without ink and a space goes on from a missing argument, if an
argument is waited for. -/
theorem run_inkFree {u c : String} (hc : c ∈ inkFreeCommands) {M : Nat} {st₀ st st' : State}
    (hreach : reach ⟨0, M⟩ .initial u.toList = .ok st₀)
    (hspace : resolve ⟨0, M⟩ st₀ (some ' ') = .ok st) (hskips : st.mode.Skips)
    (hresolve : resolve ⟨0, M⟩ st (some '\\') = .ok st') (cs : List Char) :
    run ⟨0, M⟩ .initial (u.toList ++ (c.toList ++ ' ' :: cs)) =
      run ⟨0, M⟩ (st'.deliverNothing (some ' ')) cs := by
  have hsame : resolve ⟨0, M⟩ st₀ (some '\\') = .ok st' := by
    rw [← resolve_of_isWhiteSpace (by decide) hspace]
    exact hresolve
  have hcommand := reach_inkFree hc hsame (ready_of_resolve_backslash hskips hresolve)
  rw [run_append hreach, ← run_append hcommand, List.append_assoc]
  rfl

theorem toList_space (u v : String) : (u ++ " " ++ v).toList = u.toList ++ ' ' :: v.toList := by
  simp

theorem toList_inkFree (u c v : String) :
    (u ++ c ++ " " ++ v).toList = u.toList ++ (c.toList ++ ' ' :: v.toList) := by
  simp

/-- Between two parts a command without ink leaves what is read alone. -/
theorem read_inkFree {u c : String} {limit : Nat} {st : State} (h : SkipsSpace u limit st)
    (hc : c ∈ inkFreeCommands) (hbetween : st.standsBetween = true) {v : String} {M : Nat}
    {t : Formula} (hread : read (u ++ " " ++ v) M = .ok t) :
    read (u ++ c ++ " " ++ v) M = .ok t := by
  obtain ⟨items, hrun, rfl⟩ := read_eq_ok_iff.1 hread
  rw [toList_space] at hrun
  obtain ⟨st₀, hreach, hspace, hrest⟩ := h.run_of_complete hrun
  obtain ⟨st', hresolve⟩ := resolve_backslash_of_room ⟨0, M⟩ st
    (.inr (pending_of_standsBetween hbetween))
  refine read_eq_ok_iff.2 ⟨items, ?_, rfl⟩
  rw [toList_inkFree, run_inkFree hc hreach hspace h.skips hresolve,
    run_deliverNothing_of_standsBetween hbetween hresolve, hrest]

/-- Where something is waited for, some text after the space is read differently after a command
without ink. -/
theorem exists_read_inkFree_ne {u c : String} {limit : Nat} {st : State} (h : SkipsSpace u limit st)
    (hc : c ∈ inkFreeCommands) (hbetween : st.standsBetween = false) :
    ∃ (v : String) (M : Nat) (t t' : Formula), read (u ++ " " ++ v) M = .ok t ∧
      read (u ++ c ++ " " ++ v) M = .ok t' ∧ t ≠ t' := by
  have hskips := h.skips
  obtain ⟨st₀, hreach, hspace, hconsume⟩ := h
  -- with room for what the text after the space begins
  have hlimit : limit ≤ max limit (st.frames.length + 2) := Nat.le_max_left _ _
  have hroom : st.frames.length + 2 ≤ max limit (st.frames.length + 2) := Nat.le_max_right _ _
  set M := max limit (st.frames.length + 2) with hM
  have hreach := reach_mono hreach hlimit
  have hspace := resolve_mono hspace hlimit
  have hconsume := consume_mono hconsume hlimit
  have hweight : 0 + st.weight ≤ M := by
    have := Mode.pending_le st.mode
    simp only [State.weight]
    omega
  obtain ⟨st', hresolve⟩ := resolve_backslash_of_room ⟨0, M⟩ st (.inl hweight)
  obtain ⟨w, st₁, st₂, hready₁, hready₂, hbase, hprogress, hrun₁, hrun₂⟩ :=
    diverge_of_not_standsBetween hskips hbetween hresolve (by simp only; omega)
  obtain ⟨n, items₁, items₂, hletters₁, hletters₂, hne⟩ :=
    exists_run_letters_ne hready₁ hready₂ hbase (Int.ne_of_lt hprogress)
  refine ⟨String.ofList (w ++ 'x' :: List.replicate n 'x'), M, .equation items₁, .equation items₂,
    read_eq_ok_iff.2 ⟨items₁, ?_, rfl⟩, read_eq_ok_iff.2 ⟨items₂, ?_, rfl⟩, ?_⟩
  · rw [toList_space, String.toList_ofList, run_append hreach, run_step hspace hconsume, hrun₁,
      hletters₁]
  · rw [toList_inkFree, String.toList_ofList, run_inkFree hc hreach hspace hskips hresolve, hrun₂,
      hletters₂]
  · intro heq
    exact hne (Formula.equation.inj heq)

/-- After a source that skips a space, commands without ink are skipped like the space exactly if
the space stands between two parts of a sequence. -/
theorem inkFree_skipped_iff {u c : String} {limit : Nat} {st : State} (h : SkipsSpace u limit st)
    (hc : c ∈ inkFreeCommands) :
    (∀ (v : String) (M : Nat) (t : Formula), read (u ++ " " ++ v) M = .ok t →
      parse (u ++ c ++ " " ++ v) M = t) ↔ st.standsBetween = true := by
  constructor
  · intro hall
    by_contra hbetween
    rw [Bool.not_eq_true] at hbetween
    obtain ⟨v, M, t, t', hread, hread', hne⟩ := exists_read_inkFree_ne h hc hbetween
    have heq := hall v M t hread
    rw [parse_of_read hread'] at heq
    exact hne heq.symm
  · intro hbetween v M t hread
    exact parse_of_read (read_inkFree h hc hbetween hread)

/-- A thin space after the sign of a script is a missing script. -/
theorem not_inkFree_skipped_after_sign :
    ¬ ∀ (u v c : String) (limit M : Nat) (st : State) (t : Formula), SkipsSpace u limit st →
      c ∈ inkFreeCommands → read (u ++ " " ++ v) M = .ok t →
      parse (u ++ c ++ " " ++ v) M = t := by
  intro h
  have hskips : SkipsSpace "x^" 1
      ⟨#[.letter 'x'], [.argument (.script .superscript)], .ready⟩ := ⟨_, rfl, rfl, rfl⟩
  have hparse : parse ("x^" ++ "\\," ++ " " ++ "2") 1 =
      .equation [.letter 'x', .script .superscript .missing, .number "2"] := rfl
  have heq := h "x^" "2" "\\," 1 1 _ (.equation [.letter 'x', .script .superscript (.number "2")])
    hskips (by decide) rfl
  rw [hparse] at heq
  simp at heq

/-- A wide space after an integral with both limits is skipped. -/
theorem inkFree_skipped_after_limits :
    SkipsSpace "\\int_a^b" 1
        ⟨#[], [], .limits .integral (some (.letter 'a')) (some (.letter 'b'))⟩ ∧
      "\\quad" ∈ inkFreeCommands ∧
      ∀ (v : String) (M : Nat) (t : Formula), read ("\\int_a^b" ++ " " ++ v) M = .ok t →
        parse ("\\int_a^b" ++ "\\quad" ++ " " ++ v) M = t :=
  have hskips : SkipsSpace "\\int_a^b" 1
      ⟨#[], [], .limits .integral (some (.letter 'a')) (some (.letter 'b'))⟩ :=
    ⟨_, rfl, rfl, rfl⟩
  ⟨hskips, by decide, (inkFree_skipped_iff hskips (by decide)).2 rfl⟩

end FormulaDrawing.Latex
