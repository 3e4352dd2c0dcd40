import FormulaDrawing.Proofs.Latex.Fragments
import FormulaDrawing.Proofs.Latex.Isolation

/-!
# The order of limits

A big operator takes a limit in braces for either sign, and once it has both it is complete:

    \int_{u}^{v}w      \int^{v}_{u}w

A group that closes at its own brace is read above an argument as it is read alone, one level deeper
(`reach_above`, as an argument closes nothing). So each of the two limits costs the same room
wherever it stands (`Fits`), and either order comes down to the same run over `w`
(`run_lower_upper`, `run_upper_lower`).
-/

namespace FormulaDrawing.Latex

variable {a a' : Allowance} {st : State} {base : List Frame} {u v : String} {m n : Nat}
  {g h : Formula} {all : List Formula}

/-! ## A group above frames that close nothing -/

/-- A group is read above frames that close nothing as it is read alone, up to its last brace. -/
theorem reach_above {cs : List Char} (hst : st.InGroup)
    (hbase : ∀ c, closesAny base (some c) = false)
    (hreach : reach a' st cs = .ok ⟨#[], [], .finished g⟩) :
    reach a (st.above base) cs = (reach (a.above base) st cs).map (·.above base) := by
  induction cs generalizing st with
  | nil => rfl
  | cons c cs ih =>
    obtain ⟨st₁, st₂, hr, hc, hrest⟩ := reach_cons_eq_ok_iff.1 hreach
    have hgroup := hst.resolve hr
    have hframes : st₁.frames ≠ [] := fun hnil => not_grouped_nil (hnil ▸ hgroup.grouped)
    rw [reach, reach, resolve_above hst]
    cases hr' : resolve (a.above base) st (some c) with
    | error depth => rfl
    | ok st₁' =>
      obtain rfl := resolve_agree hr hr'
      show (consume a (st₁.over c base) c >>= fun st => reach a st cs) =
        (consume (a.above base) st₁ c >>= fun st => reach (a.above base) st cs).map _
      rw [State.over_of_closesAny (hbase c), consume_above hframes]
      cases hc' : consume (a.above base) st₁ c with
      | error depth => rfl
      | ok st₂' =>
        obtain rfl := consume_agree hc hc'
        rcases hgroup.consume hc with hgroup₂ | ⟨g', rfl⟩
        · exact ih hgroup₂ hrest
        · -- the group closes, which is where the text ends
          obtain rfl := eq_nil_of_reach_finished hrest rfl
          rfl

/-- A source in braces has room under an allowance. -/
def Fits (a : Allowance) (u : String) : Prop :=
  ∃ st, reach a .initial ("\x7b" ++ u ++ "\x7d").toList = .ok st

theorem Fits.room (hu : Fits a u) : a.used + 1 ≤ a.limit := by
  obtain ⟨st, hreach⟩ := hu
  rw [toList_braces] at hreach
  obtain ⟨st₁, st₂, hr, hc, -⟩ := reach_cons_eq_ok_iff.1 hreach
  cases hr
  have hpush : push a .initial (.sequence .brace #[]) = .ok st₂ := hc
  exact (push_eq_ok_iff.1 hpush).1

/-- The allowance for what an argument at the root holds. -/
def Allowance.argument (a : Allowance) : Allowance := ⟨a.used + 1, a.limit⟩

theorem reach_argument (hu : Encloses u m g) (slot : Slot) :
    reach a ⟨#[], [.argument slot], .ready⟩ ("\x7b" ++ u ++ "\x7d").toList =
      (reach a.argument .initial ("\x7b" ++ u ++ "\x7d").toList).map
        (·.above [.argument slot]) := by
  have hready : resolve a ⟨#[], [.argument slot], .ready⟩ (some '\x7b') =
      .ok ⟨#[], [.argument slot], .ready⟩ :=
    inert_brace.resolve_ready rfl
  have hpush : push a ⟨#[], [.argument slot], .ready⟩ (.sequence .brace #[]) =
      (push a.argument .initial (.sequence .brace #[])).map (·.above [.argument slot]) :=
    push_above .initial [.argument slot] _
  rw [toList_braces, reach, reach, hready]
  show (push a ⟨#[], [.argument slot], .ready⟩ (.sequence .brace #[]) >>= fun st => reach a st _) =
    (push a.argument .initial (.sequence .brace #[]) >>= fun st => reach a.argument st _).map _
  rw [hpush]
  cases hopen : push a.argument .initial (.sequence .brace #[]) with
  | error depth => rfl
  | ok st =>
    obtain ⟨-, rfl⟩ := push_eq_ok_iff.1 hopen
    have hgroup : State.InGroup ⟨#[], [.sequence .brace #[]], .ready⟩ := ⟨rfl, [], _, rfl⟩
    have hbase : ∀ c, closesAny [.argument slot] (some c) = false := fun _ => rfl
    exact reach_above hgroup hbase hu.open_group.2

/-- A run over a group as an argument goes on after it, if there is room for it. -/
theorem run_argument (hu : Encloses u m g) (slot : Slot) (cs : List Char) :
    run a ⟨#[], [.argument slot], .ready⟩ (("\x7b" ++ u ++ "\x7d").toList ++ cs) = .complete all ↔
      Fits a.argument u ∧ run a ⟨#[], [.argument slot], .finished g⟩ cs = .complete all := by
  have habove := reach_argument (a := a) hu slot
  constructor
  · intro hrun
    obtain ⟨st', hreach, hrest⟩ := exists_reach_of_run hrun
    rw [habove] at hreach
    obtain ⟨st, hlone, rfl⟩ := eq_of_map_eq_ok hreach
    obtain rfl := reach_agree hlone hu
    exact ⟨⟨_, hlone⟩, hrest⟩
  · rintro ⟨⟨st, hlone⟩, hrest⟩
    obtain rfl := reach_agree hlone hu
    rw [hlone] at habove
    rw [run_append habove]
    exact hrest

/-! ## Limits -/

/-- A sign that a big operator waits for begins a limit. -/
theorem run_sign (hu : Encloses u m g) {mode : Mode} {slot : Slot} {c : Char}
    (hresolve : resolve a ⟨#[], [], mode⟩ (some c) = .ok ⟨#[], [], mode⟩)
    (hconsume : consume a ⟨#[], [], mode⟩ c = push a ⟨#[], [], mode⟩ (.argument slot))
    (cs : List Char) :
    run a ⟨#[], [], mode⟩ (c :: (("\x7b" ++ u ++ "\x7d").toList ++ cs)) = .complete all ↔
      Fits a.argument u ∧ run a ⟨#[], [.argument slot], .finished g⟩ cs = .complete all := by
  rw [← run_argument hu slot cs, run_cons_eq_complete_iff]
  constructor
  · rintro ⟨st₁, st₂, hr, hc, hrest⟩
    rw [hresolve] at hr
    cases hr
    rw [hconsume] at hc
    obtain ⟨-, rfl⟩ := push_eq_ok_iff.1 hc
    exact hrest
  · intro hrest
    have hroom := ((run_argument hu slot cs).1 hrest).1.room
    have hpush : push a ⟨#[], [], mode⟩ (.argument slot) = .ok ⟨#[], [.argument slot], .ready⟩ :=
      push_eq_ok_iff.2 ⟨Nat.le_of_succ_le hroom, rfl⟩
    exact ⟨_, _, hresolve, hconsume.trans hpush, hrest⟩

theorem run_lowerLimit (hu : Encloses u m g) (op : BigOperator) (upper : Option Formula)
    (cs : List Char) :
    run a ⟨#[], [], .limits op none upper⟩ ('_' :: (("\x7b" ++ u ++ "\x7d").toList ++ cs)) =
        .complete all ↔
      Fits a.argument u ∧ run a ⟨#[], [], .limits op (some g) upper⟩ cs = .complete all := by
  have hawait : awaitsLimit none upper (some '_') = true := by simp [awaitsLimit]
  rw [run_sign hu (resolve_limits_of_awaitsLimit hawait) rfl, (alike_lowerLimit op g upper).run]

theorem run_upperLimit (hv : Encloses v n h) (op : BigOperator) (lower : Option Formula)
    (cs : List Char) :
    run a ⟨#[], [], .limits op lower none⟩ ('^' :: (("\x7b" ++ v ++ "\x7d").toList ++ cs)) =
        .complete all ↔
      Fits a.argument v ∧ run a ⟨#[], [], .limits op lower (some h)⟩ cs = .complete all := by
  have hawait : awaitsLimit lower none (some '^') = true := by simp [awaitsLimit]
  rw [run_sign hv (resolve_limits_of_awaitsLimit hawait) rfl, (alike_upperLimit op lower h).run]

/-- After both limits a big operator is complete, and what follows is read as if it began. -/
theorem run_after_limits (op : BigOperator) (g h : Formula) (cs : List Char) :
    run a ⟨#[], [], .limits op (some g) (some h)⟩ cs =
      (run a .initial cs).after [.bigOperator op (some g) (some h)] := by
  rw [run_limits_of_completes rfl]
  exact run_after .initial #[.bigOperator op (some g) (some h)] cs

theorem run_lower_upper (op : BigOperator) (hu : Encloses u m g) (hv : Encloses v n h)
    (cs : List Char) :
    run a .initial (op.word ++ '_' :: (("\x7b" ++ u ++ "\x7d").toList ++
        '^' :: (("\x7b" ++ v ++ "\x7d").toList ++ cs))) = .complete all ↔
      Fits a.argument u ∧ Fits a.argument v ∧
        (run a .initial cs).after [.bigOperator op (some g) (some h)] = .complete all := by
  rw [State.initial, run_bigOperatorCommand op (by decide), run_lowerLimit hu, run_upperLimit hv,
    run_after_limits]
  rfl

theorem run_upper_lower (op : BigOperator) (hu : Encloses u m g) (hv : Encloses v n h)
    (cs : List Char) :
    run a .initial (op.word ++ '^' :: (("\x7b" ++ v ++ "\x7d").toList ++
        '_' :: (("\x7b" ++ u ++ "\x7d").toList ++ cs))) = .complete all ↔
      Fits a.argument u ∧ Fits a.argument v ∧
        (run a .initial cs).after [.bigOperator op (some g) (some h)] = .complete all := by
  rw [State.initial, run_bigOperatorCommand op (by decide), run_upperLimit hv, run_lowerLimit hu,
    run_after_limits, and_left_comm]
  rfl

/-! ## Sources -/

/-- A big operator with both limits in braces, the lower one first, and what follows it. -/
def lowerFirst (op : BigOperator) (u v w : String) : String :=
  String.ofList op.word ++ "_\x7b" ++ u ++ "\x7d^\x7b" ++ v ++ "\x7d" ++ w

/-- The same with the upper limit first. -/
def upperFirst (op : BigOperator) (u v w : String) : String :=
  String.ofList op.word ++ "^\x7b" ++ v ++ "\x7d_\x7b" ++ u ++ "\x7d" ++ w

theorem toList_lowerFirst (op : BigOperator) (u v w : String) :
    (lowerFirst op u v w).toList = op.word ++ '_' :: (("\x7b" ++ u ++ "\x7d").toList ++
      '^' :: (("\x7b" ++ v ++ "\x7d").toList ++ w.toList)) := by
  simp [lowerFirst]

theorem toList_upperFirst (op : BigOperator) (u v w : String) :
    (upperFirst op u v w).toList = op.word ++ '^' :: (("\x7b" ++ v ++ "\x7d").toList ++
      '_' :: (("\x7b" ++ u ++ "\x7d").toList ++ w.toList)) := by
  simp [upperFirst]

/-- The limits of a big operator may come in either order: the formula is the same, and what follows
the limits is read as siblings of the operator, as it is read alone. -/
theorem read_limits_comm (op : BigOperator) {u v w : String} {m n limit : Nat} {g h t : Formula}
    (hu : Encloses u m g) (hv : Encloses v n h) (hread : read (lowerFirst op u v w) limit = .ok t) :
    read (upperFirst op u v w) limit = .ok t ∧
      parse (lowerFirst op u v w) limit = parse (upperFirst op u v w) limit ∧
      ∃ siblings, read w limit = .ok (.equation siblings) ∧
        t = .equation (.bigOperator op (some g) (some h) :: siblings) := by
  obtain ⟨all, hrun, rfl⟩ := read_eq_ok_iff.1 hread
  rw [toList_lowerFirst, run_lower_upper op hu hv] at hrun
  have hswapped : read (upperFirst op u v w) limit = .ok (.equation all) := by
    refine read_eq_ok_iff.2 ⟨all, ?_, rfl⟩
    rw [toList_upperFirst]
    exact (run_upper_lower op hu hv _).2 hrun
  refine ⟨hswapped, (parse_of_read hread).trans (parse_of_read hswapped).symm, ?_⟩
  obtain ⟨-, -, hafter⟩ := hrun
  obtain ⟨siblings, hw, rfl⟩ := Outcome.after_eq_complete_iff.1 hafter
  exact ⟨siblings, read_eq_ok_iff.2 ⟨siblings, hw, rfl⟩, rfl⟩

/-- A brace that is text closes no limit, and a third sign stands alone. -/
theorem read_limits_comm_third :
    Encloses "\\frac12" 2 (.fraction (.number "1") (.number "2")) ∧
      Encloses "\\\x7d" 1 (.text "\x7d") ∧
      read (upperFirst .sum "\\frac12" "\\\x7d" "_3") 3 =
        .ok (.equation [.bigOperator .sum (some (.fraction (.number "1") (.number "2")))
          (some (.text "\x7d")), .script .subscript (.number "3")]) :=
  have hu : Encloses "\\frac12" 2 (.fraction (.number "1") (.number "2")) := rfl
  have hv : Encloses "\\\x7d" 1 (.text "\x7d") := rfl
  have hread : read (lowerFirst .sum "\\frac12" "\\\x7d" "_3") 3 =
      .ok (.equation [.bigOperator .sum (some (.fraction (.number "1") (.number "2")))
        (some (.text "\x7d")), .script .subscript (.number "3")]) := rfl
  ⟨hu, hv, (read_limits_comm .sum hu hv hread).1⟩

end FormulaDrawing.Latex
