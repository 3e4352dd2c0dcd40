import FormulaDrawing.Proofs.Latex.RoundTrip

/-!
# The depth of what is read

A nesting limit bounds the depth of every tree that is parsed, and the bound is met
(`depth_parse_le_and_attained`). Most structures add a level for each frame that they need. Only a
bracketed index adds two, its root and a group that does not collapse, and so roots nested in their
indexes are as deep as a limit allows:

    x        \sqrt[xx]x        \sqrt[x\sqrt[xx]x]x        …        depth 2 * n + 1 with n frames
-/

namespace FormulaDrawing.Latex

variable {a : Allowance} {items xs : Array Formula} {frames : List Frame}

/-! ## Roots in the indexes of roots -/

/-- Roots nested in each other's indexes, with a letter before each and as the content. -/
def nestedIndex : Nat → List Char
  | 0 => ['x']
  | n + 1 => "\\sqrt[".toList ++ 'x' :: (nestedIndex n ++ [']', 'x'])

def nestedRoot : Nat → Formula
  | 0 => x
  | n + 1 => .root (some (.group [x, nestedRoot n])) x

theorem depth_nestedRoot (n : Nat) : (nestedRoot n).depth = 2 * n + 1 := by
  induction n with
  | zero => rfl
  | succ n ih =>
    simp only [nestedRoot, Formula.depth, Formula.depthOption, Formula.depthList, ih, x,
      Formula.letter]
    omega

theorem run_x (tail : List Char) :
    run a ⟨items, frames, .ready⟩ ('x' :: tail) = run a ⟨items, frames, .finished x⟩ tail :=
  run_step (inert_letter.resolve_ready rfl) (consume_letter rfl) tail

/-- A bracket after the sign begins an index. -/
theorem run_sqrt_bracket (hroom : a.used + frames.length + 1 ≤ a.limit) (tail : List Char) :
    run a ⟨items, frames, .ready⟩ ("\\sqrt[".toList ++ tail) =
      run a ⟨items, .sequence .bracket #[] :: frames, .ready⟩ tail := by
  have hcommand : resolveCommand a ⟨items, frames, .ready⟩ (some '[') (.ofName "sqrt") =
      resolve a ⟨items, frames, .radical⟩ (some '[') :=
    rfl
  have hopen : consume a ⟨items, frames, .radical⟩ '[' =
      .ok ⟨items, .sequence .bracket #[] :: frames, .ready⟩ :=
    push_eq_ok_iff.2 ⟨hroom, rfl⟩
  have hlist : "\\sqrt[".toList ++ tail = '\\' :: ("sqrt".toList ++ '[' :: tail) := by
    simp
  rw [hlist, run_command rfl (by decide) (by decide) (by decide) hcommand]
  exact run_step rfl hopen tail

/-- Nested roots need a frame for each index, and the content of a root takes the frame that its
index had. -/
theorem run_nestedIndex {n : Nat} (hroom : a.used + frames.length + n ≤ a.limit)
    (tail : List Char) :
    run a ⟨items, frames, .ready⟩ (nestedIndex n ++ tail) =
      run a ⟨items, frames, .finished (nestedRoot n)⟩ tail := by
  induction n generalizing frames tail with
  | zero => exact run_x tail
  | succ n ih =>
    have hlist : nestedIndex (n + 1) ++ tail =
        "\\sqrt[".toList ++ ('x' :: (nestedIndex n ++ ']' :: 'x' :: tail)) := by
      rw [nestedIndex, List.append_assoc, List.cons_append, List.append_assoc]
      rfl
    have hinner := @ih (.sequence .bracket #[x] :: frames)
      (by simp only [List.length_cons]; omega) (']' :: 'x' :: tail)
    have hclose := @run_close a items #[x, nestedRoot n] frames .bracket ('x' :: tail)
    rw [hlist, run_sqrt_bracket (by omega), run_x, (alike_sequence .bracket x).run]
    refine hinner.trans ?_
    rw [(alike_sequence .bracket (nestedRoot n)).run]
    refine hclose.trans ?_
    exact (run_x tail).trans ((alike_radicand _ x).run tail)

theorem read_nestedIndex (limit : Nat) :
    read (String.ofList (nestedIndex limit)) limit = .ok (.equation [nestedRoot limit]) := by
  refine read_eq_ok_iff.2 ⟨[nestedRoot limit], ?_, rfl⟩
  have hrun := @run_nestedIndex ⟨0, limit⟩ #[] [] limit (by simp) []
  rw [List.append_nil] at hrun
  rw [String.toList_ofList]
  exact hrun

/-! ## The bound -/

/-- A source that nests too deep is a single text. -/
theorem depth_parse_le (source : String) (limit : Nat) :
    (parse source limit).depth ≤ 2 * limit + 2 := by
  cases h : read source limit with
  | ok t =>
    rw [parse_of_read h]
    exact depth_of_read h
  | error e =>
    have hparse : parse source limit = .equation [.text source] := by rw [parse, h]
    rw [hparse]
    exact Nat.le_add_left 2 (2 * limit)

/-- The nesting limit bounds the depth of every parsed tree, and the bound is the best possible. -/
theorem depth_parse_le_and_attained (limit : Nat) :
    (∀ source, (parse source limit).depth ≤ 2 * limit + 2) ∧
      ∃ source t, read source limit = .ok t ∧ parse source limit = t ∧
        t.depth = 2 * limit + 2 := by
  refine ⟨fun source => depth_parse_le source limit, String.ofList (nestedIndex limit), _,
    read_nestedIndex limit, parse_of_read (read_nestedIndex limit), ?_⟩
  simp only [Formula.depth, Formula.depthList, depth_nestedRoot]
  omega

end FormulaDrawing.Latex
