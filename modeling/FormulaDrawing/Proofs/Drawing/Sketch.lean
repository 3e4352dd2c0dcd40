import FormulaDrawing.Proofs.Drawing.Tally
import FormulaDrawing.Proofs.Layout.Closure

/-!
# What a layout draws

Text, bars and signs leave primitives; a sequence, a script alone and an empty box leave none of
their own (`Kind.isBare`), and a limit leaves those of its label. So a sketch is without primitives
exactly if every box is bare, the scripts attached to it included, from whatever draw it starts:

    (l.sketch pen used).1 = [] ↔ l.Bare                        (silentIff_sketch)

That is the case in which the boxes come to nothing in a tally (`bare_iff_ofBoxes`). A drawing
exists exactly for the other layouts (`draw_ok_or_error`).
-/

namespace FormulaDrawing

/-- Whether a box is a mere frame for its parts. -/
def Kind.isBare {α β : Type} : Kind α β → Bool
  | .sequence _ | .script _ _ | .empty => true
  | _ => false

variable {α : Type}

/-! ## Steps -/

namespace Step

/-- From whatever draw a step starts, it leaves no primitives exactly if `p` holds. -/
def SilentIff (step : Step α) (p : Prop) : Prop := ∀ used, (step used).1 = [] ↔ p

theorem Leaves.silentIff {step : Step α} {t : Tally α} (h : step.Leaves t) :
    step.SilentIff (t = 0) := by
  intro used
  rw [← h used]
  exact Tally.ofPrimitives_eq_zero_iff.symm

end Step

/-! ## Layouts -/

namespace Layout

variable [Scalar α] {pen : Pen α}

/-- Every box is bare. -/
def Bare (l : Layout α) : Prop := l.Everywhere fun b => b.kind.isBare = true

omit [Scalar α] in
theorem bare_iff {l : Layout α} : l.Bare ↔ l.kind.isBare = true ∧ ∀ c ∈ l.children, c.Bare :=
  everywhere_iff

/-- A box that is not bare counts, but for a limit. -/
theorem ofBoxes_singleton_eq_zero_iff {b : Layout α} :
    Tally.ofBoxes [b] = 0 ↔
      b.kind.isBare = true ∨ ∃ label approach, b.kind = .limit label approach := by
  obtain ⟨r, baseline, k, s, t⟩ := b
  cases k with
  | sequence xs => exact iff_of_true rfl (.inl rfl)
  | script side x => exact iff_of_true rfl (.inl rfl)
  | empty => exact iff_of_true rfl (.inl rfl)
  | limit x a => exact iff_of_true rfl (.inr ⟨x, a, rfl⟩)
  | text s size role => exact iff_of_false (fun h => nomatch congrArg Tally.runs h) nofun
  | fraction n bar d => exact iff_of_false (fun h => nomatch congrArg Tally.lines h) nofun
  | root r bar i x => exact iff_of_false (fun h => nomatch congrArg Tally.lines h) nofun
  | bigOperator op r u l =>
    cases op <;> exact iff_of_false (fun h => nomatch congrArg Tally.paths h) nofun
  | delimited d o x c =>
    cases d
    · exact iff_of_false (fun h => nomatch congrArg Tally.paths h) nofun
    · exact iff_of_false (fun h => nomatch congrArg Tally.lines h) nofun

/-- Where the limits have their labels, the boxes are bare exactly if they come to nothing. -/
theorem bare_iff_ofBoxes {l : Layout α} (hl : l.Labelled) :
    l.Bare ↔ Tally.ofBoxes l.boxes = 0 := by
  rw [Tally.ofBoxes_eq_zero_iff]
  constructor
  · intro hbare b hb
    exact ofBoxes_singleton_eq_zero_iff.2 (.inl (hbare b hb))
  · intro hzero
    induction l using children_induction with
    | step l ih =>
      obtain ⟨hlabel, hlabels⟩ := labelled_iff.1 hl
      obtain ⟨hbox, hboxes⟩ := everywhere_iff.1 hzero
      refine bare_iff.2 ⟨?_, fun c hc => ih c hc (hlabels c hc) (hboxes c hc)⟩
      rcases ofBoxes_singleton_eq_zero_iff.1 hbox with hbare | ⟨label, approach, hkind⟩
      · exact hbare
      · -- the label is a box of its own, and its text counts
        have hmem : label ∈ l.children := by simp [children, hkind, Kind.parts]
        have hnothing : Tally.ofBoxes [label] = 0 := (everywhere_iff.1 (hboxes label hmem)).1
        obtain ⟨s, size, role, htext⟩ := hlabel label approach hkind
        rcases ofBoxes_singleton_eq_zero_iff.1 hnothing with hbare | ⟨_, _, hlimit⟩
        · rw [htext] at hbare
          cases hbare
        · rw [htext] at hlimit
          cases hlimit

/-- A sketch is silent exactly if every box is bare, the attached scripts included. -/
theorem silentIff_sketch {l : Layout α} (hl : l.Labelled) : (l.sketch pen).SilentIff l.Bare := by
  rw [bare_iff_ofBoxes hl]
  exact l.leaves_sketch.silentIff

end Layout

namespace Pen

variable [Scalar α]

/-- Drawing fails exactly for bare layouts, and what it gives is what the sketch leaves. -/
theorem draw_ok_or_error (pen : Pen α) {l : Layout α} (hl : l.Labelled) :
    (∃ drawing, pen.draw l = .ok drawing ∧ drawing.primitives = (l.sketch pen 0).1 ∧
        drawing.primitives ≠ [] ∧ ¬ l.Bare) ∨
      pen.draw l = .error .nothingToDraw ∧ l.Bare := by
  have hsilent := @Layout.silentIff_sketch α _ pen l hl 0
  rw [draw_eq]
  by_cases hnil : (l.sketch pen 0).1 = []
  · rw [if_pos hnil]
    exact .inr ⟨rfl, hsilent.1 hnil⟩
  · rw [if_neg hnil]
    exact .inl ⟨_, rfl, rfl, hnil, fun hbare => hnil (hsilent.2 hbare)⟩

end Pen

end FormulaDrawing
