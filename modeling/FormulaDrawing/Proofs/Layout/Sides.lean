import FormulaDrawing.Proofs.Binary.Rounding
import FormulaDrawing.Proofs.Layout.Closure

/-!
# The sides of boxes

A measure may answer with anything, and sums and differences of what it answers may overflow or have
no value. Still the width and the height of every box are numbers from zero up: each box is cut off
at zero when it is made, and the greater of a number and zero is never not-a-number
(`zero_le_max_zero`). After that no step writes a size.
-/

namespace FormulaDrawing

variable {f : Format}

namespace Binary

/-- Below or equal; nothing is either to not-a-number. -/
def le (x y : Binary f) : Bool := x.lt y || x.equal y

theorem signed_le_signed {s t : Bool} {j k : Fin (f.infinity + 1)} :
    (signed s j).le (signed t k) = true ↔ place s j ≤ place t k := by
  rw [le, lt, equal, Bool.or_eq_true, decide_eq_true_eq, beq_iff_eq]
  omega

theorem isNaN_of_le {x y : Binary f} (h : x.le y = true) : y.isNaN = false := by
  cases y with
  | nan => cases x <;> cases h
  | signed t k => rfl

theorem decimal_zero : (0.0 : Binary f) = zero false := by
  have hzero : (OfScientific.ofScientific 0 true 1 : Rat) = 0 := by norm_num
  show ofRat false (OfScientific.ofScientific 0 true 1) = zero false
  rw [hzero, ofRat_zero]

/-- The greater of a number and zero is from zero up, whatever the number is. -/
theorem zero_le_max_zero (x : Binary f) : (zero false).le (max x (zero false)) = true := by
  have hself : (zero false : Binary f).le (zero false) = true := signed_le_signed.2 (Int.le_refl _)
  cases x with
  | nan => exact hself
  | signed s k =>
    show (zero false).le (greater (signed s k) (zero false)) = true
    rw [greater, if_neg (by simp [isNaN]), if_neg (by simp [isNaN, zero])]
    split
    · exact hself
    next h =>
      rw [zero, lt, decide_eq_true_eq, Int.not_lt] at h
      exact signed_le_signed.2 h

end Binary

namespace Layout

/-- Both sides of a box are numbers from zero up. -/
def HasSides (b : Layout (Binary f)) : Prop :=
  (Binary.zero false).le b.width = true ∧ (Binary.zero false).le b.height = true

theorem hasSides_sized {r : Rect (Binary f)} {baseline : Binary f}
    {k : Kind (Binary f) (Layout (Binary f))} : (sized r baseline k).HasSides := by
  show (Binary.zero false).le (max r.width 0.0) = true ∧
    (Binary.zero false).le (max r.height 0.0) = true
  rw [Binary.decimal_zero]
  exact ⟨Binary.zero_le_max_zero _, Binary.zero_le_max_zero _⟩

theorem HasSides.isNaN {b : Layout (Binary f)} (h : b.HasSides) :
    b.width.isNaN = false ∧ b.height.isNaN = false :=
  ⟨Binary.isNaN_of_le h.1, Binary.isNaN_of_le h.2⟩

theorem boxwise_hasSides : Boxwise (HasSides (f := f)) where
  attach {l _ side} h := by
    cases side <;> exact h
  mapPoints {l g k} h := by
    unfold HasSides width height
    rw [bounds_mapPoints]
    exact h

end Layout

namespace Engine

open Layout (HasSides hasSides_sized)

variable (e : Engine (Binary f))

theorem makes_hasSides : e.Makes HasSides where
  empty {ctx} := by
    unfold emptyLayout
    split <;> exact hasSides_sized
  text := hasSides_sized
  row := hasSides_sized
  fraction := hasSides_sized
  script := hasSides_sized
  root := hasSides_sized
  bigOperator := hasSides_sized
  limit := hasSides_sized
  delimited := hasSides_sized

/-- Whatever is laid out, wherever, with any settings and any measure, every box has a width and a
height from zero up, so neither is not-a-number. They stay so wherever the layout is moved. -/
theorem hasSides_layout (ctx : Context (Binary f)) (x : Formula)
    (moves : List (Binary f × Binary f)) :
    (moves.foldl (fun l move => l.translate move.1 move.2) (e.layout ctx x)).Everywhere
      fun b => b.HasSides ∧ b.width.isNaN = false ∧ b.height.isNaN = false := by
  have hmade : (e.layout ctx x).Everywhere HasSides :=
    (e.makes_hasSides.closed Layout.boxwise_hasSides).holds_layoutAt x
  have hmoved := hmade.foldl_translate Layout.boxwise_hasSides moves
  exact fun b hb => ⟨hmoved b hb, (hmoved b hb).isNaN⟩

end Engine

end FormulaDrawing
