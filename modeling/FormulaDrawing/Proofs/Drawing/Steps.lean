import FormulaDrawing.Drawing.Sketch

/-!
# A sketch as steps in a row

A box draws its own strokes around its parts, and then its scripts:

    l.sketch pen = (opening, then the parts, then closing), then the scripts        (sketch_eq)

Only a closing delimiter stands after the parts. So what is claimed of every sketch is shown for the
strokes of one box (`opening`, `closing`) and carried on by steps in a row (`Step.inARow`).
-/

namespace FormulaDrawing

variable {α : Type}

namespace Step

theorem nothing_andThen (step : Step α) : nothing.andThen step = step := rfl

theorem andThen_nothing (step : Step α) : step.andThen nothing = step := by
  funext used
  show ((step used).1 ++ [], (step used).2) = step used
  rw [List.append_nil]

theorem andThen_assoc (first second third : Step α) :
    (first.andThen second).andThen third = first.andThen (second.andThen third) := by
  funext used
  exact Prod.ext (List.append_assoc _ _ _) rfl

/-- Steps one after the other. -/
def inARow (steps : List (Step α)) : Step α := steps.foldr andThen nothing

theorem inARow_nil : inARow ([] : List (Step α)) = nothing := rfl

theorem inARow_cons (step : Step α) (steps : List (Step α)) :
    inARow (step :: steps) = step.andThen (inARow steps) :=
  rfl

theorem inARow_append (steps steps' : List (Step α)) :
    inARow (steps ++ steps') = (inARow steps).andThen (inARow steps') := by
  induction steps with
  | nil => rfl
  | cons step steps ih => rw [List.cons_append, inARow_cons, inARow_cons, ih, andThen_assoc]

end Step

namespace Layout

variable [Scalar α] (pen : Pen α)

/-- What a box draws before its parts. -/
def opening (r : Rect α) (b : α) : Kind α (Layout α) → Step α
  | .text s size _ => pen.textRun r b s size
  | .fraction _ bar _ => .emit [pen.fractionBar bar]
  | .root r bar _ _ => .emit [pen.stroke (Pen.radicalPath r), pen.overline bar]
  | .bigOperator op r _ _ => .emit [pen.stroke (Pen.glyphPath r op)]
  | .delimited d o _ _ => .emit [pen.delimiter o true d]
  | .sequence _ | .script _ _ | .limit _ _ | .empty => .nothing

/-- What a box draws after its parts. -/
def closing : Kind α (Layout α) → Step α
  | .delimited d _ _ c => .emit [pen.delimiter c false d]
  | _ => .nothing

theorem sketchOption_eq (o : Option (Layout α)) :
    sketchOption pen o = Step.inARow (o.toList.map (sketch pen)) := by
  cases o with
  | none =>
    rw [sketchOption]
    rfl
  | some l =>
    rw [sketchOption]
    exact (Step.andThen_nothing _).symm

theorem sketchList_eq (ls : List (Layout α)) :
    sketchList pen ls = Step.inARow (ls.map (sketch pen)) := by
  induction ls with
  | nil =>
    rw [sketchList]
    rfl
  | cons l ls ih => rw [sketchList, ih, List.map_cons, Step.inARow_cons]

theorem sketchKind_eq (r : Rect α) (b : α) (k : Kind α (Layout α)) :
    sketchKind pen r b k = (opening pen r b k).andThen
      ((Step.inARow (k.parts.map (sketch pen))).andThen (closing pen k)) := by
  cases k <;>
    simp [sketchKind, sketchOption_eq, sketchList_eq, opening, closing, Kind.parts,
      Step.inARow_append, Step.inARow_cons, Step.inARow_nil, Step.nothing_andThen,
      Step.andThen_nothing]

/-- A box draws its strokes around its parts, and then its scripts. -/
theorem sketch_eq (r : Rect α) (b : α) (k : Kind α (Layout α)) (s t : Option (Layout α)) :
    (node r b k s t).sketch pen = ((opening pen r b k).andThen
      ((Step.inARow (k.parts.map (sketch pen))).andThen (closing pen k))).andThen
        (Step.inARow ((s.toList ++ t.toList).map (sketch pen))) := by
  rw [sketch, sketchKind_eq, sketchOption_eq, sketchOption_eq, List.map_append, Step.inARow_append]

end Layout

/-- Drawing gives what the sketch leaves, from the first draw on, if that is anything. -/
theorem Pen.draw_eq [Scalar α] (pen : Pen α) (l : Layout α) :
    pen.draw l =
      if (l.sketch pen 0).1 = [] then .error .nothingToDraw
      else .ok ⟨(l.sketch pen 0).1, l.extent, l.baselineY - l.extent.y⟩ := by
  simp only [draw, List.isEmpty_iff]

/-- A drawing reports how far its layout reaches. -/
theorem Pen.bounds_of_draw [Scalar α] {pen : Pen α} {l : Layout α} {drawing : Drawing α}
    (h : pen.draw l = .ok drawing) : drawing.bounds = l.extent := by
  rw [draw_eq] at h
  split at h
  · cases h
  · cases h
    rfl

end FormulaDrawing
