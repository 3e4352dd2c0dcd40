import FormulaDrawing.Proofs.Binary.Rounding
import FormulaDrawing.Proofs.Drawing.Look
import FormulaDrawing.Typesetter

/-!
# Placing a rendered object

Placing an object adds one offset to all of its points and puts the corner of its bounds where it
should be. The offset of a second placement at the same place is zero without a sign. Adding that
changes no coordinate but a negative zero, and markup writes both zeros alike:

    coordinate (x + zero false) = coordinate x          (coordinate_add_zero)

So what an object is written as does not show how often it was placed.
-/

namespace FormulaDrawing

namespace Markup

/-- Markup writes both zeros alike. -/
theorem coordinate_add_zero (x : Single) : coordinate (x + .zero false) = coordinate x := by
  rw [Binary.add_zero_false (by decide)]
  cases hx : x.isZero with
  | false => rfl
  | true =>
    have hzero : ∃ negative, x = .zero negative := by
      cases x with
      | nan => cases hx
      | signed s k => exact ⟨s, congrArg _ (Fin.ext (eq_of_beq hx))⟩
    obtain ⟨negative, rfl⟩ := hzero
    cases negative <;> decide +kernel

variable {f g : Single → Single}

/-- Points whose coordinates are written alike make elements that are written alike. -/
theorem element_mapPoints (hf : ∀ x, coordinate (f x) = coordinate x)
    (hg : ∀ y, coordinate (g y) = coordinate y) (p : Primitive Single) :
    element (p.mapPoints f g) = element p := by
  have hpoint : ∀ p : Point Single, point (p.map f g) = point p := by
    intro p
    rw [point, point, Point.map, hf, hg]
  have hcommand : ∀ c : PathCommand Single, command (c.mapPoints f g) = command c := by
    intro c
    cases c with
    | moveTo | lineTo | quadTo | cubicTo => simp only [PathCommand.mapPoints, command, hpoint]
    | close => rfl
  cases p with
  | textRun run =>
    have htransform : transform (run.rotation.map fun r => { r with center := r.center.map f g }) =
        transform run.rotation := by
      cases run.rotation with
      | none => rfl
      | some r => rw [Option.map_some, transform, transform, hpoint]
    rw [Primitive.mapPoints, element, element, textElement, textElement, htransform, Point.map, hf,
      hg]
  | line l =>
    rw [Primitive.mapPoints, element, element, lineElement, lineElement, Point.map, Point.map, hf,
      hf, hg, hg]
  | path p =>
    have hdata : pathData (p.commands.map (·.mapPoints f g)) = pathData p.commands := by
      rw [pathData, pathData, List.map_map]
      exact congrArg _ (List.map_congr_left fun c _ => hcommand c)
    rw [Primitive.mapPoints, element, element, pathElement, pathElement, hdata]

theorem elements_mapPoints (hf : ∀ x, coordinate (f x) = coordinate x)
    (hg : ∀ y, coordinate (g y) = coordinate y) (primitives : List (Primitive Single)) :
    elements (primitives.map (·.mapPoints f g)) = elements primitives := by
  rw [elements, elements, List.map_map]
  refine congrArg String.join (List.map_congr_left fun p _ => ?_)
  rw [Function.comp_apply, element_mapPoints hf hg]

end Markup

namespace RenderedObject

variable (o : RenderedObject) {left top : Single}

/-- The second placement at the same place has no offset. -/
theorem placedAt_placedAt (hleft : left.isFinite = true) (htop : top.isFinite = true) :
    (o.placedAt left top).placedAt left top =
      { o.placedAt left top with
        primitives := (o.placedAt left top).primitives.map
          (·.mapPoints (· + .zero false) (· + .zero false)) } := by
  show RenderedObject.mk ((o.placedAt left top).primitives.map
    fun p => p.translate (left - left) (top - top)) _ _ _ _ = _
  rw [Binary.sub_self_of_isFinite hleft, Binary.sub_self_of_isFinite htop]
  rfl

/-- Only points depend on where an object is placed. -/
theorem looks_placedAt (left top : Single) :
    (o.placedAt left top).primitives.map Primitive.look = o.primitives.map Primitive.look := by
  rw [placedAt, List.map_map]
  exact List.map_congr_left fun p _ => p.look_mapPoints _ _

theorem points_placedAt (left top : Single) :
    (o.placedAt left top).primitives.map Primitive.points =
      o.primitives.map fun p =>
        p.points.map (Point.map (· + (left - o.bounds.x)) (· + (top - o.bounds.y))) := by
  rw [placedAt, List.map_map]
  exact List.map_congr_left fun p _ => p.points_mapPoints _ _

/-- Placing an object adds one offset to every point of every primitive, puts the corner of the
bounds in its place and does nothing else: it gives the only object of which that is true. An object
that is placed again at the same place is written as it was. -/
theorem placedAt_rigid (hleft : left.isFinite = true) (htop : top.isFinite = true) :
    (∀ p : RenderedObject, p = o.placedAt left top ↔
      p.primitives.map Primitive.look = o.primitives.map Primitive.look ∧
        p.primitives.map Primitive.points = (o.primitives.map fun q =>
          q.points.map (Point.map (· + (left - o.bounds.x)) (· + (top - o.bounds.y)))) ∧
        p.bounds = ⟨left, top, o.bounds.width, o.bounds.height⟩ ∧
        p.baseline = o.baseline ∧ p.status = o.status ∧ p.source = o.source) ∧
      ((o.placedAt left top).placedAt left top).toSvg = (o.placedAt left top).toSvg ∧
      ((o.placedAt left top).placedAt left top).toMarkup = (o.placedAt left top).toMarkup := by
  have hwritten : Markup.elements ((o.placedAt left top).placedAt left top).primitives =
      Markup.elements (o.placedAt left top).primitives := by
    rw [o.placedAt_placedAt hleft htop]
    exact Markup.elements_mapPoints Markup.coordinate_add_zero Markup.coordinate_add_zero _
  refine ⟨fun p => ?_, ?_, hwritten⟩
  · constructor
    · rintro rfl
      exact ⟨o.looks_placedAt left top, o.points_placedAt left top, rfl, rfl, rfl, rfl⟩
    · obtain ⟨primitives, bounds, baseline, status, source⟩ := p
      rintro ⟨hlooks, hpoints, rfl, rfl, rfl, rfl⟩
      rw [← o.looks_placedAt left top] at hlooks
      rw [← o.points_placedAt left top] at hpoints
      obtain rfl := Primitive.ext_looks hlooks hpoints
      rfl
  · show Markup.openingTag _ ++ "\n" ++ Markup.elements _ ++ "</svg>" = _
    rw [hwritten]
    rfl

/-- A second placement takes the sign off the zero at which this glyph stands, and what is written
stays the same. -/
theorem placedAt_rigid_zero :
    let run : TextRun Single :=
      ⟨"x", ⟨.zero true, .nan⟩, 16.0, "serif", ⟨0, 0, 0, 255⟩,
        some ⟨1.5, ⟨.infinite true, .zero false⟩⟩⟩
    let o : RenderedObject := ⟨[.textRun run], ⟨.zero false, 2.0, 8.0, 16.0⟩, 12.0, .typeset, "x"⟩
    let placed := o.placedAt (.zero true) 2.0
    (Binary.zero true : Single).isFinite = true ∧ (2.0 : Single).isFinite = true ∧
      placed.placedAt (.zero true) 2.0 ≠ placed ∧
      (placed.placedAt (.zero true) 2.0).toSvg = placed.toSvg := by
  intro run o placed
  have hleft : (Binary.zero true : Single).isFinite = true := by decide
  have htop : (2.0 : Single).isFinite = true := by decide +kernel
  have hne : placed.placedAt (.zero true) 2.0 ≠ placed := by decide +kernel
  exact ⟨hleft, htop, hne, (o.placedAt_rigid hleft htop).2.1⟩

end RenderedObject

end FormulaDrawing
