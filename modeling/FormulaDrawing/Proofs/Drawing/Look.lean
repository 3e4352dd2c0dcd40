import FormulaDrawing.Drawing.MarkupReader
import FormulaDrawing.Proofs.Drawing.Steps
import FormulaDrawing.Proofs.Layout.Boxes

/-!
# Looks and points

A primitive is its look and its points (`Primitive.ext_look`): the points are where it lies, and the
look is all the rest. Moving a primitive moves its points and keeps its look.

A pen never looks at where a box lies to decide what to draw. So layouts that differ in positions
alone leave drawings that look alike (`draw_mapPoints`).
-/

namespace FormulaDrawing

variable {α : Type}

/-! ## Primitives -/

/-- All of a primitive but where it lies. -/
inductive Look (α : Type) where
  | textRun (text : String) (fontSize : α) (fontFamily : String) (color : Color)
      (degrees : Option α)
  | line (stroke : Color) (width : α)
  | path (commands : List CommandKind) (stroke : Color) (fill : Option Color) (width : α)
deriving DecidableEq, Repr

namespace PathCommand

def points : PathCommand α → List (Point α)
  | .moveTo p | .lineTo p => [p]
  | .quadTo c p => [c, p]
  | .cubicTo c₁ c₂ p => [c₁, c₂, p]
  | .close => []

theorem kind_mapPoints (f g : α → α) (c : PathCommand α) : (c.mapPoints f g).kind = c.kind := by
  cases c <;> rfl

theorem points_mapPoints (f g : α → α) (c : PathCommand α) :
    (c.mapPoints f g).points = c.points.map (Point.map f g) := by
  cases c <;> rfl

/-- A command is its kind and its points, also in front of other points. -/
theorem ext_kind {c d : PathCommand α} {ps qs : List (Point α)} (hkind : c.kind = d.kind)
    (hpoints : c.points ++ ps = d.points ++ qs) : c = d ∧ ps = qs := by
  cases c <;> cases d <;> simp_all [kind, points]

/-- So commands in a row are their kinds and their points. -/
theorem ext_kinds {cs ds : List (PathCommand α)} (hkinds : cs.map kind = ds.map kind)
    (hpoints : cs.flatMap points = ds.flatMap points) : cs = ds := by
  induction cs generalizing ds with
  | nil => exact (List.map_eq_nil_iff.1 hkinds.symm).symm
  | cons c cs ih =>
    cases ds with
    | nil => cases hkinds
    | cons d ds =>
      obtain ⟨hkind, htail⟩ := List.cons_eq_cons.1 hkinds
      obtain ⟨rfl, hrest⟩ := ext_kind hkind hpoints
      rw [ih htail hrest]

end PathCommand

namespace Primitive

def look : Primitive α → Look α
  | .textRun run =>
    .textRun run.text run.fontSize run.fontFamily run.color (run.rotation.map Rotation.degrees)
  | .line l => .line l.stroke l.width
  | .path p => .path (p.commands.map PathCommand.kind) p.stroke p.fill p.width

/-- The anchor and the center of the rotation, both ends, or the points of the commands. -/
def points : Primitive α → List (Point α)
  | .textRun run => run.anchor :: (run.rotation.map Rotation.center).toList
  | .line l => [l.start, l.finish]
  | .path p => p.commands.flatMap PathCommand.points

def rotation? : Primitive α → Option (Rotation α)
  | .textRun run => run.rotation
  | _ => none

theorem look_mapPoints (f g : α → α) (p : Primitive α) : (p.mapPoints f g).look = p.look := by
  cases p with
  | textRun run => simp [mapPoints, look, Function.comp_def]
  | line l => rfl
  | path p => simp [mapPoints, look, Function.comp_def, PathCommand.kind_mapPoints]

theorem points_mapPoints (f g : α → α) (p : Primitive α) :
    (p.mapPoints f g).points = p.points.map (Point.map f g) := by
  cases p with
  | textRun run => cases h : run.rotation <;> simp [mapPoints, points, h]
  | line l => rfl
  | path p =>
    simp [mapPoints, points, List.map_flatMap, List.flatMap_map, PathCommand.points_mapPoints]

/-- A primitive is its look and its points. -/
theorem ext_look {p q : Primitive α} (hlook : p.look = q.look) (hpoints : p.points = q.points) :
    p = q := by
  cases p with
  | textRun run =>
    cases q with
    | textRun run' =>
      obtain ⟨text, anchor, size, family, color, _ | ⟨degrees, center⟩⟩ := run <;>
        obtain ⟨text', anchor', size', family', color', _ | ⟨degrees', center'⟩⟩ := run' <;>
          simp_all [look, points]
    | line l => cases hlook
    | path p => cases hlook
  | line l =>
    cases q with
    | line l' =>
      obtain ⟨start, finish, stroke, width⟩ := l
      obtain ⟨start', finish', stroke', width'⟩ := l'
      simp_all [look, points]
    | textRun run => cases hlook
    | path p => cases hlook
  | path p =>
    cases q with
    | path p' =>
      obtain ⟨commands, stroke, fill, width⟩ := p
      obtain ⟨commands', stroke', fill', width'⟩ := p'
      obtain ⟨hkinds, rfl, rfl, rfl⟩ := Look.path.inj hlook
      obtain rfl := PathCommand.ext_kinds hkinds hpoints
      rfl
    | textRun run => cases hlook
    | line l => cases hlook

theorem ext_looks {ps qs : List (Primitive α)} (hlooks : ps.map look = qs.map look)
    (hpoints : ps.map points = qs.map points) : ps = qs := by
  induction ps generalizing qs with
  | nil => exact (List.map_eq_nil_iff.1 hlooks.symm).symm
  | cons p ps ih =>
    obtain _ | ⟨q, qs⟩ := qs
    · cases hlooks
    obtain ⟨hlook, hlooks⟩ := List.cons_eq_cons.1 hlooks
    obtain ⟨hpoint, hpoints⟩ := List.cons_eq_cons.1 hpoints
    rw [ext_look hlook hpoint, ih hlooks hpoints]

end Primitive

/-- The rotations in some primitives, in output order. -/
def degrees (primitives : List (Primitive α)) : List α :=
  primitives.filterMap fun p => p.rotation?.map Rotation.degrees

/-! ## Steps -/

namespace Step

/-- Both steps leave primitives that look alike, and use the same draws. -/
def Alike (step step' : Step α) : Prop :=
  ∀ used, (step' used).1.map Primitive.look = (step used).1.map Primitive.look ∧
    (step' used).2 = (step used).2

theorem alike_nothing : (nothing : Step α).Alike nothing := fun _ => ⟨rfl, rfl⟩

theorem alike_emit {ps qs : List (Primitive α)}
    (h : qs.map Primitive.look = ps.map Primitive.look) : (emit ps).Alike (emit qs) :=
  fun _ => ⟨h, rfl⟩

theorem Alike.andThen {first first' second second' : Step α} (hfirst : first.Alike first')
    (hsecond : second.Alike second') : (first.andThen second).Alike (first'.andThen second') := by
  intro used
  obtain ⟨hlook, hused⟩ := hfirst used
  obtain ⟨hlook', hused'⟩ := hsecond (first used).2
  show ((first' used).1 ++ (second' (first' used).2).1).map Primitive.look =
      ((first used).1 ++ (second (first used).2).1).map Primitive.look ∧
    (second' (first' used).2).2 = (second (first used).2).2
  rw [hused, List.map_append, List.map_append, hlook, hlook']
  exact ⟨rfl, hused'⟩

end Step

/-! ## Layouts -/

/-- A drawing without where it lies. -/
def Drawing.looks (d : Drawing α) : List (Look α) := d.primitives.map Primitive.look

namespace Layout

variable [Scalar α] {pen : Pen α} {f g : α → α}

theorem alike_inARow {ls : List (Layout α)}
    (h : ∀ l ∈ ls, (l.sketch pen).Alike ((l.mapPoints f g).sketch pen)) :
    (Step.inARow (ls.map (sketch pen))).Alike
      (Step.inARow ((ls.map (mapPoints f g)).map (sketch pen))) := by
  induction ls with
  | nil => exact Step.alike_nothing
  | cons l ls ih =>
    rw [List.forall_mem_cons] at h
    exact h.1.andThen (ih h.2)

/-- Whether a run is rotated, and by how much, does not depend on where it lies. -/
theorem alike_textRun (r : Rect α) (b : α) (text : String) (size : α) :
    (pen.textRun r b text size).Alike (pen.textRun (r.mapCorner f g) b text size) := by
  intro used
  have hdegrees : (pen.rotation text (r.mapCorner f g) used).map Rotation.degrees =
      (pen.rotation text r used).map Rotation.degrees := by
    unfold Pen.rotation
    split
    · split <;> rfl
    · rfl
  have hsome := congrArg Option.isSome hdegrees
  rw [Option.isSome_map, Option.isSome_map] at hsome
  constructor
  · show [Look.textRun text size _ _ ((pen.rotation text (r.mapCorner f g) used).map _)] =
      [Look.textRun text size _ _ ((pen.rotation text r used).map _)]
    rw [hdegrees]
  · show (if (pen.rotation text (r.mapCorner f g) used).isSome then used + 1 else used) =
      if (pen.rotation text r used).isSome then used + 1 else used
    rw [hsome]

theorem look_delimiter (r : Rect α) (opening : Bool) (d : Delimiter) :
    (pen.delimiter (r.mapCorner f g) opening d).look = (pen.delimiter r opening d).look := by
  cases d <;> rfl

theorem alike_opening (r : Rect α) (b : α) (k : Kind α (Layout α)) :
    (opening pen r b k).Alike (opening pen (r.mapCorner f g) b (mapPointsKind f g k)) := by
  cases k with
  | text s size role => exact alike_textRun r b s size
  | sequence | script | limit | empty => exact Step.alike_nothing
  | fraction | root => exact Step.alike_emit rfl
  | bigOperator op =>
    refine Step.alike_emit ?_
    cases op <;> rfl
  | delimited d o x c =>
    refine Step.alike_emit ?_
    rw [List.map_singleton, List.map_singleton, look_delimiter]

theorem alike_closing (k : Kind α (Layout α)) :
    (closing pen k).Alike (closing pen (mapPointsKind f g k)) := by
  cases k with
  | delimited d o x c =>
    refine Step.alike_emit ?_
    rw [List.map_singleton, List.map_singleton, look_delimiter]
  | _ => exact Step.alike_nothing

/-- Moved points are drawn alike. -/
theorem alike_sketch (l : Layout α) : (l.sketch pen).Alike ((l.mapPoints f g).sketch pen) := by
  induction l using children_induction with
  | step l ih =>
    obtain ⟨r, b, k, s, t⟩ := l
    have hparts := alike_inARow fun c hc => ih c (List.mem_append_left _ hc)
    have hscripts := alike_inARow fun c hc => ih c (List.mem_append_right _ hc)
    rw [mapPoints, sketch_eq, sketch_eq, parts_mapPointsKind, mapPointsOption_eq,
      mapPointsOption_eq, Option.toList_map, Option.toList_map, ← List.map_append]
    exact ((alike_opening r b k).andThen (hparts.andThen (alike_closing k))).andThen hscripts

end Layout

namespace Pen

/-- Where boxes lie decides neither whether a layout is drawn nor what the drawing looks like. -/
theorem draw_mapPoints [Scalar α] (pen : Pen α) (f g : α → α) (l : Layout α) :
    (pen.draw (l.mapPoints f g)).map Drawing.looks = (pen.draw l).map Drawing.looks := by
  have halike : (l.sketch pen).Alike ((l.mapPoints f g).sketch pen) := Layout.alike_sketch l
  have hlooks := (halike 0).1
  have hnil : ((l.mapPoints f g).sketch pen 0).1 = [] ↔ (l.sketch pen 0).1 = [] := by
    rw [← List.map_eq_nil_iff (f := Primitive.look), hlooks, List.map_eq_nil_iff]
  rw [draw_eq, draw_eq]
  by_cases hempty : (l.sketch pen 0).1 = []
  · rw [if_pos hempty, if_pos (hnil.2 hempty)]
  · rw [if_neg hempty, if_neg (mt hnil.1 hempty)]
    exact congrArg Except.ok hlooks

end Pen

end FormulaDrawing
