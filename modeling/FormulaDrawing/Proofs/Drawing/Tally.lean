import FormulaDrawing.Proofs.Drawing.Steps
import FormulaDrawing.Proofs.Layout.Content

/-!
# A drawing shows every box once

Sketching a layout and listing its boxes are two recursions of their own. A `Tally` is what can be
told from both: the runs of text in their order, each with its font size and its anchor, and how
many lines and paths there are. Steps in a row add their tallies (`Step.Leaves.andThen`), and so,
from whatever draw it starts, a sketch leaves the boxes in document order and nothing else:

    Tally.ofPrimitives (l.sketch pen used).1 = Tally.ofBoxes l.boxes       (leaves_sketch)

No order of strokes is claimed: those of a delimiter stand on both sides of what it encloses, while
in the list its box comes first.
-/

namespace FormulaDrawing

variable {α : Type}

/-! ## Tallies -/

/-- Runs of text in their order, each with its font size and anchor, and numbers of strokes. -/
@[ext]
structure Tally (α : Type) where
  runs : List (String × α × Point α)
  lines : Nat
  paths : Nat

namespace Primitive

def run? : Primitive α → Option (String × α × Point α)
  | .textRun run => some (run.text, run.fontSize, run.anchor)
  | _ => none

def isLine : Primitive α → Bool
  | .line _ => true
  | _ => false

def isPath : Primitive α → Bool
  | .path _ => true
  | _ => false

end Primitive

/-- The run that a box of text calls for: it starts at the left of the box, on the baseline. -/
def Layout.run? [Scalar α] (b : Layout α) : Option (String × α × Point α) :=
  match b.kind with
  | .text s size _ => some (s, size, ⟨b.x, b.baselineY⟩)
  | _ => none

namespace Tally

instance : Zero (Tally α) := ⟨⟨[], 0, 0⟩⟩

instance : Add (Tally α) :=
  ⟨fun s t => ⟨s.runs ++ t.runs, s.lines + t.lines, s.paths + t.paths⟩⟩

theorem add_eq_zero_iff {s t : Tally α} : s + t = 0 ↔ s = 0 ∧ t = 0 := by
  have hruns : (s + t).runs = [] ↔ s.runs = [] ∧ t.runs = [] := List.append_eq_nil_iff
  have hlines : (s + t).lines = 0 ↔ s.lines = 0 ∧ t.lines = 0 := Nat.add_eq_zero_iff
  have hpaths : (s + t).paths = 0 ↔ s.paths = 0 ∧ t.paths = 0 := Nat.add_eq_zero_iff
  rw [Tally.ext_iff, Tally.ext_iff, Tally.ext_iff]
  show (s + t).runs = [] ∧ (s + t).lines = 0 ∧ (s + t).paths = 0 ↔
    (s.runs = [] ∧ s.lines = 0 ∧ s.paths = 0) ∧ t.runs = [] ∧ t.lines = 0 ∧ t.paths = 0
  tauto

/-- Without runs it does not matter where a tally is added. -/
theorem add_comm_of_runs {s t u : Tally α} (hu : u.runs = []) : s + (t + u) = s + u + t := by
  ext1
  · show s.runs ++ (t.runs ++ u.runs) = s.runs ++ u.runs ++ t.runs
    rw [hu, List.append_nil, List.append_nil]
  · show s.lines + (t.lines + u.lines) = s.lines + u.lines + t.lines
    omega
  · show s.paths + (t.paths + u.paths) = s.paths + u.paths + t.paths
    omega

def ofPrimitives (primitives : List (Primitive α)) : Tally α where
  runs := primitives.filterMap Primitive.run?
  lines := primitives.countP Primitive.isLine
  paths := primitives.countP Primitive.isPath

theorem ofPrimitives_append (xs ys : List (Primitive α)) :
    ofPrimitives (xs ++ ys) = ofPrimitives xs + ofPrimitives ys := by
  ext1
  · exact List.filterMap_append
  · exact List.countP_append
  · exact List.countP_append

/-- Every primitive counts. -/
theorem ofPrimitives_eq_zero_iff {primitives : List (Primitive α)} :
    ofPrimitives primitives = 0 ↔ primitives = [] := by
  constructor
  · intro h
    cases primitives with
    | nil => rfl
    | cons p ps =>
      have hlines := List.countP_eq_zero.1 (congrArg lines h) p List.mem_cons_self
      have hpaths := List.countP_eq_zero.1 (congrArg paths h) p List.mem_cons_self
      cases p with
      | textRun run => cases congrArg runs h
      | line l => exact absurd rfl hlines
      | path p => exact absurd rfl hpaths
  · rintro rfl
    rfl

variable [Scalar α]

/-- A fraction leaves a line, a root a line and a path, a big operator a path, and delimiters two
lines or two paths. -/
def ofBoxes (boxes : List (Layout α)) : Tally α :=
  let shapes := boxes.filterMap fun b => b.kind.shape?
  { runs := boxes.filterMap Layout.run?
    lines := shapes.count .fraction + shapes.count .root + 2 * shapes.count (.delimited .bars)
    paths := shapes.count .root +
      (shapes.count (.bigOperator .integral) + shapes.count (.bigOperator .sum)) +
      2 * shapes.count (.delimited .parentheses) }

theorem ofBoxes_append (xs ys : List (Layout α)) :
    ofBoxes (xs ++ ys) = ofBoxes xs + ofBoxes ys := by
  have hcount : ∀ s : Shape, ((xs ++ ys).filterMap fun b => b.kind.shape?).count s =
      (xs.filterMap fun b => b.kind.shape?).count s +
        (ys.filterMap fun b => b.kind.shape?).count s := by
    intro s
    rw [List.filterMap_append, List.count_append]
  ext1
  · exact List.filterMap_append
  · show _ + _ + 2 * _ = _ + _ + 2 * _ + (_ + _ + 2 * _)
    rw [hcount, hcount, hcount]
    omega
  · show _ + (_ + _) + 2 * _ = _ + (_ + _) + 2 * _ + (_ + (_ + _) + 2 * _)
    rw [hcount, hcount, hcount, hcount]
    omega

/-- Boxes come to nothing if each of them does. -/
theorem ofBoxes_eq_zero_iff {boxes : List (Layout α)} :
    ofBoxes boxes = 0 ↔ ∀ b ∈ boxes, ofBoxes [b] = 0 := by
  induction boxes with
  | nil => exact iff_of_true rfl nofun
  | cons b bs ih =>
    rw [← List.singleton_append, ofBoxes_append, add_eq_zero_iff, ih, List.singleton_append,
      List.forall_mem_cons]

end Tally

/-! ## Steps -/

namespace Step

/-- What a step leaves, from whatever draw it starts. -/
def Leaves (step : Step α) (t : Tally α) : Prop :=
  ∀ used, Tally.ofPrimitives (step used).1 = t

theorem leaves_nothing : (nothing : Step α).Leaves 0 := fun _ => rfl

theorem leaves_emit (primitives : List (Primitive α)) :
    (emit primitives).Leaves (.ofPrimitives primitives) :=
  fun _ => rfl

theorem Leaves.andThen {first second : Step α} {s t : Tally α} (hs : first.Leaves s)
    (ht : second.Leaves t) : (first.andThen second).Leaves (s + t) := by
  intro used
  show Tally.ofPrimitives ((first used).1 ++ (second (first used).2).1) = s + t
  rw [Tally.ofPrimitives_append, hs, ht]

end Step

/-! ## Layouts -/

namespace Layout

variable [Scalar α] {pen : Pen α}

theorem leaves_inARow {ls : List (Layout α)}
    (h : ∀ c ∈ ls, (c.sketch pen).Leaves (.ofBoxes c.boxes)) :
    (Step.inARow (ls.map (sketch pen))).Leaves (.ofBoxes (ls.flatMap boxes)) := by
  induction ls with
  | nil => exact Step.leaves_nothing
  | cons c ls ih =>
    rw [List.forall_mem_cons] at h
    rw [List.map_cons, Step.inARow_cons, List.flatMap_cons, Tally.ofBoxes_append]
    exact h.1.andThen (ih h.2)

/-- The strokes on both sides of the parts come to what the box calls for, and there is no run among
those after them. -/
theorem leaves_strokes (r : Rect α) (b : α) (k : Kind α (Layout α)) (s t : Option (Layout α)) :
    ∃ before after : Tally α, (opening pen r b k).Leaves before ∧ (closing pen k).Leaves after ∧
      after.runs = [] ∧ before + after = .ofBoxes [.node r b k s t] := by
  cases k with
  | text text size role =>
    exact ⟨.ofBoxes [.node r b (.text text size role) s t], 0, fun _ => rfl, Step.leaves_nothing,
      rfl, rfl⟩
  | sequence | script | limit | empty =>
    exact ⟨0, 0, Step.leaves_nothing, Step.leaves_nothing, rfl, rfl⟩
  | fraction | root =>
    exact ⟨_, 0, Step.leaves_emit _, Step.leaves_nothing, rfl, rfl⟩
  | bigOperator op =>
    exact ⟨_, 0, Step.leaves_emit _, Step.leaves_nothing, rfl, by cases op <;> rfl⟩
  | delimited d =>
    exact ⟨_, _, Step.leaves_emit _, Step.leaves_emit _, by cases d <;> rfl, by cases d <;> rfl⟩

/-- From whatever draw it starts, a sketch leaves the boxes in document order. -/
theorem leaves_sketch (l : Layout α) : (l.sketch pen).Leaves (.ofBoxes l.boxes) := by
  induction l using children_induction with
  | step l ih =>
    obtain ⟨r, b, k, s, t⟩ := l
    have hparts := leaves_inARow fun c hc => ih c (List.mem_append_left _ hc)
    have hscripts := leaves_inARow fun c hc => ih c (List.mem_append_right _ hc)
    obtain ⟨before, after, hbefore, hafter, hruns, hstrokes⟩ := @leaves_strokes α _ pen r b k s t
    have hboxes : (node r b k s t).boxes = [node r b k s t] ++ k.parts.flatMap boxes ++
        (s.toList ++ t.toList).flatMap boxes := by
      rw [boxes_eq, children, List.flatMap_append]
      rfl
    have hsketch := (hbefore.andThen (hparts.andThen hafter)).andThen hscripts
    -- strokes on both sides of the parts count as if they stood before them
    rw [Tally.add_comm_of_runs hruns, hstrokes] at hsketch
    rw [sketch_eq, hboxes, Tally.ofBoxes_append, Tally.ofBoxes_append]
    exact hsketch

end Layout

namespace Pen

variable [Scalar α]

/-- A drawing shows every box once and in order. Its runs are the boxes of text in document order,
each with the text and the font size of its box, anchored at the left end of its baseline. It has a
line for each fraction and root and two for each pair of bars, and a path for each root and big
operator and two for each pair of parentheses. There is no drawing exactly if all this is
nothing. -/
theorem draw_shows_boxes (pen : Pen α) (l : Layout α) :
    let shapes := l.boxes.filterMap fun b => b.kind.shape?
    let runs := l.boxes.filterMap Layout.run?
    let lines := shapes.count .fraction + shapes.count .root + 2 * shapes.count (.delimited .bars)
    let paths := shapes.count .root +
      (shapes.count (.bigOperator .integral) + shapes.count (.bigOperator .sum)) +
      2 * shapes.count (.delimited .parentheses)
    match pen.draw l with
    | .ok drawing =>
      drawing.primitives.filterMap Primitive.run? = runs ∧
        drawing.primitives.countP Primitive.isLine = lines ∧
        drawing.primitives.countP Primitive.isPath = paths ∧
        ¬ (runs = [] ∧ lines = 0 ∧ paths = 0)
    | .error e => e = .nothingToDraw ∧ runs = [] ∧ lines = 0 ∧ paths = 0 := by
  intro shapes runs lines paths
  have hleaves : Tally.ofPrimitives (l.sketch pen 0).1 = ⟨runs, lines, paths⟩ :=
    Layout.leaves_sketch l 0
  have hzero : (l.sketch pen 0).1 = [] ↔ runs = [] ∧ lines = 0 ∧ paths = 0 := by
    rw [← Tally.ofPrimitives_eq_zero_iff, hleaves]
    exact Tally.ext_iff
  rw [draw_eq]
  by_cases hnil : (l.sketch pen 0).1 = []
  · rw [if_pos hnil]
    exact ⟨rfl, hzero.1 hnil⟩
  · rw [if_neg hnil]
    exact ⟨congrArg Tally.runs hleaves, congrArg Tally.lines hleaves, congrArg Tally.paths hleaves,
      fun h => hnil (hzero.2 h)⟩

end Pen

end FormulaDrawing
