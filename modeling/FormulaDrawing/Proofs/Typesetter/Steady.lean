import FormulaDrawing.Proofs.Drawing.Look
import FormulaDrawing.Proofs.Typesetter.Rendering

/-!
# Jitter changes rotations and nothing else

Two pens of one style draw a layout, one of them without rotations. Both leave the same primitives
up to rotations, and the other one takes a draw for each run of a single grapheme cluster, in the
order of the runs, and for nothing else (`Step.Jitters`). Steps in a row pass the draws on, so what
holds of each step holds of a sketch (`jitters_sketch`).

Everything else that a rendering depends on is the same for steady options, hence

    t.steady.render source = (t.render source).withoutRotations          (render_steady)
-/

namespace FormulaDrawing

variable {α : Type}

/-! ## Rotations -/

namespace Primitive

def withoutRotation : Primitive α → Primitive α
  | .textRun run => .textRun { run with rotation := none }
  | .line l => .line l
  | .path p => .path p

/-- A run of a single grapheme cluster. -/
def isGlyph : Primitive α → Bool
  | .textRun run => Unicode.graphemeCount run.text == 1
  | _ => false

end Primitive

/-- From the draw `used` on, exactly the glyphs are rotated, each by the next draw. -/
structure Jittered (draws : Nat → α) (used : Nat) (primitives : List (Primitive α)) : Prop where
  isSome_rotation? : ∀ p ∈ primitives, p.rotation?.isSome = p.isGlyph
  degrees : degrees primitives =
    (List.range' used (primitives.countP Primitive.isGlyph)).map draws

/-- A run is rotated by the next draw if it is a glyph. -/
theorem Jittered.singleton {draws : Nat → α} {used : Nat} {run : TextRun α} {center : Point α}
    (h : run.rotation =
      if (Primitive.textRun run).isGlyph then some ⟨draws used, center⟩ else none) :
    Jittered draws used [.textRun run] where
  isSome_rotation? p hp := by
    rw [List.mem_singleton.1 hp, Primitive.rotation?, h]
    cases (Primitive.textRun run).isGlyph <;> rfl
  degrees := by
    have hdegrees : FormulaDrawing.degrees [.textRun run] =
        (run.rotation.map Rotation.degrees).toList := by
      cases hrotation : run.rotation <;>
        simp [FormulaDrawing.degrees, Primitive.rotation?, hrotation]
    rw [hdegrees, h, List.countP_singleton]
    split <;> rfl

theorem Jittered.append {draws : Nat → α} {used : Nat} {xs ys : List (Primitive α)}
    (hxs : Jittered draws used xs)
    (hys : Jittered draws (used + xs.countP Primitive.isGlyph) ys) :
    Jittered draws used (xs ++ ys) where
  isSome_rotation? p hp := (List.mem_append.1 hp).elim (hxs.isSome_rotation? p)
    (hys.isSome_rotation? p)
  degrees := by
    have hsplit : FormulaDrawing.degrees (xs ++ ys) =
        FormulaDrawing.degrees xs ++ FormulaDrawing.degrees ys :=
      List.filterMap_append
    rw [hsplit, hxs.degrees, hys.degrees, List.countP_append, ← List.map_append,
      List.range'_append_1]

/-! ## Steps -/

namespace Step

/-- One step takes a draw for each glyph, and the other leaves the same primitives without
rotations. -/
structure Jitters (draws : Nat → α) (step still : Step α) (used : Nat) : Prop where
  still : ∀ n, (still n).1 = (step used).1.map Primitive.withoutRotation
  jittered : Jittered draws used (step used).1
  used : (step used).2 = used + (step used).1.countP Primitive.isGlyph

variable {draws : Nat → α} {used : Nat}

theorem jitters_nothing : Jitters draws nothing nothing used where
  still _ := rfl
  jittered := ⟨nofun, rfl⟩
  used := rfl

/-- Strokes need no draw. -/
theorem jitters_emit {primitives : List (Primitive α)}
    (h : ∀ p ∈ primitives, p.isText = false) :
    Jitters draws (emit primitives) (emit primitives) used := by
  have hplain : ∀ p ∈ primitives, p.withoutRotation = p ∧ p.rotation? = none ∧
      p.isGlyph = false := by
    intro p hp
    cases p with
    | textRun run => cases h _ hp
    | line l => exact ⟨rfl, rfl, rfl⟩
    | path p => exact ⟨rfl, rfl, rfl⟩
  have hcount : primitives.countP Primitive.isGlyph = 0 := by
    rw [List.countP_eq_zero]
    intro p hp
    simp [(hplain p hp).2.2]
  exact {
    still := fun _ => (List.map_id' primitives).symm.trans
      (List.map_congr_left fun p hp => (hplain p hp).1.symm)
    jittered := {
      isSome_rotation? := fun p hp => by rw [(hplain p hp).2.1, (hplain p hp).2.2]; rfl
      degrees := by
        have hnil : degrees primitives = [] := by
          rw [degrees, List.filterMap_eq_nil_iff]
          intro p hp
          rw [(hplain p hp).2.1]
          rfl
        rw [emit, hcount, hnil]
        rfl }
    used := by rw [emit, hcount]; rfl }

theorem Jitters.andThen {first second first' second' : Step α}
    (hfirst : Jitters draws first first' used) (hsecond : ∀ n, Jitters draws second second' n) :
    Jitters draws (first.andThen second) (first'.andThen second') used := by
  have hnext := hsecond (first used).2
  have hstep : (first.andThen second) used =
      ((first used).1 ++ (second (first used).2).1, (second (first used).2).2) := rfl
  exact {
    still := fun n => by
      have hstill : ((first'.andThen second') n).1 =
          (first' n).1 ++ (second' (first' n).2).1 := rfl
      rw [hstill, hstep, hfirst.still, hnext.still, List.map_append]
    jittered := by
      rw [hstep]
      exact hfirst.jittered.append (hfirst.used ▸ hnext.jittered)
    used := by
      rw [hstep, hnext.used, hfirst.used, List.countP_append, Nat.add_assoc] }

end Step

/-! ## Layouts -/

/-- The pen of the same style without rotations. -/
def Pen.still (pen : Pen α) : Pen α := ⟨{ pen.style with handwriting := false }, none⟩

namespace Layout

variable [Scalar α] {pen : Pen α} {draws : Nat → α}

/-- A layout is drawn with a draw for each glyph, whatever was drawn before. -/
def Jitters (pen : Pen α) (draws : Nat → α) (l : Layout α) : Prop :=
  ∀ used, Step.Jitters draws (l.sketch pen) (l.sketch pen.still) used

/-- A run of text takes a draw if it is a single cluster. -/
theorem jitters_textRun (hpen : pen.rotations = some draws) (bounds : Rect α) (baseline : α)
    (text : String) (fontSize : α) (used : Nat) :
    Step.Jitters draws (pen.textRun bounds baseline text fontSize)
      (pen.still.textRun bounds baseline text fontSize) used := by
  have hrotation : pen.rotation text bounds used =
      if Unicode.graphemeCount text == 1 then
        some ⟨draws used, ⟨bounds.centerX, bounds.centerY⟩⟩
      else none := by
    rw [Pen.rotation, hpen]
  have hjittered : Jittered draws used (pen.textRun bounds baseline text fontSize used).1 :=
    .singleton hrotation
  have hsome : (pen.rotation text bounds used).isSome = (Unicode.graphemeCount text == 1) :=
    hjittered.isSome_rotation? _ (List.mem_singleton_self _)
  exact {
    still := fun _ => rfl
    jittered := hjittered
    used := by
      simp only [Pen.textRun, hsome, List.countP_singleton, Primitive.isGlyph]
      exact (apply_ite (used + ·) _ 1 0).symm }

theorem jitters_inARow {ls : List (Layout α)} (h : ∀ l ∈ ls, l.Jitters pen draws) (used : Nat) :
    Step.Jitters draws (Step.inARow (ls.map (sketch pen)))
      (Step.inARow (ls.map (sketch pen.still))) used := by
  induction ls generalizing used with
  | nil => exact Step.jitters_nothing
  | cons l ls ih =>
    rw [List.forall_mem_cons] at h
    rw [List.map_cons, List.map_cons, Step.inARow_cons, Step.inARow_cons]
    exact (h.1 used).andThen (ih h.2)

theorem isText_delimiter (r : Rect α) (opening : Bool) (d : Delimiter) :
    (pen.delimiter r opening d).isText = false := by
  cases d <;> rfl

/-- Of what a box draws before its parts only a run of text moves. -/
theorem jitters_opening (hpen : pen.rotations = some draws) (r : Rect α) (b : α)
    (k : Kind α (Layout α)) (used : Nat) :
    Step.Jitters draws (opening pen r b k) (opening pen.still r b k) used := by
  cases k with
  | text s size role => exact jitters_textRun hpen r b s size used
  | sequence | script | limit | empty => exact Step.jitters_nothing
  | fraction | root | bigOperator =>
    refine Step.jitters_emit ?_
    simp [Primitive.isText, Pen.fractionBar, Pen.stroke, Pen.overline, Pen.line]
  | delimited d o x c =>
    refine Step.jitters_emit ?_
    simp [isText_delimiter]

theorem jitters_closing (k : Kind α (Layout α)) (used : Nat) :
    Step.Jitters draws (closing pen k) (closing pen.still k) used := by
  cases k with
  | delimited d o x c =>
    refine Step.jitters_emit ?_
    simp [isText_delimiter]
  | _ => exact Step.jitters_nothing

theorem jitters_sketch (hpen : pen.rotations = some draws) (l : Layout α) :
    l.Jitters pen draws := by
  induction l using children_induction with
  | step l ih =>
    obtain ⟨r, b, k, s, t⟩ := l
    have hparts := jitters_inARow fun c hc => ih c (List.mem_append_left _ hc)
    have hscripts := jitters_inARow fun c hc => ih c (List.mem_append_right _ hc)
    intro used
    rw [sketch_eq, sketch_eq]
    exact ((jitters_opening hpen r b k used).andThen fun m =>
      (hparts m).andThen (jitters_closing k)).andThen hscripts

end Layout

/-! ## Rendering -/

def Drawing.withoutRotations (d : Drawing α) : Drawing α :=
  { d with primitives := d.primitives.map Primitive.withoutRotation }

def RenderedObject.withoutRotations (o : RenderedObject) : RenderedObject :=
  { o with primitives := o.primitives.map Primitive.withoutRotation }

theorem Pen.draw_still [Scalar α] {pen : Pen α} {draws : Nat → α}
    (hpen : pen.rotations = some draws) (l : Layout α) :
    pen.still.draw l = (pen.draw l).map Drawing.withoutRotations := by
  have hstill := (Layout.jitters_sketch hpen l 0).still 0
  unfold draw
  simp only [hstill, List.isEmpty_map]
  split <;> rfl

namespace Typesetter

variable (t : Typesetter) (source : String)

/-- The same typesetter with steady options. -/
def steady : Typesetter := { t with options := t.options.steady }

theorem pen_steady : t.steady.pen = t.pen.still := rfl

theorem rotations_pen {seed : UInt64} (h : t.options.handwriting = true)
    (hseed : t.options.seed = some seed) : t.pen.rotations = some (Jitter.draw seed) := by
  have hrotations : t.pen.rotations = if t.options.handwriting then
      some (Jitter.draw (t.options.seed.getD t.entropy)) else none := rfl
  rw [hrotations, h, hseed]
  rfl

theorem typeset_steady {draws : Nat → Single} (hpen : t.pen.rotations = some draws) :
    t.steady.typeset source = (t.typeset source).map RenderedObject.withoutRotations := by
  have hvalidate : t.steady.options.validate = t.options.validate := rfl
  have hlayout : t.steady.layout source = t.layout source := rfl
  unfold typeset
  rw [hvalidate, hlayout, pen_steady, Pen.draw_still hpen]
  split
  · rfl
  · split
    · rfl
    · cases t.pen.draw (t.layout source) <;> rfl

/-- A fallback has no rotations, whatever the options. -/
theorem fallback_steady : t.steady.fallback source = (t.fallback source).withoutRotations := by
  unfold fallback
  split <;> rfl

/-- Steady options change rotations and nothing else. -/
theorem render_steady {draws : Nat → Single} (hpen : t.pen.rotations = some draws) :
    t.steady.render source = (t.render source).withoutRotations := by
  unfold render
  rw [t.typeset_steady source hpen]
  cases t.typeset source with
  | ok object => rfl
  | error e => exact t.fallback_steady source

theorem rotation?_of_mem_fallback {p : Primitive Single}
    (hp : p ∈ (t.fallback source).primitives) : p.rotation? = none := by
  unfold fallback at hp
  split at hp
  · cases hp
  · rw [List.mem_singleton.1 hp]
    rfl

/-- With handwriting and a seed: steady options give the same object without its rotations. In what
was typeset a run is rotated exactly if it is a single grapheme cluster, and in output order the
rotations are the draws of the seed from the first on. A fallback is not rotated. -/
theorem render_handwriting {seed : UInt64} (h : t.options.handwriting = true)
    (hseed : t.options.seed = some seed) :
    t.steady.render source = (t.render source).withoutRotations ∧
      match (t.render source).status with
      | .typeset =>
        (∀ run : TextRun Single, .textRun run ∈ (t.render source).primitives →
          (run.rotation.isSome ↔ Unicode.graphemeCount run.text = 1)) ∧
        degrees (t.render source).primitives =
          (List.range ((t.render source).primitives.countP Primitive.isGlyph)).map
            (Jitter.draw seed)
      | .fallback => ∀ p ∈ (t.render source).primitives, p.rotation? = none := by
  have hpen := t.rotations_pen h hseed
  refine ⟨t.render_steady source hpen, ?_⟩
  cases hok : t.typeset source with
  | error e =>
    rw [t.render_of_error source hok, t.status_fallback]
    exact fun p hp => t.rotation?_of_mem_fallback source hp
  | ok object =>
    obtain ⟨hstatus, hsketch, -⟩ := t.sketch_of_typeset source hok
    have hjittered := (Layout.jitters_sketch hpen (t.layout source) 0).jittered
    rw [← hsketch] at hjittered
    rw [t.render_of_ok source hok, hstatus, List.range_eq_range']
    refine ⟨fun run hrun => ?_, hjittered.degrees⟩
    have hrotated := hjittered.isSome_rotation? _ hrun
    rw [show run.rotation.isSome = (Unicode.graphemeCount run.text == 1) from hrotated, beq_iff_eq]

/-- Two letters are rotated by the first two draws, and the name of a function between them takes
none. -/
theorem render_handwriting_function :
    let t : Typesetter := { options := { seed := some 7 } }
    (t.render "a\\sin b").status = .typeset ∧
      (t.render "a\\sin b").primitives.countP Primitive.isGlyph = 2 ∧
      degrees (t.render "a\\sin b").primitives = [Jitter.draw 7 0, Jitter.draw 7 1] ∧
      t.steady.render "a\\sin b" = (t.render "a\\sin b").withoutRotations := by
  intro t
  have hrender := t.render_handwriting "a\\sin b" rfl rfl
  have hstatus : (t.render "a\\sin b").status = .typeset := by decide +kernel
  have hcount : (t.render "a\\sin b").primitives.countP Primitive.isGlyph = 2 := by decide +kernel
  rw [hstatus] at hrender
  exact ⟨hstatus, hcount, by rw [hrender.2.2, hcount]; rfl, hrender.1⟩

end Typesetter

end FormulaDrawing
