import FormulaDrawing.Proofs.Drawing.Markup
import FormulaDrawing.Proofs.Drawing.Sketch
import FormulaDrawing.Proofs.Latex.Skipping
import FormulaDrawing.Proofs.Latex.Threshold
import FormulaDrawing.Typesetter

/-!
# Rendering never fails

Every rendering is one of four: of a blank source, of a source whose options are refused, of a
source whose layout is bare, or a drawing (`typeset_cases`). In the first three the object is the
fallback, which for a source that is not blank is a single plain run of it (`isPlain_fallback`).

A source that nests too deep is no blank one, as white space is read at once (`read_of_isBlank`),
and its layout is one run of text whatever the limit, once the options are accepted
(`sketch_of_read_error`).

What is typeset has the box of its layout as bounds, and the view box of a document is the bounds of
its object (`viewBox?_render`).
-/

namespace FormulaDrawing

open Unicode

namespace Latex

/-- White space in the root leaves no items. -/
theorem run_of_isWhiteSpace {a : Allowance} {items : Array Formula} {cs : List Char}
    (h : ∀ c ∈ cs, isWhiteSpace c = true) :
    run a ⟨items, [], .ready⟩ cs = .complete items.toList := by
  induction cs with
  | nil => rfl
  | cons c cs ih =>
    rw [List.forall_mem_cons] at h
    have hconsume : consume a ⟨items, [], .ready⟩ c = .ok ⟨items, [], .ready⟩ := by
      show consumeReady a ⟨items, [], .ready⟩ c = _
      rw [consumeReady, if_pos h.1]
    rw [run_step rfl hconsume, ih h.2]

theorem read_of_isBlank {source : String} (h : isBlank source = true) (limit : Nat) :
    read source limit = .ok (.equation []) :=
  read_eq_ok_iff.2 ⟨[], run_of_isWhiteSpace (List.all_eq_true.1 h), rfl⟩

/-- A source that nests too deep holds more than white space. -/
theorem isBlank_of_read_error {source : String} {limit : Nat} {error : Error}
    (h : read source limit = .error error) : isBlank source = false := by
  cases hblank : isBlank source with
  | false => rfl
  | true =>
    rw [read_of_isBlank hblank] at h
    cases h

end Latex

/-! ## Options -/

namespace Options

/-- Layout accepts options exactly if their numbers are usable. -/
theorem validate_eq_ok_iff {o : Options} :
    o.validate = .ok () ↔ isSize o.fontSize = true ∧ isSize o.strokeWidth = true ∧
      o.originX.isFinite = true ∧ o.originY.isFinite = true ∧ 1 ≤ o.nestingLimit := by
  unfold validate
  split
  next hfont =>
    have hfalse : isSize o.fontSize = false := by simpa using hfont
    simp [hfalse]
  next hfont =>
    split
    next hstroke =>
      have hfalse : isSize o.strokeWidth = false := by simpa using hstroke
      simp [hfalse]
    next hstroke =>
      have hsizes : isSize o.fontSize = true ∧ isSize o.strokeWidth = true := by simp_all
      split
      next horigin =>
        refine iff_of_false (fun h => nomatch h) fun h => ?_
        simp [h.2.2.1, h.2.2.2.1] at horigin
      next horigin =>
        have hfinite : o.originX.isFinite = true ∧ o.originY.isFinite = true := by
          simpa using horigin
        split
        next hlimit => simp [hlimit]
        next hlimit => exact iff_of_true rfl ⟨hsizes.1, hsizes.2, hfinite.1, hfinite.2, by omega⟩

/-- Accepted options start layout at a usable context. -/
theorem isUsable_context {o : Options} (h : o.validate = .ok ()) : o.context.isUsable = true := by
  obtain ⟨hfont, -, hx, hy, -⟩ := validate_eq_ok_iff.1 h
  have hfont' := Bool.and_eq_true_iff.1 hfont
  have hx' : Scalar.isFinite o.originX = true := hx
  have hy' : Scalar.isFinite o.originY = true := hy
  have hsize' : Scalar.isFinite o.fontSize = true := hfont'.1
  simp [Context.isUsable, context, hx', hy', hsize', hfont'.2]

end Options

/-- An object that is one run of the source at a usable size, without a rotation. -/
structure RenderedObject.IsPlain (o : RenderedObject) (source : String) : Prop where
  status : o.status = .fallback
  run : ∃ run : TextRun Single, o.primitives = [.textRun run] ∧ run.text = source ∧
    run.rotation = none ∧ run.fontSize.isFinite = true ∧ Scalar.isPositive run.fontSize = true

/-- The document of an object has its bounds as view box. -/
theorem RenderedObject.viewBox?_toSvg (o : RenderedObject) :
    Markup.viewBox? o.toSvg =
      some (Markup.coordinate o.bounds.x ++ " " ++ Markup.coordinate o.bounds.y ++ " " ++
        Markup.coordinate o.bounds.width ++ " " ++ Markup.coordinate o.bounds.height) :=
  Markup.viewBox?_document o.primitives o.bounds

namespace Typesetter

variable (t : Typesetter) (source : String)

/-! ## The fallback -/

theorem isSize_usableSize (x : Single) : Options.isSize (usableSize x) = true := by
  unfold usableSize
  split
  next h => exact h
  next => decide +kernel

theorem fallback_of_isBlank (h : isBlank source = true) :
    (t.fallback source).primitives = [] ∧ (t.fallback source).status = .fallback := by
  unfold fallback
  rw [if_pos h]
  exact ⟨rfl, rfl⟩

theorem isPlain_fallback (h : isBlank source = false) : (t.fallback source).IsPlain source := by
  have hsize := Bool.and_eq_true_iff.1 (isSize_usableSize t.options.fontSize)
  unfold fallback
  rw [if_neg (by simp [h])]
  exact ⟨rfl, _, rfl, rfl, rfl, hsize.1, hsize.2⟩

theorem source_fallback : (t.fallback source).source = source := by
  unfold fallback
  split <;> rfl

theorem status_fallback : (t.fallback source).status = .fallback := by
  unfold fallback
  split <;> rfl

/-! ## Typesetting -/

/-- A source is typeset if there is ink in it, the options are accepted and something is drawn;
otherwise the error names the first of these that fails. -/
theorem typeset_cases :
    (isBlank source = true ∧ t.typeset source = .error .emptyExpression) ∨
    (isBlank source = false ∧ ∃ problem, t.options.validate = .error problem ∧
      t.typeset source = .error (.invalidOptions problem)) ∨
    (isBlank source = false ∧ t.options.validate = .ok () ∧ (t.layout source).Bare ∧
      t.typeset source = .error .nothingToDraw) ∨
    (isBlank source = false ∧ t.options.validate = .ok () ∧ ¬ (t.layout source).Bare ∧
      ∃ object, t.typeset source = .ok object ∧ object.source = source ∧
        object.status = .typeset ∧ object.primitives = ((t.layout source).sketch t.pen 0).1 ∧
        object.primitives ≠ [] ∧ object.bounds = (t.layout source).bounds) := by
  unfold typeset
  cases hblank : isBlank source with
  | true => exact .inl ⟨rfl, rfl⟩
  | false =>
    refine .inr ?_
    cases hvalid : t.options.validate with
    | error problem => exact .inl ⟨rfl, problem, rfl, rfl⟩
    | ok _ =>
      refine .inr ?_
      have hlabelled := t.engine.labelled_layoutAt t.options.context 0 (t.formula source)
      rcases t.pen.draw_ok_or_error hlabelled with
        ⟨drawing, hdraw, hsketch, hne, hbare⟩ | ⟨hdraw, hbare⟩
      · have hdraw' : t.pen.draw (t.layout source) = .ok drawing := hdraw
        have hbounds : drawing.bounds = (t.layout source).bounds :=
          (Pen.bounds_of_draw hdraw).trans
            (Layout.extent_eq_bounds (t.engine.accepts_layoutAt _ _ _))
        refine .inr ⟨rfl, rfl, hbare, ⟨drawing.primitives, drawing.bounds, drawing.baseline,
          .typeset, source⟩, ?_, rfl, rfl, hsketch, hne, hbounds⟩
        rw [hdraw']
        rfl
      · have hdraw' : t.pen.draw (t.layout source) = .error .nothingToDraw := hdraw
        refine .inl ⟨rfl, rfl, hbare, ?_⟩
        rw [hdraw']
        rfl

/-- What is typeset is the sketch of its layout, with the box of that as bounds. -/
theorem sketch_of_typeset {object : RenderedObject} (h : t.typeset source = .ok object) :
    object.status = .typeset ∧ object.primitives = ((t.layout source).sketch t.pen 0).1 ∧
      object.bounds = (t.layout source).bounds := by
  rcases t.typeset_cases source with ⟨-, he⟩ | ⟨-, problem, -, he⟩ | ⟨-, -, -, he⟩ |
    ⟨-, -, -, object', hok, -, hstatus, hsketch, -, hbounds⟩
  · rw [he] at h
    cases h
  · rw [he] at h
    cases h
  · rw [he] at h
    cases h
  · rw [hok] at h
    cases h
    exact ⟨hstatus, hsketch, hbounds⟩

/-! ## Sources that nest too deep -/

/-- With accepted options the text of a source that nests too deep is laid out whole, one level
below the start, and its sketch is a run of it. -/
theorem sketch_of_read_error (hvalid : t.options.validate = .ok ()) {error : Error}
    (h : Latex.read source t.options.nestingLimit = .error error) :
    ∃ run : TextRun Single, ((t.layout source).sketch t.pen 0).1 = [.textRun run] ∧
      run.text = source := by
  have hformula : t.formula source = .equation [.text source] := by
    unfold formula Latex.parse
    rw [h]
  have hlimit : 1 ≤ t.options.nestingLimit := (Options.validate_eq_ok_iff.1 hvalid).2.2.2.2
  have hadmits : ∀ depth ≤ 1, t.engine.admits t.options.context depth = true := by
    intro depth hdepth
    have hle : depth ≤ t.engine.settings.maxDepth := Nat.le_trans hdepth hlimit
    simp [Engine.admits, hle, Options.isUsable_context hvalid]
  -- the first item of a row starts where the row does
  have hleaf : t.engine.layoutAt (t.options.context.movedTo
      ((Engine.Row.start t.options.context).position t.options.context (.text source))
      t.options.context.y) (0 + 1) (.text source) =
        t.engine.textLayout source .text t.options.context := by
    rw [Formula.text, Engine.layoutAt]
    exact if_pos (hadmits 1 (Nat.le_refl 1))
  have hlayout : t.layout source = Engine.rowLayout t.options.context
      ((Engine.Row.start t.options.context).place (.text source)
        (t.engine.textLayout source .text t.options.context)) := by
    have hplace : ∀ side y, Formula.text source = .script side y →
        (Engine.Row.start t.options.context).base? side = none := fun _ _ _ => rfl
    rw [layout, hformula, Engine.layout, Engine.layoutAt, if_pos (hadmits 0 (Nat.zero_le 1)),
      Engine.layoutRow_place _ _ _ _ hplace, hleaf, Engine.layoutRow]
  rw [hlayout]
  exact ⟨_, rfl, rfl⟩

/-! ## Rendering -/

theorem render_of_ok {object : RenderedObject} (h : t.typeset source = .ok object) :
    t.render source = object := by
  rw [render, h]

theorem render_of_error {error : Error} (h : t.typeset source = .error error) :
    t.render source = t.fallback source := by
  rw [render, h]

theorem source_render : (t.render source).source = source := by
  rcases t.typeset_cases source with ⟨-, h⟩ | ⟨-, problem, -, h⟩ | ⟨-, -, -, h⟩ |
    ⟨-, -, -, object, h, hsource, -⟩
  · rw [t.render_of_error source h, source_fallback]
  · rw [t.render_of_error source h, source_fallback]
  · rw [t.render_of_error source h, source_fallback]
  · rw [t.render_of_ok source h, hsource]

/-- What is typeset has the box of its layout as bounds, and its document as view box. -/
theorem viewBox?_render (h : (t.render source).status = .typeset) :
    let box := (t.layout source).bounds
    (t.render source).bounds = box ∧ Markup.viewBox? (t.render source).toSvg =
      some (Markup.coordinate box.x ++ " " ++ Markup.coordinate box.y ++ " " ++
        Markup.coordinate box.width ++ " " ++ Markup.coordinate box.height) := by
  intro box
  have hbounds : (t.render source).bounds = box := by
    cases htypeset : t.typeset source with
    | error e =>
      rw [t.render_of_error source htypeset, status_fallback] at h
      cases h
    | ok object =>
      rw [t.render_of_ok source htypeset]
      exact (t.sketch_of_typeset source htypeset).2.2
  refine ⟨hbounds, ?_⟩
  rw [(t.render source).viewBox?_toSvg, hbounds]

theorem render_of_isBlank (h : isBlank source = true) :
    (t.render source).primitives = [] ∧ (t.render source).status = .fallback := by
  have herror : t.typeset source = .error .emptyExpression := by
    rw [typeset, if_pos h]
  rw [t.render_of_error source herror]
  exact t.fallback_of_isBlank source h

theorem render_of_refused (h : isBlank source = false) (hvalid : t.options.validate ≠ .ok ()) :
    (t.render source).IsPlain source := by
  rcases t.typeset_cases source with ⟨hblank, -⟩ | ⟨-, problem, -, herror⟩ | ⟨-, hok, -⟩ |
    ⟨-, hok, -⟩
  · simp [h] at hblank
  · rw [t.render_of_error source herror]
    exact t.isPlain_fallback source h
  · exact absurd hok hvalid
  · exact absurd hok hvalid

theorem render_of_bare (h : isBlank source = false) (hvalid : t.options.validate = .ok ())
    (hbare : (t.layout source).Bare) : (t.render source).IsPlain source := by
  rcases t.typeset_cases source with ⟨hblank, -⟩ | ⟨-, problem, hproblem, -⟩ | ⟨-, -, -, herror⟩ |
    ⟨-, -, hdrawn, -⟩
  · simp [h] at hblank
  · simp [hvalid] at hproblem
  · rw [t.render_of_error source herror]
    exact t.isPlain_fallback source h
  · exact absurd hbare hdrawn

/-- A layout that is not bare is drawn, and the object is that drawing. -/
theorem render_of_drawn (h : isBlank source = false) (hvalid : t.options.validate = .ok ())
    (hbare : ¬ (t.layout source).Bare) :
    (t.render source).status = .typeset ∧ (t.render source).primitives ≠ [] ∧
      (t.render source).primitives = ((t.layout source).sketch t.pen 0).1 := by
  rcases t.typeset_cases source with ⟨hblank, -⟩ | ⟨-, problem, hproblem, -⟩ | ⟨-, -, hbare', -⟩ |
    ⟨-, -, -, object, hok, -, hstatus, hsketch, hne, -⟩
  · simp [h] at hblank
  · simp [hvalid] at hproblem
  · exact absurd hbare' hbare
  · rw [t.render_of_ok source hok]
    exact ⟨hstatus, hne, hsketch⟩

/-- A source that nests too deep is typeset as a run of its text. -/
theorem render_of_read_error (hvalid : t.options.validate = .ok ()) {error : Error}
    (h : Latex.read source t.options.nestingLimit = .error error) :
    (t.render source).status = .typeset ∧
      ∃ run : TextRun Single, (t.render source).primitives = [.textRun run] ∧
        run.text = source := by
  obtain ⟨run, hsketch, htext⟩ := t.sketch_of_read_error source hvalid h
  have hlabelled : (t.layout source).Labelled := t.engine.labelled_layoutAt _ _ _
  have hbare : ¬ (t.layout source).Bare := by
    intro hbare
    have hnil := (@Layout.silentIff_sketch _ _ t.pen _ hlabelled 0).2 hbare
    rw [hsketch] at hnil
    cases hnil
  obtain ⟨hstatus, -, hprimitives⟩ :=
    t.render_of_drawn source (Latex.isBlank_of_read_error h) hvalid hbare
  exact ⟨hstatus, run, hprimitives.trans hsketch, htext⟩

/-- A value that is no string renders as the empty source. -/
theorem renderValue_eq (value : Json) :
    t.renderValue value = match value with
      | .string s => t.render s
      | _ => t.render "" := by
  have hempty : t.render "" = t.fallback "" := t.render_of_error "" rfl
  cases value with
  | string s => rfl
  | _ => exact hempty.symm

/-- Rendering never loses its input, whatever the options, the measure and the source. Nothing is
drawn exactly for a blank source. Otherwise refused options and a bare layout give the source as
one plain run, and any other layout is drawn; a source that nests too deep is drawn as its own
text. A value that is no string is the empty source. -/
theorem render_keeps_source :
    (t.render source).source = source ∧
    ((t.render source).primitives = [] ↔ isBlank source = true) ∧
    (isBlank source = true → (t.render source).status = .fallback) ∧
    (isBlank source = false → t.options.validate ≠ .ok () → (t.render source).IsPlain source) ∧
    (isBlank source = false → t.options.validate = .ok () →
      ((t.render source).status = .fallback ↔ (t.layout source).Bare) ∧
      ((t.layout source).Bare → (t.render source).IsPlain source) ∧
      (¬ (t.layout source).Bare →
        (t.render source).status = .typeset ∧ (t.render source).primitives ≠ [])) ∧
    (t.options.validate = .ok () →
      (∃ error, Latex.read source t.options.nestingLimit = .error error) →
      (t.render source).status = .typeset ∧
        ∃ run : TextRun Single, (t.render source).primitives = [.textRun run] ∧
          run.text = source) ∧
    ∀ value, t.renderValue value = (match value with
        | .string s => t.render s
        | _ => t.render "") ∧
      ((∀ s, value ≠ .string s) → (t.renderValue value).source = "") := by
  have hplain : ∀ {object : RenderedObject}, object.IsPlain source → object.primitives ≠ [] := by
    rintro object ⟨-, run, hrun, -⟩
    simp [hrun]
  have hdrawn : isBlank source = false → (t.render source).primitives ≠ [] := by
    intro h
    by_cases hvalid : t.options.validate = .ok ()
    · by_cases hbare : (t.layout source).Bare
      · exact hplain (t.render_of_bare source h hvalid hbare)
      · exact (t.render_of_drawn source h hvalid hbare).2.1
    · exact hplain (t.render_of_refused source h hvalid)
  refine ⟨t.source_render source, ⟨fun hnil => ?_, fun h => (t.render_of_isBlank source h).1⟩,
    fun h => (t.render_of_isBlank source h).2, t.render_of_refused source, fun h hvalid =>
    ⟨⟨fun hstatus => ?_, fun hbare => (t.render_of_bare source h hvalid hbare).status⟩,
      t.render_of_bare source h hvalid, fun hbare => ?_⟩, ?_, fun value => ⟨t.renderValue_eq value,
      fun hvalue => ?_⟩⟩
  · by_contra hblank
    exact hdrawn (by simpa using hblank) hnil
  · by_contra hbare
    rw [(t.render_of_drawn source h hvalid hbare).1] at hstatus
    cases hstatus
  · obtain ⟨hstatus, hne, -⟩ := t.render_of_drawn source h hvalid hbare
    exact ⟨hstatus, hne⟩
  · rintro hvalid ⟨error, herror⟩
    exact t.render_of_read_error source hvalid herror
  · rw [t.renderValue_eq value]
    cases value with
    | string s => exact absurd rfl (hvalue s)
    | _ => exact t.source_render ""

end Typesetter

end FormulaDrawing
