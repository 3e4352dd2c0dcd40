import FormulaDrawing.Proofs.Drawing.Tally

/-!
# The order of two scripts

A base takes a superscript and a subscript in either order. Each is placed by the box of the base
alone, not by what the other one adds to its extent (`scriptContext_attach`), and each has a slot of
its own (`attach_comm`), in which it stays when the row is aligned (`slots_translate`). So both
orders put the same items into a row,

    [base, ^u, _v]    [base, _v, ^u]                             (placed_scripts)

and what is drawn of a row is told from its items (`sketch_rowLayout`). Only the width of the row
may differ, by a rounding of the cursor that meets the two extents one after the other.
-/

namespace FormulaDrawing

variable {α : Type}

namespace Layout

theorem accepts_attach {l script : Layout α} {side other : ScriptSide} (h : other ≠ side) :
    (l.attach side script).accepts other = l.accepts other := by
  cases side <;> cases other
  · exact absurd rfl h
  · rfl
  · rfl
  · exact absurd rfl h

/-- Two scripts have a slot each. -/
theorem attach_comm (l s t : Layout α) {side other : ScriptSide} (h : other ≠ side) :
    (l.attach side s).attach other t = (l.attach other t).attach side s := by
  cases side <;> cases other
  · exact absurd rfl h
  · rfl
  · rfl
  · exact absurd rfl h

/-- A base with two scripts is moved as a whole: it keeps its box and its kind, and each script is
in its slot, moved with it. -/
theorem slots_translate [Scalar α] (l s t : Layout α) (dx dy : α) :
    let both := ((l.attach .superscript s).attach .subscript t).translate dx dy
    both.bounds = (l.translate dx dy).bounds ∧ both.kind = (l.translate dx dy).kind ∧
      both.superscript = some (s.translate dx dy) ∧ both.subscript = some (t.translate dx dy) := by
  obtain ⟨r, b, k, sup, sub⟩ := l
  exact ⟨rfl, rfl, rfl, rfl⟩

end Layout

namespace Engine

variable [Scalar α] {e : Engine α} {ctx : Context α} {depth : Nat}

/-! ## Rows -/

/-- A sequence is laid out to its end from where a first part of it ends. -/
theorem layoutRow_append (row : Row α) (xs ys : List Formula) :
    e.layoutRow ctx depth row (xs ++ ys) =
      e.layoutRow ctx depth (e.layoutRow ctx depth row xs) ys := by
  induction xs generalizing row with
  | nil =>
    rw [List.nil_append, layoutRow]
  | cons x xs ih =>
    rw [List.cons_append]
    rcases row.attach_or_place x with ⟨side, y, base, rfl, hbase⟩ | hplace
    · rw [layoutRow_attach _ _ _ _ hbase, layoutRow_attach _ _ _ _ hbase]
      exact ih _
    · rw [layoutRow_place _ _ _ _ hplace, layoutRow_place _ _ _ _ hplace]
      exact ih _

theorem Row.base?_place {row : Row α} {x : Formula} {item : Layout α} {side : ScriptSide}
    (h : item.accepts side = true) : (row.place x item).base? side = some item :=
  base?_eq_some_iff.2 ⟨h, rfl⟩

theorem Row.base?_attach {row : Row α} {base script : Layout α} {side other : ScriptSide}
    (h : (base.attach side script).accepts other = true) :
    (row.attach base side script).base? other = some (base.attach side script) :=
  base?_eq_some_iff.2 ⟨h, rfl⟩

/-- A script is placed by the box of its base, whatever is attached to that. -/
theorem scriptContext_attach (ctx : Context α) (base script : Layout α) (side other : ScriptSide) :
    scriptContext ctx other (base.attach side script) = scriptContext ctx other base := by
  cases side <;> rfl

/-- A base and two scripts on different sides are one item with both. -/
theorem placed_scripts (row : Row α) {base : Formula} (hbase : ∀ side x, base ≠ .script side x)
    {side other : ScriptSide} (hne : other ≠ side) (x y : Formula) :
    let item := e.layoutAt (ctx.movedTo (row.position ctx base) ctx.y) depth base
    (e.layoutRow ctx depth row [base, .script side x, .script other y]).placed =
      (item.attach side (e.layoutAt (scriptContext ctx side item) depth x)).attach other
        (e.layoutAt (scriptContext ctx other item) depth y) :: row.placed := by
  intro item
  have hplace : ∀ side x, base = .script side x → row.base? side = none :=
    fun side x h => absurd h (hbase side x)
  have haccepts : ∀ side, item.accepts side = true := accepts_layoutAt e _ depth base
  have hfirst : (row.place base item).base? side = some item := Row.base?_place (haccepts side)
  generalize hscript : e.layoutAt (scriptContext ctx side item) depth x = script
  have hsecond : ((row.place base item).attach item side script).base? other =
      some (item.attach side script) := by
    apply Row.base?_attach
    rw [Layout.accepts_attach hne]
    exact haccepts other
  rw [layoutRow_place _ _ _ _ hplace, layoutRow_attach _ _ _ _ hfirst, hscript,
    layoutRow_attach _ _ _ _ hsecond, layoutRow, scriptContext_attach]
  rfl

/-- Both orders of two scripts put the same items into a row. -/
theorem placed_scripts_comm (row : Row α) {base : Formula} (hbase : ∀ side x, base ≠ .script side x)
    (u v : Formula) :
    (e.layoutRow ctx depth row [base, .script .superscript u, .script .subscript v]).placed =
      (e.layoutRow ctx depth row [base, .script .subscript v, .script .superscript u]).placed := by
  rw [placed_scripts row hbase (by decide) u v, placed_scripts row hbase (by decide) v u]
  exact congrArg (· :: row.placed) (Layout.attach_comm _ _ _ (by decide))

/-! ## Layouts of rows -/

theorem rowLayout_eq (ctx : Context α) (row : Row α) :
    rowLayout ctx row =
      let ascent := (reach row.placed.reverse).1
      let descent := (reach row.placed.reverse).2
      .sized ⟨ctx.x, ctx.y, row.cursor - ctx.x, ascent + descent⟩ ascent
        (.sequence (row.placed.reverse.map fun item =>
          item.translate 0.0 (ctx.y + ascent - item.baselineY))) :=
  rfl

/-- Rows with the same items differ at most in their widths. -/
theorem rowLayout_congr (ctx : Context α) {row row' : Row α} (h : row.placed = row'.placed) :
    (rowLayout ctx row).kind = (rowLayout ctx row').kind ∧
      (rowLayout ctx row).height = (rowLayout ctx row').height ∧
      (rowLayout ctx row).baseline = (rowLayout ctx row').baseline := by
  rw [rowLayout_eq, rowLayout_eq, h]
  exact ⟨rfl, rfl, rfl⟩

/-- The item placed last ends a row, moved to the line. -/
theorem exists_kind_rowLayout (ctx : Context α) {row : Row α} {item : Layout α}
    {items : List (Layout α)} (h : row.placed = item :: items) :
    ∃ (aligned : List (Layout α)) (dy : α),
      (rowLayout ctx row).kind = .sequence (aligned ++ [item.translate 0.0 dy]) := by
  let ascent := (reach (item :: items).reverse).1
  let onLine (i : Layout α) := i.translate 0.0 (ctx.y + ascent - i.baselineY)
  refine ⟨items.reverse.map onLine, ctx.y + ascent - item.baselineY, ?_⟩
  rw [rowLayout_eq, h]
  show Kind.sequence ((item :: items).reverse.map onLine) = _
  rw [List.reverse_cons, List.map_append, List.map_singleton]

/-- A sequence draws its items, whatever its own box is. -/
theorem sketch_sized_sequence (pen : Pen α) (r : Rect α) (baseline : α) (items : List (Layout α)) :
    (Layout.sized r baseline (.sequence items)).sketch pen =
      (Layout.sketchList pen items).andThen (Step.nothing.andThen Step.nothing) := by
  rw [Layout.sized, Layout.sketch, Layout.sketchKind, Layout.sketchOption]

/-- Rows with the same items are drawn the same. -/
theorem sketch_rowLayout (ctx : Context α) {row row' : Row α} (h : row.placed = row'.placed)
    (pen : Pen α) : (rowLayout ctx row).sketch pen = (rowLayout ctx row').sketch pen := by
  simp only [rowLayout_eq, sketch_sized_sequence, h]

/-- Below the guards a group is the row of its items. -/
theorem layoutAt_group (hadmits : e.admits ctx depth = true) (xs : List Formula) :
    e.layoutAt ctx depth (.group xs) =
      rowLayout ctx (e.layoutRow ctx (depth + 1) (.start ctx) xs) := by
  rw [layoutAt, if_pos hadmits]

end Engine

/-- What draws the same leaves the same primitives, or none. -/
theorem Pen.map_primitives_draw [Scalar α] {pen : Pen α} {l m : Layout α}
    (h : l.sketch pen = m.sketch pen) :
    (pen.draw l).map Drawing.primitives = (pen.draw m).map Drawing.primitives := by
  rw [draw_eq, draw_eq, h]
  split <;> rfl

namespace Engine

variable [Scalar α]

/-- A superscript and a subscript after one base may change places. The items of the group are the
same either way. Unless the context cannot be used and nothing is laid out, the last of them is the
base where the row before ends, with the superscript in the one slot and the subscript in the other,
each placed by the base alone. The position, height and baseline of the group are the same too, and
what is drawn of it. -/
theorem layout_scripts_comm (e : Engine α) (ctx : Context α) (before : List Formula)
    {base : Formula} (hbase : ∀ side x, base ≠ .script side x) (u v : Formula) :
    let upFirst := e.layout ctx
      (.group (before ++ [base, .script .superscript u, .script .subscript v]))
    let downFirst := e.layout ctx
      (.group (before ++ [base, .script .subscript v, .script .superscript u]))
    upFirst.kind = downFirst.kind ∧ upFirst.x = downFirst.x ∧ upFirst.y = downFirst.y ∧
      upFirst.height = downFirst.height ∧ upFirst.baseline = downFirst.baseline ∧
      (ctx.isUsable = true → ∃ (items : List (Layout α)) (last : Layout α) (dy : α),
        let row := e.layoutRow ctx 1 (.start ctx) before
        let item := e.layoutAt (ctx.movedTo (row.position ctx base) ctx.y) 1 base
        let up := e.layoutAt (scriptContext ctx .superscript item) 1 u
        let down := e.layoutAt (scriptContext ctx .subscript item) 1 v
        upFirst.kind = .sequence (items ++ [last]) ∧
          last = ((item.attach .superscript up).attach .subscript down).translate 0.0 dy ∧
          last.bounds = (item.translate 0.0 dy).bounds ∧
          last.kind = (item.translate 0.0 dy).kind ∧
          last.superscript = some (up.translate 0.0 dy) ∧
          last.subscript = some (down.translate 0.0 dy)) ∧
      ∀ pen : Pen α, (pen.draw upFirst).map Drawing.primitives =
        (pen.draw downFirst).map Drawing.primitives := by
  intro upFirst downFirst
  by_cases hadmits : e.admits ctx 0 = true
  · let row := e.layoutRow ctx 1 (.start ctx) before
    have hup : upFirst = rowLayout ctx
        (e.layoutRow ctx 1 row [base, .script .superscript u, .script .subscript v]) :=
      (layoutAt_group hadmits _).trans (congrArg _ (layoutRow_append _ _ _))
    have hdown : downFirst = rowLayout ctx
        (e.layoutRow ctx 1 row [base, .script .subscript v, .script .superscript u]) :=
      (layoutAt_group hadmits _).trans (congrArg _ (layoutRow_append _ _ _))
    have hplaced := @placed_scripts_comm _ _ e ctx 1 row base hbase u v
    have hitem := @placed_scripts _ _ e ctx 1 row base hbase .superscript .subscript (by decide) u v
    obtain ⟨hkind, hheight, hbaseline⟩ := rowLayout_congr ctx hplaced
    obtain ⟨items, dy, hitems⟩ := exists_kind_rowLayout ctx hitem
    rw [hup, hdown]
    refine ⟨hkind, rfl, rfl, hheight, hbaseline, fun _ => ?_, fun pen => ?_⟩
    · exact ⟨items, _, dy, hitems, rfl, Layout.slots_translate _ _ _ _ _⟩
    · exact Pen.map_primitives_draw (sketch_rowLayout ctx hplaced pen)
  · have hup : upFirst = emptyLayout ctx := layoutAt_refused hadmits _
    have hdown : downFirst = emptyLayout ctx := layoutAt_refused hadmits _
    rw [hup, hdown]
    refine ⟨rfl, rfl, rfl, rfl, rfl, fun husable => ?_, fun _ => rfl⟩
    exact absurd (admits_iff.2 ⟨Nat.zero_le _, husable⟩) hadmits

/-- A sum of two items, the second with an index and a root as exponent: it carries both. -/
theorem layout_scripts_comm_letter :
    let e : Engine Single := ⟨⟨2.0, 64⟩, .standard⟩
    let ctx : Context Single := ⟨0.0, 0.0, 32.0, 0⟩
    let u : Formula := .root none (.number "2")
    let v : Formula := .letter 'i'
    let upFirst := e.layout ctx (.group ([.letter 'a', .operator '+'] ++
      [.letter 'x', .script .superscript u, .script .subscript v]))
    let downFirst := e.layout ctx (.group ([.letter 'a', .operator '+'] ++
      [.letter 'x', .script .subscript v, .script .superscript u]))
    let last := upFirst.kind.parts.getLast?
    let texts (l : Layout Single) := l.boxes.filterMap fun b => b.kind.text?
    (∀ side y, Formula.letter 'x' ≠ .script side y) ∧ ctx.isUsable = true ∧
      upFirst.kind = downFirst.kind ∧ last.bind (·.kind.text?) = some (.letter, "x", 32.0) ∧
      (last.bind (·.superscript)).map texts = some [(.number, "2", 32.0 * 0.6 * 1.0)] ∧
      (last.bind (·.subscript)).map texts = some [(.letter, "i", 32.0 * 0.6)] ∧
      ∀ pen : Pen Single, (pen.draw upFirst).map Drawing.primitives =
        (pen.draw downFirst).map Drawing.primitives := by
  intro e ctx u v upFirst downFirst last texts
  have hbase : ∀ side y, Formula.letter 'x' ≠ .script side y := nofun
  obtain ⟨hkind, -, -, -, -, -, hdraw⟩ :=
    layout_scripts_comm e ctx [.letter 'a', .operator '+'] hbase u v
  have husable : ctx.isUsable = true := by decide +kernel
  exact ⟨hbase, husable, hkind, by decide +kernel, by decide +kernel, by decide +kernel, hdraw⟩

end Engine

end FormulaDrawing
