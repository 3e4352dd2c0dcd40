import FormulaDrawing.Proofs.Drawing.Steps
import FormulaDrawing.Proofs.Layout.Closure
import Mathlib.Tactic.Linarith
import Mathlib.Tactic.NormNum

/-!
# The bounds of layouts

In exact arithmetic the box of a layout encloses everything under it: the boxes of all parts and
scripts, and the bars, signs and delimiters between them. So the bounds that a drawing reports,
which a document shows as its view box (`Typesetter.viewBox?_render`), lie around the whole drawing.

Every layout starts at its context and encloses its parts within its own box (`Placed`). Scripts
stick out of their bases, so the items of a row are kept within their extents, and those between
the start of the row and its cursor (`RowWithin`). Where a row is aligned on one baseline its height
is the furthest reach above it and below it, so every item has room (`placed_row`).
-/

namespace FormulaDrawing

/-! ## Rectangles -/

namespace Rect

/-- One rectangle lies inside another. -/
structure Within (r s : Rect Rat) : Prop where
  left : s.x ≤ r.x
  top : s.y ≤ r.y
  right : r.right ≤ s.right
  bottom : r.bottom ≤ s.bottom

variable {r s t : Rect Rat}

theorem Within.refl (r : Rect Rat) : r.Within r := ⟨le_rfl, le_rfl, le_rfl, le_rfl⟩

theorem Within.trans (hr : r.Within s) (hs : s.Within t) : r.Within t :=
  ⟨hs.left.trans hr.left, hs.top.trans hr.top, hr.right.trans hs.right,
    hr.bottom.trans hs.bottom⟩

theorem right_union : (r.union s).right = max r.right s.right := by
  simp only [union, right]
  exact add_sub_cancel _ _

theorem bottom_union : (r.union s).bottom = max r.bottom s.bottom := by
  simp only [union, bottom]
  exact add_sub_cancel _ _

/-- The union lies wherever both rectangles lie. -/
theorem union_within_iff : (r.union s).Within t ↔ r.Within t ∧ s.Within t := by
  have hx : (r.union s).x = min r.x s.x := rfl
  have hy : (r.union s).y = min r.y s.y := rfl
  constructor
  · rintro ⟨hleft, htop, hright, hbottom⟩
    rw [hx, le_min_iff] at hleft
    rw [hy, le_min_iff] at htop
    rw [right_union, max_le_iff] at hright
    rw [bottom_union, max_le_iff] at hbottom
    exact ⟨⟨hleft.1, htop.1, hright.1, hbottom.1⟩, ⟨hleft.2, htop.2, hright.2, hbottom.2⟩⟩
  · rintro ⟨hr, hs⟩
    refine ⟨?_, ?_, ?_, ?_⟩
    · rw [hx]; exact le_min hr.left hs.left
    · rw [hy]; exact le_min hr.top hs.top
    · rw [right_union]; exact max_le hr.right hs.right
    · rw [bottom_union]; exact max_le hr.bottom hs.bottom

theorem Within.move (h : r.Within s) (dx dy : Rat) :
    (r.mapCorner (· + dx) (· + dy)).Within (s.mapCorner (· + dx) (· + dy)) := by
  have hright : r.x + r.width ≤ s.x + s.width := h.right
  have hbottom : r.y + r.height ≤ s.y + s.height := h.bottom
  refine ⟨add_le_add_left h.left dx, add_le_add_left h.top dy, ?_, ?_⟩
  · show r.x + dx + r.width ≤ s.x + dx + s.width
    linarith
  · show r.y + dy + r.height ≤ s.y + dy + s.height
    linarith

end Rect

/-! ## Enclosed layouts -/

/-- The rectangle that a bar covers. -/
def Bar.box {α : Type} (b : Bar α) : Rect α := ⟨b.x, b.y, b.width, b.thickness⟩

/-- The bars, signs and delimiters of a box. -/
def Kind.figures {α β : Type} : Kind α β → List (Rect α)
  | .fraction _ bar _ => [bar.box]
  | .root radical _ _ _ => [radical]
  | .bigOperator _ glyph _ _ => [glyph]
  | .delimited _ opening _ closing => [opening, closing]
  | _ => []

namespace Layout

/-- Every box, and everything drawn between the boxes, lies inside a rectangle. -/
def Enclosed (s : Rect Rat) (l : Layout Rat) : Prop :=
  l.Everywhere fun b => b.bounds.Within s ∧ ∀ r ∈ b.kind.figures, r.Within s

variable {l : Layout Rat} {s t : Rect Rat}

theorem enclosed_iff :
    l.Enclosed s ↔ (l.bounds.Within s ∧ ∀ r ∈ l.kind.figures, r.Within s) ∧
      ∀ c ∈ l.children, c.Enclosed s :=
  everywhere_iff

theorem Enclosed.within (h : l.Enclosed s) : l.bounds.Within s := (enclosed_iff.1 h).1.1

theorem Enclosed.mono (h : l.Enclosed s) (hst : s.Within t) : l.Enclosed t := by
  intro b hb
  obtain ⟨hbounds, hfigures⟩ := h b hb
  exact ⟨hbounds.trans hst, fun r hr => (hfigures r hr).trans hst⟩

theorem figures_mapPoints {α : Type} (f g : α → α) (l : Layout α) :
    (l.mapPoints f g).kind.figures = l.kind.figures.map (Rect.mapCorner f g) := by
  obtain ⟨r, b, k, s, t⟩ := l
  cases k <;> rfl

/-- A moved layout is enclosed by the moved rectangle. -/
theorem Enclosed.translate (h : l.Enclosed s) (dx dy : Rat) :
    (l.translate dx dy).Enclosed (s.mapCorner (· + dx) (· + dy)) := by
  unfold Layout.translate
  induction l using children_induction with
  | step l ih =>
    obtain ⟨⟨hbounds, hfigures⟩, hchildren⟩ := enclosed_iff.1 h
    rw [enclosed_iff, bounds_mapPoints, figures_mapPoints, children_mapPoints]
    simp only [List.forall_mem_map]
    exact ⟨⟨hbounds.move dx dy, fun r hr => (hfigures r hr).move dx dy⟩,
      fun c hc => ih c hc (hchildren c hc)⟩

/-- What a script is attached to grows around the script. -/
theorem extent_attach_within_iff {script : Layout Rat} {side : ScriptSide}
    (h : l.accepts side = true) :
    (l.attach side script).extent.Within s ↔ l.extent.Within s ∧ script.extent.Within s := by
  obtain ⟨r, b, k, sup, sub⟩ := l
  cases side with
  | superscript =>
    cases sup with
    | some x => cases h
    | none =>
      cases sub <;>
        simp only [attach, bounds, subscript, extent, unionExtent, Rect.union_within_iff]
      tauto
  | subscript =>
    cases sub with
    | some x => cases h
    | none =>
      cases sup <;>
        simp only [attach, bounds, superscript, extent, unionExtent, Rect.union_within_iff]

theorem x_extent_attach {script : Layout Rat} {side : ScriptSide} (h : l.accepts side = true) :
    (l.attach side script).extent.x = min l.extent.x script.extent.x := by
  obtain ⟨r, b, k, sup, sub⟩ := l
  cases side with
  | superscript =>
    cases sup with
    | some x => cases h
    | none =>
      cases sub with
      | none => rfl
      | some t => exact min_right_comm r.x script.extent.x t.extent.x
  | subscript =>
    cases sub with
    | some x => cases h
    | none => cases sup <;> rfl

/-- A script joins what encloses its base. -/
theorem Enclosed.attach {script : Layout Rat} {side : ScriptSide} (h : l.accepts side = true)
    (hl : l.Enclosed l.extent) (hscript : script.Enclosed script.extent) :
    (l.attach side script).Enclosed (l.attach side script).extent := by
  obtain ⟨hbase, hnew⟩ := (extent_attach_within_iff h).1 (Rect.Within.refl _)
  have hl' := enclosed_iff.1 (hl.mono hbase)
  refine enclosed_iff.2 ⟨?_, fun c hc => ?_⟩
  · cases side <;> exact hl'.1
  · rcases mem_children_attach hc with rfl | hc
    · exact hscript.mono hnew
    · exact hl'.2 c hc

/-! ### Moving and sizing -/

theorem x_translate (l : Layout Rat) (dx dy : Rat) : (l.translate dx dy).x = l.x + dx := by
  cases l
  rfl

theorem y_translate (l : Layout Rat) (dx dy : Rat) : (l.translate dx dy).y = l.y + dy := by
  cases l
  rfl

theorem width_translate (l : Layout Rat) (dx dy : Rat) : (l.translate dx dy).width = l.width := by
  cases l
  rfl

theorem height_translate (l : Layout Rat) (dx dy : Rat) :
    (l.translate dx dy).height = l.height := by
  cases l
  rfl

theorem bounds_sized {r : Rect Rat} {baseline : Rat} {k : Kind Rat (Layout Rat)}
    (hwidth : 0 ≤ r.width) (hheight : 0 ≤ r.height) : (sized r baseline k).bounds = r := by
  have hzero : (0.0 : Rat) = 0 := by norm_num
  show Rect.mk r.x r.y (max r.width 0.0) (max r.height 0.0) = r
  rw [hzero, max_eq_left hwidth, max_eq_left hheight]

end Layout

/-! ## Placed layouts -/

namespace Engine

open Layout (x_translate y_translate width_translate height_translate)

/-- A layout that starts at its context, has no scripts yet and encloses its parts. -/
structure Placed (ctx : Context Rat) (l : Layout Rat) : Prop where
  x_eq : l.x = ctx.x
  y_eq : l.y = ctx.y
  width_nonneg : 0 ≤ l.width
  height_nonneg : 0 ≤ l.height
  accepts : ∀ side, l.accepts side = true
  enclosed : l.Enclosed l.bounds

variable {e : Engine Rat} {ctx : Context Rat} {l : Layout Rat}

theorem Placed.extent_eq (h : Placed ctx l) : l.extent = l.bounds :=
  Layout.extent_eq_bounds h.accepts

theorem placed_of_parts {r : Rect Rat} {baseline : Rat} {k : Kind Rat (Layout Rat)}
    (hx : r.x = ctx.x) (hy : r.y = ctx.y)
    (hfigures : ∀ f ∈ k.figures, f.Within (Layout.sized r baseline k).bounds)
    (hparts : ∀ c ∈ k.parts, c.Enclosed (Layout.sized r baseline k).bounds) :
    Placed ctx (.sized r baseline k) := by
  have hzero : (0 : Rat) = 0.0 := by norm_num
  refine ⟨hx, hy, ?_, ?_, fun side => accepts_sized, ?_⟩
  · exact hzero.trans_le (le_max_right _ _)
  · exact hzero.trans_le (le_max_right _ _)
  · exact Layout.everywhere_sized.2 ⟨⟨Rect.Within.refl _, hfigures⟩, hparts⟩

/-- A box at the context that encloses its parts and what is drawn between them. -/
theorem placed_sized {width height baseline : Rat} {k : Kind Rat (Layout Rat)}
    (hwidth : 0 ≤ width) (hheight : 0 ≤ height)
    (hfigures : ∀ f ∈ k.figures, f.Within ⟨ctx.x, ctx.y, width, height⟩)
    (hparts : ∀ c ∈ k.parts, c.Enclosed ⟨ctx.x, ctx.y, width, height⟩) :
    Placed ctx (.sized ⟨ctx.x, ctx.y, width, height⟩ baseline k) := by
  have hbounds : (Layout.sized ⟨ctx.x, ctx.y, width, height⟩ baseline k).bounds =
      ⟨ctx.x, ctx.y, width, height⟩ := Layout.bounds_sized hwidth hheight
  refine placed_of_parts rfl rfl ?_ ?_
  · rwa [hbounds]
  · rwa [hbounds]

/-- A placed layout may be moved to wherever its box fits. -/
theorem Placed.enclosed_translate {dx dy : Rat} {s : Rect Rat} (h : Placed ctx l)
    (hleft : s.x ≤ l.x + dx) (htop : s.y ≤ l.y + dy) (hright : l.x + dx + l.width ≤ s.right)
    (hbottom : l.y + dy + l.height ≤ s.bottom) : (l.translate dx dy).Enclosed s :=
  (h.enclosed.translate dx dy).mono ⟨hleft, htop, hright, hbottom⟩

/-! ### Structures -/

theorem placed_empty : Placed ctx (emptyLayout ctx) :=
  placed_of_parts rfl rfl (by simp [Kind.figures]) (by simp [Kind.parts])

theorem placed_text (text : String) (role : TextRole) :
    Placed ctx (e.textLayout text role ctx) :=
  placed_of_parts rfl rfl (by simp [Kind.figures]) (by simp [Kind.parts])

theorem placed_fraction {ctxp ctxq : Context Rat} {p q : Layout Rat} (hp : Placed ctxp p)
    (hq : Placed ctxq q) : Placed ctx (e.fractionLayout ctx p q) := by
  have hph := hp.height_nonneg
  have hqh := hq.height_nonneg
  have hpw : p.width ≤ max (max p.width q.width) minFractionWidth :=
    (le_max_left _ _).trans (le_max_left _ _)
  have hqw : q.width ≤ max (max p.width q.width) minFractionWidth :=
    (le_max_right _ _).trans (le_max_left _ _)
  have hwidth : 20 ≤ max (max p.width q.width) minFractionWidth := by
    refine le_trans ?_ (le_max_right _ _)
    norm_num [minFractionWidth]
  have hthickness : 2 ≤ max (e.settings.strokeWidth * 1.5) 2.0 := by
    refine le_trans ?_ (le_max_right _ _)
    norm_num
  simp only [fractionLayout, y_translate, height_translate]
  generalize max (max p.width q.width) minFractionWidth = w at *
  generalize max (e.settings.strokeWidth * 1.5) 2.0 = thickness at *
  refine placed_sized ?_ ?_ ?_ ?_ <;> simp only [padding]
  · linarith
  · linarith
  · simp only [Kind.figures, List.forall_mem_singleton, Bar.box]
    refine ⟨?_, ?_, ?_, ?_⟩ <;> simp only [Rect.right, Rect.bottom] <;> linarith
  · simp only [Kind.parts, List.forall_mem_cons]
    refine ⟨hp.enclosed_translate ?_ ?_ ?_ ?_, hq.enclosed_translate ?_ ?_ ?_ ?_, by simp⟩ <;>
      simp only [Rect.right, Rect.bottom] <;> linarith

theorem placed_script {side : ScriptSide} (hl : Placed (ctx.nested scriptScale) l) :
    Placed ctx (scriptLayout ctx side l) := by
  have hbounds : l.bounds = ⟨ctx.x, ctx.y, l.width, l.height⟩ :=
    congrArg₂ (Rect.mk · · l.width l.height) hl.x_eq hl.y_eq
  unfold scriptLayout
  rw [hbounds]
  refine placed_sized hl.width_nonneg hl.height_nonneg (by simp [Kind.figures]) ?_
  simpa [Kind.parts, ← hbounds] using hl.enclosed

theorem placed_root {ctxi ctxl : Context Rat} {index : Option (Layout Rat)}
    (hsize : 0 < ctx.fontSize) (hindex : ∀ i ∈ index, Placed ctxi i) (hl : Placed ctxl l) :
    Placed ctx (e.rootLayout ctx index l) := by
  have hlw := hl.width_nonneg
  have hlh := hl.height_nonneg
  cases index with
  | none =>
    simp only [rootLayout, padding, Rect.right, Option.map_none]
    refine placed_sized ?_ ?_ ?_ ?_
    · linarith
    · linarith
    · simp only [Kind.figures, List.forall_mem_singleton]
      refine ⟨?_, ?_, ?_, ?_⟩ <;> simp only [Rect.right, Rect.bottom] <;> linarith
    · simp only [Kind.parts, Option.toList_none, List.nil_append, List.forall_mem_singleton]
      refine hl.enclosed_translate ?_ ?_ ?_ ?_ <;>
        simp only [Rect.right, Rect.bottom] <;> linarith
  | some i =>
    have hi := hindex i rfl
    have hiw := hi.width_nonneg
    have hih := hi.height_nonneg
    have hshift := le_max_left (i.width - ctx.fontSize * 0.5 / 2.0) 0.0
    have hshift' := le_max_right (i.width - ctx.fontSize * 0.5 / 2.0) 0.0
    have hlift := le_max_left (i.height - (l.height + padding) / 2.0) 0.0
    have hlift' := le_max_right (i.height - (l.height + padding) / 2.0) 0.0
    simp only [rootLayout, Rect.right, Rect.centerX, Option.map_some]
    generalize max (i.width - ctx.fontSize * 0.5 / 2.0) 0.0 = shift at *
    generalize max (i.height - (l.height + padding) / 2.0) 0.0 = lift at *
    simp only [padding] at *
    refine placed_sized ?_ ?_ ?_ ?_
    · linarith
    · linarith
    · simp only [Kind.figures, List.forall_mem_singleton]
      refine ⟨?_, ?_, ?_, ?_⟩ <;> simp only [Rect.right, Rect.bottom] <;> linarith
    · simp only [Kind.parts, Option.toList_some, List.singleton_append, List.forall_mem_cons]
      refine ⟨hi.enclosed_translate ?_ ?_ ?_ ?_, hl.enclosed_translate ?_ ?_ ?_ ?_, by simp⟩ <;>
        simp only [Rect.right, Rect.bottom] <;> linarith

/-- A maximum taken along a list bounds where it starts and every element. -/
theorem le_foldl_max {β : Type} (f : β → Rat) (w : Rat) (xs : List β) :
    w ≤ xs.foldl (fun m x => max m (f x)) w ∧
      ∀ x ∈ xs, f x ≤ xs.foldl (fun m x => max m (f x)) w := by
  induction xs generalizing w with
  | nil => simp
  | cons x xs ih =>
    obtain ⟨hstart, helements⟩ := ih (max w (f x))
    rw [List.foldl_cons, List.forall_mem_cons]
    exact ⟨(le_max_left _ _).trans hstart, (le_max_right _ _).trans hstart, helements⟩

theorem glyphSize_pos {fontSize : Rat} (hsize : 0 < fontSize) (op : BigOperator) :
    0 < (glyphSize fontSize op).1 ∧ 0 < (glyphSize fontSize op).2 := by
  cases op <;> simp only [glyphSize] <;> constructor <;> linarith

theorem enclosed_centred {ctxp : Context Rat} {part : Layout Rat} {width height y : Rat}
    (hpart : Placed ctxp part) (hwidth : part.width ≤ width) (htop : ctx.y ≤ y)
    (hbottom : y + part.height ≤ ctx.y + height) :
    (centred ctx width y part).Enclosed ⟨ctx.x, ctx.y, width, height⟩ := by
  unfold centred
  refine hpart.enclosed_translate ?_ ?_ ?_ ?_ <;>
    simp only [Rect.right, Rect.bottom] <;> linarith

/-- The sign of a big operator lies below its upper and above its lower limit. -/
theorem bigOperatorLayout_eq {ctxl ctxu : Context Rat} {op : BigOperator}
    {lower upper : Option (Layout Rat)} (hlower : ∀ l ∈ lower, Placed ctxl l)
    (hupper : ∀ u ∈ upper, Placed ctxu u) :
    ∃ top height : Rat, ctx.y ≤ top ∧ top + (glyphSize ctx.fontSize op).2 ≤ ctx.y + height ∧
      (∀ u ∈ upper, ctx.y + u.height ≤ top) ∧
      (∀ l ∈ lower, top + (glyphSize ctx.fontSize op).2 + padding + l.height ≤ ctx.y + height) ∧
      bigOperatorLayout ctx op lower upper =
        let width := (upper.toList ++ lower.toList).foldl (fun w l => max w l.width)
          (glyphSize ctx.fontSize op).1
        .sized ⟨ctx.x, ctx.y, width, height⟩ (height / 2.0)
          (.bigOperator op
            ⟨ctx.x + (width - (glyphSize ctx.fontSize op).1) / 2.0, top,
              (glyphSize ctx.fontSize op).1, (glyphSize ctx.fontSize op).2⟩
            (upper.map (centred ctx width ctx.y))
            (lower.map (centred ctx width (top + (glyphSize ctx.fontSize op).2 + padding)))) := by
  simp only [bigOperatorLayout]
  generalize glyphSize ctx.fontSize op = size
  refine ⟨_, _, ?_, ?_, ?_, ?_, rfl⟩
  · cases upper with
    | none => exact le_rfl
    | some u =>
      have huh := (hupper u rfl).height_nonneg
      simp only [padding]
      linarith
  · cases lower with
    | none => exact (add_sub_cancel _ _).ge
    | some l =>
      have hlh := (hlower l rfl).height_nonneg
      simp only [padding]
      linarith
  · intro u hu
    cases hu
    simp only [padding]
    linarith
  · intro l hl
    cases hl
    exact (add_sub_cancel _ _).ge

theorem placed_bigOperator {ctxl ctxu : Context Rat} {op : BigOperator}
    {lower upper : Option (Layout Rat)} (hsize : 0 < ctx.fontSize)
    (hlower : ∀ l ∈ lower, Placed ctxl l) (hupper : ∀ u ∈ upper, Placed ctxu u) :
    Placed ctx (bigOperatorLayout ctx op lower upper) := by
  obtain ⟨hglyphWidth, hglyphHeight⟩ := glyphSize_pos hsize op
  obtain ⟨hglyph, hwidth⟩ := le_foldl_max Layout.width (glyphSize ctx.fontSize op).1
    (upper.toList ++ lower.toList)
  obtain ⟨top, height, htop, hbottom, habove, hbelow, heq⟩ :=
    @bigOperatorLayout_eq ctx _ _ op _ _ hlower hupper
  rw [heq]
  refine placed_sized (by linarith) (by linarith) ?_ fun c hc => ?_
  · simp only [Kind.figures, List.forall_mem_singleton]
    refine ⟨?_, ?_, ?_, ?_⟩ <;> simp only [Rect.right, Rect.bottom] <;> linarith
  · simp only [Kind.parts, List.mem_append, Option.mem_toList] at hc
    rcases hc with hc | hc
    · obtain ⟨u, hu, rfl⟩ := Option.map_eq_some_iff.1 hc
      have habove := habove u hu
      exact enclosed_centred (hupper u hu) (hwidth u (by simp [hu])) le_rfl (by linarith)
    · obtain ⟨l, hl, rfl⟩ := Option.map_eq_some_iff.1 hc
      have hpadding : (0 : Rat) ≤ padding := by norm_num [padding]
      exact enclosed_centred (hlower l hl) (hwidth l (by simp [hl])) (by linarith) (hbelow l hl)

theorem placed_limit {ctxa : Context Rat} {label : Layout Rat} {approach : Option (Layout Rat)}
    (hsize : 0 < ctx.fontSize) (hlabel : Placed ctx label)
    (happroach : ∀ a ∈ approach, Placed ctxa a) :
    Placed ctx (limitLayout ctx label approach) := by
  have hlw := hlabel.width_nonneg
  have hlh := hlabel.height_nonneg
  have hlx := hlabel.x_eq
  have hly := hlabel.y_eq
  cases approach with
  | none =>
    simp only [limitLayout, Option.map_none, height_translate]
    refine placed_sized hlw hlh (by simp [Kind.figures]) ?_
    simp only [Kind.parts, Option.toList_none, List.forall_mem_singleton]
    refine hlabel.enclosed_translate ?_ ?_ ?_ ?_ <;>
      simp only [Rect.right, Rect.bottom] <;> linarith
  | some a =>
    have ha := happroach a rfl
    have hah := ha.height_nonneg
    have haw : a.width ≤ max a.width label.width := le_max_left _ _
    have hlw' : label.width ≤ max a.width label.width := le_max_right _ _
    simp only [limitLayout, Option.map_some, height_translate, y_translate, centred]
    generalize max a.width label.width = w at *
    refine placed_sized ?_ ?_ (by simp [Kind.figures]) ?_
    · linarith
    · linarith
    · simp only [Kind.parts, Option.toList_some, List.forall_mem_cons]
      refine ⟨hlabel.enclosed_translate ?_ ?_ ?_ ?_, ha.enclosed_translate ?_ ?_ ?_ ?_, by simp⟩ <;>
        simp only [Rect.right, Rect.bottom] <;> linarith

theorem delimiterWidth_nonneg {fontSize : Rat} (hstroke : 0 ≤ e.settings.strokeWidth)
    (hsize : 0 < fontSize) (delimiter : Delimiter) : 0 ≤ e.delimiterWidth fontSize delimiter := by
  cases delimiter <;> simp only [delimiterWidth] <;> linarith

theorem placed_delimited {delimiter : Delimiter} (hstroke : 0 ≤ e.settings.strokeWidth)
    (hsize : 0 < ctx.fontSize) (hl : Placed (e.insideContext ctx delimiter) l) :
    Placed ctx (e.delimitedLayout ctx delimiter l) := by
  have hdelim := delimiterWidth_nonneg hstroke hsize delimiter
  have hlw := hl.width_nonneg
  have hlx : l.x = ctx.x + e.delimiterWidth ctx.fontSize delimiter := hl.x_eq
  have hly : l.y = ctx.y := hl.y_eq
  have hheight : l.height ≤ max l.height ctx.fontSize := le_max_left _ _
  have hheight' : ctx.fontSize ≤ max l.height ctx.fontSize := le_max_right _ _
  simp only [delimitedLayout, x_translate, width_translate, Rect.right]
  generalize max l.height ctx.fontSize = h at *
  generalize e.delimiterWidth ctx.fontSize delimiter = d at *
  refine placed_sized ?_ ?_ ?_ ?_
  · linarith
  · linarith
  · simp only [Kind.figures, List.forall_mem_cons]
    refine ⟨⟨?_, ?_, ?_, ?_⟩, ⟨?_, ?_, ?_, ?_⟩, by simp⟩ <;>
      simp only [Rect.right, Rect.bottom] <;> linarith
  · simp only [Kind.parts, List.forall_mem_singleton]
    refine hl.enclosed_translate ?_ ?_ ?_ ?_ <;>
      simp only [Rect.right, Rect.bottom] <;> linarith

/-! ### Rows -/

/-- The items of a row with their scripts lie between its start and its cursor. -/
structure RowWithin (ctx : Context Rat) (row : Row Rat) : Prop where
  cursor : ctx.x ≤ row.cursor
  enclosed : ∀ item ∈ row.placed, item.Enclosed item.extent
  left : ∀ item ∈ row.placed, ctx.x ≤ item.extent.x
  right : ∀ item ∈ row.placed, item.extent.right ≤ row.cursor
  width_nonneg : ∀ item ∈ row.placed, 0 ≤ item.width

theorem rowWithin_start (ctx : Context Rat) : RowWithin ctx (.start ctx) := by
  refine ⟨le_rfl, ?_, ?_, ?_, ?_⟩ <;> simp [Row.start]

variable {row : Row Rat}

theorem le_position (hsize : 0 < ctx.fontSize) (x : Formula) :
    row.cursor ≤ row.position ctx x := by
  obtain ⟨placed, _ | left, cursor⟩ := row
  · exact le_rfl
  · have hspacing : 0 ≤ spacing left x ctx.fontSize := by
      unfold spacing
      split_ifs <;> linarith
    exact le_add_of_nonneg_right hspacing

theorem RowWithin.place {x : Formula} {item : Layout Rat} (h : RowWithin ctx row)
    (hsize : 0 < ctx.fontSize) (hitem : Placed (ctx.movedTo (row.position ctx x) ctx.y) item) :
    RowWithin ctx (row.place x item) := by
  have hwidth := hitem.width_nonneg
  have hx : item.extent.x = row.position ctx x := by rw [hitem.extent_eq]; exact hitem.x_eq
  have hstart : row.cursor ≤ item.extent.x := hx ▸ le_position hsize x
  have hcursor : row.cursor ≤ item.extent.right := by
    refine hstart.trans ?_
    rw [hitem.extent_eq]
    exact le_add_of_nonneg_right hwidth
  refine ⟨h.cursor.trans hcursor, List.forall_mem_cons.2 ⟨?_, h.enclosed⟩,
    List.forall_mem_cons.2 ⟨h.cursor.trans hstart, h.left⟩,
    List.forall_mem_cons.2 ⟨le_rfl, fun other hother => (h.right other hother).trans hcursor⟩,
    List.forall_mem_cons.2 ⟨hwidth, h.width_nonneg⟩⟩
  rw [hitem.extent_eq]
  exact hitem.enclosed

theorem RowWithin.attach {side : ScriptSide} {base script : Layout Rat} (h : RowWithin ctx row)
    (hbase : row.base? side = some base) (hscript : Placed (scriptContext ctx side base) script) :
    RowWithin ctx (row.attach base side script) := by
  obtain ⟨haccepts, hplaced⟩ := Row.base?_eq_some_iff.1 hbase
  obtain ⟨hcursor, henclosed, hleft, hright, hwidth⟩ := h
  rw [hplaced, List.forall_mem_cons] at henclosed hleft hright hwidth
  have hcursor' := le_max_left row.cursor (base.attach side script).extent.right
  have hbaseX : base.extent.x ≤ base.x := henclosed.1.within.left
  have hscriptX : base.x ≤ script.extent.x := by
    have hoffset : (0 : Rat) ≤ base.width * (1.0 - scriptOverlap) := by
      have := hwidth.1
      simp only [scriptOverlap]
      linarith
    rw [hscript.extent_eq]
    exact hscript.x_eq.ge.trans' (le_add_of_nonneg_right hoffset)
  refine ⟨hcursor.trans hcursor', List.forall_mem_cons.2 ⟨?_, henclosed.2⟩,
    List.forall_mem_cons.2 ⟨?_, hleft.2⟩,
    List.forall_mem_cons.2 ⟨le_max_right _ _,
      fun item hitem => (hright.2 item hitem).trans hcursor'⟩,
    List.forall_mem_cons.2 ⟨?_, hwidth.2⟩⟩
  · refine henclosed.1.attach haccepts ?_
    rw [hscript.extent_eq]
    exact hscript.enclosed
  · rw [Layout.x_extent_attach haccepts]
    exact le_min hleft.1 ((hleft.1.trans hbaseX).trans hscriptX)
  · cases side <;> exact hwidth.1

theorem reach_eq (items : List (Layout Rat)) :
    reach items =
      (items.foldl (fun m item => max m (item.baselineY - item.extent.y)) 0.0,
        items.foldl (fun m item => max m (item.extent.bottom - item.baselineY)) 0.0) := by
  have hfold : ∀ a d : Rat, items.foldl
      (fun (ascent, descent) item => (max ascent (item.baselineY - item.extent.y),
        max descent (item.extent.bottom - item.baselineY))) (a, d) =
      (items.foldl (fun m item => max m (item.baselineY - item.extent.y)) a,
        items.foldl (fun m item => max m (item.extent.bottom - item.baselineY)) d) := by
    induction items with
    | nil => exact fun a d => rfl
    | cons item items ih => exact fun a d => ih _ _
  exact hfold 0.0 0.0

/-- Aligned on the baseline of the highest, every item fits between the top and the bottom. -/
theorem placed_row (h : RowWithin ctx row) : Placed ctx (rowLayout ctx row) := by
  have hcursor := h.cursor
  simp only [rowLayout, reach_eq]
  have hascent := le_foldl_max (fun item : Layout Rat => item.baselineY - item.extent.y) 0.0
    row.placed.reverse
  have hdescent := le_foldl_max (fun item : Layout Rat => item.extent.bottom - item.baselineY) 0.0
    row.placed.reverse
  generalize List.foldl (fun m (item : Layout Rat) => max m (item.baselineY - item.extent.y)) 0.0
    row.placed.reverse = ascent at *
  generalize List.foldl (fun m (item : Layout Rat) => max m (item.extent.bottom - item.baselineY))
    0.0 row.placed.reverse = descent at *
  refine placed_sized (by linarith) (by linarith) (by simp [Kind.figures]) fun c hc => ?_
  simp only [Kind.parts, List.mem_map] at hc
  obtain ⟨item, hitem, rfl⟩ := hc
  have hup := hascent.2 item hitem
  have hdown := hdescent.2 item hitem
  have hmem : item ∈ row.placed := List.mem_reverse.1 hitem
  have hleft := h.left item hmem
  have hright := h.right item hmem
  refine ((h.enclosed item hmem).translate _ _).mono ⟨?_, ?_, ?_, ?_⟩ <;>
    simp only [Rect.mapCorner, Rect.right, Rect.bottom] at * <;> linarith

/-! ### Every layout -/

/-- In a context with a positive font size everything is placed, and rows keep their items. -/
def enclosureInvariant (e : Engine Rat) (hstroke : 0 ≤ e.settings.strokeWidth) : e.Invariant where
  Suits _ ctx := 0 < ctx.fontSize
  Rows _ ctx row := RowWithin ctx row
  Good _ ctx l := Placed ctx l
  nested {_ ctx c} hsize hc := by
    have hpos : ∀ c ∈ (scales : List Rat), 0 < c := by
      simp only [scales, List.forall_mem_cons]
      norm_num [fractionScale, scriptScale, limitScale, indexScale]
    exact mul_pos hsize (hpos c hc)
  inside _ hsize := hsize
  start {_ ctx} _ := rowWithin_start ctx
  onBase hsize _ _ := mul_pos hsize (by norm_num [scriptScale])
  attach _ hrow hbase hscript := hrow.attach hbase hscript
  next _ hsize _ := hsize
  place hsize hrow hitem := hrow.place hsize hitem
  empty _ := placed_empty
  text text role _ := placed_text text role
  row _ _ hrow := placed_row hrow
  fraction _ _ hp hq := placed_fraction hp hq
  script _ _ hl := placed_script hl
  root _ hsize hindex hl := placed_root hsize hindex hl
  bigOperator _ hsize hlower hupper := placed_bigOperator hsize hlower hupper
  limit _ hsize happroach := placed_limit hsize (placed_text _ _) happroach
  delimited _ _ hsize hrow := placed_delimited hstroke hsize (placed_row hrow)

/-- In exact arithmetic everything that is laid out lies inside the box of the layout, and drawings
report that box as their bounds. -/
theorem enclosed_layout (e : Engine Rat) (ctx : Context Rat) (x : Formula)
    (hsize : 0 < ctx.fontSize) (hstroke : 0 < e.settings.strokeWidth) :
    (e.layout ctx x).Enclosed (e.layout ctx x).bounds ∧
      ∀ (pen : Pen Rat) (drawing : Drawing Rat), pen.draw (e.layout ctx x) = .ok drawing →
        drawing.bounds = (e.layout ctx x).bounds := by
  have hplaced : Placed ctx (e.layout ctx x) :=
    (e.enclosureInvariant hstroke.le).good_layoutAt (d := 0) x hsize
  refine ⟨hplaced.enclosed, fun pen drawing hdraw => ?_⟩
  rw [Pen.bounds_of_draw hdraw, hplaced.extent_eq]

/-- A cube root of `|y^2|` as a subscript, where baselines lie above the tops of their boxes: the
index of the root and the superscript stick out. -/
theorem enclosed_layout_subscript :
    let e : Engine Rat := ⟨⟨2, 8⟩, .fixed ⟨10, 20, -5⟩⟩
    let l := e.layout ⟨3, 4, 10, 0⟩
      (.equation [.leaf (.letter 'x'), .script .subscript (.root (some (.leaf (.number "3")))
        (.delimited .bars [.leaf (.letter 'y'), .script .superscript (.leaf (.number "2"))]))])
    (0 : Rat) < 10 ∧ 0 < e.settings.strokeWidth ∧ l.bounds = ⟨3, 4, 103 / 2, 85 / 2⟩ ∧
      l.Enclosed l.bounds ∧
      ∀ (pen : Pen Rat) (drawing : Drawing Rat), pen.draw l = .ok drawing →
        drawing.bounds = l.bounds :=
  ⟨by decide, by decide, by decide +kernel, enclosed_layout _ _ _ (by decide) (by decide)⟩

end Engine

end FormulaDrawing
