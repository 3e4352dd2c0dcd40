import FormulaDrawing.Proofs.Layout.Rank

/-!
# Layouts that only the depth cuts

A context stays usable all the way down if positions, sizes and font sizes never leave the numbers
that behave. `Ample e` collects the laws that this takes of three predicates on scalars, and under
them a layout is whole exactly if the limit of the engine reaches every part of the formula.

    (e.layoutAt ctx depth x).Whole ↔ depth + x.rank ≤ e.settings.maxDepth   (whole_layoutAt)

Exact scalars are ample with every number as a position (`Ample.exact`).
-/

namespace FormulaDrawing

open Layout (Whole whole_sized whole_translate whole_attach)

variable {α : Type} [Scalar α]

/-- Numbers that a layout never leaves: positions, sizes, and the font sizes at each depth. -/
structure Ample (e : Engine α) where
  IsPosition : α → Prop
  IsSize : α → Prop
  IsFont : Nat → α → Prop
  finite_position {x : α} : IsPosition x → Scalar.isFinite x = true
  position_add {x w : α} : IsPosition x → IsSize w → IsPosition (x + w)
  position_max {x y : α} : IsPosition x → IsPosition y → IsPosition (max x y)
  position_min {x y : α} : IsPosition x → IsPosition y → IsPosition (min x y)
  position_rise {d : Nat} {y s : α} : IsPosition y → IsFont d s →
    IsPosition (y + -superscriptRise * s)
  position_drop {d : Nat} {y s : α} : IsPosition y → IsFont d s →
    IsPosition (y + subscriptDrop * s)
  size_sub {x y : α} : IsPosition x → IsPosition y → IsSize (x - y)
  size_max {v w : α} : IsSize v → IsSize w → IsSize (max v w)
  size_zero : IsSize (0.0 : α)
  size_minFractionWidth : IsSize (minFractionWidth : α)
  size_fraction {w : α} : IsSize w → IsSize (w + 2.0 * padding)
  size_overline {w : α} : IsSize w → IsSize (w + 1.5 * padding)
  size_overlap {w : α} : IsSize w → IsSize (w * (1.0 - scriptOverlap))
  size_stroke : IsSize (e.settings.strokeWidth * 1.5)
  size_text {d : Nat} {s : α} (text : String) : IsFont d s →
    IsSize (max (e.measure text s).width 0.0)
  size_font {d : Nat} {s c : α} : IsFont d s → c ∈ [(0.1 : α), 0.15, 0.25, 0.3, 0.5, 0.6, 0.9] →
    IsSize (s * c)
  size_shift {d : Nat} {s w : α} : IsFont d s → IsSize w → IsSize (max (w - s * 0.5 / 2.0) 0.0)
  usable_font {d : Nat} {s : α} : IsFont d s →
    Scalar.isFinite s = true ∧ Scalar.isPositive s = true
  font_succ {d : Nat} {s : α} : d ≤ e.settings.maxDepth → IsFont d s → IsFont (d + 1) s
  font_nested {d : Nat} {s c : α} : d ≤ e.settings.maxDepth → IsFont d s →
    c ∈ [(0.5 : α), 0.6, 0.7, 1.0] → IsFont (d + 1) (s * c)

namespace Ample

open Engine

variable {e : Engine α} (A : Ample e)

/-! ## Boxes -/

/-- The horizontal extent of a rectangle is ample. -/
def Spans (r : Rect α) : Prop := A.IsPosition r.x ∧ A.IsSize r.width

/-- A box, and the extents of its scripts. -/
structure Fits (l : Layout α) : Prop where
  bounds : A.Spans l.bounds
  top : A.IsPosition l.y
  scripts : ∀ s ∈ l.scripts, A.Spans s.extent

/-- A context for a depth. -/
structure Suits (d : Nat) (ctx : Context α) : Prop where
  x : A.IsPosition ctx.x
  y : A.IsPosition ctx.y
  font : A.IsFont d ctx.fontSize

/-- A row whose cursor and items are ample. -/
structure Holds (row : Row α) : Prop where
  cursor : A.IsPosition row.cursor
  placed : ∀ item ∈ row.placed, A.Fits item

variable {A}

theorem Spans.right {r : Rect α} (h : A.Spans r) : A.IsPosition r.right :=
  A.position_add h.1 h.2

theorem Spans.union {r s : Rect α} (hr : A.Spans r) (hs : A.Spans s) : A.Spans (r.union s) := by
  have hx := A.position_min hr.1 hs.1
  exact ⟨hx, A.size_sub (A.position_max hr.right hs.right) hx⟩

theorem Spans.unionExtent {r : Rect α} {o : Option (Layout α)} (hr : A.Spans r)
    (ho : ∀ l ∈ o, A.Spans l.extent) : A.Spans (Layout.unionExtent r o) := by
  cases o with
  | none => exact hr
  | some l => exact hr.union (ho l rfl)

theorem Fits.extent {l : Layout α} (h : A.Fits l) : A.Spans l.extent := by
  obtain ⟨r, b, k, s, t⟩ := l
  have hscripts : ∀ m, m ∈ s ∨ m ∈ t → A.Spans m.extent := by
    intro m hm
    refine h.scripts m ?_
    simpa [Layout.scripts, Layout.superscript, Layout.subscript] using hm
  have hs := h.bounds.unionExtent fun m hm => hscripts m (.inl hm)
  exact hs.unionExtent fun m hm => hscripts m (.inr hm)

theorem Fits.attach {l script : Layout α} (hl : A.Fits l) (side : ScriptSide)
    (hscript : A.Fits script) : A.Fits (l.attach side script) := by
  obtain ⟨r, b, k, s, t⟩ := l
  have hscripts := hl.scripts
  simp only [Layout.scripts, Layout.superscript, Layout.subscript, List.mem_append,
    Option.mem_toList] at hscripts
  refine ⟨?_, ?_, ?_⟩
  · cases side <;> exact hl.bounds
  · cases side <;> exact hl.top
  · intro m hm
    cases side with
    | superscript =>
      simp only [Layout.attach, Layout.scripts, Layout.superscript, Layout.subscript,
        Option.toList_some, List.mem_append, List.mem_singleton, Option.mem_toList] at hm
      rcases hm with rfl | hm
      · exact hscript.extent
      · exact hscripts m (.inr hm)
    | subscript =>
      simp only [Layout.attach, Layout.scripts, Layout.superscript, Layout.subscript,
        Option.toList_some, List.mem_append, List.mem_singleton, Option.mem_toList] at hm
      rcases hm with hm | rfl
      · exact hscripts m (.inl hm)
      · exact hscript.extent

theorem fits_sized {r : Rect α} {baseline : α} {k : Kind α (Layout α)} (hx : A.IsPosition r.x)
    (hy : A.IsPosition r.y) (hwidth : A.IsSize (max r.width 0.0)) :
    A.Fits (.sized r baseline k) := by
  refine ⟨⟨hx, hwidth⟩, hy, fun s hs => ?_⟩
  simp [Layout.sized, Layout.scripts, Layout.superscript, Layout.subscript] at hs

theorem Fits.width {l : Layout α} (h : A.Fits l) : A.IsSize l.width := h.bounds.2

/-! ## Contexts -/

theorem Suits.isUsable {d : Nat} {ctx : Context α} (h : A.Suits d ctx) : ctx.isUsable = true := by
  have hs := A.usable_font h.font
  simp [Context.isUsable, A.finite_position h.x, A.finite_position h.y, hs.1, hs.2]

theorem Suits.movedTo {d : Nat} {ctx : Context α} {x y : α} (h : A.Suits d ctx)
    (hx : A.IsPosition x) (hy : A.IsPosition y) : A.Suits d (ctx.movedTo x y) :=
  ⟨hx, hy, h.font⟩

theorem Suits.succ {d : Nat} {ctx : Context α} (h : A.Suits d ctx)
    (hd : d ≤ e.settings.maxDepth) : A.Suits (d + 1) ctx :=
  ⟨h.x, h.y, A.font_succ hd h.font⟩

theorem Suits.nested {d : Nat} {ctx : Context α} {c : α} (h : A.Suits d ctx)
    (hd : d ≤ e.settings.maxDepth) (hc : c ∈ [(0.5 : α), 0.6, 0.7, 1.0]) :
    A.Suits (d + 1) (ctx.nested c) :=
  ⟨h.x, h.y, A.font_nested hd h.font hc⟩

theorem Suits.inside {d : Nat} {ctx : Context α} (h : A.Suits d ctx) (delimiter : Delimiter) :
    A.Suits d (e.insideContext ctx delimiter) := by
  refine h.movedTo (A.position_add h.x ?_) h.y
  cases delimiter with
  | parentheses => exact A.size_font h.font (by simp)
  | bars => exact A.size_stroke

/-- A script starts beside its base. -/
theorem Suits.scriptContext {d : Nat} {ctx : Context α} {side : ScriptSide} {base : Layout α}
    (h : A.Suits d ctx) (hd : d ≤ e.settings.maxDepth) (hbase : A.Fits base) :
    A.Suits (d + 1) (scriptContext ctx side base) := by
  have hnested := h.nested (c := scriptScale) hd (by simp [scriptScale])
  refine hnested.movedTo (A.position_add hbase.bounds.1 (A.size_overlap hbase.width)) ?_
  cases side with
  | superscript => exact A.position_rise hbase.top h.font
  | subscript => exact A.position_drop hbase.top h.font

theorem Suits.position {d : Nat} {ctx : Context α} (h : A.Suits d ctx) {row : Row α}
    (hrow : A.Holds row) (x : Formula) : A.IsPosition (row.position ctx x) := by
  unfold Row.position
  split
  next left _ =>
    refine A.position_add hrow.cursor ?_
    unfold spacing
    split
    · exact A.size_font h.font (by simp)
    · split
      · exact A.size_font h.font (by simp)
      · exact A.size_font h.font (by simp)
  next => exact hrow.cursor

/-! ## Structures -/

theorem fits_emptyLayout {d : Nat} {ctx : Context α} (h : A.Suits d ctx) :
    A.Fits (emptyLayout ctx) := by
  rw [emptyLayout, A.finite_position h.x, A.finite_position h.y]
  exact fits_sized h.x h.y (A.size_max A.size_zero A.size_zero)

theorem fits_textLayout {d : Nat} {ctx : Context α} (h : A.Suits d ctx) (text : String)
    (role : TextRole) : A.Fits (e.textLayout text role ctx) :=
  fits_sized h.x h.y (A.size_text text h.font)

theorem fits_rowLayout {d : Nat} {ctx : Context α} {row : Row α} (h : A.Suits d ctx)
    (hrow : A.Holds row) : A.Fits (rowLayout ctx row) :=
  fits_sized h.x h.y (A.size_max (A.size_sub hrow.cursor h.x) A.size_zero)

theorem fits_scriptLayout {ctx : Context α} {side : ScriptSide} {content : Layout α}
    (h : A.Fits content) : A.Fits (scriptLayout ctx side content) :=
  fits_sized h.bounds.1 h.top (A.size_max h.width A.size_zero)

theorem fits_fractionLayout {d : Nat} {ctx : Context α} {p q : Layout α} (h : A.Suits d ctx)
    (hp : A.Fits p) (hq : A.Fits q) : A.Fits (e.fractionLayout ctx p q) := by
  refine fits_sized h.x h.y (A.size_max ?_ A.size_zero)
  exact A.size_fraction (A.size_max (A.size_max hp.width hq.width) A.size_minFractionWidth)

theorem fits_rootLayout {d : Nat} {ctx : Context α} {index : Option (Layout α)}
    {content : Layout α} (h : A.Suits d ctx) (hindex : ∀ i ∈ index, A.Fits i)
    (hcontent : A.Fits content) : A.Fits (e.rootLayout ctx index content) := by
  have hsign : A.IsSize (ctx.fontSize * 0.5) := A.size_font h.font (by simp)
  have hwidth : ∀ shift, A.IsSize shift → A.IsPosition
      (ctx.x + shift + ctx.fontSize * 0.5 + (content.width + 1.5 * padding)) := by
    intro shift hshift
    exact A.position_add (A.position_add (A.position_add h.x hshift) hsign)
      (A.size_overline hcontent.width)
  refine fits_sized h.x h.y (A.size_max (A.size_sub ?_ h.x) A.size_zero)
  cases index with
  | none => exact hwidth _ A.size_zero
  | some i => exact hwidth _ (A.size_shift h.font (hindex i rfl).width)

theorem fits_bigOperatorLayout {d : Nat} {ctx : Context α} {op : BigOperator}
    {lower upper : Option (Layout α)} (h : A.Suits d ctx) (hlower : ∀ l ∈ lower, A.Fits l)
    (hupper : ∀ u ∈ upper, A.Fits u) : A.Fits (bigOperatorLayout ctx op lower upper) := by
  have hglyph : A.IsSize (glyphSize ctx.fontSize op).1 := by
    cases op <;> exact A.size_font h.font (by simp)
  refine fits_sized h.x h.y (A.size_max ?_ A.size_zero)
  cases upper with
  | none =>
    cases lower with
    | none => exact hglyph
    | some l => exact A.size_max hglyph (hlower l rfl).width
  | some u =>
    have hu := A.size_max hglyph (hupper u rfl).width
    cases lower with
    | none => exact hu
    | some l => exact A.size_max hu (hlower l rfl).width

theorem fits_limitLayout {d : Nat} {ctx : Context α} {label : Layout α}
    {approach : Option (Layout α)} (h : A.Suits d ctx) (hlabel : A.Fits label)
    (happroach : ∀ a ∈ approach, A.Fits a) : A.Fits (limitLayout ctx label approach) := by
  refine fits_sized h.x h.y (A.size_max ?_ A.size_zero)
  cases approach with
  | none => exact hlabel.width
  | some a => exact A.size_max (happroach a rfl).width hlabel.width

theorem fits_delimitedLayout {d : Nat} {ctx : Context α} {delimiter : Delimiter}
    {content : Layout α} (h : A.Suits d ctx) (hcontent : A.Fits content) :
    A.Fits (e.delimitedLayout ctx delimiter content) := by
  have hdelim : A.IsSize (e.delimiterWidth ctx.fontSize delimiter) := by
    cases delimiter with
    | parentheses => exact A.size_font h.font (by simp)
    | bars => exact A.size_stroke
  refine fits_sized h.x h.y (A.size_max (A.size_sub ?_ h.x) A.size_zero)
  refine A.position_add (A.position_add ?_ ?_) hdelim
  · simp only [Layout.x, Layout.translate, Layout.bounds_mapPoints]
    exact A.position_add hcontent.bounds.1 A.size_zero
  · simp only [Layout.width, Layout.translate, Layout.bounds_mapPoints]
    exact hcontent.width

end Ample

/-! ## Whole layouts -/

namespace Engine

theorem not_whole_emptyLayout (ctx : Context α) : ¬ (emptyLayout ctx).Whole := by
  intro h
  unfold emptyLayout at h
  split at h <;> exact (whole_sized.1 h).1 rfl

theorem whole_textLayout (e : Engine α) (text : String) (role : TextRole) (ctx : Context α) :
    (e.textLayout text role ctx).Whole := by
  refine whole_sized.2 ⟨by simp, fun c hc => ?_⟩
  simp [Kind.parts] at hc

theorem whole_rowLayout {ctx : Context α} {row : Row α} :
    (rowLayout ctx row).Whole ↔ ∀ item ∈ row.placed, item.Whole := by
  rw [rowLayout, whole_sized]
  simp [Kind.parts, whole_translate]

theorem whole_fractionLayout {e : Engine α} {ctx : Context α} {p q : Layout α} :
    (e.fractionLayout ctx p q).Whole ↔ p.Whole ∧ q.Whole := by
  rw [fractionLayout, whole_sized]
  simp [Kind.parts, whole_translate]

theorem whole_scriptLayout {ctx : Context α} {side : ScriptSide} {content : Layout α} :
    (scriptLayout ctx side content).Whole ↔ content.Whole := by
  rw [scriptLayout.eq_def, whole_sized]
  simp [Kind.parts]

theorem whole_rootLayout {e : Engine α} {ctx : Context α} {index : Option (Layout α)}
    {content : Layout α} :
    (e.rootLayout ctx index content).Whole ↔ (∀ i ∈ index, i.Whole) ∧ content.Whole := by
  rw [rootLayout.eq_def, whole_sized]
  cases index <;> simp [Kind.parts, whole_translate]

theorem whole_bigOperatorLayout {ctx : Context α} {op : BigOperator}
    {lower upper : Option (Layout α)} :
    (bigOperatorLayout ctx op lower upper).Whole ↔
      (∀ l ∈ lower, l.Whole) ∧ ∀ u ∈ upper, u.Whole := by
  rw [bigOperatorLayout.eq_def, whole_sized]
  cases lower <;> cases upper <;> simp [Kind.parts, centred, whole_translate, and_comm]

theorem whole_limitLayout {ctx : Context α} {label : Layout α} {approach : Option (Layout α)} :
    (limitLayout ctx label approach).Whole ↔ label.Whole ∧ ∀ a ∈ approach, a.Whole := by
  rw [limitLayout.eq_def, whole_sized]
  cases approach <;> simp [Kind.parts, centred, whole_translate]

theorem whole_delimitedLayout {e : Engine α} {ctx : Context α} {delimiter : Delimiter}
    {content : Layout α} :
    (e.delimitedLayout ctx delimiter content).Whole ↔ content.Whole := by
  rw [delimitedLayout, whole_sized]
  simp [Kind.parts, whole_translate]

end Engine

namespace Ample

open Engine

variable {e : Engine α} (A : Ample e)

/-- What laying out a formula at a depth gives in ample numbers. -/
structure Lays (ctx : Context α) (d : Nat) (x : Formula) : Prop where
  fits : A.Fits (e.layoutAt ctx d x)
  whole : (e.layoutAt ctx d x).Whole ↔ d + x.rank ≤ e.settings.maxDepth

variable {A}

theorem Holds.start {d : Nat} {ctx : Context α} (hctx : A.Suits d ctx) : A.Holds (.start ctx) := by
  refine ⟨hctx.x, fun item hitem => ?_⟩
  simp [Row.start] at hitem

theorem Holds.attach {row : Row α} {base script : Layout α} (hrow : A.Holds row)
    (hbase : A.Fits base) (side : ScriptSide) (hscript : A.Fits script) :
    A.Holds (row.attach base side script) := by
  have hnext := hbase.attach side hscript
  refine ⟨A.position_max hrow.cursor hnext.extent.right, fun item hitem => ?_⟩
  rcases List.mem_cons.1 hitem with rfl | hitem
  · exact hnext
  · exact hrow.placed item (List.mem_of_mem_tail hitem)

theorem Holds.place {row : Row α} {item : Layout α} (hrow : A.Holds row) (x : Formula)
    (hitem : A.Fits item) : A.Holds (row.place x item) := by
  refine ⟨hitem.extent.right, fun l hl => ?_⟩
  rcases List.mem_cons.1 hl with rfl | hl
  · exact hitem
  · exact hrow.placed l hl

/-- A row stays ample, and is whole exactly if the limit reaches every formula of it. -/
theorem lays_row {d : Nat} {ctx : Context α} {row : Row α} (xs : List Formula)
    (hd : d ≤ e.settings.maxDepth) (hctx : A.Suits d ctx) (hrow : A.Holds row)
    (ih : ∀ y, sizeOf y < sizeOf xs → ∀ ctx, A.Suits (d + 1) ctx → A.Lays ctx (d + 1) y) :
    A.Holds (e.layoutRow ctx (d + 1) row xs) ∧
      ((∀ item ∈ (e.layoutRow ctx (d + 1) row xs).placed, item.Whole) ↔
        (∀ item ∈ row.placed, item.Whole) ∧
          d + Formula.rankRow row.free xs ≤ e.settings.maxDepth) := by
  induction xs generalizing row with
  | nil =>
    rw [layoutRow]
    simp [hrow, Formula.rankRow, hd]
  | cons x xs ihxs =>
    have ihrest : ∀ y, sizeOf y < sizeOf xs → ∀ ctx, A.Suits (d + 1) ctx →
        A.Lays ctx (d + 1) y := by
      intro y hy
      exact ih y (by simp only [List.cons.sizeOf_spec]; omega)
    rcases row.attach_or_place x with ⟨side, y, base, rfl, hbase⟩ | hplace
    · obtain ⟨haccepts, hplaced⟩ := Row.base?_eq_some_iff.1 hbase
      have hbasefits : A.Fits base := hrow.placed base (by rw [hplaced]; simp)
      have hy := ih y
        (by simp only [List.cons.sizeOf_spec, Formula.script.sizeOf_spec]; omega)
        (scriptContext ctx side base) (hctx.scriptContext hd hbasefits)
      have hfree : row.free side = true := by rw [Row.free, hbase]; rfl
      obtain ⟨h, hwhole⟩ := ihxs (hrow.attach hbasefits side hy.fits) ihrest
      rw [layoutRow_attach _ _ _ _ hbase, Formula.rankRow_attach hfree]
      refine ⟨h, hwhole.trans ?_⟩
      rw [Row.free_attach hbase, hplaced]
      simp only [Row.attach, List.forall_mem_cons, whole_attach haccepts, hy.whole]
      grind
    · have hfree : ∀ side y, x = .script side y → row.free side = false := by
        intro side y hx
        rw [Row.free, hplace side y hx]
        rfl
      have hx := ih x (by simp only [List.cons.sizeOf_spec]; omega) _
        ((hctx.succ hd).movedTo (hctx.position hrow x) hctx.y)
      obtain ⟨h, hwhole⟩ := ihxs (hrow.place x hx.fits) ihrest
      rw [layoutRow_place _ _ _ _ hplace, Formula.rankRow_place hfree]
      refine ⟨h, hwhole.trans ?_⟩
      rw [Row.free_place (accepts_layoutAt _ _ _ _)]
      simp only [Row.place, List.forall_mem_cons, hx.whole]
      grind

theorem lays_of_exceeded {d : Nat} {ctx : Context α} (x : Formula) (hctx : A.Suits d ctx)
    (hd : ¬ d ≤ e.settings.maxDepth) : A.Lays ctx d x := by
  have hempty : e.layoutAt ctx d x = emptyLayout ctx :=
    layoutAt_refused (fun hadmits => hd (admits_iff.1 hadmits).1) x
  constructor
  · rw [hempty]
    exact fits_emptyLayout hctx
  · rw [hempty]
    constructor
    · intro h
      exact absurd h (not_whole_emptyLayout ctx)
    · intro h
      omega

theorem lays_option {d : Nat} {ctx : Context α} (o : Option Formula)
    (hd : d ≤ e.settings.maxDepth) (ih : ∀ y ∈ o, A.Lays ctx (d + 1) y) :
    (∀ l ∈ e.layoutOption ctx (d + 1) o, A.Fits l) ∧
      ((∀ l ∈ e.layoutOption ctx (d + 1) o, l.Whole) ↔
        d + Formula.rankOption o ≤ e.settings.maxDepth) := by
  cases o with
  | none => simp [layoutOption, Formula.rankOption, hd]
  | some y =>
    have hy := ih y rfl
    simp [layoutOption, Formula.rankOption, hy.fits, hy.whole, Nat.add_assoc]

theorem lays_sequence {d : Nat} {ctx : Context α} (xs : List Formula)
    (hd : d ≤ e.settings.maxDepth) (hctx : A.Suits d ctx)
    (ih : ∀ y, sizeOf y < sizeOf xs → ∀ ctx, A.Suits (d + 1) ctx → A.Lays ctx (d + 1) y) :
    A.Fits (rowLayout ctx (e.layoutRow ctx (d + 1) (.start ctx) xs)) ∧
      ((rowLayout ctx (e.layoutRow ctx (d + 1) (.start ctx) xs)).Whole ↔
        d + Formula.rankRow (fun _ => false) xs ≤ e.settings.maxDepth) := by
  obtain ⟨hholds, hwhole⟩ := lays_row xs hd hctx (.start hctx) ih
  refine ⟨fits_rowLayout hctx hholds, whole_rowLayout.trans (hwhole.trans ?_)⟩
  exact and_iff_right fun item hitem => by simp [Row.start] at hitem

/-- Layouts stay ample, and are whole exactly if the limit reaches every part. -/
theorem lays_layoutAt {d : Nat} {ctx : Context α} (x : Formula) (hctx : A.Suits d ctx) :
    A.Lays ctx d x := by
  induction x using Formula.size_induction generalizing ctx d with
  | step x ih =>
    by_cases hd : d ≤ e.settings.maxDepth
    case neg => exact lays_of_exceeded x hctx hd
    case pos =>
      have hadmits : e.admits ctx d = true := by simp [admits, hd, hctx.isUsable]
      have hnested : ∀ y ∈ x.children, ∀ c ∈ [(0.5 : α), 0.6, 0.7, 1.0],
          A.Lays (ctx.nested c) (d + 1) y := by
        intro y hy c hc
        exact ih y (Formula.sizeOf_lt_of_mem_children hy) (hctx.nested hd hc)
      cases x with
      | leaf l =>
        constructor
        · rw [layoutAt, if_pos hadmits]
          exact fits_textLayout hctx _ _
        · rw [layoutAt, if_pos hadmits, Formula.rank]
          exact iff_of_true (whole_textLayout _ _ _ _) hd
      | fraction p q =>
        have hp := hnested p (by simp [Formula.children]) fractionScale (by simp [fractionScale])
        have hq := hnested q (by simp [Formula.children]) fractionScale (by simp [fractionScale])
        constructor
        · rw [layoutAt, if_pos hadmits]
          exact fits_fractionLayout hctx hp.fits hq.fits
        · rw [layoutAt, if_pos hadmits, whole_fractionLayout, hp.whole, hq.whole, Formula.rank]
          omega
      | script side y =>
        have hy := hnested y (by simp [Formula.children]) scriptScale (by simp [scriptScale])
        constructor
        · rw [layoutAt, if_pos hadmits]
          exact fits_scriptLayout hy.fits
        · rw [layoutAt, if_pos hadmits, whole_scriptLayout, hy.whole, Formula.rank]
          omega
      | root i y =>
        have hi := lays_option i hd fun z hz =>
          hnested z (by simp_all [Formula.children]) indexScale (by simp [indexScale])
        have hy := hnested y (by simp [Formula.children]) 1.0 (by simp)
        constructor
        · rw [layoutAt, if_pos hadmits]
          exact fits_rootLayout hctx hi.1 hy.fits
        · rw [layoutAt, if_pos hadmits, whole_rootLayout, hi.2, hy.whole, Formula.rank]
          omega
      | bigOperator op l u =>
        have hl := lays_option l hd fun z hz =>
          hnested z (by simp_all [Formula.children]) limitScale (by simp [limitScale])
        have hu := lays_option u hd fun z hz =>
          hnested z (by simp_all [Formula.children]) limitScale (by simp [limitScale])
        constructor
        · rw [layoutAt, if_pos hadmits]
          exact fits_bigOperatorLayout hctx hl.1 hu.1
        · rw [layoutAt, if_pos hadmits, whole_bigOperatorLayout, hl.2, hu.2, Formula.rank]
          omega
      | limit a =>
        have ha := lays_option a hd fun z hz =>
          hnested z (by simp_all [Formula.children]) scriptScale (by simp [scriptScale])
        constructor
        · rw [layoutAt, if_pos hadmits]
          exact fits_limitLayout hctx (fits_textLayout hctx _ _) ha.1
        · rw [layoutAt, if_pos hadmits, whole_limitLayout, ha.2, Formula.rank]
          exact and_iff_right (whole_textLayout _ _ _ _)
      | group xs | equation xs =>
        have hxs := lays_sequence xs hd hctx fun y hy ctx hctx =>
          ih y (by simp only [Formula.group.sizeOf_spec, Formula.equation.sizeOf_spec]; omega) hctx
        constructor
        · rw [layoutAt, if_pos hadmits]
          exact hxs.1
        · rw [layoutAt, if_pos hadmits, hxs.2, Formula.rank]
      | delimited delimiter xs =>
        have hxs := lays_sequence xs hd (hctx.inside delimiter) fun y hy ctx hctx =>
          ih y (by simp only [Formula.delimited.sizeOf_spec]; omega) hctx
        constructor
        · rw [layoutAt, if_pos hadmits]
          exact fits_delimitedLayout hctx hxs.1
        · rw [layoutAt, if_pos hadmits, whole_delimitedLayout, hxs.2, Formula.rank]

/-- In ample numbers only the limit of the engine makes a part of a layout empty. -/
theorem whole_layoutAt {d : Nat} {ctx : Context α} (x : Formula) (hctx : A.Suits d ctx) :
    (e.layoutAt ctx d x).Whole ↔ d + x.rank ≤ e.settings.maxDepth :=
  (lays_layoutAt x hctx).whole

end Ample

/-! ## Exact scalars -/

/-- Among exact scalars only the font size matters, and it stays positive. -/
def Ample.exact (e : Engine Rat) : Ample e where
  IsPosition _ := True
  IsSize _ := True
  IsFont _ s := 0 < s
  finite_position _ := rfl
  position_add _ _ := trivial
  position_max _ _ := trivial
  position_min _ _ := trivial
  position_rise _ _ := trivial
  position_drop _ _ := trivial
  size_sub _ _ := trivial
  size_max _ _ := trivial
  size_zero := trivial
  size_minFractionWidth := trivial
  size_fraction _ := trivial
  size_overline _ := trivial
  size_overlap _ := trivial
  size_stroke := trivial
  size_text _ _ := trivial
  size_font _ _ := trivial
  size_shift _ _ := trivial
  usable_font h := ⟨rfl, decide_eq_true h⟩
  font_succ _ h := h
  font_nested _ h hc := by
    refine Rat.mul_pos h ?_
    revert hc
    simp only [List.mem_cons, List.not_mem_nil, or_false]
    rintro (rfl | rfl | rfl | rfl) <;> decide +kernel

end FormulaDrawing
