import FormulaDrawing.Proofs.Layout.Closure

/-!
# Items on one line

The items of a sequence are aligned one by one, each moved by a distance that is computed, and
rounded, for it alone. Still no error comes in between: whatever is laid out starts at the height of
its context (`Stands`), so the distance depends on nothing but the baseline of the item, and items
with the same baseline end at the same height, bit by bit:

    p.baseline = q.baseline → p.y = q.y                              (isAligned_row)

What moves a sequence later moves all of its items alike, so this holds in every sequence of a
layout, wherever the layout is moved (`aligned_layout`).
-/

namespace FormulaDrawing

variable {α : Type}

/-! ## Sequences -/

namespace Layout

/-- Whether a box is a run of text. -/
def isText (l : Layout α) : Bool :=
  match l.kind with
  | .text _ _ _ => true
  | _ => false

/-- Items with the same baseline stand at the same height. -/
def IsLevel (items : List (Layout α)) : Prop :=
  ∀ p ∈ items, ∀ q ∈ items, p.isEmpty = false → q.isEmpty = false →
    p.baseline = q.baseline → p.y = q.y

/-- The runs of text stand on one line. -/
def SharesLine [Scalar α] (items : List (Layout α)) : Prop :=
  ∀ p ∈ items, ∀ q ∈ items, p.isText = true → q.isText = true → p.baselineY = q.baselineY

/-- A property of the items of every sequence in a layout. -/
def EverySequence (P : List (Layout α) → Prop) (l : Layout α) : Prop :=
  l.Everywhere fun b => ∀ items, b.kind = .sequence items → P items

theorem EverySequence.imp {P Q : List (Layout α) → Prop} (h : ∀ items, P items → Q items)
    {l : Layout α} (hl : l.EverySequence P) : l.EverySequence Q :=
  fun b hb items hitems => h items (hl b hb items hitems)

/-- Items with the same baseline stand at the same height, and the runs of text have the baselines
that a measure gives at one font size. -/
structure IsAligned (m : Measure α) (items : List (Layout α)) : Prop where
  level : IsLevel items
  measured : ∃ fontSize, ∀ p ∈ items, ∀ s size role, p.kind = .text s size role →
    p.baseline = (m s fontSize).baseline

theorem kind_eq_text_of_mapPoints {f g : α → α} {l : Layout α} {s : String} {size : α}
    {role : TextRole} (h : (l.mapPoints f g).kind = .text s size role) :
    l.kind = .text s size role := by
  obtain ⟨r, b, k, sup, sub⟩ := l
  cases k <;> cases h
  rfl

theorem IsAligned.mapPoints {m : Measure α} (f g : α → α) {items : List (Layout α)}
    (h : IsAligned m items) : IsAligned m (items.map (mapPoints f g)) where
  level := by
    unfold IsLevel
    simp only [List.forall_mem_map, isEmpty_mapPoints, baseline_mapPoints, y_mapPoints]
    intro p hp q hq hpe hqe hbaseline
    exact congrArg g (h.level p hp q hq hpe hqe hbaseline)
  measured := by
    obtain ⟨fontSize, hmeasured⟩ := h.measured
    refine ⟨fontSize, ?_⟩
    simp only [List.forall_mem_map, baseline_mapPoints]
    intro p hp s size role hkind
    exact hmeasured p hp s size role (kind_eq_text_of_mapPoints hkind)

/-- Neither the place of a sequence nor what is attached to it matters. -/
theorem boxwise_isAligned (m : Measure α) :
    Boxwise fun b : Layout α => ∀ items, b.kind = .sequence items → IsAligned m items where
  attach {l _ side} h := by
    cases side <;> exact h
  mapPoints {l f g} h := by
    obtain ⟨r, b, k, s, t⟩ := l
    intro items hitems
    cases k with
    | sequence xs =>
      cases hitems
      rw [mapPointsList_eq]
      exact (h xs rfl).mapPoints f g
    | _ => cases hitems

/-- With an estimate that takes the baseline from the font size alone, all runs of text stand on one
line. -/
theorem IsAligned.sharesLine [Scalar α] {w c : α} {items : List (Layout α)}
    (h : IsAligned (.estimate w c) items) : SharesLine items := by
  obtain ⟨fontSize, hmeasured⟩ := h.measured
  have htext : ∀ p ∈ items, p.isText = true →
      p.isEmpty = false ∧ p.baseline = fontSize * c := by
    intro p hp hisText
    have hp := hmeasured p hp
    unfold isText at hisText
    unfold isEmpty
    split at hisText
    next s size role hkind =>
      rw [hkind]
      exact ⟨rfl, hp s size role hkind⟩
    next => cases hisText
  intro p hp q hq hptext hqtext
  obtain ⟨hpe, hpb⟩ := htext p hp hptext
  obtain ⟨hqe, hqb⟩ := htext q hq hqtext
  have hbaseline : p.baseline = q.baseline := hpb.trans hqb.symm
  have hy : p.y = q.y := h.level p hp q hq hpe hqe hbaseline
  show p.y + p.baseline = q.y + q.baseline
  rw [hy, hbaseline]

end Layout

/-! ## The engine -/

namespace Engine

open Layout (IsLevel IsAligned SharesLine EverySequence BuiltFrom boxwise_isAligned)

variable [Scalar α] (e : Engine α) (ctx : Context α)

/-- What is laid out at a context starts at its height, an empty box at least if the context has a
position at all, and a run of text has its baseline by the font size of the context. -/
structure Stands (l : Layout α) : Prop where
  y_eq : l.isEmpty = false ∨ (Scalar.isFinite ctx.x && Scalar.isFinite ctx.y) = true → l.y = ctx.y
  baseline_eq : ∀ s size role, l.kind = .text s size role →
    l.baseline = (e.measure s ctx.fontSize).baseline

/-- What is laid out at a context stands there, and its sequences are aligned. -/
structure Aligns (l : Layout α) : Prop where
  stands : Stands e ctx l
  sequences : l.EverySequence (IsAligned e.measure)

/-- The items of a row stand somewhere in it, with their scripts. -/
def AlignsRow (row : Row α) : Prop :=
  ∀ item ∈ row.placed, (∃ x, Stands e (ctx.movedTo x ctx.y) item) ∧
    item.EverySequence (IsAligned e.measure)

variable {e ctx}

theorem Stands.attach {l script : Layout α} (h : Stands e ctx l) (side : ScriptSide) :
    Stands e ctx (l.attach side script) := by
  cases side <;> exact ⟨h.y_eq, h.baseline_eq⟩

/-- A structure that starts at the height of its context is aligned as its parts are. -/
theorem aligns_sized {r : Rect α} {baseline : α} {k : Kind α (Layout α)} {given : List (Layout α)}
    (hy : r.y = ctx.y) (htext : ∀ s size role, k ≠ .text s size role)
    (hsequence : ∀ items, k ≠ .sequence items)
    (hparts : (Layout.sized r baseline k).BuiltFrom given)
    (hgiven : ∀ l ∈ given, l.EverySequence (IsAligned e.measure)) :
    Aligns e ctx (.sized r baseline k) where
  stands := ⟨fun _ => hy, fun s size role hkind => absurd hkind (htext s size role)⟩
  sequences := hparts.everywhere (boxwise_isAligned _)
    (fun items hkind => absurd hkind (hsequence items)) hgiven

theorem aligns_empty : Aligns e ctx (emptyLayout ctx) where
  stands := by
    unfold emptyLayout
    split
    · exact ⟨fun _ => rfl, nofun⟩
    next hplace => exact ⟨fun h => absurd (h.resolve_left nofun) hplace, nofun⟩
  sequences := by
    refine builtFrom_empty.everywhere (boxwise_isAligned _) ?_ (by simp)
    unfold emptyLayout
    split <;> exact nofun

theorem aligns_text (text : String) (role : TextRole) :
    Aligns e ctx (e.textLayout text role ctx) where
  stands := by
    refine ⟨fun _ => rfl, fun s size role' hkind => ?_⟩
    cases hkind
    rfl
  sequences := builtFrom_text.everywhere (boxwise_isAligned _) nofun (by simp)

/-- Items that started at one height are moved by the same distance if they have the same
baseline. -/
theorem isAligned_row {row : Row α} (h : AlignsRow e ctx row) (ascent : α) :
    IsAligned e.measure (row.placed.reverse.map fun item =>
      item.translate 0.0 (ctx.y + ascent - item.baselineY)) where
  level := by
    have htop : ∀ item ∈ row.placed, item.isEmpty = false → item.y = ctx.y := by
      intro item hitem hempty
      obtain ⟨⟨x, hstands⟩, -⟩ := h item hitem
      exact hstands.y_eq (.inl hempty)
    unfold IsLevel Layout.translate
    simp only [List.forall_mem_map, List.mem_reverse, Layout.isEmpty_mapPoints,
      Layout.baseline_mapPoints, Layout.y_mapPoints]
    intro p hp q hq hpe hqe hbaseline
    have hy : p.y = q.y := (htop p hp hpe).trans (htop q hq hqe).symm
    have hline : p.baselineY = q.baselineY := by
      show p.y + p.baseline = q.y + q.baseline
      rw [hy, hbaseline]
    rw [hy, hline]
  measured := by
    refine ⟨ctx.fontSize, ?_⟩
    unfold Layout.translate
    simp only [List.forall_mem_map, List.mem_reverse, Layout.baseline_mapPoints]
    intro p hp s size role hkind
    obtain ⟨⟨x, hstands⟩, -⟩ := h p hp
    exact hstands.baseline_eq s size role (Layout.kind_eq_text_of_mapPoints hkind)

theorem aligns_row {row : Row α} (h : AlignsRow e ctx row) : Aligns e ctx (rowLayout ctx row) where
  stands := ⟨fun _ => rfl, nofun⟩
  sequences := by
    refine builtFrom_row.everywhere (boxwise_isAligned _) ?_ fun item hitem => (h item hitem).2
    intro items hitems
    cases hitems
    exact isAligned_row h _

theorem AlignsRow.place {row : Row α} {x : Formula} {p : α} {item : Layout α}
    (h : AlignsRow e ctx row) (hitem : Aligns e (ctx.movedTo p ctx.y) item) :
    AlignsRow e ctx (row.place x item) :=
  List.forall_mem_cons.2 ⟨⟨⟨p, hitem.stands⟩, hitem.sequences⟩, h⟩

theorem AlignsRow.attach {row : Row α} {side : ScriptSide} {base script : Layout α}
    (h : AlignsRow e ctx row) (hbase : row.base? side = some base)
    (hscript : script.EverySequence (IsAligned e.measure)) :
    AlignsRow e ctx (row.attach base side script) := by
  obtain ⟨-, hplaced⟩ := Row.base?_eq_some_iff.1 hbase
  unfold AlignsRow at h
  rw [hplaced, List.forall_mem_cons] at h
  obtain ⟨⟨⟨p, hstands⟩, hsequences⟩, htail⟩ := h
  exact List.forall_mem_cons.2
    ⟨⟨⟨p, hstands.attach side⟩, hsequences.attach (boxwise_isAligned _) side hscript⟩, htail⟩

/-- A script without a base starts where its content does, an empty content included: it is laid
out at the same position. -/
theorem aligns_script {side : ScriptSide} {l : Layout α} (hctx : ctx.isUsable = true)
    (hl : Aligns e (ctx.nested scriptScale) l) : Aligns e ctx (scriptLayout ctx side l) := by
  have hplace : (Scalar.isFinite ctx.x && Scalar.isFinite ctx.y) = true := by
    simp only [Context.isUsable, Bool.and_eq_true] at hctx ⊢
    exact hctx.1.1
  have hy : l.y = ctx.y := hl.stands.y_eq (.inr hplace)
  exact aligns_sized hy nofun nofun builtFrom_script (by simpa using hl.sequences)

/-- What is laid out is aligned, whatever it is built from. -/
def alignment (e : Engine α) : e.Invariant where
  Suits _ _ := True
  Rows _ ctx row := AlignsRow e ctx row
  Good _ ctx l := Aligns e ctx l
  nested _ _ := trivial
  inside _ _ := trivial
  start _ item hitem := by simp [Row.start] at hitem
  onBase _ _ _ := trivial
  attach _ hrow hbase hscript := hrow.attach hbase hscript.sequences
  next _ _ _ := trivial
  place _ hrow hitem := hrow.place hitem
  empty _ := aligns_empty
  text text role _ := aligns_text text role
  row _ _ hrow := aligns_row hrow
  fraction _ _ hp hq :=
    aligns_sized rfl nofun nofun builtFrom_fraction (by simp [hp.sequences, hq.sequences])
  script hadmits _ hl := aligns_script (admits_iff.1 hadmits).2 hl
  root _ _ hindex hl := by
    refine aligns_sized rfl nofun nofun builtFrom_root (List.forall_mem_append.2 ⟨?_, ?_⟩)
    · intro i hi
      exact (hindex i (Option.mem_toList.1 hi)).sequences
    · exact List.forall_mem_singleton.2 hl.sequences
  bigOperator _ _ hlower hupper := by
    refine aligns_sized rfl nofun nofun builtFrom_bigOperator (List.forall_mem_append.2 ⟨?_, ?_⟩)
    · intro u hu
      exact (hupper u (Option.mem_toList.1 hu)).sequences
    · intro l hl
      exact (hlower l (Option.mem_toList.1 hl)).sequences
  limit _ _ happroach := by
    refine aligns_sized rfl nofun nofun builtFrom_limit (List.forall_mem_cons.2 ⟨?_, ?_⟩)
    · exact (aligns_text _ _).sequences
    · intro a ha
      exact (happroach a (Option.mem_toList.1 ha)).sequences
  delimited _ _ _ hrow :=
    aligns_sized rfl nofun nofun builtFrom_delimited
      (List.forall_mem_singleton.2 (aligns_row hrow).sequences)

/-- In every sequence of a layout, wherever it was moved, the items with the same baseline stand at
the same height, and under an estimate of any factors all runs of text stand on one line. -/
theorem aligned_layout (e : Engine α) (ctx : Context α) (x : Formula) (moves : List (α × α)) :
    let l := moves.foldl (fun l move => l.translate move.1 move.2) (e.layout ctx x)
    l.EverySequence IsLevel ∧
      ∀ w c : α, e.measure = .estimate w c → l.EverySequence SharesLine := by
  intro l
  have haligns : Aligns e ctx (e.layout ctx x) := e.alignment.good_layoutAt (d := 0) x trivial
  have hmoved : l.EverySequence (IsAligned e.measure) :=
    haligns.sequences.foldl_translate (boxwise_isAligned _) moves
  refine ⟨hmoved.imp fun items h => h.level, fun w c hmeasure => ?_⟩
  rw [hmeasure] at hmoved
  exact hmoved.imp fun items h => h.sharesLine

end Engine

end FormulaDrawing
