import FormulaDrawing.Proofs.Layout.Ample
import Mathlib.Algebra.BigOperators.Group.List.Basic
import Mathlib.Algebra.Group.Prod
import Mathlib.Algebra.Order.Group.Multiset
import Mathlib.Tactic.Abel

/-!
# What is on the page

A formula shows the texts of its leaves, each at the font size of its place, the word of every
limit, and one shape for every structure. Going down, sizes are multiplied by `0.7` into a fraction,
`0.6` into a script or under a limit, `0.5` into the limits of an operator or the index of a root,
and `1.0` under the root. A layout shows the texts of its boxes and their shapes. Both are counted
as multisets (`Formula.content`, `Layout.content`), as scripts leave the order of the formula when
they are attached.

Unless a part is replaced by an empty box, layout keeps the content:

    (e.layoutAt ctx depth x).Whole →
      (e.layoutAt ctx depth x).content = x.content ctx.fontSize        (content_layoutAt)

A script in a free slot adds its content to that of its base (`content_attach`), so a row shows
what was placed before and what its formulas show, in whatever slots that stands (`content_row`).
-/

namespace FormulaDrawing

/-- A structure that shows as more than its parts. -/
inductive Shape where
  | fraction
  | root
  | bigOperator (operator : BigOperator)
  | limit
  | delimited (delimiter : Delimiter)
deriving DecidableEq, Repr

/-- Texts with their roles and font sizes, and shapes, as often as they occur. -/
abbrev Content (α : Type) : Type := Multiset (TextRole × String × α) × Multiset Shape

/-- At most one text and at most one shape. -/
def Content.single {α : Type} (text : Option (TextRole × String × α)) (shape : Option Shape) :
    Content α :=
  (text.toList, shape.toList)

@[simp]
theorem Content.single_none {α : Type} : (single none none : Content α) = 0 := rfl

/-- The content of a list is what its members show. -/
theorem sum_single {α β : Type} (f : β → Option (TextRole × String × α)) (g : β → Option Shape)
    (xs : List β) :
    (xs.map fun x => Content.single (f x) (g x)).sum = (↑(xs.filterMap f), ↑(xs.filterMap g)) := by
  induction xs with
  | nil => rfl
  | cons x xs ih =>
    rw [List.map_cons, List.sum_cons, ih, List.filterMap_cons, List.filterMap_cons]
    cases f x <;> cases g x <;> simp [Content.single]

/-- The content of a forest is that of its trees. -/
theorem sum_flatMap {β γ M : Type} [AddMonoid M] (f : γ → M) (xs : List β) (g : β → List γ) :
    ((xs.flatMap g).map f).sum = (xs.map fun x => ((g x).map f).sum).sum := by
  rw [List.map_flatMap, List.flatMap, List.sum_flatten, List.map_map]
  rfl

/-! ## Formulas -/

namespace Formula

/-- The shape of a structure. -/
@[simp]
def shape? : Formula → Option Shape
  | .fraction _ _ => some .fraction
  | .root _ _ => some .root
  | .bigOperator op _ _ => some (.bigOperator op)
  | .limit _ => some .limit
  | .delimited d _ => some (.delimited d)
  | _ => none

/-- The text of a leaf, or the word of a limit, at a font size. -/
@[simp]
def text? {α : Type} (size : α) : Formula → Option (TextRole × String × α)
  | .leaf l => some (l.role, l.content, size)
  | .limit _ => some (.function, "lim", size)
  | _ => none

variable {α : Type} [Scalar α]

/-- The parts of a node in document order, each with its font size. -/
@[simp]
def sizedChildren (size : α) : Formula → List (α × Formula)
  | .leaf _ => []
  | .fraction n d => [(size * 0.7, n), (size * 0.7, d)]
  | .script _ x => [(size * 0.6, x)]
  | .root i x => i.toList.map (size * 0.5, ·) ++ [(size * 1.0, x)]
  | .bigOperator _ l u =>
    l.toList.map (size * 0.5, ·) ++ u.toList.map (size * 0.5, ·)
  | .limit a => a.toList.map (size * 0.6, ·)
  | .group xs | .delimited _ xs | .equation xs => xs.map (size, ·)

mutual

/-- The nodes in document order, each before its parts, with their font sizes. -/
def sizedNodes (size : α) : Formula → List (α × Formula)
  | .leaf l => [(size, .leaf l)]
  | .fraction n d =>
    (size, .fraction n d) ::
      (sizedNodes (size * 0.7) n ++ sizedNodes (size * 0.7) d)
  | .script side x => (size, .script side x) :: sizedNodes (size * 0.6) x
  | .root i x =>
    (size, .root i x) :: (sizedNodesOption (size * 0.5) i ++ sizedNodes (size * 1.0) x)
  | .bigOperator op l u =>
    (size, .bigOperator op l u) ::
      (sizedNodesOption (size * 0.5) l ++ sizedNodesOption (size * 0.5) u)
  | .limit a => (size, .limit a) :: sizedNodesOption (size * 0.6) a
  | .group xs => (size, .group xs) :: sizedNodesList size xs
  | .delimited d xs => (size, .delimited d xs) :: sizedNodesList size xs
  | .equation xs => (size, .equation xs) :: sizedNodesList size xs

def sizedNodesOption (size : α) : Option Formula → List (α × Formula)
  | none => []
  | some x => sizedNodes size x

def sizedNodesList (size : α) : List Formula → List (α × Formula)
  | [] => []
  | x :: xs => sizedNodes size x ++ sizedNodesList size xs

end

theorem sizedNodesOption_eq (size : α) (o : Option Formula) :
    sizedNodesOption size o = o.toList.flatMap (sizedNodes size) := by
  cases o <;> simp [sizedNodesOption]

theorem sizedNodesList_eq (size : α) (xs : List Formula) :
    sizedNodesList size xs = xs.flatMap (sizedNodes size) := by
  induction xs with
  | nil => rfl
  | cons x xs ih => simp [sizedNodesList, ih]

/-- A node comes before the nodes of its parts, at their font sizes. -/
theorem sizedNodes_eq (size : α) (x : Formula) :
    x.sizedNodes size =
      (size, x) :: (x.sizedChildren size).flatMap fun p => p.2.sizedNodes p.1 := by
  cases x <;>
    simp [sizedNodes, sizedChildren, sizedNodesOption_eq, sizedNodesList_eq, List.flatMap_map]

theorem map_snd_sizedChildren (size : α) (x : Formula) :
    (x.sizedChildren size).map (·.2) = x.children := by
  cases x <;> simp [sizedChildren, children, Function.comp_def]

/-- Without the sizes these are the nodes. -/
theorem map_snd_sizedNodes (size : α) (x : Formula) : (x.sizedNodes size).map (·.2) = x.nodes := by
  induction x using size_induction generalizing size with
  | step x ih =>
    rw [sizedNodes_eq, nodes_eq, ← map_snd_sizedChildren size]
    simp only [List.map_cons, List.map_flatMap, List.flatMap_map, List.cons.injEq, true_and]
    refine List.flatMap_congr fun p hp => ih p.2 (sizeOf_lt_of_mem_children ?_) p.1
    rw [← map_snd_sizedChildren size]
    exact List.mem_map_of_mem hp

/-- What a node shows itself. -/
@[simp]
def shown (size : α) (x : Formula) : Content α := .single (x.text? size) x.shape?

/-- What the nodes of a formula show. -/
def content (size : α) (x : Formula) : Content α :=
  ((x.sizedNodes size).map fun p => p.2.shown p.1).sum

theorem content_eq (size : α) (x : Formula) :
    x.content size =
      x.shown size + ((x.sizedChildren size).map fun p => p.2.content p.1).sum := by
  rw [content, sizedNodes_eq, List.map_cons, List.sum_cons, sum_flatMap]
  rfl

theorem content_leaf (size : α) (l : Leaf) :
    (leaf l).content size = .single (some (l.role, l.content, size)) none := by
  rw [content_eq]
  simp

theorem content_fraction (size : α) (n d : Formula) :
    (fraction n d).content size = .single none (some .fraction) +
      (n.content (size * 0.7) + d.content (size * 0.7)) := by
  rw [content_eq]
  simp

/-- A script shows what is under it. -/
theorem content_script (size : α) (side : ScriptSide) (x : Formula) :
    (script side x).content size = x.content (size * 0.6) := by
  rw [content_eq]
  simp

theorem content_root (size : α) (i : Option Formula) (x : Formula) :
    (root i x).content size = .single none (some .root) +
      ((i.toList.map (content (size * 0.5))).sum + x.content (size * 1.0)) := by
  rw [content_eq]
  simp [Function.comp_def]

theorem content_bigOperator (size : α) (op : BigOperator) (l u : Option Formula) :
    (bigOperator op l u).content size = .single none (some (.bigOperator op)) +
      ((l.toList.map (content (size * 0.5))).sum +
        (u.toList.map (content (size * 0.5))).sum) := by
  rw [content_eq]
  simp [Function.comp_def]

/-- A limit shows its word beside what is under it. -/
theorem content_limit (size : α) (a : Option Formula) :
    (limit a).content size = .single none (some .limit) +
      (.single (some (.function, "lim", size)) none +
        (a.toList.map (content (size * 0.6))).sum) := by
  rw [content_eq, ← add_assoc]
  simp [Function.comp_def, Content.single]

theorem content_group (size : α) (xs : List Formula) :
    (group xs).content size = (xs.map (content size)).sum := by
  rw [content_eq]
  simp [Function.comp_def]

theorem content_delimited (size : α) (d : Delimiter) (xs : List Formula) :
    (delimited d xs).content size =
      .single none (some (.delimited d)) + (xs.map (content size)).sum := by
  rw [content_eq]
  simp [Function.comp_def]

theorem content_equation (size : α) (xs : List Formula) :
    (equation xs).content size = (xs.map (content size)).sum := by
  rw [content_eq]
  simp [Function.comp_def]

end Formula

/-! ## Layouts -/

namespace Kind

variable {α β : Type}

/-- The shape that a box of this kind is drawn with. -/
@[simp]
def shape? : Kind α β → Option Shape
  | .fraction _ _ _ => some .fraction
  | .root _ _ _ _ => some .root
  | .bigOperator op _ _ _ => some (.bigOperator op)
  | .limit _ _ => some .limit
  | .delimited d _ _ _ => some (.delimited d)
  | _ => none

/-- The text that a box of this kind is. -/
@[simp]
def text? : Kind α β → Option (TextRole × String × α)
  | .text s size role => some (role, s, size)
  | _ => none

/-- What a box of this kind shows itself. -/
@[simp]
def shown (k : Kind α β) : Content α := .single k.text? k.shape?

end Kind

namespace Layout

variable {α : Type}

/-- What the boxes of a layout show. -/
def content (l : Layout α) : Content α := (l.boxes.map fun b => b.kind.shown).sum

theorem content_eq (l : Layout α) :
    l.content = l.kind.shown + (l.children.map content).sum := by
  rw [content, boxes_eq, List.map_cons, List.sum_cons, sum_flatMap]
  rfl

theorem content_mapPoints (f g : α → α) (l : Layout α) : (l.mapPoints f g).content = l.content := by
  induction l using children_induction with
  | step l ih =>
    have hshown : (l.mapPoints f g).kind.shown = l.kind.shown := by
      obtain ⟨r, b, k, s, t⟩ := l
      cases k <;> rfl
    rw [content_eq, content_eq, hshown, children_mapPoints, List.map_map]
    exact congrArg (fun cs => l.kind.shown + List.sum cs) (List.map_congr_left ih)

@[simp]
theorem content_translate [Scalar α] (l : Layout α) (dx dy : α) :
    (l.translate dx dy).content = l.content :=
  content_mapPoints _ _ l

theorem content_sized [Scalar α] (r : Rect α) (baseline : α) (k : Kind α (Layout α)) :
    (sized r baseline k).content = k.shown + (k.parts.map content).sum := by
  rw [content_eq]
  simp [sized, kind, children, scripts, superscript, subscript]

/-- A script in a free slot is shown beside what its base showed. -/
theorem content_attach {l script : Layout α} {side : ScriptSide} (h : l.accepts side = true) :
    (l.attach side script).content = l.content + script.content := by
  rw [content_eq, content_eq l]
  obtain ⟨r, b, k, s, t⟩ := l
  cases side with
  | superscript =>
    cases s with
    | some s => cases h
    | none =>
      simp [attach, kind, children, scripts, superscript, subscript]
      abel
  | subscript =>
    cases t with
    | some t => cases h
    | none =>
      simp [attach, kind, children, scripts, superscript, subscript]
      abel

end Layout

/-! ## The engine -/

namespace Engine

open Layout (content content_sized content_attach Whole whole_attach)

variable {α : Type} [Scalar α] {e : Engine α} {ctx : Context α} {depth : Nat}

theorem content_textLayout (text : String) (role : TextRole) :
    (e.textLayout text role ctx).content = .single (some (role, text, ctx.fontSize)) none := by
  rw [textLayout, content_sized]
  simp [Kind.parts]

theorem content_rowLayout (row : Row α) :
    (rowLayout ctx row).content = (row.placed.map content).sum := by
  rw [rowLayout, content_sized]
  simp [Kind.parts, Function.comp_def]

theorem content_fractionLayout (p q : Layout α) :
    (e.fractionLayout ctx p q).content =
      .single none (some .fraction) + (p.content + q.content) := by
  rw [fractionLayout, content_sized]
  simp [Kind.parts]

theorem content_scriptLayout (side : ScriptSide) (l : Layout α) :
    (scriptLayout ctx side l).content = l.content := by
  rw [scriptLayout.eq_def, content_sized]
  simp [Kind.parts]

theorem content_rootLayout (index : Option (Layout α)) (l : Layout α) :
    (e.rootLayout ctx index l).content =
      .single none (some .root) + ((index.toList.map content).sum + l.content) := by
  rw [rootLayout.eq_def, content_sized]
  cases index <;> simp [Kind.parts]

theorem content_bigOperatorLayout (op : BigOperator) (lower upper : Option (Layout α)) :
    (bigOperatorLayout ctx op lower upper).content = .single none (some (.bigOperator op)) +
      ((lower.toList.map content).sum + (upper.toList.map content).sum) := by
  rw [bigOperatorLayout.eq_def, content_sized]
  cases lower <;> cases upper <;>
    simp [Kind.parts, centred, add_comm]

theorem content_limitLayout (label : Layout α) (approach : Option (Layout α)) :
    (limitLayout ctx label approach).content =
      .single none (some .limit) + (label.content + (approach.toList.map content).sum) := by
  rw [limitLayout.eq_def, content_sized]
  cases approach <;> simp [Kind.parts, centred]

theorem content_delimitedLayout (delimiter : Delimiter) (l : Layout α) :
    (e.delimitedLayout ctx delimiter l).content =
      .single none (some (.delimited delimiter)) + l.content := by
  rw [delimitedLayout, content_sized]
  simp [Kind.parts]

/-- A row shows what was placed before and what its formulas show: an attached script is shown by
its base. -/
theorem content_row {row : Row α} (xs : List Formula)
    (h : ∀ item ∈ (e.layoutRow ctx depth row xs).placed, item.Whole)
    (ih : ∀ y, sizeOf y < sizeOf xs → ∀ ctx : Context α, (e.layoutAt ctx depth y).Whole →
      (e.layoutAt ctx depth y).content = y.content ctx.fontSize) :
    (∀ item ∈ row.placed, item.Whole) ∧
      ((e.layoutRow ctx depth row xs).placed.map content).sum =
        (row.placed.map content).sum + (xs.map (Formula.content ctx.fontSize)).sum := by
  induction xs generalizing row with
  | nil =>
    rw [layoutRow] at h ⊢
    exact ⟨h, by simp⟩
  | cons x xs ihxs =>
    have ihrest : ∀ y, sizeOf y < sizeOf xs → ∀ ctx : Context α, (e.layoutAt ctx depth y).Whole →
        (e.layoutAt ctx depth y).content = y.content ctx.fontSize := by
      intro y hy
      exact ih y (by simp only [List.cons.sizeOf_spec]; omega)
    rcases row.attach_or_place x with ⟨side, y, base, rfl, hbase⟩ | hplace
    · obtain ⟨haccepts, hplaced⟩ := Row.base?_eq_some_iff.1 hbase
      rw [layoutRow_attach _ _ _ _ hbase] at h ⊢
      obtain ⟨hwhole, hcontent⟩ := ihxs h ihrest
      simp only [Row.attach, List.forall_mem_cons, whole_attach haccepts] at hwhole
      obtain ⟨⟨hbasewhole, hscript⟩, htail⟩ := hwhole
      have hy := ih y (by simp only [List.cons.sizeOf_spec, Formula.script.sizeOf_spec]; omega) _
        hscript
      -- the content of the script moves from the formulas left to the item placed last
      constructor
      · rw [hplaced, List.forall_mem_cons]
        exact ⟨hbasewhole, htail⟩
      · rw [hcontent, hplaced]
        simp only [Row.attach, List.map_cons, List.sum_cons, content_attach haccepts, hy,
          Formula.content_script]
        simp only [scriptContext, Context.movedTo, Context.nested, scriptScale]
        abel
    · rw [layoutRow_place _ _ _ _ hplace] at h ⊢
      obtain ⟨hwhole, hcontent⟩ := ihxs h ihrest
      simp only [Row.place, List.forall_mem_cons] at hwhole
      have hx := ih x (by simp only [List.cons.sizeOf_spec]; omega) _ hwhole.1
      refine ⟨hwhole.2, ?_⟩
      rw [hcontent]
      simp only [Row.place, List.map_cons, List.sum_cons, hx]
      simp only [Context.movedTo]
      abel

theorem content_sequence (xs : List Formula)
    (h : (rowLayout ctx (e.layoutRow ctx depth (.start ctx) xs)).Whole)
    (ih : ∀ y, sizeOf y < sizeOf xs → ∀ ctx : Context α, (e.layoutAt ctx depth y).Whole →
      (e.layoutAt ctx depth y).content = y.content ctx.fontSize) :
    (rowLayout ctx (e.layoutRow ctx depth (.start ctx) xs)).content =
      (xs.map (Formula.content ctx.fontSize)).sum := by
  rw [content_rowLayout, (content_row xs (whole_rowLayout.1 h) ih).2]
  simp [Row.start]

theorem content_option {o : Option Formula}
    (h : ∀ l ∈ e.layoutOption ctx depth o, l.Whole)
    (ih : ∀ y ∈ o, (e.layoutAt ctx depth y).Whole →
      (e.layoutAt ctx depth y).content = y.content ctx.fontSize) :
    ((e.layoutOption ctx depth o).toList.map content).sum =
      (o.toList.map (Formula.content ctx.fontSize)).sum := by
  cases o with
  | none => rfl
  | some y =>
    have hy := ih y rfl (h _ rfl)
    simp [layoutOption, hy]

/-- Layout keeps the content of a formula, each text at the font size of its place. -/
theorem content_layoutAt (x : Formula) (h : (e.layoutAt ctx depth x).Whole) :
    (e.layoutAt ctx depth x).content = x.content ctx.fontSize := by
  induction x using Formula.size_induction generalizing ctx depth with
  | step x ih =>
    -- a guard that refuses the formula would leave an empty box
    have hadmits : e.admits ctx depth = true := by
      by_contra hnot
      rw [layoutAt_refused hnot] at h
      exact not_whole_emptyLayout ctx h
    have hpart : ∀ y ∈ x.children, ∀ ctx : Context α, (e.layoutAt ctx (depth + 1) y).Whole →
        (e.layoutAt ctx (depth + 1) y).content = y.content ctx.fontSize :=
      fun y hy ctx => ih y (Formula.sizeOf_lt_of_mem_children hy)
    cases x with
    | leaf l => rw [layoutAt, if_pos hadmits, content_textLayout, Formula.content_leaf]
    | fraction p q =>
      rw [layoutAt, if_pos hadmits] at h ⊢
      obtain ⟨hp, hq⟩ := whole_fractionLayout.1 h
      rw [content_fractionLayout, Formula.content_fraction,
        hpart p (by simp [Formula.children]) _ hp, hpart q (by simp [Formula.children]) _ hq]
      rfl
    | script side y =>
      rw [layoutAt, if_pos hadmits] at h ⊢
      rw [content_scriptLayout, Formula.content_script,
        hpart y (by simp [Formula.children]) _ (whole_scriptLayout.1 h)]
      rfl
    | root i y =>
      rw [layoutAt, if_pos hadmits] at h ⊢
      obtain ⟨hi, hy⟩ := whole_rootLayout.1 h
      rw [content_rootLayout, Formula.content_root,
        content_option hi fun z hz => hpart z (by simp_all [Formula.children]) _,
        hpart y (by simp [Formula.children]) _ hy]
      rfl
    | bigOperator op l u =>
      rw [layoutAt, if_pos hadmits] at h ⊢
      obtain ⟨hl, hu⟩ := whole_bigOperatorLayout.1 h
      rw [content_bigOperatorLayout, Formula.content_bigOperator,
        content_option hl fun z hz => hpart z (by simp_all [Formula.children]) _,
        content_option hu fun z hz => hpart z (by simp_all [Formula.children]) _]
      rfl
    | limit a =>
      rw [layoutAt, if_pos hadmits] at h ⊢
      obtain ⟨-, ha⟩ := whole_limitLayout.1 h
      rw [content_limitLayout, content_textLayout, Formula.content_limit,
        content_option ha fun z hz => hpart z (by simp_all [Formula.children]) _]
      rfl
    | group xs =>
      rw [layoutAt, if_pos hadmits] at h ⊢
      rw [Formula.content_group]
      exact content_sequence xs h fun y hy ctx =>
        ih y (by simp only [Formula.group.sizeOf_spec]; omega)
    | equation xs =>
      rw [layoutAt, if_pos hadmits] at h ⊢
      rw [Formula.content_equation]
      exact content_sequence xs h fun y hy ctx =>
        ih y (by simp only [Formula.equation.sizeOf_spec]; omega)
    | delimited delimiter xs =>
      rw [layoutAt, if_pos hadmits] at h ⊢
      rw [content_delimitedLayout, Formula.content_delimited,
        content_sequence xs (whole_delimitedLayout.1 h) fun y hy ctx =>
          ih y (by simp only [Formula.delimited.sizeOf_spec]; omega)]
      rfl

/-- A layout without empty boxes loses nothing and repeats nothing: its texts are those of the
leaves of the formula and the words of its limits, each with its role and at the font size of its
place, and it has as many shapes of each kind as the formula has structures. -/
theorem texts_shapes_layout (e : Engine α) (ctx : Context α) (x : Formula)
    (h : (e.layout ctx x).Whole) :
    ((e.layout ctx x).boxes.filterMap fun b => b.kind.text?).Perm
        ((x.sizedNodes ctx.fontSize).filterMap fun p => p.2.text? p.1) ∧
      ∀ s : Shape, ((e.layout ctx x).boxes.filterMap fun b => b.kind.shape?).count s =
        (x.nodes.filterMap Formula.shape?).count s := by
  have hcontent : (e.layout ctx x).content = x.content ctx.fontSize := content_layoutAt x h
  have hlayout := sum_single (fun b : Layout α => b.kind.text?) (fun b => b.kind.shape?)
    (e.layout ctx x).boxes
  have hformula := sum_single (fun p : α × Formula => p.2.text? p.1) (fun p => p.2.shape?)
    (x.sizedNodes ctx.fontSize)
  have hpair := hlayout.symm.trans (hcontent.trans hformula)
  rw [Prod.mk.injEq, Multiset.coe_eq_coe, Multiset.coe_eq_coe] at hpair
  refine ⟨hpair.1, fun s => ?_⟩
  rw [hpair.2.count_eq, ← Formula.map_snd_sizedNodes ctx.fontSize, List.filterMap_map]
  rfl

/-- A second superscript finds its slot taken and stands alone, and the subscript after it is
attached to that. An integral, a root and an absolute value follow. -/
theorem texts_shapes_layout_scripts :
    let x : Formula := .equation [.letter 'x', .script .superscript (.number "2"),
      .script .superscript (.fraction (.number "1") (.letter 'n')),
      .script .subscript (.limit (some (.text "at 0"))), .operator '+',
      .bigOperator .integral (some (.letter 'k')) (some (.number "9")),
      .root (some (.number "3")) (.greek 'π'), .delimited .bars [.function "sin"]]
    let l := (⟨⟨2.0, 64⟩, .standard⟩ : Engine Single).layout ⟨0.0, 0.0, 16.0, 0⟩ x
    l.Whole ∧
      (l.boxes.filterMap fun b => b.kind.text?).Perm
        [(.letter, "x", 16.0), (.number, "2", 16.0 * 0.6), (.number, "1", 16.0 * 0.6 * 0.7),
          (.letter, "n", 16.0 * 0.6 * 0.7), (.function, "lim", 16.0 * 0.6),
          (.text, "at 0", 16.0 * 0.6 * 0.6), (.operator, "+", 16.0), (.letter, "k", 16.0 * 0.5),
          (.number, "9", 16.0 * 0.5), (.number, "3", 16.0 * 0.5), (.greek, "π", 16.0 * 1.0),
          (.function, "sin", 16.0)] ∧
      ∀ s : Shape, (l.boxes.filterMap fun b => b.kind.shape?).count s =
        [Shape.fraction, .limit, .bigOperator .integral, .root, .delimited .bars].count s := by
  intro x l
  have hwhole : l.Whole := by
    unfold Layout.Whole
    decide +kernel
  exact ⟨hwhole, texts_shapes_layout _ _ x hwhole⟩

end Engine

end FormulaDrawing
