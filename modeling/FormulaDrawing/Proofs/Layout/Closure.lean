import FormulaDrawing.Layout.Engine
import FormulaDrawing.Proofs.Formula.Nodes
import FormulaDrawing.Proofs.Layout.Rank

/-!
# What every step of layout keeps

An `Engine.Invariant` says what the contexts at each depth, the rows in between and the finished
layouts have in common, and that every step keeps it: its fields go through the steps once, one for
each way of building. Then it holds of every layout (`Invariant.good_layoutAt`).

A property of layouts that depends neither on the depth nor on the context needs less
(`Engine.Closed`), and most such properties are about each box by itself: if every step makes only
boxes that have the property (`Engine.Makes`), and neither the place of a box nor its scripts
matter, it holds of every box of every layout (`Makes.closed`). So the label of a limit is always a
run of text (`labelled_layoutAt`).

What a step builds has the layouts that it was given under one new box, moved at most
(`Layout.BuiltFrom`). Where only that matters, a step is not opened again.
-/

namespace FormulaDrawing

variable {α : Type}

/-! ## Parts of a layout -/

namespace Layout

variable [Scalar α]

/-- Everything under the box on top is one of the given layouts, moved at most. -/
def BuiltFrom (l : Layout α) (given : List (Layout α)) : Prop :=
  ∀ c ∈ l.children, ∃ m ∈ given, c = m ∨ ∃ dx dy, c = m.translate dx dy

theorem builtFrom_sized {r : Rect α} {baseline : α} {k : Kind α (Layout α)}
    {given : List (Layout α)}
    (h : ∀ c ∈ k.parts, ∃ m ∈ given, c = m ∨ ∃ dx dy, c = m.translate dx dy) :
    (sized r baseline k).BuiltFrom given := by
  intro c hc
  refine h c ?_
  simpa [sized, children, scripts, kind, superscript, subscript] using hc

variable {l : Layout α} {given : List (Layout α)}

theorem BuiltFrom.everywhere {p : Layout α → Prop} (h : l.BuiltFrom given) (hp : Boxwise p)
    (hl : p l) (hgiven : ∀ m ∈ given, m.Everywhere p) : l.Everywhere p := by
  refine everywhere_iff.2 ⟨hl, fun c hc => ?_⟩
  obtain ⟨m, hm, rfl | ⟨dx, dy, rfl⟩⟩ := h c hc
  · exact hgiven _ hm
  · exact (hgiven m hm).translate hp dx dy

end Layout

namespace Engine

variable [Scalar α] {e : Engine α} {ctx : Context α}

open Layout (BuiltFrom builtFrom_sized)

theorem builtFrom_empty : (emptyLayout ctx).BuiltFrom [] := by
  unfold emptyLayout
  split <;> exact builtFrom_sized (by simp [Kind.parts])

theorem builtFrom_text {text : String} {role : TextRole} :
    (e.textLayout text role ctx).BuiltFrom [] :=
  builtFrom_sized (by simp [Kind.parts])

theorem builtFrom_row {row : Row α} : (rowLayout ctx row).BuiltFrom row.placed := by
  refine builtFrom_sized fun c hc => ?_
  simp only [Kind.parts, List.mem_map, List.mem_reverse] at hc
  obtain ⟨item, hitem, rfl⟩ := hc
  exact ⟨item, hitem, .inr ⟨_, _, rfl⟩⟩

theorem builtFrom_fraction {p q : Layout α} : (e.fractionLayout ctx p q).BuiltFrom [p, q] := by
  refine builtFrom_sized fun c hc => ?_
  simp only [Kind.parts, List.mem_cons, List.not_mem_nil, or_false] at hc
  rcases hc with rfl | rfl
  · exact ⟨p, by simp, .inr ⟨_, _, rfl⟩⟩
  · exact ⟨q, by simp, .inr ⟨_, _, rfl⟩⟩

theorem builtFrom_script {side : ScriptSide} {l : Layout α} :
    (scriptLayout ctx side l).BuiltFrom [l] := by
  refine builtFrom_sized fun c hc => ?_
  simp only [Kind.parts, List.mem_singleton] at hc
  exact ⟨l, by simp, .inl hc⟩

theorem builtFrom_root {index : Option (Layout α)} {l : Layout α} :
    (e.rootLayout ctx index l).BuiltFrom (index.toList ++ [l]) := by
  refine builtFrom_sized fun c hc => ?_
  simp only [Kind.parts, List.mem_append, Option.mem_toList, List.mem_singleton] at hc
  rcases hc with hc | rfl
  · obtain ⟨i, hi, rfl⟩ := Option.map_eq_some_iff.1 hc
    exact ⟨i, by simp [hi], .inr ⟨_, _, rfl⟩⟩
  · exact ⟨l, by simp, .inr ⟨_, _, rfl⟩⟩

theorem builtFrom_bigOperator {op : BigOperator} {lower upper : Option (Layout α)} :
    (bigOperatorLayout ctx op lower upper).BuiltFrom (upper.toList ++ lower.toList) := by
  refine builtFrom_sized fun c hc => ?_
  simp only [Kind.parts, List.mem_append, Option.mem_toList] at hc
  rcases hc with hc | hc
  · obtain ⟨u, hu, rfl⟩ := Option.map_eq_some_iff.1 hc
    exact ⟨u, by simp [hu], .inr ⟨_, _, rfl⟩⟩
  · obtain ⟨l, hl, rfl⟩ := Option.map_eq_some_iff.1 hc
    exact ⟨l, by simp [hl], .inr ⟨_, _, rfl⟩⟩

theorem builtFrom_limit {label : Layout α} {approach : Option (Layout α)} :
    (limitLayout ctx label approach).BuiltFrom (label :: approach.toList) := by
  refine builtFrom_sized fun c hc => ?_
  simp only [Kind.parts, List.mem_cons, Option.mem_toList] at hc
  rcases hc with rfl | hc
  · exact ⟨label, by simp, .inr ⟨_, _, rfl⟩⟩
  · obtain ⟨a, ha, rfl⟩ := Option.map_eq_some_iff.1 hc
    exact ⟨a, by simp [ha], .inr ⟨_, _, rfl⟩⟩

theorem builtFrom_delimited {delimiter : Delimiter} {l : Layout α} :
    (e.delimitedLayout ctx delimiter l).BuiltFrom [l] := by
  refine builtFrom_sized fun c hc => ?_
  simp only [Kind.parts, List.mem_singleton] at hc
  exact ⟨l, by simp, .inr ⟨_, _, hc⟩⟩

end Engine

/-! ## Every layout -/

namespace Engine

variable [Scalar α]

/-- The scales of the parts that structures have. -/
def scales : List α := [fractionScale, scriptScale, limitScale, indexScale, 1.0]

/-- What every step of laying out keeps: of the contexts at a depth, of the rows at a depth and
context, and of what is laid out there. A structure is put together only where it is admitted. -/
structure Invariant (e : Engine α) where
  Suits : Nat → Context α → Prop
  Rows : Nat → Context α → Row α → Prop
  Good : Nat → Context α → Layout α → Prop
  nested : ∀ {d ctx c}, Suits d ctx → c ∈ (scales : List α) → Suits (d + 1) (ctx.nested c)
  inside : ∀ {d ctx} (delimiter : Delimiter), Suits d ctx → Suits d (e.insideContext ctx delimiter)
  start : ∀ {d ctx}, Suits d ctx → Rows d ctx (.start ctx)
  onBase : ∀ {d ctx row side base}, Suits d ctx → Rows d ctx row → row.base? side = some base →
    Suits (d + 1) (scriptContext ctx side base)
  attach : ∀ {d ctx row side base script}, Suits d ctx → Rows d ctx row →
    row.base? side = some base → Good (d + 1) (scriptContext ctx side base) script →
    Rows d ctx (row.attach base side script)
  next : ∀ {d ctx row} (x : Formula), Suits d ctx → Rows d ctx row →
    Suits (d + 1) (ctx.movedTo (row.position ctx x) ctx.y)
  place : ∀ {d ctx row x item}, Suits d ctx → Rows d ctx row →
    Good (d + 1) (ctx.movedTo (row.position ctx x) ctx.y) item → Rows d ctx (row.place x item)
  empty : ∀ {d ctx}, Suits d ctx → Good d ctx (emptyLayout ctx)
  text : ∀ {d ctx} (text : String) (role : TextRole), Suits d ctx →
    Good d ctx (e.textLayout text role ctx)
  row : ∀ {d ctx row}, e.admits ctx d = true → Suits d ctx → Rows d ctx row →
    Good d ctx (rowLayout ctx row)
  fraction : ∀ {d ctx p q}, e.admits ctx d = true → Suits d ctx →
    Good (d + 1) (ctx.nested fractionScale) p → Good (d + 1) (ctx.nested fractionScale) q →
    Good d ctx (e.fractionLayout ctx p q)
  script : ∀ {d ctx side l}, e.admits ctx d = true → Suits d ctx →
    Good (d + 1) (ctx.nested scriptScale) l → Good d ctx (scriptLayout ctx side l)
  root : ∀ {d ctx index l}, e.admits ctx d = true → Suits d ctx →
    (∀ i ∈ index, Good (d + 1) (ctx.nested indexScale) i) → Good (d + 1) (ctx.nested 1.0) l →
    Good d ctx (e.rootLayout ctx index l)
  bigOperator : ∀ {d ctx op lower upper}, e.admits ctx d = true → Suits d ctx →
    (∀ l ∈ lower, Good (d + 1) (ctx.nested limitScale) l) →
    (∀ u ∈ upper, Good (d + 1) (ctx.nested limitScale) u) →
    Good d ctx (bigOperatorLayout ctx op lower upper)
  limit : ∀ {d ctx approach}, e.admits ctx d = true → Suits d ctx →
    (∀ a ∈ approach, Good (d + 1) (ctx.nested scriptScale) a) →
    Good d ctx (limitLayout ctx (e.textLayout "lim" .function ctx) approach)
  delimited : ∀ {d ctx row} (delimiter : Delimiter), e.admits ctx d = true → Suits d ctx →
    Rows d (e.insideContext ctx delimiter) row →
    Good d ctx (e.delimitedLayout ctx delimiter (rowLayout (e.insideContext ctx delimiter) row))

namespace Invariant

variable {e : Engine α} (I : e.Invariant) {d : Nat} {ctx : Context α}

/-- Each formula of a row is attached or placed in a context that suits it. -/
theorem rows_layoutRow {row : Row α} (xs : List Formula) (hctx : I.Suits d ctx)
    (hrow : I.Rows d ctx row)
    (ih : ∀ y, sizeOf y < sizeOf xs → ∀ ctx : Context α, I.Suits (d + 1) ctx →
      I.Good (d + 1) ctx (e.layoutAt ctx (d + 1) y)) :
    I.Rows d ctx (e.layoutRow ctx (d + 1) row xs) := by
  induction xs generalizing row with
  | nil =>
    rw [layoutRow]
    exact hrow
  | cons x xs ihxs =>
    have ihrest : ∀ y, sizeOf y < sizeOf xs → ∀ ctx : Context α, I.Suits (d + 1) ctx →
        I.Good (d + 1) ctx (e.layoutAt ctx (d + 1) y) := by
      intro y hy
      exact ih y (by simp only [List.cons.sizeOf_spec]; omega)
    rcases row.attach_or_place x with ⟨side, y, base, rfl, hbase⟩ | hplace
    · have hy := ih y (by simp only [List.cons.sizeOf_spec, Formula.script.sizeOf_spec]; omega) _
        (I.onBase hctx hrow hbase)
      rw [layoutRow_attach _ _ _ _ hbase]
      exact ihxs (I.attach hctx hrow hbase hy) ihrest
    · have hx := ih x (by simp only [List.cons.sizeOf_spec]; omega) _ (I.next x hctx hrow)
      rw [layoutRow_place _ _ _ _ hplace]
      exact ihxs (I.place hctx hrow hx) ihrest

/-- What every step keeps holds of every layout. -/
theorem good_layoutAt (x : Formula) (hctx : I.Suits d ctx) :
    I.Good d ctx (e.layoutAt ctx d x) := by
  induction x using Formula.size_induction generalizing ctx d with
  | step x ih =>
    have hpart : ∀ {c : α}, c ∈ (scales : List α) → ∀ y ∈ x.children,
        I.Good (d + 1) (ctx.nested c) (e.layoutAt (ctx.nested c) (d + 1) y) :=
      fun hc y hy => ih y (Formula.sizeOf_lt_of_mem_children hy) (I.nested hctx hc)
    have hoption : ∀ {c : α}, c ∈ (scales : List α) → ∀ o : Option Formula,
        (∀ y ∈ o, y ∈ x.children) → ∀ l ∈ e.layoutOption (ctx.nested c) (d + 1) o,
          I.Good (d + 1) (ctx.nested c) l := by
      intro c hc o ho l hl
      cases o with
      | none => cases hl
      | some y =>
        cases hl
        exact hpart hc y (ho y rfl)
    have hrow : ∀ {ctx : Context α} (xs : List Formula), sizeOf xs < sizeOf x → I.Suits d ctx →
        I.Rows d ctx (e.layoutRow ctx (d + 1) (.start ctx) xs) :=
      fun xs hxs hctx => I.rows_layoutRow xs hctx (I.start hctx) fun y hy ctx hctx =>
        ih y (by omega) hctx
    by_cases hadmits : e.admits ctx d = true
    case neg =>
      rw [layoutAt_refused hadmits]
      exact I.empty hctx
    case pos =>
      cases x with
      | leaf l =>
        rw [layoutAt, if_pos hadmits]
        exact I.text _ _ hctx
      | fraction p q =>
        rw [layoutAt, if_pos hadmits]
        exact I.fraction hadmits hctx (hpart (by simp [scales]) p (by simp [Formula.children]))
          (hpart (by simp [scales]) q (by simp [Formula.children]))
      | script side y =>
        rw [layoutAt, if_pos hadmits]
        exact I.script hadmits hctx (hpart (by simp [scales]) y (by simp [Formula.children]))
      | root i y =>
        rw [layoutAt, if_pos hadmits]
        exact I.root hadmits hctx (hoption (by simp [scales]) i (by simp_all [Formula.children]))
          (hpart (by simp [scales]) y (by simp [Formula.children]))
      | bigOperator op l u =>
        rw [layoutAt, if_pos hadmits]
        exact I.bigOperator hadmits hctx
          (hoption (by simp [scales]) l (by simp_all [Formula.children]))
          (hoption (by simp [scales]) u (by simp_all [Formula.children]))
      | limit a =>
        rw [layoutAt, if_pos hadmits]
        exact I.limit hadmits hctx (hoption (by simp [scales]) a (by simp_all [Formula.children]))
      | group xs =>
        rw [layoutAt, if_pos hadmits]
        exact I.row hadmits hctx (hrow xs (by simp only [Formula.group.sizeOf_spec]; omega) hctx)
      | equation xs =>
        rw [layoutAt, if_pos hadmits]
        exact I.row hadmits hctx (hrow xs (by simp only [Formula.equation.sizeOf_spec]; omega) hctx)
      | delimited delimiter xs =>
        rw [layoutAt, if_pos hadmits]
        exact I.delimited delimiter hadmits hctx
          (hrow xs (by simp only [Formula.delimited.sizeOf_spec]; omega) (I.inside delimiter hctx))

end Invariant

/-! ## Properties of every layout -/

/-- A property of layouts that each step of laying out keeps. -/
structure Closed (e : Engine α) (P : Layout α → Prop) : Prop where
  empty : ∀ {ctx}, P (emptyLayout ctx)
  text : ∀ {text role ctx}, P (e.textLayout text role ctx)
  attach : ∀ {l script side}, P l → P script → P (l.attach side script)
  row : ∀ {ctx row}, (∀ item ∈ row.placed, P item) → P (rowLayout ctx row)
  fraction : ∀ {ctx p q}, P p → P q → P (e.fractionLayout ctx p q)
  script : ∀ {ctx side l}, P l → P (scriptLayout ctx side l)
  root : ∀ {ctx index l}, (∀ i ∈ index, P i) → P l → P (e.rootLayout ctx index l)
  bigOperator : ∀ {ctx op lower upper}, (∀ l ∈ lower, P l) → (∀ u ∈ upper, P u) →
    P (bigOperatorLayout ctx op lower upper)
  limit : ∀ {ctx approach}, (∀ a ∈ approach, P a) →
    P (limitLayout ctx (e.textLayout "lim" .function ctx) approach)
  delimited : ∀ {ctx delimiter l}, P l → P (e.delimitedLayout ctx delimiter l)

variable {e : Engine α} {P : Layout α → Prop} {ctx : Context α} {depth : Nat}

/-- Wherever and however deep the layout is. -/
def Closed.invariant (hP : e.Closed P) : e.Invariant where
  Suits _ _ := True
  Rows _ _ row := ∀ item ∈ row.placed, P item
  Good _ _ := P
  nested _ _ := trivial
  inside _ _ := trivial
  start _ item hitem := by simp [Row.start] at hitem
  onBase _ _ _ := trivial
  attach {_ _ row _ _ _} _ hrow hbase hscript := by
    obtain ⟨-, hplaced⟩ := Row.base?_eq_some_iff.1 hbase
    rw [hplaced, List.forall_mem_cons] at hrow
    exact List.forall_mem_cons.2 ⟨hP.attach hrow.1 hscript, hrow.2⟩
  next _ _ _ := trivial
  place _ hrow hitem := List.forall_mem_cons.2 ⟨hitem, hrow⟩
  empty _ := hP.empty
  text _ _ _ := hP.text
  row _ _ hrow := hP.row hrow
  fraction _ _ hp hq := hP.fraction hp hq
  script _ _ hl := hP.script hl
  root _ _ hindex hl := hP.root hindex hl
  bigOperator _ _ hlower hupper := hP.bigOperator hlower hupper
  limit _ _ happroach := hP.limit happroach
  delimited _ _ _ hrow := hP.delimited (hP.row hrow)

/-- What every step keeps holds of every layout. -/
theorem Closed.holds_layoutAt (hP : e.Closed P) (x : Formula) : P (e.layoutAt ctx depth x) :=
  hP.invariant.good_layoutAt x trivial

/-- A property of the boxes that the steps of laying out make, whatever their parts are. -/
structure Makes (e : Engine α) (p : Layout α → Prop) : Prop where
  empty : ∀ {ctx}, p (emptyLayout ctx)
  text : ∀ {text role ctx}, p (e.textLayout text role ctx)
  row : ∀ {ctx row}, p (rowLayout ctx row)
  fraction : ∀ {ctx l m}, p (e.fractionLayout ctx l m)
  script : ∀ {ctx side l}, p (scriptLayout ctx side l)
  root : ∀ {ctx index l}, p (e.rootLayout ctx index l)
  bigOperator : ∀ {ctx op lower upper}, p (bigOperatorLayout ctx op lower upper)
  limit : ∀ {ctx approach}, p (limitLayout ctx (e.textLayout "lim" .function ctx) approach)
  delimited : ∀ {ctx delimiter l}, p (e.delimitedLayout ctx delimiter l)

open Layout (Everywhere)

/-- What is made of every box, and does not depend on its place and its scripts, holds
everywhere: each part is moved at most. -/
theorem Makes.closed {p : Layout α → Prop} (h : e.Makes p) (hp : Layout.Boxwise p) :
    e.Closed (Everywhere p) where
  empty := builtFrom_empty.everywhere hp h.empty (by simp)
  text := builtFrom_text.everywhere hp h.text (by simp)
  attach hl hscript := Everywhere.attach hp hl _ hscript
  row hplaced := builtFrom_row.everywhere hp h.row hplaced
  fraction hl hm := builtFrom_fraction.everywhere hp h.fraction (by simp [hl, hm])
  script hl := builtFrom_script.everywhere hp h.script (by simpa using hl)
  root hindex hl :=
    builtFrom_root.everywhere hp h.root
      (List.forall_mem_append.2 ⟨by simpa using hindex, by simpa using hl⟩)
  bigOperator hlower hupper :=
    builtFrom_bigOperator.everywhere hp h.bigOperator
      (List.forall_mem_append.2 ⟨by simpa using hupper, by simpa using hlower⟩)
  limit {ctx _} happroach := by
    have hlabel : (e.textLayout "lim" .function ctx).Everywhere p :=
      builtFrom_text.everywhere hp h.text (by simp)
    exact builtFrom_limit.everywhere hp h.limit
      (List.forall_mem_cons.2 ⟨hlabel, by simpa using happroach⟩)
  delimited hl := builtFrom_delimited.everywhere hp h.delimited (by simpa using hl)

end Engine

/-! ## Labels -/

namespace Layout

/-- A limit has a run of text for its label. -/
def IsLabelled (b : Layout α) : Prop :=
  ∀ label approach, b.kind = .limit label approach → ∃ s size role, label.kind = .text s size role

/-- Every limit has a run of text for its label. -/
def Labelled (l : Layout α) : Prop := l.Everywhere IsLabelled

theorem labelled_iff {l : Layout α} :
    l.Labelled ↔ l.IsLabelled ∧ ∀ c ∈ l.children, c.Labelled :=
  everywhere_iff

theorem boxwise_isLabelled : Boxwise (IsLabelled (α := α)) where
  attach {l _ side} h := by
    cases side <;> exact h
  mapPoints {l f g} h := by
    obtain ⟨r, b, k, s, t⟩ := l
    intro label' approach' hkind
    cases k with
    | limit label approach =>
      obtain ⟨s, size, role, hlabel⟩ := h label approach rfl
      obtain ⟨r', b', k', s', t'⟩ := label
      cases hkind
      cases hlabel
      exact ⟨s, size, role, rfl⟩
    | _ => cases hkind

end Layout

namespace Engine

variable [Scalar α] (e : Engine α)

open Layout (IsLabelled Labelled)

theorem makes_isLabelled : e.Makes IsLabelled where
  empty {ctx} := by
    intro label approach hkind
    unfold emptyLayout at hkind
    split at hkind <;> cases hkind
  text _ _ hkind := by cases hkind
  row _ _ hkind := by cases hkind
  fraction _ _ hkind := by cases hkind
  script _ _ hkind := by cases hkind
  root _ _ hkind := by cases hkind
  bigOperator _ _ hkind := by cases hkind
  limit {ctx approach} label approach' hkind := by
    cases hkind
    exact ⟨"lim", ctx.fontSize, .function, rfl⟩
  delimited _ _ hkind := by cases hkind

theorem labelled_layoutAt (ctx : Context α) (depth : Nat) (x : Formula) :
    (e.layoutAt ctx depth x).Labelled :=
  (e.makes_isLabelled.closed Layout.boxwise_isLabelled).holds_layoutAt x

end Engine

end FormulaDrawing
