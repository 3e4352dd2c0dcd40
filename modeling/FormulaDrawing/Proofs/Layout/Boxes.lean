import FormulaDrawing.Layout.Basic
import Mathlib.Data.List.Basic

/-!
# The boxes of a layout

Induction over layouts goes by size, as for formulas. `Layout.boxes` lists the boxes in document
order, each before its parts (`boxes_eq`).

What holds of every box (`Everywhere`) is told from the box on top and the layouts under it
(`everywhere_iff`). If it does not depend on the place of a box and its scripts (`Boxwise`), moving
points and attaching scripts keep it.

A layout is `Whole` if none of its boxes is the empty one that stands in for what could not be laid
out. That is a property of a box and of the layouts under it (`whole_iff`), and moving points keeps
it (`whole_mapPoints`).
-/

namespace FormulaDrawing.Layout

variable {α : Type}

theorem sizeOf_lt_of_mem_parts {k : Kind α (Layout α)} {l : Layout α} (h : l ∈ k.parts) :
    sizeOf l < sizeOf k := by
  have hoption : ∀ o : Option (Layout α), l ∈ o.toList → sizeOf l < sizeOf o := by
    intro o hl
    cases o with
    | none => simp at hl
    | some m =>
      rw [Option.toList_some, List.mem_singleton] at hl
      subst hl
      simp only [Option.some.sizeOf_spec]
      omega
  cases k with
  | text s size role => simp [Kind.parts] at h
  | empty => simp [Kind.parts] at h
  | sequence xs =>
    have : sizeOf l < sizeOf xs := List.sizeOf_lt_of_mem h
    simp only [Kind.sequence.sizeOf_spec]
    omega
  | fraction n bar d =>
    simp only [Kind.parts, List.mem_cons, List.not_mem_nil, or_false] at h
    simp only [Kind.fraction.sizeOf_spec]
    rcases h with rfl | rfl <;> omega
  | root r bar i x =>
    simp only [Kind.parts, List.mem_append, List.mem_singleton] at h
    simp only [Kind.root.sizeOf_spec]
    rcases h with h | rfl
    · have := hoption i h; omega
    · omega
  | script side x =>
    simp only [Kind.parts, List.mem_singleton] at h
    subst h
    simp only [Kind.script.sizeOf_spec]
    omega
  | bigOperator op r u d =>
    simp only [Kind.parts, List.mem_append] at h
    simp only [Kind.bigOperator.sizeOf_spec]
    rcases h with h | h
    · have := hoption u h; omega
    · have := hoption d h; omega
  | limit x a =>
    simp only [Kind.parts, List.mem_cons] at h
    simp only [Kind.limit.sizeOf_spec]
    rcases h with rfl | h
    · omega
    · have := hoption a h; omega
  | delimited d o x c =>
    simp only [Kind.parts, List.mem_singleton] at h
    subst h
    simp only [Kind.delimited.sizeOf_spec]
    omega

theorem sizeOf_lt_of_mem_children {l m : Layout α} (h : m ∈ l.children) :
    sizeOf m < sizeOf l := by
  obtain ⟨r, b, k, s, t⟩ := l
  simp only [children, scripts, kind, superscript, subscript, List.mem_append,
    Option.mem_toList] at h
  simp only [node.sizeOf_spec]
  rcases h with h | rfl | rfl
  · have := sizeOf_lt_of_mem_parts h; omega
  · simp only [Option.some.sizeOf_spec]; omega
  · simp only [Option.some.sizeOf_spec]; omega

/-- What holds of a layout once it holds of its children holds of all. -/
theorem children_induction {motive : Layout α → Prop}
    (step : ∀ l, (∀ m ∈ l.children, motive m) → motive l) (l : Layout α) : motive l := by
  induction h : sizeOf l using Nat.strongRecOn generalizing l with
  | ind n ih =>
    exact step l fun m hm => ih (sizeOf m) (h ▸ sizeOf_lt_of_mem_children hm) m rfl

/-! ## Boxes -/

/-- The boxes in document order. -/
def boxes (l : Layout α) : List (Layout α) := (l.walk 0).map (·.2)

theorem map_snd_walk (l : Layout α) (m n : Nat) : (l.walk m).map (·.2) = (l.walk n).map (·.2) := by
  induction l using children_induction generalizing m n with
  | step l ih =>
    rw [walk_eq m, walk_eq n]
    simp only [List.map_cons, List.map_flatMap, List.cons.injEq, true_and]
    exact List.flatMap_congr fun c hc => ih c hc _ _

/-- A box comes before the boxes of its children. -/
theorem boxes_eq (l : Layout α) : l.boxes = l :: l.children.flatMap boxes := by
  rw [boxes, walk_eq]
  simp only [List.map_cons, List.map_flatMap, List.cons.injEq, true_and]
  exact List.flatMap_congr fun c _ => map_snd_walk c _ _

/-- A box without scripts reaches no further than itself. -/
theorem extent_eq_bounds [Scalar α] {l : Layout α} (h : ∀ side, l.accepts side = true) :
    l.extent = l.bounds := by
  have hsuper := h .superscript
  have hsub := h .subscript
  obtain ⟨r, b, k, _ | s, _ | t⟩ := l
  · rfl
  · cases hsub
  · cases hsuper
  · cases hsuper

/-! ## Every box -/

/-- A property of every box. -/
def Everywhere (p : Layout α → Prop) (l : Layout α) : Prop := ∀ b ∈ l.boxes, p b

/-- What holds everywhere holds of the box on top and everywhere under its children. -/
theorem everywhere_iff {p : Layout α → Prop} {l : Layout α} :
    l.Everywhere p ↔ p l ∧ ∀ c ∈ l.children, c.Everywhere p := by
  unfold Everywhere
  rw [boxes_eq]
  simp only [List.mem_cons, List.mem_flatMap, forall_eq_or_imp, forall_exists_index, and_imp]
  constructor
  · rintro ⟨h, hs⟩
    exact ⟨h, fun c hc b hb => hs b c hc hb⟩
  · rintro ⟨h, hs⟩
    exact ⟨h, fun b c hc hb => hs c hc b hb⟩

/-- A property of a box that does not depend on where it lies and what is attached to it. -/
structure Boxwise (p : Layout α → Prop) : Prop where
  attach : ∀ {l script : Layout α} {side : ScriptSide}, p l → p (l.attach side script)
  mapPoints : ∀ {l : Layout α} {f g : α → α}, p l → p (l.mapPoints f g)

variable {p : Layout α → Prop}

theorem Everywhere.mapPoints (hp : Boxwise p) {f g : α → α} {l : Layout α} (h : l.Everywhere p) :
    (l.mapPoints f g).Everywhere p := by
  induction l using children_induction with
  | step l ih =>
    rw [everywhere_iff] at h
    rw [everywhere_iff, children_mapPoints, List.forall_mem_map]
    exact ⟨hp.mapPoints h.1, fun c hc => ih c hc (h.2 c hc)⟩

theorem Everywhere.translate [Scalar α] (hp : Boxwise p) {l : Layout α} (h : l.Everywhere p)
    (dx dy : α) : (l.translate dx dy).Everywhere p :=
  h.mapPoints hp

/-- Moving a layout again and again keeps what moving it once keeps. -/
theorem Everywhere.foldl_translate [Scalar α] (hp : Boxwise p) (moves : List (α × α)) {l : Layout α}
    (h : l.Everywhere p) :
    (moves.foldl (fun l move => l.translate move.1 move.2) l).Everywhere p := by
  induction moves generalizing l with
  | nil => exact h
  | cons move moves ih => exact ih (h.translate hp move.1 move.2)

/-- The children after a script is attached are that script and some of those before. -/
theorem mem_children_attach {l script c : Layout α} {side : ScriptSide}
    (hc : c ∈ (l.attach side script).children) : c = script ∨ c ∈ l.children := by
  obtain ⟨r, b, k, s, t⟩ := l
  cases side <;>
    simp only [attach, children, scripts, kind, superscript, subscript, List.mem_append,
      Option.mem_toList, Option.toList_some, List.mem_singleton] at hc ⊢ <;>
    grind

theorem Everywhere.attach (hp : Boxwise p) {l script : Layout α} (hl : l.Everywhere p)
    (side : ScriptSide) (hscript : script.Everywhere p) : (l.attach side script).Everywhere p := by
  have hbox := everywhere_iff.1 hl
  refine everywhere_iff.2 ⟨hp.attach hbox.1, fun c hc => ?_⟩
  rcases mem_children_attach hc with rfl | hc
  · exact hscript
  · exact hbox.2 c hc

theorem everywhere_sized [Scalar α] {r : Rect α} {baseline : α} {k : Kind α (Layout α)} :
    (sized r baseline k).Everywhere p ↔
      p (sized r baseline k) ∧ ∀ c ∈ k.parts, c.Everywhere p := by
  rw [everywhere_iff]
  simp [sized, kind, children, scripts, superscript, subscript]

/-! ## Whole layouts -/

/-- No box stands in for what could not be laid out. -/
def Whole (l : Layout α) : Prop := ∀ b ∈ l.boxes, b.isEmpty = false

theorem whole_iff {l : Layout α} : l.Whole ↔ l.isEmpty = false ∧ ∀ c ∈ l.children, c.Whole :=
  @everywhere_iff _ (fun b => b.isEmpty = false) l

theorem y_mapPoints (f g : α → α) (l : Layout α) : (l.mapPoints f g).y = g l.y := by
  cases l
  rfl

theorem baseline_mapPoints (f g : α → α) (l : Layout α) :
    (l.mapPoints f g).baseline = l.baseline := by
  cases l
  rfl

theorem isEmpty_mapPoints (f g : α → α) (l : Layout α) :
    (l.mapPoints f g).isEmpty = l.isEmpty := by
  obtain ⟨r, b, k, s, t⟩ := l
  cases k <;> rfl

theorem whole_mapPoints {f g : α → α} {l : Layout α} : (l.mapPoints f g).Whole ↔ l.Whole := by
  induction l using children_induction with
  | step l ih =>
    rw [whole_iff, whole_iff, isEmpty_mapPoints, children_mapPoints]
    simp only [List.mem_map, forall_exists_index, and_imp, forall_apply_eq_imp_iff₂]
    exact and_congr_right fun _ => forall₂_congr ih

theorem whole_translate [Scalar α] {l : Layout α} {dx dy : α} :
    (l.translate dx dy).Whole ↔ l.Whole :=
  whole_mapPoints

theorem isEmpty_eq_false_iff {l : Layout α} : l.isEmpty = false ↔ l.kind ≠ .empty := by
  obtain ⟨r, b, k, s, t⟩ := l
  cases k <;> simp [isEmpty, kind]

theorem whole_sized [Scalar α] {r : Rect α} {baseline : α} {k : Kind α (Layout α)} :
    (sized r baseline k).Whole ↔ k ≠ .empty ∧ ∀ c ∈ k.parts, c.Whole := by
  rw [whole_iff, isEmpty_eq_false_iff]
  simp [sized, kind, children, scripts, superscript, subscript]

/-- A script in a free slot is one more child. -/
theorem whole_attach {l script : Layout α} {side : ScriptSide} (h : l.accepts side = true) :
    (l.attach side script).Whole ↔ l.Whole ∧ script.Whole := by
  rw [whole_iff, whole_iff (l := l), isEmpty_eq_false_iff, isEmpty_eq_false_iff]
  obtain ⟨r, b, k, s, t⟩ := l
  cases side with
  | superscript =>
    cases s with
    | some s => cases h
    | none =>
      simp only [attach, kind, children, scripts, superscript, subscript, List.mem_append,
        Option.mem_toList]
      grind
  | subscript =>
    cases t with
    | some t => cases h
    | none =>
      simp only [attach, kind, children, scripts, superscript, subscript, List.mem_append,
        Option.mem_toList]
      grind

end FormulaDrawing.Layout
