import FormulaDrawing.Proofs.Layout.Closure

/-!
# The depth of layouts

The limit on the descents of layout bounds the depth of every layout, however deep the formula is
(`depth_layout_le`). One descent adds three boxes at most: the delimited formula, the row between
its delimiters, and an item of that row, whose script is laid out no deeper than the item itself.

    delimited → row → item → script       a descent of one, three boxes down

So a layout `d` levels below the start has at most three boxes for each level that is left, and one
more for what the limit made empty.
-/

namespace FormulaDrawing

variable {α : Type}

/-! ## Depths of parts -/

namespace Layout

theorem depthList_le_iff {xs : List (Layout α)} {n : Nat} :
    depthList xs ≤ n ↔ ∀ l ∈ xs, l.depth ≤ n := by
  induction xs with
  | nil => simp [depthList]
  | cons x xs ih =>
    rw [depthList, Nat.max_le, ih, List.forall_mem_cons]

/-- A layout is at most one box deeper than its children. -/
theorem depth_le_succ_iff {l : Layout α} {n : Nat} :
    l.depth ≤ n + 1 ↔ ∀ c ∈ l.children, c.depth ≤ n := by
  rw [depth_eq, Nat.add_comm, Nat.succ_le_succ_iff, depthList_le_iff]

theorem depth_mapPoints (f g : α → α) (l : Layout α) : (l.mapPoints f g).depth = l.depth := by
  induction l using children_induction with
  | step l ih =>
    have hlist : ∀ xs : List (Layout α), (∀ c ∈ xs, (c.mapPoints f g).depth = c.depth) →
        depthList (xs.map (mapPoints f g)) = depthList xs := by
      intro xs hxs
      induction xs with
      | nil => rfl
      | cons x xs ihxs =>
        rw [List.forall_mem_cons] at hxs
        rw [List.map_cons, depthList, depthList, hxs.1, ihxs hxs.2]
    rw [depth_eq, depth_eq l, children_mapPoints, hlist _ ih]

theorem depth_attach_le {l script : Layout α} {side : ScriptSide} {n : Nat}
    (hl : l.depth ≤ n + 1) (hscript : script.depth ≤ n) : (l.attach side script).depth ≤ n + 1 := by
  rw [depth_le_succ_iff] at hl ⊢
  intro c hc
  rcases mem_children_attach hc with rfl | hc
  · exact hscript
  · exact hl c hc

variable [Scalar α]

theorem depth_translate (l : Layout α) (dx dy : α) : (l.translate dx dy).depth = l.depth :=
  depth_mapPoints _ _ l

theorem BuiltFrom.depth_le {l : Layout α} {given : List (Layout α)} {n : Nat}
    (h : l.BuiltFrom given) (hgiven : ∀ m ∈ given, m.depth ≤ n) : l.depth ≤ n + 1 := by
  refine depth_le_succ_iff.2 fun c hc => ?_
  obtain ⟨m, hm, rfl | ⟨dx, dy, rfl⟩⟩ := h c hc
  · exact hgiven _ hm
  · rw [depth_translate]
    exact hgiven m hm

end Layout

/-! ## The bound -/

namespace Engine

variable [Scalar α]

/-- The boxes that layouts have below each other if `levels` descents are left. -/
def maxBoxes (levels : Nat) : Nat := 3 * levels + 1

theorem maxBoxes_sub {m d : Nat} (hd : d ≤ m) :
    maxBoxes (m + 1 - d) = maxBoxes (m - d) + 1 + 1 + 1 := by
  unfold maxBoxes
  omega

theorem one_le_maxBoxes (levels : Nat) : 1 ≤ maxBoxes levels := Nat.le_add_left _ _

/-- A structure one descent above its parts has boxes to spare. -/
theorem depth_le_maxBoxes {m d : Nat} {l : Layout α} {given : List (Layout α)} (hd : d ≤ m)
    (h : l.BuiltFrom given) (hgiven : ∀ part ∈ given, part.depth ≤ maxBoxes (m + 1 - (d + 1))) :
    l.depth ≤ maxBoxes (m + 1 - d) := by
  rw [Nat.add_sub_add_right] at hgiven
  have hl : l.depth ≤ maxBoxes (m - d) + 1 := h.depth_le hgiven
  rw [maxBoxes_sub hd]
  omega

variable (e : Engine α)

/-- A row adds a box to its items, which have their scripts by then, and delimiters one more. All
other structures add a box to their parts. -/
def depthInvariant : e.Invariant where
  Suits _ _ := True
  Rows d _ row := ∀ item ∈ row.placed, item.depth ≤ maxBoxes (e.settings.maxDepth - d) + 1
  Good d _ l := l.depth ≤ maxBoxes (e.settings.maxDepth + 1 - d)
  nested _ _ := trivial
  inside _ _ := trivial
  start _ item hitem := by simp [Row.start] at hitem
  onBase _ _ _ := trivial
  attach _ hrow hbase hscript := by
    obtain ⟨-, hplaced⟩ := Row.base?_eq_some_iff.1 hbase
    rw [hplaced, List.forall_mem_cons] at hrow
    rw [Nat.add_sub_add_right] at hscript
    exact List.forall_mem_cons.2 ⟨Layout.depth_attach_le hrow.1 hscript, hrow.2⟩
  next _ _ _ := trivial
  place _ hrow hitem := by
    rw [Nat.add_sub_add_right] at hitem
    exact List.forall_mem_cons.2 ⟨Nat.le_succ_of_le hitem, hrow⟩
  empty {_ ctx} _ := by
    have hempty : (emptyLayout ctx).depth ≤ 0 + 1 := builtFrom_empty.depth_le (by simp)
    exact Nat.le_trans hempty (one_le_maxBoxes _)
  text {_ ctx} text role _ := by
    have htext : (e.textLayout text role ctx).depth ≤ 0 + 1 := builtFrom_text.depth_le (by simp)
    exact Nat.le_trans htext (one_le_maxBoxes _)
  row {d ctx row} hadmits _ hrow := by
    have hd := (admits_iff.1 hadmits).1
    have hboxes : (rowLayout ctx row).depth ≤ maxBoxes (e.settings.maxDepth - d) + 1 + 1 :=
      builtFrom_row.depth_le hrow
    rw [maxBoxes_sub hd]
    omega
  fraction hadmits _ hp hq :=
    depth_le_maxBoxes (admits_iff.1 hadmits).1 builtFrom_fraction
      (List.forall_mem_cons.2 ⟨hp, List.forall_mem_singleton.2 hq⟩)
  script hadmits _ hl :=
    depth_le_maxBoxes (admits_iff.1 hadmits).1 builtFrom_script (List.forall_mem_singleton.2 hl)
  root hadmits _ hindex hl :=
    depth_le_maxBoxes (admits_iff.1 hadmits).1 builtFrom_root
      (List.forall_mem_append.2 ⟨by simpa using hindex, by simpa using hl⟩)
  bigOperator hadmits _ hlower hupper :=
    depth_le_maxBoxes (admits_iff.1 hadmits).1 builtFrom_bigOperator
      (List.forall_mem_append.2 ⟨by simpa using hupper, by simpa using hlower⟩)
  limit {d ctx _} hadmits _ happroach := by
    have hlabel : (e.textLayout "lim" .function ctx).depth ≤ 0 + 1 :=
      builtFrom_text.depth_le (by simp)
    exact depth_le_maxBoxes (admits_iff.1 hadmits).1 builtFrom_limit
      (List.forall_mem_cons.2 ⟨Nat.le_trans hlabel (one_le_maxBoxes _), by simpa using happroach⟩)
  delimited {d ctx row} delimiter hadmits _ hrow := by
    have hd := (admits_iff.1 hadmits).1
    have hinside : (rowLayout (e.insideContext ctx delimiter) row).depth ≤
        maxBoxes (e.settings.maxDepth - d) + 1 + 1 :=
      builtFrom_row.depth_le hrow
    rw [maxBoxes_sub hd]
    exact builtFrom_delimited.depth_le (by simpa using hinside)

/-- The limit on the descents bounds the depth of every layout. -/
theorem depth_layout_le (ctx : Context α) (x : Formula) :
    (e.layout ctx x).depth ≤ 3 * e.settings.maxDepth + 4 :=
  e.depthInvariant.good_layoutAt (d := 0) x trivial

/-- The bound is met: nothing but the parentheses of `(x^2)` is left within the limit zero. -/
example :
    ((⟨⟨1, 0⟩, .standard⟩ : Engine Rat).layout ⟨0, 0, 1, 0⟩
      (.delimited .parentheses
        [.leaf (.letter 'x'), .script .superscript (.leaf (.number "2"))])).depth = 4 := by
  decide +kernel

end Engine

end FormulaDrawing
