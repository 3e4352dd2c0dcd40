import FormulaDrawing.Formula.Basic
import Mathlib.Data.List.Basic

/-!
# The nodes of a formula

Induction over formulas goes by size: `sizeOf_lt_of_mem_children` makes every child smaller, and so
every child of a child.

`Formula.nodes` lists the nodes in document order, each before its parts. A node is followed by the
nodes of its children, one child after the other (`nodes_eq`).
-/

namespace FormulaDrawing.Formula

theorem sizeOf_lt_of_mem_children {x y : Formula} (h : y ∈ x.children) : sizeOf y < sizeOf x := by
  have hlist : ∀ xs : List Formula, y ∈ xs → sizeOf y < sizeOf xs :=
    fun xs hy => List.sizeOf_lt_of_mem hy
  have hoption : ∀ o : Option Formula, y ∈ o.toList → sizeOf y < sizeOf o := by
    intro o hy
    cases o with
    | none => simp at hy
    | some z =>
      rw [Option.toList_some, List.mem_singleton] at hy
      subst hy
      simp only [Option.some.sizeOf_spec]
      omega
  cases x with
  | leaf l => simp [children] at h
  | fraction n d =>
    simp only [children, List.mem_cons, List.not_mem_nil, or_false] at h
    rcases h with rfl | rfl
    · simp only [fraction.sizeOf_spec]; omega
    · simp only [fraction.sizeOf_spec]; omega
  | script side z =>
    simp only [children, List.mem_singleton] at h
    subst h
    simp only [script.sizeOf_spec]
    omega
  | root i z =>
    simp only [children, List.mem_append, List.mem_singleton] at h
    simp only [root.sizeOf_spec]
    rcases h with h | rfl
    · have := hoption i h; omega
    · omega
  | bigOperator op l u =>
    simp only [children, List.mem_append] at h
    simp only [bigOperator.sizeOf_spec]
    rcases h with h | h
    · have := hoption l h; omega
    · have := hoption u h; omega
  | limit a =>
    have := hoption a h
    simp only [limit.sizeOf_spec]
    omega
  | group xs =>
    have := hlist xs h
    simp only [group.sizeOf_spec]
    omega
  | delimited d xs =>
    have := hlist xs h
    simp only [delimited.sizeOf_spec]
    omega
  | equation xs =>
    have := hlist xs h
    simp only [equation.sizeOf_spec]
    omega

/-- What holds of a formula once it holds of all smaller ones holds of all. -/
theorem size_induction {motive : Formula → Prop}
    (step : ∀ x, (∀ y, sizeOf y < sizeOf x → motive y) → motive x) (x : Formula) : motive x := by
  induction h : sizeOf x using Nat.strongRecOn generalizing x with
  | ind n ih => exact step x fun y hy => ih (sizeOf y) (h ▸ hy) y rfl

/-! ## Nodes -/

/-- The nodes in document order. -/
def nodes (x : Formula) : List Formula := (x.walk 0).map (·.2)

theorem map_snd_walk (x : Formula) (m n : Nat) : (x.walk m).map (·.2) = (x.walk n).map (·.2) := by
  induction x using size_induction generalizing m n with
  | step x ih =>
    rw [walk_eq m, walk_eq n]
    simp only [List.map_cons, List.map_flatMap, List.cons.injEq, true_and]
    exact List.flatMap_congr fun y hy => ih y (sizeOf_lt_of_mem_children hy) _ _

/-- A node comes before the nodes of its children. -/
theorem nodes_eq (x : Formula) : x.nodes = x :: x.children.flatMap nodes := by
  rw [nodes, walk_eq]
  simp only [List.map_cons, List.map_flatMap, List.cons.injEq, true_and]
  exact List.flatMap_congr fun y _ => map_snd_walk y _ _

/-! ## Depth -/

theorem depth_pos (x : Formula) : 1 ≤ x.depth := by
  rw [depth_eq]
  omega

theorem depthList_le_iff {xs : List Formula} {n : Nat} :
    depthList xs ≤ n ↔ ∀ x ∈ xs, x.depth ≤ n := by
  induction xs with
  | nil => simp [depthList]
  | cons x xs ih => rw [depthList, Nat.max_le, ih, List.forall_mem_cons]

theorem depthOption_le_iff {o : Option Formula} {n : Nat} :
    depthOption o ≤ n ↔ ∀ x ∈ o, x.depth ≤ n := by
  cases o <;> simp [depthOption]

end FormulaDrawing.Formula
