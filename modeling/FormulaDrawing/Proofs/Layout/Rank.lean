import FormulaDrawing.Layout.Engine
import FormulaDrawing.Proofs.Formula.Nodes
import FormulaDrawing.Proofs.Layout.Boxes

/-!
# How deep layout descends

`Formula.rank` is the number of descents from a formula to the part of it that layout meets last.
Every step to a part is one descent, except that an attached script is passed over: its content is
laid out at the depth of its base.

    depth + x.rank ≤ m, n  →  layout is the same under the limits m and n   (layoutAt_withLimit)

The rank is below the depth of the formula (`rank_lt_depth`), so a limit with a level for each node
on the longest path down is never met (`layout_withLimit_of_depth_le`).
-/

namespace FormulaDrawing

/-! ## Rank -/

namespace Formula

/-- Which scripts the item before can take after it took one. -/
def taken (side : ScriptSide) (free : ScriptSide → Bool) : ScriptSide → Bool :=
  fun s => s != side && free s

mutual

/-- The descents to the part that layout meets last. -/
def rank : Formula → Nat
  | .leaf _ => 0
  | .fraction n d => 1 + max n.rank d.rank
  | .script _ x => 1 + x.rank
  | .root i x => max (rankOption i) (1 + x.rank)
  | .bigOperator _ l u => max (rankOption l) (rankOption u)
  | .limit a => rankOption a
  | .group xs => rankRow (fun _ => false) xs
  | .delimited _ xs => rankRow (fun _ => false) xs
  | .equation xs => rankRow (fun _ => false) xs

def rankOption : Option Formula → Nat
  | none => 0
  | some x => 1 + x.rank

/-- The descents into a sequence, where `free` are the scripts that the item before can take. -/
def rankRow (free : ScriptSide → Bool) : List Formula → Nat
  | [] => 0
  | .script side x :: xs =>
    if free side then max (1 + x.rank) (rankRow (taken side free) xs)
    else max (2 + x.rank) (rankRow (fun _ => true) xs)
  | x :: xs => max (1 + x.rank) (rankRow (fun _ => true) xs)

end

theorem rankOption_le {o : Option Formula} (h : ∀ x ∈ o, x.rank < x.depth) :
    rankOption o ≤ depthOption o := by
  cases o with
  | none => exact Nat.le_refl 0
  | some x =>
    have := h x rfl
    simp only [rankOption, depthOption]
    omega

theorem rankRow_le {free : ScriptSide → Bool} {xs : List Formula}
    (h : ∀ x ∈ xs, x.rank < x.depth) : rankRow free xs ≤ depthList xs := by
  induction xs generalizing free with
  | nil => exact Nat.le_refl 0
  | cons x xs ih =>
    have hx := h x (by simp)
    have hxs : ∀ free, rankRow free xs ≤ depthList xs :=
      fun free => ih fun y hy => h y (by simp [hy])
    simp only [depthList]
    cases x with
    | script side y =>
      simp only [rank, depth] at hx
      simp only [rankRow, depth]
      split
      · have := hxs (taken side free); omega
      · have := hxs fun _ => true; omega
    | _ =>
      have := hxs fun _ => true
      simp only [rankRow]
      omega

/-- A formula is deeper than layout descends into it. -/
theorem rank_lt_depth (x : Formula) : x.rank < x.depth := by
  induction x using size_induction with
  | step x ih =>
    have hchild : ∀ y ∈ x.children, y.rank < y.depth :=
      fun y hy => ih y (sizeOf_lt_of_mem_children hy)
    cases x with
    | leaf l => simp [rank, depth]
    | fraction n d =>
      have hn := hchild n (by simp [children])
      have hd := hchild d (by simp [children])
      simp only [rank, depth]
      omega
    | script side y =>
      have hy := hchild y (by simp [children])
      simp only [rank, depth]
      omega
    | root i y =>
      have hi := rankOption_le (o := i) fun z hz => hchild z (by simp_all [children])
      have hy := hchild y (by simp [children])
      simp only [rank, depth]
      omega
    | bigOperator op l u =>
      have hl := rankOption_le (o := l) fun z hz => hchild z (by simp_all [children])
      have hu := rankOption_le (o := u) fun z hz => hchild z (by simp_all [children])
      simp only [rank, depth]
      omega
    | limit a =>
      have ha := rankOption_le (o := a) fun z hz => hchild z (by simp_all [children])
      simp only [rank, depth]
      omega
    | group xs | delimited d xs | equation xs =>
      have hrow : rankRow (fun _ => false) xs ≤ depthList xs := rankRow_le hchild
      simp only [rank, depth]
      omega

end Formula

/-! ## Rows -/

namespace Formula

theorem rankRow_attach {free : ScriptSide → Bool} {side : ScriptSide} {y : Formula}
    {xs : List Formula} (h : free side = true) :
    rankRow free (.script side y :: xs) = max (1 + y.rank) (rankRow (taken side free) xs) := by
  simp [rankRow, h]

/-- What is not attached is an item of its own, a script without a base included. -/
theorem rankRow_place {free : ScriptSide → Bool} {x : Formula} {xs : List Formula}
    (h : ∀ side y, x = .script side y → free side = false) :
    rankRow free (x :: xs) = max (1 + x.rank) (rankRow (fun _ => true) xs) := by
  cases x with
  | script side y =>
    rw [rankRow, h side y rfl, rank, if_neg Bool.false_ne_true]
    omega
  | _ => rw [rankRow]; exact fun side y hx => nomatch hx

end Formula

namespace Engine

variable {α : Type}

/-- The scripts that the latest item of a row can take. -/
def Row.free (row : Row α) : ScriptSide → Bool := fun side => (row.base? side).isSome

theorem Row.base?_eq_some_iff {row : Row α} {side : ScriptSide} {base : Layout α} :
    row.base? side = some base ↔
      base.accepts side = true ∧ row.placed = base :: row.placed.tail := by
  obtain ⟨_ | ⟨item, items⟩, previous, cursor⟩ := row
  · simp [base?]
  · simp only [base?, List.head?_cons, Option.filter_some, List.tail_cons, List.cons.injEq,
      and_true]
    constructor
    · intro h
      split at h
      next hitem =>
        cases h
        exact ⟨hitem, rfl⟩
      next => cases h
    · rintro ⟨h, rfl⟩
      rw [if_pos h]

/-- A formula of a row is a script that finds its base, or becomes an item. -/
theorem Row.attach_or_place (row : Row α) (x : Formula) :
    (∃ side y base, x = .script side y ∧ row.base? side = some base) ∨
      ∀ side y, x = .script side y → row.base? side = none := by
  cases x with
  | script side y =>
    cases h : row.base? side with
    | some base => exact .inl ⟨side, y, base, rfl, h⟩
    | none =>
      refine .inr fun side' y' hx => ?_
      cases hx
      exact h
  | _ => exact .inr fun side y hx => nomatch hx

variable [Scalar α]

theorem accepts_sized {r : Rect α} {baseline : α} {k : Kind α (Layout α)} {side : ScriptSide} :
    (Layout.sized r baseline k).accepts side = true := by
  cases side <;> rfl

/-- Of a formula that the guards refuse an empty box is laid out. -/
theorem layoutAt_refused {e : Engine α} {ctx : Context α} {depth : Nat}
    (hrefused : ¬ e.admits ctx depth = true) (x : Formula) :
    e.layoutAt ctx depth x = emptyLayout ctx := by
  rw [layoutAt.eq_def, if_neg hrefused]

/-- What is laid out has its scripts still to come. -/
theorem accepts_layoutAt (e : Engine α) (ctx : Context α) (depth : Nat) (x : Formula)
    (side : ScriptSide) : (e.layoutAt ctx depth x).accepts side = true := by
  have hempty : (emptyLayout ctx).accepts side = true := by
    unfold emptyLayout
    split <;> exact accepts_sized
  rw [layoutAt.eq_def]
  split
  · split <;> exact accepts_sized
  · exact hempty

theorem Row.free_place {row : Row α} {x : Formula} {item : Layout α}
    (h : ∀ side, item.accepts side = true) : (row.place x item).free = fun _ => true := by
  funext side
  simp [free, base?, place, h]

theorem Row.free_attach {row : Row α} {base script : Layout α} {side : ScriptSide}
    (h : row.base? side = some base) :
    (row.attach base side script).free = Formula.taken side row.free := by
  obtain ⟨-, hplaced⟩ := base?_eq_some_iff.1 h
  funext other
  simp only [free, base?, attach, List.head?_cons, Formula.taken]
  rw [hplaced]
  obtain ⟨r, b, k, s, t⟩ := base
  cases side <;> cases other <;>
    simp [Layout.attach, Layout.accepts, Layout.superscript, Layout.subscript, Option.filter,
      apply_ite Option.isSome]

variable (e : Engine α) (ctx : Context α) (depth : Nat)

theorem layoutRow_attach {row : Row α} {side : ScriptSide} {y : Formula} {base : Layout α}
    (xs : List Formula) (h : row.base? side = some base) :
    e.layoutRow ctx depth row (.script side y :: xs) =
      e.layoutRow ctx depth
        (row.attach base side (e.layoutAt (scriptContext ctx side base) depth y)) xs := by
  rw [layoutRow, h]

theorem layoutRow_place {row : Row α} {x : Formula} (xs : List Formula)
    (h : ∀ side y, x = .script side y → row.base? side = none) :
    e.layoutRow ctx depth row (x :: xs) =
      e.layoutRow ctx depth
        (row.place x (e.layoutAt (ctx.movedTo (row.position ctx x) ctx.y) depth x)) xs := by
  cases x with
  | script side y => rw [layoutRow, h side y rfl]
  | _ => rw [layoutRow]; exact fun side y hx => nomatch hx

/-! ## Limits that are not met -/

/-- The same engine under another limit on the depth. -/
def withLimit (limit : Nat) : Engine α :=
  { e with settings := { e.settings with maxDepth := limit } }

/-- A formula is laid out if the limit leaves a level for it and its context is usable. -/
theorem admits_iff {e : Engine α} {ctx : Context α} {depth : Nat} :
    e.admits ctx depth = true ↔ depth ≤ e.settings.maxDepth ∧ ctx.isUsable = true := by
  simp [admits]

theorem admits_withLimit {limit : Nat} (h : depth ≤ limit) :
    (e.withLimit limit).admits ctx depth = ctx.isUsable := by
  simp [admits, withLimit, h]

variable {e ctx depth}

/-- Rows agree under two limits if the layouts of their items do. -/
theorem layoutRow_withLimit {m n : Nat} {row : Row α} {xs : List Formula}
    (hm : depth + Formula.rankRow row.free xs ≤ m) (hn : depth + Formula.rankRow row.free xs ≤ n)
    (ih : ∀ y, sizeOf y < sizeOf xs → ∀ ctx : Context α, depth + 1 + y.rank ≤ m →
      depth + 1 + y.rank ≤ n →
      (e.withLimit m).layoutAt ctx (depth + 1) y = (e.withLimit n).layoutAt ctx (depth + 1) y) :
    (e.withLimit m).layoutRow ctx (depth + 1) row xs =
      (e.withLimit n).layoutRow ctx (depth + 1) row xs := by
  induction xs generalizing row with
  | nil => rw [layoutRow, layoutRow]
  | cons x xs ihxs =>
    have ihrest : ∀ y, sizeOf y < sizeOf xs → ∀ ctx : Context α, depth + 1 + y.rank ≤ m →
        depth + 1 + y.rank ≤ n →
        (e.withLimit m).layoutAt ctx (depth + 1) y =
          (e.withLimit n).layoutAt ctx (depth + 1) y := by
      intro y hy
      exact ih y (by simp only [List.cons.sizeOf_spec]; omega)
    rcases row.attach_or_place x with ⟨side, y, base, rfl, hbase⟩ | hplace
    · have hfree : row.free side = true := by rw [Row.free, hbase]; rfl
      rw [Formula.rankRow_attach hfree] at hm hn
      have hy := ih y
        (by simp only [List.cons.sizeOf_spec, Formula.script.sizeOf_spec]; omega)
        (scriptContext ctx side base) (by omega) (by omega)
      rw [layoutRow_attach _ _ _ _ hbase, layoutRow_attach _ _ _ _ hbase, hy]
      refine ihxs ?_ ?_ ihrest <;> rw [Row.free_attach hbase] <;> omega
    · have hfree : ∀ side y, x = .script side y → row.free side = false := by
        intro side y hx
        rw [Row.free, hplace side y hx]
        rfl
      rw [Formula.rankRow_place hfree] at hm hn
      have hx := ih x (by simp only [List.cons.sizeOf_spec]; omega)
        (ctx.movedTo (row.position ctx x) ctx.y) (by omega) (by omega)
      rw [layoutRow_place _ _ _ _ hplace, layoutRow_place _ _ _ _ hplace, hx]
      refine ihxs ?_ ?_ ihrest <;>
        rw [Row.free_place (accepts_layoutAt _ _ _ _)] <;> omega

/-- Parts that may be absent agree under two limits if their layouts do. -/
theorem layoutOption_withLimit {m n : Nat} {o : Option Formula}
    (hm : depth + Formula.rankOption o ≤ m) (hn : depth + Formula.rankOption o ≤ n)
    (ih : ∀ y ∈ o, depth + 1 + y.rank ≤ m → depth + 1 + y.rank ≤ n →
      (e.withLimit m).layoutAt ctx (depth + 1) y = (e.withLimit n).layoutAt ctx (depth + 1) y) :
    (e.withLimit m).layoutOption ctx (depth + 1) o =
      (e.withLimit n).layoutOption ctx (depth + 1) o := by
  cases o with
  | none => rw [layoutOption, layoutOption]
  | some y =>
    simp only [Formula.rankOption] at hm hn
    rw [layoutOption, layoutOption, ih y rfl (by omega) (by omega)]

/-- A limit that layout does not meet leaves no trace. -/
theorem layoutAt_withLimit {m n : Nat} (x : Formula) (hm : depth + x.rank ≤ m)
    (hn : depth + x.rank ≤ n) :
    (e.withLimit m).layoutAt ctx depth x = (e.withLimit n).layoutAt ctx depth x := by
  induction x using Formula.size_induction generalizing ctx depth with
  | step x ih =>
    have hpart : ∀ y ∈ x.children, ∀ ctx : Context α, depth + 1 + y.rank ≤ m →
        depth + 1 + y.rank ≤ n →
        (e.withLimit m).layoutAt ctx (depth + 1) y = (e.withLimit n).layoutAt ctx (depth + 1) y :=
      fun y hy ctx => ih y (Formula.sizeOf_lt_of_mem_children hy)
    have hrow : ∀ (xs : List Formula) (ctx : Context α), sizeOf xs < sizeOf x →
        depth + Formula.rankRow (fun _ => false) xs ≤ m →
        depth + Formula.rankRow (fun _ => false) xs ≤ n →
        (e.withLimit m).layoutRow ctx (depth + 1) (.start ctx) xs =
          (e.withLimit n).layoutRow ctx (depth + 1) (.start ctx) xs := by
      intro xs ctx hxs hm hn
      exact layoutRow_withLimit hm hn fun y hy ctx => ih y (by omega)
    have hdepth : ∀ limit, depth + x.rank ≤ limit →
        (e.withLimit limit).admits ctx depth = ctx.isUsable :=
      fun limit h => admits_withLimit e ctx depth (by omega)
    cases x with
    | leaf l =>
      rw [layoutAt, layoutAt, hdepth m hm, hdepth n hn]
      rfl
    | fraction p q =>
      rw [layoutAt, layoutAt, hdepth m hm, hdepth n hn]
      simp only [Formula.rank] at hm hn
      rw [hpart p (by simp [Formula.children]) _ (by omega) (by omega),
        hpart q (by simp [Formula.children]) _ (by omega) (by omega)]
      rfl
    | script side y =>
      rw [layoutAt, layoutAt, hdepth m hm, hdepth n hn]
      simp only [Formula.rank] at hm hn
      rw [hpart y (by simp [Formula.children]) _ (by omega) (by omega)]
    | root i y =>
      rw [layoutAt, layoutAt, hdepth m hm, hdepth n hn]
      simp only [Formula.rank] at hm hn
      rw [layoutOption_withLimit (by omega) (by omega) fun z hz =>
          hpart z (by simp_all [Formula.children]) _,
        hpart y (by simp [Formula.children]) _ (by omega) (by omega)]
      rfl
    | bigOperator op l u =>
      rw [layoutAt, layoutAt, hdepth m hm, hdepth n hn]
      simp only [Formula.rank] at hm hn
      rw [layoutOption_withLimit (by omega) (by omega) fun z hz =>
          hpart z (by simp_all [Formula.children]) _,
        layoutOption_withLimit (by omega) (by omega) fun z hz =>
          hpart z (by simp_all [Formula.children]) _]
    | limit a =>
      rw [layoutAt, layoutAt, hdepth m hm, hdepth n hn]
      simp only [Formula.rank] at hm hn
      rw [layoutOption_withLimit (by omega) (by omega) fun z hz =>
          hpart z (by simp_all [Formula.children]) _]
      rfl
    | group xs =>
      rw [layoutAt, layoutAt, hdepth m hm, hdepth n hn]
      simp only [Formula.rank] at hm hn
      rw [hrow xs _ (by simp only [Formula.group.sizeOf_spec]; omega) hm hn]
    | equation xs =>
      rw [layoutAt, layoutAt, hdepth m hm, hdepth n hn]
      simp only [Formula.rank] at hm hn
      rw [hrow xs _ (by simp only [Formula.equation.sizeOf_spec]; omega) hm hn]
    | delimited d xs =>
      rw [layoutAt, layoutAt, hdepth m hm, hdepth n hn]
      simp only [Formula.rank] at hm hn
      have hinside : ∀ limit, (e.withLimit limit).insideContext ctx d = e.insideContext ctx d :=
        fun _ => rfl
      simp only [hinside]
      rw [hrow xs _ (by simp only [Formula.delimited.sizeOf_spec]; omega) hm hn]
      rfl

/-- Two limits that both have a level for each node on the longest path down lay a formula out the
same. -/
theorem layout_withLimit_of_depth_le (e : Engine α) (ctx : Context α) (x : Formula) {m n : Nat}
    (hm : x.depth ≤ m + 1) (hn : x.depth ≤ n + 1) :
    (e.withLimit m).layout ctx x = (e.withLimit n).layout ctx x := by
  have hrank : x.rank < x.depth := x.rank_lt_depth
  show (e.withLimit m).layoutAt ctx 0 x = (e.withLimit n).layoutAt ctx 0 x
  apply layoutAt_withLimit
  · omega
  · omega

/-- A square under a root has five nodes below each other, one for each level that the limit four
leaves. -/
theorem layout_withLimit_of_depth_le_root :
    let e : Engine Single := ⟨⟨2.0, 64⟩, .standard⟩
    let x : Formula :=
      .equation [.root none (.group [.letter 'x', .script .superscript (.number "2")])]
    x.depth ≤ 4 + 1 ∧ x.depth ≤ 1000 + 1 ∧
      (e.withLimit 4).layout ⟨0.0, 0.0, 32.0, 0⟩ x =
        (e.withLimit 1000).layout ⟨0.0, 0.0, 32.0, 0⟩ x :=
  ⟨by decide, by decide, layout_withLimit_of_depth_le _ _ _ (by decide) (by decide)⟩

end Engine

end FormulaDrawing
