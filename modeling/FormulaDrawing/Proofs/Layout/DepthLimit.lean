import FormulaDrawing.Proofs.Binary.Rounding
import FormulaDrawing.Proofs.Latex.Parts
import FormulaDrawing.Proofs.Layout.Ample

/-!
# The nesting limit of reading and of layout

Reading counts nested arguments and layout counts the descents to a part, so what was read within
a limit may still meet the same limit in layout. It does not, exactly if its rank is within it.

    read source limit = .ok t  →  t.rank ≤ 2 * limit + 1
    t.rank ≤ limit ↔ LimitUnseen α limit t                     (limitUnseen_iff_rank_le)

The braces of `{ab}` are one nested argument, and its letters are two descents down.
-/

namespace FormulaDrawing

open Engine

/-! ## Numbers of the 32 bit format -/

namespace Ample

/-- So far out that every size is absorbed. -/
def far : Single := .signed false ⟨Format.single.binade 252, by decide⟩

/-- Halving is exact either way. -/
theorem div_two {x : Single} (hx : x.isFinite = true) : x / 2.0 = x * 0.5 := by
  have htwo : (2.0 : Single) = .signed false ⟨Format.single.binade 127, by decide⟩ := by
    decide +kernel
  have hhalf : (0.5 : Single) = .signed false ⟨Format.single.binade 125, by decide⟩ := by
    decide +kernel
  have htwo' : Format.single.magnitude (Format.single.binade 127) = 2 := by decide +kernel
  have hhalf' : Format.single.magnitude (Format.single.binade 125) = 1 / 2 := by decide +kernel
  rw [htwo, hhalf]
  cases x with
  | nan => cases hx
  | signed s k =>
    have hk : k.val ≠ Format.single.infinity := (of_decide_eq_true hx).ne
    rw [Binary.mul_signed hk (by decide)]
    show Binary.div _ _ = _
    rw [Binary.div, if_neg hk, if_neg (by decide), if_neg (by decide)]
    congr 1
    simp only [Binary.rational, Bool.false_eq_true, if_false, htwo', hhalf']
    ring

/-- A scale of at least a half takes at most one power of two off. -/
theorem atLeast_shrink {i : Nat} {s c : Single} (hs : Binary.AtLeast (i + 1) s)
    (hs' : Binary.AtMost 216 s) (hc : Binary.AtLeast 125 c) (hc' : Binary.AtMost 126 c) :
    Binary.AtLeast i (s * c) := by
  refine hs.mul hc ?_ (hs'.isFinite (by decide)) (hc'.isFinite (by decide)) ?_
  · show (i : Int) = -149 + 23 + ((i + 1 : Nat) : Int) + 125
    omega
  · cases s with
    | nan => exact hs.elim
    | signed s k =>
      exact (Format.binade_le (Nat.le_succ i)).trans (hs.2.trans (Nat.lt_succ_iff.1 k.isLt))

/-- A font size that many scales leave above zero. -/
def large : Single := .signed false ⟨Format.single.binade 216, by decide⟩

/-- The engine of the 32 bit format whose texts have no size. -/
def pointEngine (limit : Nat) : Engine Single := ⟨⟨1.0, limit⟩, Measure.fixed ⟨0.0, 0.0, 0.0⟩⟩

/-- Far out sizes are absorbed, and font sizes last through two hundred descents. -/
def single (limit : Nat) (hlimit : limit ≤ 201) : Ample (pointEngine limit) where
  IsPosition x := x = far
  IsSize w := Binary.AtMost 222 w
  IsFont d s := d ≤ limit + 1 ∧ Binary.AtLeast (216 - d) s ∧ Binary.AtMost 216 s
  finite_position h := by rw [h]; decide +kernel
  position_add hx hw := by
    rw [hx]
    exact Binary.add_eq_self rfl hw (by decide) (by decide)
  position_max hx hy := by rw [hx, hy]; decide +kernel
  position_min hx hy := by rw [hx, hy]; decide +kernel
  position_rise hy hs := by
    have hrise : Binary.AtMost 126 (-superscriptRise : Single) := by decide +kernel
    have hmul : Binary.AtMost 216 (-superscriptRise * _) :=
      hrise.mul hs.2.2 (by decide) (by decide) (by decide)
    rw [hy]
    exact Binary.add_eq_self rfl hmul (by decide) (by decide)
  position_drop hy hs := by
    have hdrop : Binary.AtMost 126 (subscriptDrop : Single) := by decide +kernel
    have hmul : Binary.AtMost 216 (subscriptDrop * _) :=
      hdrop.mul hs.2.2 (by decide) (by decide) (by decide)
    rw [hy]
    exact Binary.add_eq_self rfl hmul (by decide) (by decide)
  size_sub hx hy := by rw [hx, hy]; decide +kernel
  size_max hv hw := hv.max hw
  size_zero := by decide +kernel
  size_minFractionWidth := by decide +kernel
  size_fraction hw := by
    have hpadding : Binary.AtMost 130 (2.0 * padding : Single) := by decide +kernel
    exact hw.add hpadding (by decide) (by decide)
  size_overline hw := by
    have hpadding : Binary.AtMost 130 (1.5 * padding : Single) := by decide +kernel
    exact hw.add hpadding (by decide) (by decide)
  size_overlap hw := by
    have hoverlap : Binary.AtMost 126 (1.0 - scriptOverlap : Single) := by decide +kernel
    exact hw.mul hoverlap (by decide) (by decide) (by decide)
  size_stroke := by
    show Binary.AtMost 222 ((1.0 : Single) * 1.5)
    decide +kernel
  size_text _ _ := by
    show Binary.AtMost 222 (max (0.0 : Single) 0.0)
    decide +kernel
  size_font hs hc := by
    have hunit : ∀ c ∈ [(0.1 : Single), 0.15, 0.25, 0.3, 0.5, 0.6, 0.9], Binary.AtMost 126 c := by
      decide +kernel
    have hmul : Binary.AtMost 216 (_ * _) :=
      hs.2.2.mul (hunit _ hc) (by decide) (by decide) (by decide)
    exact hmul.mono (by decide)
  size_shift {d s w} hs hw := by
    obtain ⟨hd, hlow, hhigh⟩ := hs
    have hle : Binary.AtMost 126 (0.5 : Single) := by decide +kernel
    have hge : Binary.AtLeast 125 (0.5 : Single) := by decide +kernel
    have hzero : (0.0 : Single) = Binary.zero false := by decide +kernel
    have hhalf : Binary.AtMost 216 (s * 0.5) :=
      hhigh.mul hle (by decide) (by decide) (by decide)
    have hquarter : Binary.AtMost 216 (s * 0.5 * 0.5) :=
      hhalf.mul hle (by decide) (by decide) (by decide)
    have hlow' : Binary.AtLeast (214 - d + 1 + 1) s := by
      rwa [show 214 - d + 1 + 1 = 216 - d by omega]
    have hquarter' : Binary.AtLeast (214 - d) (s * 0.5 * 0.5) :=
      atLeast_shrink (atLeast_shrink hlow' hhigh hge hle) hhalf hge hle
    rw [div_two (hhalf.isFinite (by decide)), hzero]
    exact hw.sub_max_zero hquarter' hquarter (by decide) (by decide)
  usable_font hs := ⟨hs.2.2.isFinite (by decide), hs.2.1.isPositive⟩
  font_succ hd hs := ⟨Nat.succ_le_succ hd, hs.2.1.mono (by omega), hs.2.2⟩
  font_nested {d s c} hd hs hc := by
    have hle : ∀ c ∈ [(0.5 : Single), 0.6, 0.7, 1.0], Binary.AtMost 126 c := by decide +kernel
    have hge : ∀ c ∈ [(0.5 : Single), 0.6, 0.7, 1.0], Binary.AtLeast 125 c := by decide +kernel
    have hd' : d ≤ limit := hd
    have hlow : Binary.AtLeast (216 - (d + 1) + 1) s := by
      rw [show 216 - (d + 1) + 1 = 216 - d by omega]
      exact hs.2.1
    exact ⟨Nat.succ_le_succ hd, atLeast_shrink hlow hs.2.2 (hge c hc) (hle c hc),
      hs.2.2.mul (hle c hc) (by decide) (by decide) (by decide)⟩

end Ample

/-! ## The limit of the reader -/

/-- Layout under a limit is layout under every greater limit, wherever it starts and however text
is measured. -/
def LimitUnseen (α : Type) [Scalar α] (limit : Nat) (t : Formula) : Prop :=
  ∀ (ctx : Context α) (strokeWidth : α) (measure : Measure α) (maxDepth : Nat),
    ctx.isUsable = true → limit ≤ maxDepth →
      (⟨⟨strokeWidth, limit⟩, measure⟩ : Engine α).layout ctx t =
        (⟨⟨strokeWidth, maxDepth⟩, measure⟩ : Engine α).layout ctx t

theorem limitUnseen_of_rank_le {α : Type} [Scalar α] {limit : Nat} {t : Formula}
    (h : t.rank ≤ limit) : LimitUnseen α limit t := by
  intro ctx strokeWidth measure maxDepth _ hle
  exact layoutAt_withLimit (e := ⟨⟨strokeWidth, limit⟩, measure⟩) t (by omega) (by omega)

/-- In ample numbers a limit below the rank leaves a part of the layout empty, and the rank as the
limit does not. -/
theorem rank_le_of_limitUnseen {α : Type} [Scalar α] {limit : Nat} {t : Formula}
    (strokeWidth : α) (measure : Measure α) (ctx : Context α)
    (A : ∀ n ≤ max limit t.rank, Ample (⟨⟨strokeWidth, n⟩, measure⟩ : Engine α))
    (hctx : ∀ n hn, (A n hn).Suits 0 ctx) (h : LimitUnseen α limit t) : t.rank ≤ limit := by
  have hlimit := Ample.whole_layoutAt t (hctx limit (Nat.le_max_left _ _))
  have hmax := Ample.whole_layoutAt t (hctx _ le_rfl)
  have heq := h ctx strokeWidth measure _ (hctx limit (Nat.le_max_left _ _)).isUsable
    (Nat.le_max_left limit t.rank)
  simp only [layout] at heq
  rw [heq, hmax] at hlimit
  have hle : 0 + t.rank ≤ limit := hlimit.1 (show 0 + t.rank ≤ max limit t.rank by omega)
  omega

theorem rank_le_of_limitUnseen_exact {limit : Nat} {t : Formula} (h : LimitUnseen Rat limit t) :
    t.rank ≤ limit := by
  refine rank_le_of_limitUnseen 1 .standard ⟨0, 0, 1, 0⟩ (fun n _ => Ample.exact _)
    (fun n _ => ?_) h
  exact ⟨trivial, trivial, show (0 : Rat) < 1 by decide⟩

theorem rank_le_of_limitUnseen_single {limit : Nat} {t : Formula} (hlimit : limit ≤ 201)
    (hrank : t.rank ≤ 201) (h : LimitUnseen Single limit t) : t.rank ≤ limit := by
  refine rank_le_of_limitUnseen _ _ ⟨Ample.far, Ample.far, Ample.large, 0⟩
    (fun n hn => Ample.single n (hn.trans (Nat.max_le.2 ⟨hlimit, hrank⟩))) (fun n _ => ?_) h
  exact ⟨rfl, rfl, Nat.zero_le _, by decide, by decide⟩

/-- What was read within a limit is laid out within twice the limit and one more level, and within
the limit itself exactly if its rank is. -/
theorem limitUnseen_iff_rank_le (source : String) {limit : Nat} {t : Formula}
    (h : Latex.read source limit = .ok t) :
    t.rank ≤ 2 * limit + 1 ∧
      (t.rank ≤ limit ↔ ∀ (α : Type) [Scalar α], LimitUnseen α limit t) ∧
      (limit ≤ 100 → (t.rank ≤ limit ↔ LimitUnseen Single limit t)) := by
  have hdepth := Latex.depth_of_read h
  have hrank := t.rank_lt_depth
  refine ⟨by omega, ⟨fun hle α _ => limitUnseen_of_rank_le hle, fun hall => ?_⟩, fun hlimit =>
    ⟨limitUnseen_of_rank_le, fun hsingle => ?_⟩⟩
  · exact rank_le_of_limitUnseen_exact (hall Rat)
  · exact rank_le_of_limitUnseen_single (by omega) (by omega) hsingle

/-- The letters of `{ab}` are laid out one level below the limit that reads it. -/
theorem not_limitUnseen_braced_pair :
    ¬ ∀ (source : String) (limit : Nat) (t : Formula), 1 ≤ limit →
      Latex.read source limit = .ok t → LimitUnseen Single limit t := by
  intro h
  have hpair : LimitUnseen Single 1
      (.equation [.group [.leaf (.letter 'a'), .leaf (.letter 'b')]]) :=
    h "\x7bab\x7d" 1 _ le_rfl rfl
  exact absurd (rank_le_of_limitUnseen_single (by decide) (by decide) hpair) (by decide)

theorem limitUnseen_iff_rank_le_fraction :
    Latex.read "\\frac ab" 1 =
        .ok (.equation [.fraction (.leaf (.letter 'a')) (.leaf (.letter 'b'))]) ∧
      ¬ LimitUnseen Single 1 (.equation [.fraction (.leaf (.letter 'a')) (.leaf (.letter 'b'))]) :=
  ⟨rfl, fun h => absurd (((limitUnseen_iff_rank_le "\\frac ab" rfl).2.2 (by decide)).2 h)
    (by decide)⟩

end FormulaDrawing
