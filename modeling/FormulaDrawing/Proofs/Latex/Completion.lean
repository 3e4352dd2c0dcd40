import FormulaDrawing.Proofs.Latex.Unclosed

/-!
# What may still come of a stack

A stack of frames fixes a part of every formula that is read from it on: the items that its
sequences have, the places of its arguments, and where a part that comes next will stand.
`Completes items frames more all` says that the items of the root may become `all` when the parts
`more` come to the top of the frames. Every step keeps to what the state before it allowed, so a run
ends in what its first state allowed (`run_completes`).

What comes next to a stack can be told from the formula in the end, although a group of a single
part is that part: from two parts of which neither begins the other no formula completes alike
(`Completes.ne_of_apart`).

    Begins x y        y is x, or a group whose first part x begins
-/

namespace FormulaDrawing.Latex

/-! ## Completions -/

/-- What a sequence of items may become. The content of an indexed root is still to come. -/
inductive Closer.Yields : Closer → List Formula → Formula → Prop
  | brace (xs : List Formula) : Yields .brace xs (.collapse xs)
  | parenthesis (xs : List Formula) : Yields .parenthesis xs (.delimited .parentheses xs)
  | bar (xs : List Formula) : Yields .bar xs (.delimited .bars xs)
  | bracket (xs : List Formula) (y : Formula) : Yields .bracket xs (.root (some (.collapse xs)) y)

/-- What a structure may become with an argument. A denominator or another limit may follow. -/
inductive Slot.Yields : Slot → Formula → Formula → Prop
  | script (side : ScriptSide) (x : Formula) : Yields (.script side) x (.script side x)
  | numerator (x y : Formula) : Yields .numerator x (.fraction x y)
  | denominator (n x : Formula) : Yields (.denominator n) x (.fraction n x)
  | radicand (index : Option Formula) (x : Formula) : Yields (.radicand index) x (.root index x)
  | lowerLimit (op : BigOperator) {upper u : Option Formula} (x : Formula)
      (h : ∀ y ∈ upper, u = some y) : Yields (.lowerLimit op upper) x (.bigOperator op (some x) u)
  | upperLimit (op : BigOperator) {lower l : Option Formula} (x : Formula)
      (h : ∀ y ∈ lower, l = some y) : Yields (.upperLimit op lower) x (.bigOperator op l (some x))
  | approach (x : Formula) : Yields .approach x (.limit (some x))

/-- With some parts still to come to the top, the items of the root may become these. -/
inductive Completes (items : List Formula) :
    List Frame → List Formula → List Formula → Prop
  | root (more : List Formula) : Completes items [] more (items ++ more)
  | sequence {closer : Closer} {xs : Array Formula} {frames : List Frame} {y : Formula}
      {more rest all : List Formula} (hy : closer.Yields (xs.toList ++ more) y)
      (h : Completes items frames (y :: rest) all) :
      Completes items (.sequence closer xs :: frames) more all
  | argument {slot : Slot} {frames : List Frame} {x y : Formula} {more rest all : List Formula}
      (hy : slot.Yields x y) (h : Completes items frames (y :: rest) all) :
      Completes items (.argument slot :: frames) (x :: more) all

/-- What a mode lets expect of the parts to come. -/
def Mode.Announces : Mode → List Formula → Prop
  | .finished x, more => more.head? = some x
  | .limits op lower upper, more => ∃ l u, more.head? = some (.bigOperator op l u) ∧
      (∀ x ∈ lower, l = some x) ∧ ∀ x ∈ upper, u = some x
  | _, _ => True

def State.Completes (st : State) (all : List Formula) : Prop :=
  ∃ more, st.mode.Announces more ∧ Latex.Completes st.items.toList st.frames more all

/-! ## Steps -/

theorem Slot.yields_fill (slot : Slot) (x : Formula) : slot.Yields x (slot.fill x) := by
  cases slot with
  | script side => exact .script side x
  | numerator => exact .numerator x .missing
  | denominator n => exact .denominator n x
  | radicand index => exact .radicand index x
  | lowerLimit op upper => exact .lowerLimit op x fun y hy => hy
  | upperLimit op lower => exact .upperLimit op x fun y hy => hy
  | approach => exact .approach x

/-- A part that is delivered is the next one of those to come. -/
theorem deliver_completes {next : Option Char} {items : Array Formula} {x : Formula}
    {frames : List Frame} {all : List Formula}
    (h : (deliver next items x frames).Completes all) :
    ∃ rest, Completes items.toList frames (x :: rest) all := by
  fun_induction deliver next items x frames with
  | case1 x =>
    obtain ⟨more, -, hmore⟩ := h
    cases hmore
    refine ⟨more, ?_⟩
    rw [Array.toList_push, List.append_assoc]
    exact .root _
  | case2 x closer xs frames =>
    obtain ⟨more, -, hmore⟩ := h
    cases hmore with
    | sequence hy hrest =>
      rw [Array.toList_push, List.append_assoc] at hy
      exact ⟨more, .sequence hy hrest⟩
  | case3 x frames hclose ih =>
    obtain ⟨rest, hrest⟩ := ih h
    exact ⟨[], .argument (.numerator x _) hrest⟩
  | case4 x frames hclose =>
    obtain ⟨more, -, hmore⟩ := h
    cases hmore with
    | argument hy hrest =>
      cases hy
      exact ⟨[], .argument (.numerator x _) hrest⟩
  | case5 x frames op upper hawait =>
    obtain ⟨more, ⟨l, u, hhead, hl, hu⟩, hmore⟩ := h
    obtain ⟨rest, rfl⟩ := List.head?_eq_some_iff.1 hhead
    rw [hl x rfl] at hmore
    exact ⟨[], .argument (.lowerLimit op x hu) hmore⟩
  | case6 x frames op upper hawait ih =>
    obtain ⟨rest, hrest⟩ := ih h
    exact ⟨[], .argument (.lowerLimit op x fun y hy => hy) hrest⟩
  | case7 x frames op lower hawait =>
    obtain ⟨more, ⟨l, u, hhead, hl, hu⟩, hmore⟩ := h
    obtain ⟨rest, rfl⟩ := List.head?_eq_some_iff.1 hhead
    rw [hu x rfl] at hmore
    exact ⟨[], .argument (.upperLimit op x hl) hmore⟩
  | case8 x frames op lower hawait ih =>
    obtain ⟨rest, hrest⟩ := ih h
    exact ⟨[], .argument (.upperLimit op x fun y hy => hy) hrest⟩
  | case9 x frames slot _ _ _ ih =>
    obtain ⟨rest, hrest⟩ := ih h
    exact ⟨[], .argument (slot.yields_fill x) hrest⟩

theorem settle_completes {st : State} {next : Option Char} {all : List Formula}
    (h : (st.settle next).Completes all) :
    ∃ more, Completes st.items.toList st.frames more all := by
  have hkeep : st.Completes all → ∃ more, Completes st.items.toList st.frames more all :=
    fun ⟨more, _, hmore⟩ => ⟨more, hmore⟩
  unfold State.settle at h
  split at h
  · split at h
    · obtain ⟨rest, hrest⟩ := deliver_completes h
      exact ⟨_, hrest⟩
    · exact hkeep h
  · exact hkeep h

theorem deliverNothing_completes {st : State} {next : Option Char} {all : List Formula}
    (h : (st.deliverNothing next).Completes all) :
    ∃ more, Completes st.items.toList st.frames more all := by
  unfold State.deliverNothing at h
  split at h
  · obtain ⟨rest, hrest⟩ := deliver_completes h
    exact ⟨_, hrest⟩
  · obtain ⟨more, -, hmore⟩ := h
    exact ⟨more, hmore⟩

variable {a : Allowance} {st st' : State} {all : List Formula}

/-- Whatever is pushed becomes a part. -/
theorem Completes.of_cons {items : List Formula} {frame : Frame} {frames : List Frame}
    {more : List Formula} (h : Completes items (frame :: frames) more all) :
    ∃ more, Completes items frames more all := by
  cases h with
  | sequence hy hrest => exact ⟨_, hrest⟩
  | argument hy hrest => exact ⟨_, hrest⟩

theorem completes_of_resolve {next : Option Char} (hr : resolve a st next = .ok st')
    (h : st'.Completes all) : ∃ more, Completes st.items.toList st.frames more all := by
  cases resolves_of_ok hr with
  | stay | wait mode =>
    obtain ⟨more, -, hmore⟩ := h
    exact ⟨more, hmore⟩
  | settle => exact settle_completes h
  | deliver x =>
    obtain ⟨rest, hrest⟩ := deliver_completes h
    exact ⟨_, hrest⟩
  | skip => exact deliverNothing_completes h
  | argue slot =>
    obtain ⟨more, hmore⟩ := settle_completes h
    exact hmore.of_cons

/-- Resolving keeps to what was allowed: a part that is finished comes next. -/
theorem resolve_completes {next : Option Char} (hr : resolve a st next = .ok st')
    (h : st'.Completes all) : st.Completes all := by
  obtain ⟨items, frames, mode⟩ := st
  have hdeliver : ∀ x, (deliver next items x frames).Completes all →
      (∀ rest, mode.Announces (x :: rest)) → State.Completes ⟨items, frames, mode⟩ all := by
    intro x hx hannounces
    obtain ⟨rest, hrest⟩ := deliver_completes hx
    exact ⟨_, hannounces rest, hrest⟩
  cases mode with
  | finished x =>
    cases hr
    exact hdeliver x h fun rest => rfl
  | limits op lower upper =>
    by_cases hawait : awaitsLimit lower upper next = true
    · simp only [resolve, if_pos hawait] at hr
      cases hr
      exact h
    · simp only [resolve, if_neg hawait] at hr
      cases hr
      exact hdeliver _ h fun rest => ⟨lower, upper, rfl, fun y hy => hy, fun y hy => hy⟩
  | _ =>
    obtain ⟨more, hmore⟩ := completes_of_resolve hr h
    exact ⟨more, trivial, hmore⟩

/-- A sequence that closes is a part or the index of one. -/
theorem closeSequence_completes {frames : List Frame} {xs : Array Formula} {closer : Closer}
    (h : (closeSequence st frames xs closer).Completes all) :
    Completes st.items.toList (.sequence closer xs :: frames) [] all := by
  have hfinished : ∀ y, closer.Yields (xs.toList ++ []) y →
      State.Completes ⟨st.items, frames, .finished y⟩ all →
      Completes st.items.toList (.sequence closer xs :: frames) [] all := by
    rintro y hy ⟨more, hhead, hmore⟩
    obtain ⟨rest, rfl⟩ := List.head?_eq_some_iff.1 hhead
    exact .sequence hy hmore
  cases closer with
  | brace => exact hfinished _ (by simpa using Closer.Yields.brace xs.toList) h
  | parenthesis => exact hfinished _ (by simpa using Closer.Yields.parenthesis xs.toList) h
  | bar => exact hfinished _ (by simpa using Closer.Yields.bar xs.toList) h
  | bracket =>
    obtain ⟨more, -, hmore⟩ := h
    cases hmore with
    | argument hy hrest =>
      cases hy
      exact .sequence (by simpa using Closer.Yields.bracket xs.toList _) hrest

theorem completes_of_consume {c : Char} (hc : consume a st c = .ok st') (h : st'.Completes all) :
    ∃ more, Completes st.items.toList st.frames more all := by
  cases consumes_of_ok hc with
  | turn mode =>
    obtain ⟨more, -, hmore⟩ := h
    exact ⟨more, hmore⟩
  | push frame =>
    obtain ⟨more, -, hmore⟩ := h
    exact hmore.of_cons
  | close closer xs frames hmove hframes =>
    rw [hframes]
    exact ⟨[], closeSequence_completes h⟩

/-- Consuming keeps to what was allowed: a big operator only takes limits that it does not have. -/
theorem consume_completes {c : Char} (haccepts : st.mode.Accepts c)
    (hc : consume a st c = .ok st') (h : st'.Completes all) : st.Completes all := by
  obtain ⟨items, frames, mode⟩ := st
  cases mode with
  | finished x => exact haccepts.elim
  | limits op lower upper =>
    simp only [consume] at hc
    split at hc
    next hsign =>
      subst hsign
      have hspace : Unicode.isWhiteSpace '_' = false := by decide
      have hlower : lower = none := by
        simpa [Mode.Accepts, awaitsLimit, hspace] using haccepts
      obtain ⟨-, rfl⟩ := push_eq_ok_iff.1 hc
      obtain ⟨more, -, hmore⟩ := h
      cases hmore with
      | argument hy hrest =>
        cases hy with
        | lowerLimit _ x hu => exact ⟨_, ⟨_, _, rfl, by simp [hlower], hu⟩, hrest⟩
    next =>
      split at hc
      next hsign =>
        subst hsign
        have hspace : Unicode.isWhiteSpace '^' = false := by decide
        have hupper : upper = none := by
          simpa [Mode.Accepts, awaitsLimit, hspace] using haccepts
        obtain ⟨-, rfl⟩ := push_eq_ok_iff.1 hc
        obtain ⟨more, -, hmore⟩ := h
        cases hmore with
        | argument hy hrest =>
          cases hy with
          | upperLimit _ x hl => exact ⟨_, ⟨_, _, rfl, hl, by simp [hupper]⟩, hrest⟩
      next =>
        cases hc
        exact h
  | _ =>
    obtain ⟨more, hmore⟩ := completes_of_consume hc h
    exact ⟨more, trivial, hmore⟩

/-! ## Runs -/

theorem mode_deliver_none (items : Array Formula) (x : Formula) (frames : List Frame) :
    (deliver none items x frames).mode = .ready := by
  fun_induction deliver none items x frames with
  | case1 | case2 | case4 => rfl
  | case5 x frames op upper hawait => cases hawait
  | case7 x frames op lower hawait => cases hawait
  | case3 x frames hclose ih => exact ih
  | case6 x frames op upper hawait ih => exact ih
  | case8 x frames op lower hawait ih => exact ih
  | case9 x frames slot _ _ _ ih => exact ih

theorem mode_settle_none (hst : st.mode = .ready) : (st.settle none).mode = .ready := by
  unfold State.settle
  split
  · split
    · exact mode_deliver_none _ _ _
    · exact hst
  · exact hst

/-- At the end of the text the machine comes to stand between parts. -/
theorem mode_of_resolve_none (h : resolve a st none = .ok st') : st'.mode = .ready := by
  cases resolves_of_ok h with
  | stay hreaction => exact absurd hreaction (Reaction.of_none_ne _).1
  | wait mode hreaction => exact absurd hreaction ((Reaction.of_none_ne _).2 mode)
  | settle hreaction => exact mode_settle_none (Reaction.eq_ready_of_settle hreaction)
  | deliver x => exact mode_deliver_none _ _ _
  | skip =>
    unfold State.deliverNothing
    split
    · exact mode_deliver_none _ _ _
    · rfl
  | argue slot => exact mode_settle_none rfl

theorem Closer.yields_complete (closer : Closer) (xs : List Formula) :
    closer.Yields xs (closer.complete xs) := by
  cases closer with
  | brace => exact .brace xs
  | parenthesis => exact .parenthesis xs
  | bar => exact .bar xs
  | bracket => exact .bracket xs .missing

/-- At the end of the text what is open closes, and what is waited for is missing. -/
theorem completes_finish (items : Array Formula) (pending : Option Formula)
    (frames : List Frame) :
    ∃ more, (∀ x ∈ pending, more.head? = some x) ∧
      Completes items.toList frames more (finish items pending frames).toList := by
  induction frames generalizing pending with
  | nil =>
    refine ⟨pending.toList, fun x hx => by rw [hx]; rfl, ?_⟩
    have hroot : (finish items pending []).toList = items.toList ++ pending.toList := by
      cases pending <;> simp [finish]
    rw [hroot]
    exact .root _
  | cons frame frames ih =>
    cases frame with
    | sequence closer xs =>
      obtain ⟨more, hhead, hmore⟩ := ih (some (closer.complete (xs.toList ++ pending.toList)))
      obtain ⟨rest, rfl⟩ := List.head?_eq_some_iff.1 (hhead _ rfl)
      rw [finish_sequence]
      exact ⟨pending.toList, fun x hx => by rw [hx]; rfl,
        .sequence (closer.yields_complete _) hmore⟩
    | argument slot =>
      obtain ⟨more, hhead, hmore⟩ := ih (some (slot.fill (pending.getD .missing)))
      obtain ⟨rest, rfl⟩ := List.head?_eq_some_iff.1 (hhead _ rfl)
      have hfinish : finish items pending (.argument slot :: frames) =
          finish items (some (slot.fill (pending.getD .missing))) frames := by
        cases pending <;> rfl
      rw [hfinish]
      exact ⟨[pending.getD .missing], fun x hx => by rw [hx]; rfl,
        .argument (slot.yields_fill _) hmore⟩

/-- A run ends in what its first state allowed. -/
theorem run_completes {cs : List Char} (h : run a st cs = .complete all) : st.Completes all := by
  induction cs generalizing st with
  | nil =>
    obtain ⟨st₁, hr, hfinish⟩ := run_nil_eq_complete_iff.1 h
    obtain ⟨more, -, hmore⟩ := completes_finish st₁.items none st₁.frames
    rw [hfinish] at hmore
    refine resolve_completes hr ⟨more, ?_, hmore⟩
    rw [mode_of_resolve_none hr]
    trivial
  | cons c cs ih =>
    obtain ⟨st₁, st₂, hr, hc, hrun⟩ := run_cons_eq_complete_iff.1 h
    exact resolve_completes hr (consume_completes (resolve_accepts hr) hc (ih hrun))

/-! ## Telling parts apart -/

/-- A part begins another if it is that part, or begins the first one of it as a group. -/
inductive Begins : Formula → Formula → Prop
  | refl (x : Formula) : Begins x x
  | group {x y : Formula} (ys : List Formula) (h : Begins x y) : Begins x (.group (y :: ys))

theorem Begins.trans {x y z : Formula} (hxy : Begins x y) (hyz : Begins y z) : Begins x z := by
  induction hyz with
  | refl => exact hxy
  | group ys _ ih => exact .group ys ih

theorem Begins.of_group {x y : Formula} {ys : List Formula} (h : Begins x (.group (y :: ys))) :
    x = .group (y :: ys) ∨ Begins x y := by
  cases h with
  | refl => exact .inl rfl
  | group _ h => exact .inr h

theorem Begins.sizeOf_le {x y : Formula} (h : Begins x y) : sizeOf x ≤ sizeOf y := by
  induction h with
  | refl => exact Nat.le_refl _
  | group ys _ ih =>
    simp only [Formula.group.sizeOf_spec, List.cons.sizeOf_spec]
    omega

theorem Begins.eq_of_not_group {x y : Formula} (h : Begins x y) (hy : ∀ ys, y ≠ .group ys) :
    x = y := by
  cases h with
  | refl => rfl
  | group ys _ => exact (hy _ rfl).elim

/-- The first of some items begins what they collapse to. -/
theorem begins_collapse (x : Formula) (xs : List Formula) :
    Begins x (.collapse (x :: xs)) := by
  cases xs with
  | nil => exact .refl x
  | cons y ys => exact .group _ (.refl x)

/-- Neither of two parts begins the other. -/
structure Apart (x y : Formula) : Prop where
  left : ¬ Begins x y
  right : ¬ Begins y x

theorem Apart.symm {x y : Formula} (h : Apart x y) : Apart y x := ⟨h.right, h.left⟩

theorem Apart.ne {x y : Formula} (h : Apart x y) : x ≠ y := by
  rintro rfl
  exact h.left (.refl x)

/-- What is not a group begins nothing but itself and groups. -/
theorem apart_of_ne {x y : Formula} (hx : ∀ zs, x ≠ .group zs) (hy : ∀ zs, y ≠ .group zs)
    (h : x ≠ y) : Apart x y :=
  ⟨fun hxy => h (hxy.eq_of_not_group hy), fun hyx => h (hyx.eq_of_not_group hx).symm⟩

theorem not_begins_collapse {x y : Formula} (h : Apart x y) (ws xs ys : List Formula) :
    ¬ Begins (.collapse (ws ++ x :: xs)) (.collapse (ws ++ y :: ys)) := by
  intro hbegins
  cases ws with
  | nil =>
    -- the parts that are apart are the first items on both sides
    have hx : Begins x (.collapse (y :: ys)) := (begins_collapse x xs).trans hbegins
    cases ys with
    | nil => exact h.left hx
    | cons z zs =>
      rcases hx.of_group with rfl | hx
      · exact h.right (.group _ (.refl y))
      · exact h.left hx
  | cons w ws =>
    rw [collapse_of_length_ne (by simp), collapse_of_length_ne (by simp)] at hbegins
    rcases hbegins.of_group with heq | hw
    · have hitems : ws ++ x :: xs = ws ++ y :: ys := (List.cons.inj (Formula.group.inj heq)).2
      exact h.ne (List.cons.inj (List.append_cancel_left hitems)).1
    · -- a group is larger than its first item
      have hsize := hw.sizeOf_le
      simp only [List.cons_append, Formula.group.sizeOf_spec, List.cons.sizeOf_spec] at hsize
      omega

/-- Parts that are apart leave apart what sequences become with them. -/
theorem Closer.Yields.apart {closer : Closer} {ws xs ys : List Formula} {x y u v : Formula}
    (hu : closer.Yields (ws ++ x :: xs) u) (h : Apart x y)
    (hv : closer.Yields (ws ++ y :: ys) v) : Apart u v := by
  have hcollapse : Apart (.collapse (ws ++ x :: xs)) (.collapse (ws ++ y :: ys)) :=
    ⟨not_begins_collapse h ws xs ys, not_begins_collapse h.symm ws ys xs⟩
  have hitems : ws ++ x :: xs ≠ ws ++ y :: ys :=
    fun heq => h.ne (List.cons.inj (List.append_cancel_left heq)).1
  cases hu with
  | brace =>
    cases hv with
    | brace => exact hcollapse
  | parenthesis =>
    cases hv with
    | parenthesis => exact apart_of_ne nofun nofun fun heq => hitems (Formula.delimited.inj heq).2
  | bar =>
    cases hv with
    | bar => exact apart_of_ne nofun nofun fun heq => hitems (Formula.delimited.inj heq).2
  | bracket _ z =>
    cases hv with
    | bracket _ z' =>
      exact apart_of_ne nofun nofun fun heq =>
        hcollapse.ne (Option.some.inj (Formula.root.inj heq).1)

theorem Slot.Yields.apart {slot : Slot} {x y u v : Formula} (hu : slot.Yields x u) (h : x ≠ y)
    (hv : slot.Yields y v) : Apart u v := by
  cases hu with
  | script | denominator | radicand | approach =>
    cases hv
    exact apart_of_ne nofun nofun (by simpa using h)
  | numerator | lowerLimit | upperLimit =>
    cases hv
    exact apart_of_ne nofun nofun (by simp [h])

/-- Parts that are apart come to the same frames, once with a sequence below them. Then the sequence
does not hold what the frames alone complete to. -/
theorem Completes.ne_of_apart {closer : Closer} {frames : List Frame} {x y g z : Formula}
    {xs ys all : List Formula} (h : Apart x y) (hx : Completes [] frames (x :: xs) [g])
    (hy : Completes [] (frames ++ [.sequence closer #[]]) (y :: ys) all)
    (hz : closer.Yields [g] z) : all ≠ [z] := by
  induction frames generalizing x y xs ys with
  | nil =>
    cases hx
    cases hy with
    | sequence hw hroot =>
      cases hroot
      intro heq
      have hz' : closer.Yields ([] ++ g :: []) z := hz
      exact (hz'.apart h hw).ne (List.cons.inj heq).1.symm
  | cons frame frames ih =>
    cases hx with
    | sequence hu hrest =>
      cases hy with
      | sequence hv hrest' => exact ih (hu.apart h hv) hrest hrest'
    | argument hu hrest =>
      cases hy with
      | argument hv hrest' => exact ih (hu.apart h.ne hv) hrest hrest'

end FormulaDrawing.Latex
