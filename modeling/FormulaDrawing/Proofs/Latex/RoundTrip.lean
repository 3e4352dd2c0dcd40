import FormulaDrawing.Proofs.Latex.Spelling

/-!
# Reading what was written

A formula in braces is read back as that formula wherever a part may stand, whatever is open around
it and whatever follows (`ReadsBack`): the braces shut its delimiters and bars off from those
outside, and no sign after its closing brace can reach into it. Each structure reads back if its
parts do, and so every formula does (`readsBack`).

    run a ⟨items, frames, .ready⟩ (braced (x.body word) ++ tail) =
      run a ⟨items, frames, .finished x⟩ tail

A source needs no more levels than it has characters, so a limit of its length is enough
(`parse_body`).
-/

namespace FormulaDrawing

namespace Formula

/-- A regular formula whose texts are balanced. -/
structure Writable (x : Formula) : Prop where
  regular : x.AllRegular
  balanced : ∀ s, .text s ∈ x.nodes → Latex.balanced 0 s.toList = true

theorem Writable.child {x y : Formula} (h : x.Writable) (hy : y ∈ x.children) : y.Writable := by
  refine ⟨(allRegular_iff.1 h.regular).2 y hy, fun s hs => h.balanced s ?_⟩
  rw [nodes_eq, List.mem_cons, List.mem_flatMap]
  exact .inr ⟨y, hy, hs⟩

end Formula

namespace Latex

open Unicode

variable {a : Allowance} {word : Leaf → List Char} {items xs : Array Formula} {frames : List Frame}

/-! ## States that go on alike -/

/-- Both states react alike to whatever follows. -/
def State.Alike (a : Allowance) (st st' : State) : Prop :=
  ∀ next, resolve a st next = resolve a st' next

theorem State.Alike.run {st st' : State} (h : st.Alike a st') (cs : List Char) :
    run a st cs = run a st' cs := by
  cases cs with
  | nil => rw [Latex.run, Latex.run, h]
  | cons c cs => exact run_congr (h _) cs

/-- A part of the root is an item of it. -/
theorem alike_root (x : Formula) :
    State.Alike a ⟨items, [], .finished x⟩ ⟨items.push x, [], .ready⟩ :=
  fun _ => rfl

/-- A part of a sequence is an item of it. -/
theorem alike_sequence (closer : Closer) (x : Formula) :
    State.Alike a ⟨items, .sequence closer xs :: frames, .finished x⟩
      ⟨items, .sequence closer (xs.push x) :: frames, .ready⟩ :=
  fun _ => rfl

theorem alike_script (side : ScriptSide) (x : Formula) :
    State.Alike a ⟨items, .argument (.script side) :: frames, .finished x⟩
      ⟨items, frames, .finished (.script side x)⟩ :=
  fun _ => rfl

theorem alike_denominator (n d : Formula) :
    State.Alike a ⟨items, .argument (.denominator n) :: frames, .finished d⟩
      ⟨items, frames, .finished (.fraction n d)⟩ :=
  fun _ => rfl

theorem alike_radicand (index : Option Formula) (x : Formula) :
    State.Alike a ⟨items, .argument (.radicand index) :: frames, .finished x⟩
      ⟨items, frames, .finished (.root index x)⟩ :=
  fun _ => rfl

theorem alike_approach (x : Formula) :
    State.Alike a ⟨items, .argument .approach :: frames, .finished x⟩
      ⟨items, frames, .finished (.limit (some x))⟩ :=
  fun _ => rfl

/-- After one limit a big operator waits for the other. -/
theorem alike_lowerLimit (op : BigOperator) (x : Formula) (upper : Option Formula) :
    State.Alike a ⟨items, .argument (.lowerLimit op upper) :: frames, .finished x⟩
      ⟨items, frames, .limits op (some x) upper⟩ := by
  intro next
  simp only [resolve, State.deliver, deliver]

theorem alike_upperLimit (op : BigOperator) (lower : Option Formula) (x : Formula) :
    State.Alike a ⟨items, .argument (.upperLimit op lower) :: frames, .finished x⟩
      ⟨items, frames, .limits op lower (some x)⟩ := by
  intro next
  simp only [resolve, State.deliver, deliver]

/-- A numerator before a brace is followed by its denominator. -/
theorem run_denominator (n : Formula) (tail : List Char) :
    run a ⟨items, .argument .numerator :: frames, .finished n⟩ ('\x7b' :: tail) =
      run a ⟨items, .argument (.denominator n) :: frames, .ready⟩ ('\x7b' :: tail) := by
  have hready : resolve a ⟨items, .argument (.denominator n) :: frames, .ready⟩ (some '\x7b') =
      .ok ⟨items, .argument (.denominator n) :: frames, .ready⟩ :=
    inert_brace.resolve_ready rfl
  refine run_congr ?_ tail
  rw [hready]
  simp only [resolve, State.deliver, deliver, closesAny_eq_false inert_brace.closes,
    Bool.false_eq_true, if_false]

/-! ## Opening and closing -/

theorem resolve_pushArgument {st : State} (hroom : a.used + st.frames.length + 1 ≤ a.limit)
    (next : Option Char) (slot : Slot) :
    pushArgument a st next slot =
      resolve a ⟨st.items, .argument slot :: st.frames, .ready⟩ next :=
  pushArgument_eq_ok_iff.2 ⟨hroom, rfl⟩

/-- An opening brace begins a sequence, also where an argument is waited for. -/
theorem run_brace (hroom : a.used + frames.length + 1 ≤ a.limit) (tail : List Char) :
    run a ⟨items, frames, .ready⟩ ('\x7b' :: tail) =
      run a ⟨items, .sequence .brace #[] :: frames, .ready⟩ tail := by
  refine run_step (inert_brace.resolve_ready rfl) ?_ tail
  rw [consume_eq, Move.of_eq_primary rfl (by decide) (by decide) inert_brace.closes]
  exact push_eq_ok_iff.2 ⟨hroom, rfl⟩

/-- In a sequence that does not close here a structure begins. -/
theorem run_push {closer : Closer} {c : Char} {frame : Frame} (hspace : isWhiteSpace c = false)
    (hclose : closer.char ≠ c) (hprimary : Move.primary c = .push frame)
    (hroom : a.used + frames.length + 2 ≤ a.limit) (tail : List Char) :
    run a ⟨items, .sequence closer xs :: frames, .ready⟩ (c :: tail) =
      run a ⟨items, frame :: .sequence closer xs :: frames, .ready⟩ tail := by
  refine run_step rfl ?_ tail
  have hconsume := @consume_primary a items xs frames closer c hspace hclose
  rw [hprimary] at hconsume
  exact hconsume.trans (push_eq_ok_iff.2 ⟨hroom, rfl⟩)

/-- A sequence closes at its character. -/
theorem run_close (closer : Closer) (tail : List Char) :
    run a ⟨items, .sequence closer xs :: frames, .ready⟩ (closer.char :: tail) =
      run a (closeSequence ⟨items, frames, .ready⟩ frames xs closer) tail := by
  refine run_step rfl ?_ tail
  cases closer <;> rfl

/-! ## Parts -/

/-- In braces a formula is read back wherever a part may stand. -/
def ReadsBack (a : Allowance) (word : Leaf → List Char) (x : Formula) : Prop :=
  ∀ items frames tail, a.used + frames.length + (braced (x.body word)).length ≤ a.limit →
    run a ⟨items, frames, .ready⟩ (braced (x.body word) ++ tail) =
      run a ⟨items, frames, .finished x⟩ tail

theorem length_braced (cs : List Char) : (braced cs).length = cs.length + 2 := by
  simp [braced]

theorem braced_append (cs tail : List Char) :
    braced cs ++ tail = '\x7b' :: (cs ++ '\x7d' :: tail) := by
  simp [braced]

/-- The items of a sequence read back as its items. -/
theorem run_bodyList {closer : Closer} {ys : List Formula} (h : ∀ y ∈ ys, ReadsBack a word y)
    (hroom : a.used + frames.length + 1 + (Formula.bodyList word ys).length ≤ a.limit)
    (tail : List Char) :
    run a ⟨items, .sequence closer xs :: frames, .ready⟩ (Formula.bodyList word ys ++ tail) =
      run a ⟨items, .sequence closer (xs ++ ys.toArray) :: frames, .ready⟩ tail := by
  induction ys generalizing xs with
  | nil => simp [Formula.bodyList]
  | cons y ys ih =>
    rw [List.forall_mem_cons] at h
    rw [Formula.bodyList, List.length_append] at hroom
    rw [Formula.bodyList, List.append_assoc,
      h.1 _ _ _ (by simp only [List.length_cons]; omega), (alike_sequence closer y).run,
      ih h.2 (by omega)]
    simp

/-- The items of the root read back as its items. -/
theorem run_bodyList_root {ys : List Formula} (h : ∀ y ∈ ys, ReadsBack a word y)
    (hroom : a.used + (Formula.bodyList word ys).length ≤ a.limit) (tail : List Char) :
    run a ⟨items, [], .ready⟩ (Formula.bodyList word ys ++ tail) =
      run a ⟨items ++ ys.toArray, [], .ready⟩ tail := by
  induction ys generalizing items with
  | nil => simp [Formula.bodyList]
  | cons y ys ih =>
    rw [List.forall_mem_cons] at h
    rw [Formula.bodyList, List.length_append] at hroom
    rw [Formula.bodyList, List.append_assoc,
      h.1 _ _ _ (by simp only [List.length_nil]; omega), (alike_root y).run, ih h.2 (by omega)]
    simp

/-- What is one part inside the braces is that part with them. -/
theorem readsBack_of_part {x : Formula}
    (h : ∀ items frames tail, a.used + frames.length + 2 + (x.body word).length ≤ a.limit →
      run a ⟨items, .sequence .brace #[] :: frames, .ready⟩ (x.body word ++ '\x7d' :: tail) =
        run a ⟨items, .sequence .brace #[] :: frames, .finished x⟩ ('\x7d' :: tail)) :
    ReadsBack a word x := by
  intro items frames tail hroom
  rw [length_braced] at hroom
  rw [braced_append, run_brace (by omega), h items frames tail (by omega),
    (alike_sequence .brace x).run]
  exact run_close .brace tail

theorem readsBack_leaf {l : Leaf} (hl : (Formula.leaf l).Writable) (hw : l.Written (word l)) :
    ReadsBack a word (.leaf l) := by
  refine readsBack_of_part fun items frames tail _ => ?_
  refine run_leaf (Formula.allRegular_iff.1 hl.regular).1 (fun s hs => ?_) hw tail
  refine hl.balanced s ?_
  rw [hs, Formula.nodes_eq]
  exact List.mem_cons_self

theorem readsBack_group {ys : List Formula} (hone : ys.length ≠ 1)
    (h : ∀ y ∈ ys, ReadsBack a word y) : ReadsBack a word (.group ys) := by
  intro items frames tail hroom
  rw [length_braced, Formula.body] at hroom
  rw [braced_append, Formula.body, run_brace (by omega), run_bodyList h (by omega)]
  -- a group of one part would collapse to it here
  have hclosed := @run_close a items (#[] ++ ys.toArray) frames .brace tail
  rw [closeSequence, Array.empty_append, collapse_of_length_ne hone] at hclosed
  rw [Array.empty_append]
  exact hclosed

theorem readsBack_delimited (d : Delimiter) {ys : List Formula}
    (h : ∀ y ∈ ys, ReadsBack a word y) : ReadsBack a word (.delimited d ys) := by
  refine readsBack_of_part fun items frames tail hroom => ?_
  simp only [Formula.body, List.length_cons, List.length_append, List.length_nil] at hroom
  have hitems : ∀ closer : Closer, run a ⟨items, .sequence closer #[] :: .sequence .brace #[] ::
      frames, .ready⟩ (Formula.bodyList word ys ++ closer.char :: '\x7d' :: tail) =
      run a (closeSequence ⟨items, .sequence .brace #[] :: frames, .ready⟩
        (.sequence .brace #[] :: frames) ys.toArray closer) ('\x7d' :: tail) := by
    intro closer
    rw [run_bodyList h (by simp only [List.length_cons]; omega), Array.empty_append, run_close]
  rw [Formula.body, List.cons_append, List.append_assoc]
  cases d with
  | parentheses =>
    rw [run_push (by decide) (by decide) rfl (by omega)]
    exact hitems .parenthesis
  | bars =>
    rw [run_push (by decide) (by decide) rfl (by omega)]
    exact hitems .bar

theorem readsBack_script (side : ScriptSide) {x : Formula} (h : ReadsBack a word x) :
    ReadsBack a word (.script side x) := by
  refine readsBack_of_part fun items frames tail hroom => ?_
  rw [Formula.body, List.length_cons] at hroom
  have hcontent : run a ⟨items, .argument (.script side) :: .sequence .brace #[] :: frames, .ready⟩
      (braced (x.body word) ++ '\x7d' :: tail) =
      run a ⟨items, .sequence .brace #[] :: frames, .finished (.script side x)⟩
        ('\x7d' :: tail) := by
    rw [h _ _ _ (by simp only [List.length_cons]; omega), (alike_script side x).run]
  rw [Formula.body, List.cons_append]
  cases side with
  | superscript => rw [run_push (by decide) (by decide) rfl (by omega), hcontent]
  | subscript => rw [run_push (by decide) (by decide) rfl (by omega), hcontent]

theorem readsBack_fraction {n d : Formula} (hn : ReadsBack a word n) (hd : ReadsBack a word d) :
    ReadsBack a word (.fraction n d) := by
  refine readsBack_of_part fun items frames tail hroom => ?_
  have hlist : (Formula.fraction n d).body word ++ '\x7d' :: tail =
      '\\' :: ("frac".toList ++ '\x7b' :: (n.body word ++ '\x7d' ::
        (braced (d.body word) ++ '\x7d' :: tail))) := by
    simp [Formula.body, braced]
  simp only [Formula.body, List.length_append, length_braced] at hroom
  have hcommand : resolveCommand a ⟨items, .sequence .brace #[] :: frames, .ready⟩ (some '\x7b')
      (.ofName "frac") = resolve a ⟨items, .argument .numerator :: .sequence .brace #[] :: frames,
        .ready⟩ (some '\x7b') :=
    resolve_pushArgument (by simp only [List.length_cons]; omega) _ _
  rw [hlist, run_command rfl (by decide) (by decide) (by decide) hcommand, ← braced_append,
    hn _ _ _ (by simp only [List.length_cons, length_braced]; omega), braced_append,
    run_denominator, ← braced_append,
    hd _ _ _ (by simp only [List.length_cons, length_braced]; omega), (alike_denominator n d).run]

/-- The content of a root follows the sign or its index. -/
theorem run_radicand {index : Option Formula} {x : Formula} (h : ReadsBack a word x)
    (hroom : a.used + frames.length + 1 + (braced (x.body word)).length ≤ a.limit)
    (tail : List Char) :
    run a ⟨items, .argument (.radicand index) :: frames, .ready⟩ (braced (x.body word) ++ tail) =
      run a ⟨items, frames, .finished (.root index x)⟩ tail := by
  rw [h _ _ _ (by simp only [List.length_cons]; omega), (alike_radicand index x).run]

/-- An index in brackets is followed by the content. -/
theorem run_index {i : Formula} (h : ReadsBack a word i)
    (hroom : a.used + frames.length + 1 + (braced (i.body word)).length ≤ a.limit)
    (tail : List Char) :
    run a ⟨items, frames, .radical⟩ ('[' :: (braced (i.body word) ++ ']' :: tail)) =
      run a ⟨items, .argument (.radicand (some i)) :: frames, .ready⟩ tail := by
  have hopen : consume a ⟨items, frames, .radical⟩ '[' =
      .ok ⟨items, .sequence .bracket #[] :: frames, .ready⟩ :=
    push_eq_ok_iff.2 ⟨by simp only; omega, rfl⟩
  rw [run_step rfl hopen, h _ _ _ (by simp only [List.length_cons]; omega),
    (alike_sequence .bracket i).run]
  exact run_close .bracket tail

theorem readsBack_root {index : Option Formula} {x : Formula}
    (hindex : ∀ i ∈ index, ReadsBack a word i) (hx : ReadsBack a word x) :
    ReadsBack a word (.root index x) := by
  refine readsBack_of_part fun items frames tail hroom => ?_
  have hcommand : ∀ c : Char, resolveCommand a ⟨items, .sequence .brace #[] :: frames, .ready⟩
      (some c) (.ofName "sqrt") =
      resolve a ⟨items, .sequence .brace #[] :: frames, .radical⟩ (some c) :=
    fun _ => rfl
  cases index with
  | none =>
    have hlist : (Formula.root none x).body word ++ '\x7d' :: tail =
        '\\' :: ("sqrt".toList ++ '\x7b' :: (x.body word ++ '\x7d' :: '\x7d' :: tail)) := by
      simp [Formula.body, Formula.bodyOption, braced]
    simp only [Formula.body, Formula.bodyOption, List.length_append, length_braced] at hroom
    have hradicand : resolve a ⟨items, .sequence .brace #[] :: frames, .radical⟩ (some '\x7b') =
        resolve a ⟨items, .argument (.radicand none) :: .sequence .brace #[] :: frames, .ready⟩
          (some '\x7b') :=
      resolve_pushArgument (by simp only [List.length_cons]; omega) _ _
    rw [hlist, run_command rfl (by decide) (by decide) (by decide) (hcommand _),
      run_congr hradicand, ← braced_append,
      run_radicand hx (by simp only [List.length_cons, length_braced]; omega)]
  | some i =>
    have hlist : (Formula.root (some i) x).body word ++ '\x7d' :: tail =
        '\\' :: ("sqrt".toList ++ '[' :: (braced (i.body word) ++ ']' ::
          (braced (x.body word) ++ '\x7d' :: tail))) := by
      simp [Formula.body, Formula.bodyOption]
    simp only [Formula.body, Formula.bodyOption, List.length_append, length_braced] at hroom
    rw [hlist, run_command rfl (by decide) (by decide) (by decide) (hcommand _),
      run_index (hindex i rfl) (by simp only [List.length_cons, length_braced]; omega),
      run_radicand hx (by simp only [List.length_cons, length_braced]; omega)]

/-- The limits of a big operator are read in their order, and each may be absent. -/
theorem run_limits (op : BigOperator) {lower upper : Option Formula}
    (hlower : ∀ l ∈ lower, ReadsBack a word l) (hupper : ∀ u ∈ upper, ReadsBack a word u)
    (hroom : a.used + frames.length + (Formula.bodyOption word ['_'] [] lower).length +
      (Formula.bodyOption word ['^'] [] upper).length ≤ a.limit) (tail : List Char) :
    run a ⟨items, frames, .limits op none none⟩ (Formula.bodyOption word ['_'] [] lower ++
        (Formula.bodyOption word ['^'] [] upper ++ tail)) =
      run a ⟨items, frames, .limits op lower upper⟩ tail := by
  -- the upper limit comes last, whether or not there was a lower one
  have hup : ∀ lower, run a ⟨items, frames, .limits op lower none⟩
      (Formula.bodyOption word ['^'] [] upper ++ tail) =
      run a ⟨items, frames, .limits op lower upper⟩ tail := by
    intro lower
    cases upper with
    | none => rfl
    | some u =>
      simp only [Formula.bodyOption, List.length_append, List.length_singleton] at hroom
      have hpush : consume a ⟨items, frames, .limits op lower none⟩ '^' =
          .ok ⟨items, .argument (.upperLimit op lower) :: frames, .ready⟩ :=
        push_eq_ok_iff.2 ⟨by simp only; omega, rfl⟩
      have hawait : resolve a ⟨items, frames, .limits op lower none⟩ (some '^') =
          .ok ⟨items, frames, .limits op lower none⟩ := by
        simp [resolve, awaitsLimit]
      simp only [Formula.bodyOption, List.append_nil, List.cons_append, List.nil_append]
      rw [run_step hawait hpush, hupper u rfl _ _ _ (by simp only [List.length_cons]; omega),
        (alike_upperLimit op lower u).run]
  cases lower with
  | none => exact hup none
  | some l =>
    simp only [Formula.bodyOption, List.length_append, List.length_singleton] at hroom
    have hpush : consume a ⟨items, frames, .limits op none none⟩ '_' =
        .ok ⟨items, .argument (.lowerLimit op none) :: frames, .ready⟩ :=
      push_eq_ok_iff.2 ⟨by simp only; omega, rfl⟩
    have hawait : resolve a ⟨items, frames, .limits op none none⟩ (some '_') =
        .ok ⟨items, frames, .limits op none none⟩ := by
      simp [resolve, awaitsLimit]
    simp only [Formula.bodyOption, List.append_nil, List.cons_append, List.nil_append]
    rw [run_step hawait hpush, hlower l rfl _ _ _ (by simp only [List.length_cons]; omega),
      (alike_lowerLimit op l none).run, hup]

/-- What follows the command of a structure with limits is no letter. -/
theorem exists_notAlpha (lower upper : Option Formula) (tail : List Char) :
    ∃ c cs, Formula.bodyOption word ['_'] [] lower ++
        (Formula.bodyOption word ['^'] [] upper ++ '\x7d' :: tail) = c :: cs ∧
      c.isAlpha = false := by
  cases lower with
  | some l => exact ⟨'_', _, rfl, by decide⟩
  | none =>
    cases upper with
    | some u => exact ⟨'^', _, rfl, by decide⟩
    | none => exact ⟨'\x7d', tail, rfl, by decide⟩

theorem run_bigOperatorCommand (op : BigOperator) {c : Char} (hc : c.isAlpha = false)
    (tail : List Char) :
    run a ⟨items, frames, .ready⟩ (op.word ++ c :: tail) =
      run a ⟨items, frames, .limits op none none⟩ (c :: tail) := by
  cases op with
  | integral =>
    exact @run_command a ⟨items, frames, .ready⟩ rfl "int" (by decide) (by decide) c hc
      ⟨items, frames, .limits .integral none none⟩ rfl tail
  | sum =>
    exact @run_command a ⟨items, frames, .ready⟩ rfl "sum" (by decide) (by decide) c hc
      ⟨items, frames, .limits .sum none none⟩ rfl tail

theorem readsBack_bigOperator (op : BigOperator) {lower upper : Option Formula}
    (hlower : ∀ l ∈ lower, ReadsBack a word l) (hupper : ∀ u ∈ upper, ReadsBack a word u) :
    ReadsBack a word (.bigOperator op lower upper) := by
  refine readsBack_of_part fun items frames tail hroom => ?_
  rw [Formula.body, List.length_append, List.length_append] at hroom
  obtain ⟨c, cs, hcs, hc⟩ := @exists_notAlpha word lower upper tail
  have hcommand : run a ⟨items, .sequence .brace #[] :: frames, .ready⟩
      ((Formula.bigOperator op lower upper).body word ++ '\x7d' :: tail) =
      run a ⟨items, .sequence .brace #[] :: frames, .limits op none none⟩
        (Formula.bodyOption word ['_'] [] lower ++
          (Formula.bodyOption word ['^'] [] upper ++ '\x7d' :: tail)) := by
    rw [Formula.body, List.append_assoc, List.append_assoc, hcs, run_bigOperatorCommand op hc]
  rw [hcommand, run_limits op hlower hupper (by simp only [List.length_cons]; omega)]
  have hspace : isWhiteSpace '\x7d' = false := by decide
  refine run_congr ?_ tail
  simp only [resolve, awaitsLimit, hspace]
  rfl

theorem readsBack_limit {approach : Option Formula} (h : ∀ x ∈ approach, ReadsBack a word x) :
    ReadsBack a word (.limit approach) := by
  refine readsBack_of_part fun items frames tail hroom => ?_
  have hcommand : ∀ {c : Char}, c.isAlpha = false → ∀ cs,
      run a ⟨items, .sequence .brace #[] :: frames, .ready⟩ ('\\' :: ("lim".toList ++ c :: cs)) =
        run a ⟨items, .sequence .brace #[] :: frames, .limit⟩ (c :: cs) :=
    fun hc cs => run_command rfl (by decide) (by decide) hc rfl cs
  cases approach with
  | none =>
    have hlist : (Formula.limit none).body word ++ '\x7d' :: tail =
        '\\' :: ("lim".toList ++ '\x7d' :: tail) := by
      simp [Formula.body, Formula.bodyOption]
    rw [hlist, hcommand (by decide)]
    exact run_congr rfl tail
  | some x =>
    have hlist : (Formula.limit (some x)).body word ++ '\x7d' :: tail =
        '\\' :: ("lim".toList ++ '_' :: (braced (x.body word) ++ '\x7d' :: tail)) := by
      simp [Formula.body, Formula.bodyOption]
    simp only [Formula.body, Formula.bodyOption, List.length_append, length_braced] at hroom
    have hpush : consume a ⟨items, .sequence .brace #[] :: frames, .limit⟩ '_' =
        .ok ⟨items, .argument .approach :: .sequence .brace #[] :: frames, .ready⟩ :=
      push_eq_ok_iff.2 ⟨by simp only [List.length_cons]; omega, rfl⟩
    rw [hlist, hcommand (by decide), run_step rfl hpush,
      h x rfl _ _ _ (by simp only [List.length_cons, length_braced]; omega), (alike_approach x).run]

/-- A formula that reading can give is read back from its braced spelling. By size, as a part is
read back if its own parts are. -/
theorem readsBack (hword : ∀ l : Leaf, l.Legible → l.Written (word l)) (x : Formula)
    (hx : x.Writable) : ReadsBack a word x := by
  induction x using Formula.size_induction with
  | step x ih =>
    have hparts : ∀ y ∈ x.children, ReadsBack a word y :=
      fun y hy => ih y (Formula.sizeOf_lt_of_mem_children hy) (hx.child hy)
    have hregular : x.Regular := (Formula.allRegular_iff.1 hx.regular).1
    cases x with
    | leaf l => exact readsBack_leaf hx (hword l hregular)
    | fraction n d =>
      exact readsBack_fraction (hparts n (by simp [Formula.children]))
        (hparts d (by simp [Formula.children]))
    | script side y => exact readsBack_script side (hparts y (by simp [Formula.children]))
    | root index y =>
      exact readsBack_root (fun i hi => hparts i (by simp_all [Formula.children]))
        (hparts y (by simp [Formula.children]))
    | bigOperator op lower upper =>
      exact readsBack_bigOperator op (fun l hl => hparts l (by simp_all [Formula.children]))
        (fun u hu => hparts u (by simp_all [Formula.children]))
    | limit approach =>
      exact readsBack_limit fun y hy => hparts y (by simp_all [Formula.children])
    | group xs => exact readsBack_group hregular hparts
    | delimited d xs => exact readsBack_delimited d hparts
    | equation xs => exact absurd hregular id

/-- Whatever is well formed, with balanced texts, is read back from any of its braced spellings, if
the limit is at least the length of that. -/
theorem parse_body (word : Leaf → List Char) (hword : ∀ l : Leaf, l.Legible → l.Written (word l))
    {t : Formula} (ht : t.WellFormed)
    (hbalanced : ∀ s, .text s ∈ t.nodes → balanced 0 s.toList = true) {limit : Nat}
    (hlimit : (t.body word).length ≤ limit) :
    parse (String.ofList (t.body word)) limit = t := by
  obtain ⟨items, rfl⟩ := ht.root
  have hitems : ∀ x ∈ items, ReadsBack ⟨0, limit⟩ word x := by
    intro x hx
    refine readsBack hword x ⟨ht.below x hx, fun s hs => hbalanced s ?_⟩
    rw [Formula.nodes_eq, List.mem_cons, List.mem_flatMap]
    exact .inr ⟨x, hx, hs⟩
  rw [Formula.body] at hlimit ⊢
  have hrun := @run_bodyList_root ⟨0, limit⟩ word #[] items hitems (by simpa using hlimit) []
  refine parse_of_read (read_eq_ok_iff.2 ⟨items, ?_, rfl⟩)
  rw [String.toList_ofList, ← List.append_nil (Formula.bodyList word items)]
  refine hrun.trans (run_nil_eq_complete_iff.2 ⟨_, rfl, ?_⟩)
  simp [finish, State.settle]

/-- Bars inside bars and a bracket inside the brackets of an index stay where they are. -/
theorem parse_body_index :
    parse ("\x7b\\sqrt[\x7b|\x7b|\x7bn\x7d|\x7d\x7b\\text\x7b]\x7b\x7d\x7d\x7d|\x7d]" ++
        "\x7b\\sum^\x7b2\x7d\x7d\x7d\x7b\x7b\\leq\x7d\x7b\\alpha\x7d\x7d") 70 =
      .equation [.root (some (.delimited .bars [.delimited .bars [.letter 'n'], .text "]\x7b\x7d"]))
        (.bigOperator .sum none (some (.number "2"))),
        .group [.operator '\u2264', .greek '\u03B1']] := by
  have hword : ∀ l : Leaf, l.Legible → l.Written l.word := fun l h => Leaf.word_written h
  refine @parse_body Leaf.word hword (.equation [.root (some (.delimited .bars [.delimited .bars
    [.letter 'n'], .text "]\x7b\x7d"])) (.bigOperator .sum none (some (.number "2"))),
    .group [.operator '\u2264', .greek '\u03B1']]) ⟨⟨_, rfl⟩, ?_⟩ ?_ 70 (by decide)
  · decide +kernel
  · simp [Formula.nodes, Formula.walk, Formula.walkList, Formula.walkOption, Formula.text,
      Formula.letter, Formula.number, Formula.operator, Formula.greek, balanced]

end Latex

end FormulaDrawing
