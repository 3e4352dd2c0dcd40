import FormulaDrawing.Proofs.Formula.Nodes
import FormulaDrawing.Proofs.Latex.Step

/-!
# What the machine builds

A property of parts, given by the number of frames around a part, is `Compositional` if it holds of
the leaves that are read and of whatever structure has parts with the property one frame further
in. Then it holds of all that a run delivers (`run_holds`).

`State.Holds` is the invariant: the property holds of the root's items, of what the frames keep
and of what the mode keeps, each at its own level.
-/

namespace FormulaDrawing

open Unicode

/-- The leaves that reading produces. -/
def Leaf.Legible : Leaf → Prop
  | .number digits => digits ≠ "" ∧ ∀ c ∈ digits.toList, c.isDigit ∨ c = '.'
  | .letter c => isAlphabetic c
  | .operator c =>
    (∃ d, normalizeOperator? d = some c) ∨ ∃ name, substitution? name = some (.operator c)
  | .greek c => ∃ name, greekLetter? name = some c
  | .function name => isFunctionName name
  | .text s => s ≠ ""

namespace Latex

/-- A property of the parts with `n` frames around them that is kept by putting parts together. -/
structure Compositional (limit : Nat) (P : Nat → Formula → Prop) : Prop where
  leaf : ∀ {n l}, n ≤ limit → Leaf.Legible l → P n (.leaf l)
  collapse : ∀ {n xs}, n ≤ limit → (∀ x ∈ xs, P (n + 1) x) → P n (.collapse xs)
  delimited : ∀ {n d xs}, n ≤ limit → (∀ x ∈ xs, P (n + 1) x) → P n (.delimited d xs)
  script : ∀ {n side x}, n ≤ limit → P (n + 1) x → P n (.script side x)
  fraction : ∀ {n x y}, n ≤ limit → P (n + 1) x → P (n + 1) y → P n (.fraction x y)
  root : ∀ {n index x}, n ≤ limit →
    (∀ i ∈ index, ∃ xs, Formula.collapse xs = i ∧ ∀ y ∈ xs, P (n + 1) y) → P (n + 1) x →
    P n (.root index x)
  bigOperator : ∀ {n op lower upper}, n ≤ limit → (∀ x ∈ lower, P (n + 1) x) →
    (∀ x ∈ upper, P (n + 1) x) → P n (.bigOperator op lower upper)
  limit : ∀ {n approach}, n ≤ limit → (∀ x ∈ approach, P (n + 1) x) → P n (.limit approach)

section

variable (P : Nat → Formula → Prop)

/-- What a slot with `n` frames up to it keeps for its structure. -/
def Slot.Holds (n : Nat) : Slot → Prop
  | .script _ | .numerator | .approach => True
  | .denominator x => P n x
  | .radicand index => ∀ i ∈ index, ∃ xs, Formula.collapse xs = i ∧ ∀ y ∈ xs, P n y
  | .lowerLimit _ upper => ∀ x ∈ upper, P n x
  | .upperLimit _ lower => ∀ x ∈ lower, P n x

/-- What the innermost of `n` frames keeps. -/
def Frame.Holds (n : Nat) : Frame → Prop
  | .sequence _ items => ∀ x ∈ items, P n x
  | .argument slot => slot.Holds P n

/-- What a stack of frames keeps. -/
def FramesHold : List Frame → Prop
  | [] => True
  | frame :: frames => frame.Holds P (frames.length + 1) ∧ FramesHold frames

/-- What a mode above `n` frames keeps. -/
def Mode.Holds (n : Nat) : Mode → Prop
  | .finished x => P n x
  | .number digits => digits ≠ [] ∧ ∀ c ∈ digits, c.isDigit ∨ c = '.'
  | .limits _ lower upper => (∀ x ∈ lower, P (n + 1) x) ∧ ∀ x ∈ upper, P (n + 1) x
  | .rawStart name => name ≠ ""
  | _ => True

/-- The property holds throughout a state. -/
structure State.Holds (limit : Nat) (st : State) : Prop where
  room : st.frames.length ≤ limit
  items : ∀ x ∈ st.items, P 0 x
  frames : FramesHold P st.frames
  mode : st.mode.Holds P st.frames.length

end

variable {limit : Nat} {P : Nat → Formula → Prop}

theorem Compositional.missing (hP : Compositional limit P) {n : Nat} (hn : n ≤ limit) :
    P n .missing := by
  show P n (.collapse [])
  exact hP.collapse hn (by simp)

/-- A part completes the structure of its slot. -/
theorem Slot.Holds.fill {n : Nat} {slot : Slot} (hslot : slot.Holds P (n + 1))
    (hP : Compositional limit P) (hn : n + 1 ≤ limit) {x : Formula} (hx : P (n + 1) x) :
    P n (slot.fill x) := by
  have hn' : n ≤ limit := by omega
  cases slot with
  | script side => exact hP.script hn' hx
  | numerator => exact hP.fraction hn' hx (hP.missing hn)
  | denominator y => exact hP.fraction hn' hslot hx
  | radicand index => exact hP.root hn' hslot hx
  | lowerLimit op upper => exact hP.bigOperator hn' (by simpa using hx) hslot
  | upperLimit op lower => exact hP.bigOperator hn' hslot (by simpa using hx)
  | approach => exact hP.limit hn' (by simpa using hx)

theorem State.Holds.ready {items : Array Formula} {frames : List Frame}
    (hroom : frames.length ≤ limit) (hitems : ∀ x ∈ items, P 0 x) (hframes : FramesHold P frames) :
    State.Holds P limit ⟨items, frames, .ready⟩ :=
  ⟨hroom, hitems, hframes, trivial⟩

theorem deliver_holds (hP : Compositional limit P) (next : Option Char) {items : Array Formula}
    {x : Formula} {frames : List Frame} (hroom : frames.length ≤ limit)
    (hitems : ∀ y ∈ items, P 0 y) (hframes : FramesHold P frames) (hx : P frames.length x) :
    (deliver next items x frames).Holds P limit := by
  fun_induction deliver next items x frames with
  | case1 x =>
    refine .ready hroom (fun y hy => ?_) hframes
    rcases Array.mem_push.1 hy with hy | rfl
    · exact hitems y hy
    · exact hx
  | case2 x closer xs frames =>
    refine .ready hroom hitems ⟨fun y hy => ?_, hframes.2⟩
    rcases Array.mem_push.1 hy with hy | rfl
    · exact hframes.1 y hy
    · exact hx
  | case3 x frames hclose ih =>
    simp only [List.length_cons] at hroom hx
    exact ih (by omega) hframes.2 (hP.fraction (by omega) hx (hP.missing hroom))
  | case4 x frames hclose => exact .ready hroom hitems ⟨hx, hframes.2⟩
  | case5 x frames op upper hawait =>
    exact ⟨Nat.le_of_succ_le hroom, hitems, hframes.2, by simpa using hx, hframes.1⟩
  | case6 x frames op upper hawait ih =>
    simp only [List.length_cons] at hroom hx
    have hslot : (Slot.lowerLimit op upper).Holds P (frames.length + 1) := hframes.1
    exact ih (by omega) hframes.2 (hslot.fill hP hroom hx)
  | case7 x frames op lower hawait =>
    exact ⟨Nat.le_of_succ_le hroom, hitems, hframes.2, hframes.1, by simpa using hx⟩
  | case8 x frames op lower hawait ih =>
    simp only [List.length_cons] at hroom hx
    have hslot : (Slot.upperLimit op lower).Holds P (frames.length + 1) := hframes.1
    exact ih (by omega) hframes.2 (hslot.fill hP hroom hx)
  | case9 x frames slot _ _ _ ih =>
    simp only [List.length_cons] at hroom hx
    have hslot : slot.Holds P (frames.length + 1) := hframes.1
    exact ih (by omega) hframes.2 (hslot.fill hP hroom hx)

theorem State.Holds.deliver (hP : Compositional limit P) (next : Option Char) {st : State}
    (hst : st.Holds P limit) {x : Formula} (hx : P st.frames.length x) :
    (st.deliver next x).Holds P limit :=
  deliver_holds hP next hst.room hst.items hst.frames hx

theorem State.Holds.settle (hP : Compositional limit P) (next : Option Char) {st : State}
    (hst : st.Holds P limit) : (st.settle next).Holds P limit := by
  unfold State.settle
  split
  · split
    · exact hst.deliver hP next (hP.missing hst.room)
    · exact hst
  · exact hst

theorem State.Holds.deliverNothing (hP : Compositional limit P) (next : Option Char) {st : State}
    (hst : st.Holds P limit) : (st.deliverNothing next).Holds P limit := by
  unfold State.deliverNothing
  split
  · exact hst.deliver hP next (hP.missing hst.room)
  · exact ⟨hst.room, hst.items, hst.frames, trivial⟩

/-! ## Leaves -/

theorem singleton_ne_empty (c : Char) : String.singleton c ≠ "" := by
  intro h
  have := congrArg String.length h
  simp at this

theorem ofList_reverse_ne_empty {cs : List Char} (h : cs ≠ []) :
    String.ofList cs.reverse ≠ "" := by
  intro hs
  have := congrArg String.toList hs
  simp [h] at this

/-- The leaf of a command is legible. -/
theorem Command.leafOfName_legible {name : String} (h : name ≠ "") :
    (Command.leafOfName name).Legible := by
  unfold Command.leafOfName
  split
  · next glyph hglyph => exact ⟨name, hglyph⟩
  · split
    · next hfun => exact hfun
    · split
      · next c hc => exact .inr ⟨name, hc⟩
      · exact singleton_ne_empty _
      · exact h

/-- The commands that reading meets. -/
def Command.Legible : Command → Prop
  | .rawText name => name ≠ ""
  | .leaf l => l.Legible
  | _ => True

theorem Command.ofName_legible {name : String} (h : name ≠ "") : (Command.ofName name).Legible := by
  unfold Command.ofName
  split
  · next command hlookup =>
    obtain ⟨l₁, l₂, hl, -⟩ := List.lookup_eq_some_iff.1 hlookup
    have hmem : (name, command) ∈ Command.structural := by rw [hl]; simp
    simp only [Command.structural, List.mem_cons, Prod.mk.injEq, List.not_mem_nil, or_false] at hmem
    rcases hmem with ⟨-, rfl⟩ | ⟨-, rfl⟩ | ⟨-, rfl⟩ | ⟨-, rfl⟩ | ⟨-, rfl⟩ | ⟨-, rfl⟩ | ⟨-, rfl⟩ |
      ⟨-, rfl⟩ | ⟨-, rfl⟩ | ⟨-, rfl⟩ | ⟨-, rfl⟩ | ⟨-, rfl⟩ | ⟨-, rfl⟩ | ⟨-, rfl⟩
    all_goals simp [Command.Legible]
  · exact Command.leafOfName_legible h

/-! ## Steps -/

/-- What a reaction brings to a state with `n` frames. -/
def Reaction.Holds (P : Nat → Formula → Prop) (n : Nat) : Reaction → Prop
  | .deliver x => P n x
  | .wait mode => mode.Holds P n
  | .argue slot => slot.Holds P (n + 1)
  | _ => True

theorem Reaction.ofRoot_holds {n : Nat} (next : Option Char) : (ofRoot next).Holds P n := by
  unfold ofRoot
  split
  · trivial
  · intro i hi
    cases hi

theorem Reaction.ofCommand_holds (hP : Compositional limit P) {n : Nat} (hn : n ≤ limit)
    (next : Option Char) (command : Command) (h : command.Legible) :
    (ofCommand next command).Holds P n := by
  cases command with
  | fraction | space => trivial
  | root => exact ofRoot_holds next
  | bigOperator op =>
    simp only [ofCommand]
    split
    · exact ⟨by simp, by simp⟩
    · exact hP.bigOperator hn (by simp) (by simp)
  | limit =>
    simp only [ofCommand]
    split
    · trivial
    · exact hP.limit hn (by simp)
  | sizing =>
    simp only [ofCommand]
    split <;> trivial
  | rawText name =>
    simp only [ofCommand]
    split
    · exact h
    · exact hP.leaf hn h
  | leaf l => exact hP.leaf hn h

/-- The reaction of a mode brings what the mode keeps. -/
theorem Reaction.of_holds (hP : Compositional limit P) {n : Nat} (hn : n ≤ limit)
    (next : Option Char) {mode : Mode} (h : mode.Holds P n) : (of mode next).Holds P n := by
  cases mode with
  | ready | skipped => trivial
  | finished x => exact h
  | number digits =>
    simp only [of]
    split
    · trivial
    · refine hP.leaf hn ⟨ofList_reverse_ne_empty h.1, fun c hc => h.2 c ?_⟩
      simpa using hc
  | command name =>
    cases name with
    | nil =>
      simp only [of]
      split
      · trivial
      · exact hP.leaf hn (by simp [Leaf.Legible])
    | cons c cs =>
      simp only [of]
      split
      · trivial
      · exact ofCommand_holds hP hn next _
          (Command.ofName_legible (ofList_reverse_ne_empty (List.cons_ne_nil c cs)))
  | limits op lower upper =>
    simp only [of]
    split
    · trivial
    · exact hP.bigOperator hn h.1 h.2
  | radical => exact ofRoot_holds next
  | limit => exact ofCommand_holds hP hn next .limit trivial
  | sizing => exact ofCommand_holds hP hn next .sizing trivial
  | rawStart name => exact ofCommand_holds hP hn next (.rawText name) h
  | raw text inner =>
    simp only [of, ofRaw]
    split
    · trivial
    · split
      · trivial
      · next ht =>
        refine hP.leaf hn (ofList_reverse_ne_empty ?_)
        simpa using ht

theorem resolve_holds (hP : Compositional limit P) {a : Allowance} (ha : a.limit = limit)
    {st st' : State} {next : Option Char} (hst : st.Holds P limit)
    (h : resolve a st next = .ok st') : st'.Holds P limit := by
  have hreact := Reaction.of_holds hP hst.room next hst.mode
  cases resolves_of_ok h with
  | stay => exact hst
  | settle => exact hst.settle hP next
  | skip => exact hst.deliverNothing hP next
  | wait mode hr =>
    rw [hr] at hreact
    exact ⟨hst.room, hst.items, hst.frames, hreact⟩
  | deliver x hr =>
    rw [hr] at hreact
    exact hst.deliver hP next hreact
  | argue slot hr hroom =>
    rw [hr] at hreact
    refine State.Holds.settle hP next (.ready ?_ hst.items ⟨hreact, hst.frames⟩)
    simp only [List.length_cons]
    omega

theorem closeSequence_holds (hP : Compositional limit P) {st : State} {frames : List Frame}
    {items : Array Formula} (hroom : frames.length + 1 ≤ limit) (hst : ∀ x ∈ st.items, P 0 x)
    (hframes : FramesHold P frames) (hitems : ∀ x ∈ items, P (frames.length + 1) x)
    (closer : Closer) : (closeSequence st frames items closer).Holds P limit := by
  have hn : frames.length ≤ limit := by omega
  have hlist : ∀ x ∈ items.toList, P (frames.length + 1) x :=
    fun x hx => hitems x (Array.mem_toList_iff.1 hx)
  cases closer with
  | brace => exact ⟨hn, hst, hframes, hP.collapse hn hlist⟩
  | parenthesis | bar => exact ⟨hn, hst, hframes, hP.delimited hn hlist⟩
  | bracket =>
    refine .ready hroom hst ⟨fun i hi => ?_, hframes⟩
    cases hi
    exact ⟨items.toList, rfl, hlist⟩

/-- What a move brings to a state with `n` frames. -/
def Move.Holds (P : Nat → Formula → Prop) (n : Nat) : Move → Prop
  | .turn mode => mode.Holds P n
  | .push frame => frame.Holds P (n + 1)
  | .close _ _ _ => True

theorem Move.primary_holds (hP : Compositional limit P) {n : Nat} (hn : n ≤ limit) (c : Char) :
    (primary c).Holds P n := by
  unfold primary
  split
  · trivial
  iterate 3
    split
    · intro x hx
      simp at hx
  iterate 2
    split
    · trivial
  split
  · next h =>
    refine ⟨List.cons_ne_nil _ _, fun d hd => ?_⟩
    rw [List.mem_singleton.1 hd]
    simpa using h
  split
  · next h => exact hP.leaf hn h
  split
  · next op h => exact hP.leaf hn (.inl ⟨c, h⟩)
  · exact hP.leaf hn (singleton_ne_empty c)

theorem digit_legible {c : Char} (h : c.isDigit) : (Leaf.number (String.singleton c)).Legible := by
  refine ⟨singleton_ne_empty c, fun d hd => ?_⟩
  simp at hd
  rw [hd]
  exact .inl h

theorem Move.ready_holds (hP : Compositional limit P) {mode : Mode} {frames : List Frame}
    (hn : frames.length ≤ limit) (hmode : mode.Holds P frames.length) (c : Char) :
    (ready mode frames c).Holds P frames.length := by
  unfold ready
  split
  · exact hmode
  · split
    · split
      · trivial
      · exact primary_holds hP hn c
    · split
      · next h => exact hP.leaf hn (digit_legible h)
      · exact primary_holds hP hn c
    · exact primary_holds hP hn c

theorem Mode.raw_holds {n : Nat} (hP : Compositional limit P) (hn : n ≤ limit) (text : List Char)
    (inner : Nat) (c : Char) : (Move.raw text inner c).Holds P n := by
  unfold Move.raw
  split
  · trivial
  · split
    · split
      · unfold rawResult
        split
        · trivial
        · next ht =>
          refine hP.leaf hn (ofList_reverse_ne_empty ?_)
          simpa using ht
      · trivial
    · trivial

theorem Mode.command_holds {n : Nat} (hP : Compositional limit P) (hn : n ≤ limit)
    (name : List Char) (c : Char) : (Move.command name c).Holds P n := by
  unfold Move.command
  split
  · trivial
  · split
    · trivial
    · exact hP.leaf hn (singleton_ne_empty c)

/-- The move at a character that was accepted brings what the state keeps. -/
theorem Move.of_holds (hP : Compositional limit P) {st : State} {c : Char}
    (hst : st.Holds P limit) (hc : st.mode.Accepts c) : (of st c).Holds P st.frames.length := by
  obtain ⟨items, frames, mode⟩ := st
  have hn : frames.length ≤ limit := hst.room
  have hmode : mode.Holds P frames.length := hst.mode
  cases mode with
  | ready | finished x | skipped => exact ready_holds hP hn hmode c
  | number digits =>
    refine ⟨List.cons_ne_nil _ _, fun d hd => ?_⟩
    rcases List.mem_cons.1 hd with rfl | hd
    · simpa [Mode.Accepts] using hc
    · exact hmode.2 d hd
  | command name => exact Mode.command_holds hP hn name c
  | raw text inner => exact Mode.raw_holds hP hn text inner c
  | sizing => trivial
  | limits op lower upper =>
    simp only [of]
    split
    · exact hmode.2
    · split
      · exact hmode.1
      · exact hmode
  | radical =>
    simp only [of]
    split
    · intro x hx
      simp at hx
    · trivial
  | limit =>
    simp only [of]
    split <;> trivial
  | rawStart name =>
    simp only [of]
    split
    · trivial
    · exact hmode

theorem consume_holds (hP : Compositional limit P) {a : Allowance} (ha : a.limit = limit)
    {st st' : State} {c : Char} (hst : st.Holds P limit) (hc : st.mode.Accepts c)
    (h : consume a st c = .ok st') : st'.Holds P limit := by
  have hmove := Move.of_holds hP hst hc
  cases consumes_of_ok h with
  | turn mode hm =>
    rw [hm] at hmove
    exact ⟨hst.room, hst.items, hst.frames, hmove⟩
  | push frame hm hroom =>
    rw [hm] at hmove
    refine .ready ?_ hst.items ⟨hmove, hst.frames⟩
    simp only [List.length_cons]
    omega
  | close closer items frames hm hf =>
    have hroom := hst.room
    have hframes := hst.frames
    rw [hf] at hroom hframes
    exact closeSequence_holds hP hroom hst.items hframes.2 hframes.1 closer

/-! ## Runs -/

theorem finish_holds (hP : Compositional limit P) {items : Array Formula} {pending : Option Formula}
    {frames : List Frame} (hroom : frames.length ≤ limit) (hitems : ∀ x ∈ items, P 0 x)
    (hframes : FramesHold P frames) (hpending : ∀ x ∈ pending, P frames.length x) :
    ∀ x ∈ finish items pending frames, P 0 x := by
  fun_induction finish items pending frames with
  | case1 => exact hitems
  | case2 x =>
    intro y hy
    rcases Array.mem_push.1 hy with hy | rfl
    · exact hitems y hy
    · exact hpending _ rfl
  | case3 pending slot frames ih =>
    simp only [List.length_cons] at hroom hpending
    refine ih (by omega) hframes.2 fun y hy => ?_
    cases hy
    have hslot : slot.Holds P (frames.length + 1) := hframes.1
    refine hslot.fill hP hroom ?_
    cases pending with
    | none => exact hP.missing hroom
    | some x => exact hpending x rfl
  | case4 pending closer xs frames contents x ih =>
    simp only [List.length_cons] at hroom hpending
    have hn : frames.length ≤ limit := by omega
    have hcontents : ∀ y ∈ contents, P (frames.length + 1) y := by
      intro y hy
      simp only [contents, Array.toList_append, List.mem_append, Array.mem_toList_iff] at hy
      rcases hy with hy | hy
      · exact hframes.1 y hy
      · exact hpending y (by simpa using hy)
    refine ih hn hframes.2 fun y hy => ?_
    cases hy
    cases closer with
    | brace => exact hP.collapse hn hcontents
    | parenthesis | bar => exact hP.delimited hn hcontents
    | bracket =>
      refine hP.root hn (fun i hi => ?_) (hP.missing hroom)
      cases hi
      exact ⟨contents, rfl, hcontents⟩

/-- A property kept by putting parts together holds of all that a run completes. -/
theorem run_holds (hP : Compositional limit P) {a : Allowance} (ha : a.limit = limit) {st : State}
    {cs : List Char} {items : List Formula} (hst : st.Holds P limit)
    (h : run a st cs = .complete items) : ∀ x ∈ items, P 0 x := by
  induction cs generalizing st with
  | nil =>
    obtain ⟨st1, hr, rfl⟩ := run_nil_eq_complete_iff.1 h
    have hst1 := resolve_holds hP ha hst hr
    intro x hx
    exact finish_holds hP hst1.room hst1.items hst1.frames (by simp) x (Array.mem_toList_iff.1 hx)
  | cons c cs ih =>
    obtain ⟨st1, st2, hr, hc, hs⟩ := run_cons_eq_complete_iff.1 h
    have hst1 := resolve_holds hP ha hst hr
    exact ih (consume_holds hP ha hst1 (resolve_accepts hr) hc) hs

theorem State.initial_holds : State.initial.Holds P limit :=
  ⟨Nat.zero_le _, by simp [State.initial], trivial, trivial⟩

/-! ## Depth -/

/-- A list of parts that are at most `n` deep, with room for one part. -/
theorem depth_collapse_le (xs : List Formula) {n : Nat} (hn : 1 ≤ n)
    (h : ∀ x ∈ xs, x.depth + 1 ≤ n) : (Formula.collapse xs).depth ≤ n := by
  have hgroup : (Formula.group xs).depth ≤ n := by
    have := Formula.depthList_le_iff.2 fun x hx => Nat.le_sub_one_of_lt (h x hx)
    simp only [Formula.depth]
    omega
  unfold Formula.collapse
  split
  · next x => exact Nat.le_of_succ_le (h x (by simp))
  · exact hgroup

/-- Each frame allows two levels of parts: an index that does not collapse is a level of its own
below its root. -/
theorem depth_compositional (limit : Nat) :
    Compositional limit fun n x => x.depth + 2 * n ≤ 2 * limit + 1 where
  leaf := by
    intro n l hn hl
    simp only [Formula.depth]
    omega
  collapse := by
    intro n xs hn hxs
    have hdepth : (Formula.collapse xs).depth ≤ 2 * (limit - n) + 1 := by
      refine depth_collapse_le xs (by omega) fun x hx => ?_
      have := hxs x hx
      omega
    omega
  delimited := by
    intro n d xs hn hxs
    have hdepth : Formula.depthList xs ≤ 2 * (limit - n) := by
      refine Formula.depthList_le_iff.2 fun x hx => ?_
      have := hxs x hx
      omega
    simp only [Formula.depth]
    omega
  script := by
    intro n side x hn hx
    simp only [Formula.depth]
    omega
  fraction := by
    intro n x y hn hx hy
    simp only [Formula.depth]
    omega
  root := by
    intro n index x hn hindex hx
    have hpos := x.depth_pos
    have hi : Formula.depthOption index ≤ 2 * (limit - n) := by
      refine Formula.depthOption_le_iff.2 fun i hi => ?_
      obtain ⟨xs, rfl, hxs⟩ := hindex i hi
      refine depth_collapse_le xs (by omega) fun y hy => ?_
      have := hxs y hy
      omega
    simp only [Formula.depth]
    omega
  bigOperator := by
    intro n op lower upper hn hlower hupper
    have hl : Formula.depthOption lower ≤ 2 * (limit - n) :=
      Formula.depthOption_le_iff.2 fun x hx => by
        have := hlower x hx
        omega
    have hu : Formula.depthOption upper ≤ 2 * (limit - n) :=
      Formula.depthOption_le_iff.2 fun x hx => by
        have := hupper x hx
        omega
    simp only [Formula.depth]
    omega
  limit := by
    intro n approach hn happroach
    have ha : Formula.depthOption approach ≤ 2 * (limit - n) :=
      Formula.depthOption_le_iff.2 fun x hx => by
        have := happroach x hx
        omega
    simp only [Formula.depth]
    omega

/-- What is read under a limit is at most twice as deep, and two levels. -/
theorem depth_of_read {source : String} {limit : Nat} {t : Formula}
    (h : read source limit = .ok t) : t.depth ≤ 2 * limit + 2 := by
  obtain ⟨items, hrun, rfl⟩ := read_eq_ok_iff.1 h
  have hitems := run_holds (depth_compositional limit) rfl State.initial_holds hrun
  have := (Formula.depthList_le_iff (n := 2 * limit + 1)).2 fun x hx => by simpa using hitems x hx
  simp only [Formula.depth]
  omega

end Latex

end FormulaDrawing
