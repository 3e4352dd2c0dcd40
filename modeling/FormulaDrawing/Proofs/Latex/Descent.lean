import FormulaDrawing.Latex.Descent
import FormulaDrawing.Proofs.Latex.RoundTrip
import Mathlib.Data.List.TakeWhile

/-!
# The machine follows the descent

The reading machine keeps on its stack what the recursive descent keeps in its calls. Where a part
of the descent starts, the machine is in a state for it, and where the part ends with `x`, the
machine goes on as if it had just finished `x` (`Tracks`):

    ending a cuts start cs = ending a p.cuts (.ok (done x)) p.rest

Each function of the descent is tracked if the level below it is; a level is tracked if the one
below it is or cannot be entered (`follows_levels`). So both read a text to the same answer and stop
at the same place (`read_eq`).

`ending` is a run together with what the end of the text cuts off: `State.cuts` says which cuts the
calls that are still open will note.
-/

namespace FormulaDrawing.Latex

open Unicode

/-! ## What the end of the text cuts off -/

/-- A numerator at the end of the text has no denominator. -/
def Slot.cuts : Slot → List Cut
  | .numerator => [.argument]
  | _ => []

/-- What is cut off in frames, innermost first. An argument that has begun is not missing. -/
def frameCuts : Bool → List Frame → List Cut
  | _, [] => []
  | _, .sequence closer _ :: frames =>
    .closer closer :: ((if closer = .bracket then [.argument] else []) ++ frameCuts true frames)
  | begun, .argument slot :: frames =>
    (if begun then [] else [.argument]) ++ (slot.cuts ++ frameCuts true frames)

def Mode.cuts : Mode → List Cut
  | .raw _ _ => [.rawText]
  | .command [] => [.command]
  | _ => []

def Reaction.cuts (frames : List Frame) : Reaction → List Cut
  | .settle => frameCuts false frames
  | .argue slot => frameCuts false (.argument slot :: frames)
  | _ => frameCuts true frames

/-- What is cut off if the text ends here. -/
def State.cuts (st : State) : List Cut :=
  st.mode.cuts ++ (Reaction.of st.mode none).cuts st.frames

/-- How a run ends from a start that may have failed, and what is cut off in all, after `cuts`. -/
def ending (a : Allowance) (cuts : List Cut) : Except Nat State → List Char → Outcome × List Cut
  | .error depth, cs => (.tooDeep depth cs, [])
  | .ok st, [] =>
    match resolve a st none with
    | .error depth => (.tooDeep depth [], [])
    | .ok st' => (.complete (finish st'.items none st'.frames).toList, cuts ++ st.cuts)
  | .ok st, c :: cs =>
    match resolve a st (some c) with
    | .error depth => (.tooDeep depth (c :: cs), [])
    | .ok st' => ending a cuts (consume a st' c) cs

variable {a : Allowance} {cuts : List Cut} {cs ds : List Char} {st st' : State}
  {start start' : Except Nat State}

theorem ending_fst (cuts : List Cut) (st : State) (cs : List Char) :
    (ending a cuts (.ok st) cs).1 = run a st cs := by
  induction cs generalizing st with
  | nil =>
    rw [ending, run]
    cases resolve a st none <;> rfl
  | cons c cs ih =>
    rw [ending, run]
    cases resolve a st (some c) with
    | error depth => rfl
    | ok st' =>
      simp only
      cases consume a st' c with
      | error depth => rw [ending]
      | ok st'' => exact ih st''

theorem ending_of_reach (h : reach a st cs = .ok st') (ds : List Char) :
    ending a cuts (.ok st) (cs ++ ds) = ending a cuts (.ok st') ds := by
  induction cs generalizing st with
  | nil => cases h; rfl
  | cons c cs ih =>
    obtain ⟨st₁, st₂, hresolve, hconsume, hreach⟩ := reach_cons_eq_ok_iff.1 h
    rw [List.cons_append, ending, hresolve]
    simp only [hconsume]
    exact ih hreach

/-! ## Going on alike -/

/-- A run goes on from one place as from another. -/
def Goes (a : Allowance) (start : Except Nat State) (cs : List Char) (start' : Except Nat State)
    (ds : List Char) : Prop :=
  ∀ cuts, ending a cuts start cs = ending a cuts start' ds

theorem Goes.of_step {c : Char} (hresolve : resolve a st (some c) = .ok st')
    (hconsume : consume a st' c = start) : Goes a (.ok st) (c :: cs) start cs := by
  intro cuts
  rw [ending, hresolve, ← hconsume]

theorem Goes.of_resolve (h : resolve a st cs.head? = resolve a st' cs.head?)
    (hcuts : cs = [] → st.cuts = st'.cuts) : Goes a (.ok st) cs (.ok st') cs := by
  intro cuts
  cases cs with
  | nil =>
    have hresolve : resolve a st none = resolve a st' none := h
    rw [ending, ending, hresolve, hcuts rfl]
  | cons c cs =>
    have hresolve : resolve a st (some c) = resolve a st' (some c) := h
    rw [ending, ending, hresolve]

theorem Goes.of_alike (h : st.Alike a st') (hcuts : st.cuts = st'.cuts) :
    Goes a (.ok st) cs (.ok st') cs :=
  .of_resolve (h _) fun _ => hcuts

/-- Where the lookahead calls for an argument its frame is pushed. -/
theorem Goes.of_argue {slot : Slot} (h : Reaction.of st.mode cs.head? = .argue slot)
    (hcuts : st.mode.cuts = []) : Goes a (.ok st) cs (push a st (.argument slot)) cs := by
  have hresolve : resolve a st cs.head? = pushArgument a st cs.head? slot := by
    rw [resolve_eq, h]
    rfl
  intro cuts
  cases hpush : push a st (.argument slot) with
  | error depth =>
    have herror : pushArgument a st cs.head? slot = .error depth :=
      pushArgument_eq_error_iff.2 (push_eq_error_iff.1 hpush)
    rw [herror] at hresolve
    cases cs with
    | nil =>
      have hnil : resolve a st none = .error depth := hresolve
      rw [ending, ending, hnil]
    | cons c cs =>
      have hcons : resolve a st (some c) = .error depth := hresolve
      rw [ending, ending, hcons]
  | ok st₁ =>
    obtain ⟨hroom, rfl⟩ := push_eq_ok_iff.1 hpush
    refine Goes.of_resolve ?_ ?_ cuts
    · rw [hresolve, resolve_pushArgument hroom]
    · rintro rfl
      have hnone : Reaction.of st.mode none = .argue slot := h
      rw [State.cuts, hcuts, hnone]
      rfl

/-! ## Tracking a part -/

/-- Where the sequences of frames stop, and at last the root. -/
def stops : List Frame → List (Option Closer)
  | [] => [none]
  | .sequence closer _ :: frames => some closer :: stops frames
  | .argument _ :: frames => stops frames

theorem any_stops (frames : List Frame) (c : Char) :
    (stops frames).any (Descent.stopsAt · c) = closesAny frames (some c) := by
  induction frames with
  | nil => rfl
  | cons frame frames ih =>
    cases frame with
    | argument slot => rw [stops, ih, closesAny_argument]
    | sequence closer items =>
      have hany : (stops (.sequence closer items :: frames)).any (Descent.stopsAt · c) =
          (closer.char == c || (stops frames).any (Descent.stopsAt · c)) := rfl
      rw [hany, ih]
      rfl

variable {α β : Type} {depth : Nat} {enclosing : List (Option Closer)} {f : Descent a.limit α}
  {done : α → State} {ends : α → List Char → Prop}

/-- An answer and the cursor it leaves are those of the machine: it goes on from `done x`, or it
fails there too. -/
def Tracked (a : Allowance) (before : Outcome × List Cut) (done : α → State)
    (ends : α → List Char → Prop) (result : Except Error α × Cursor) : Prop :=
  match result.1 with
  | .ok x =>
    ends x result.2.rest ∧ before = ending a result.2.cuts (.ok (done x)) result.2.rest
  | .error e =>
    ∃ tried, e = .nestingTooDeep tried a.limit ∧ before.1 = .tooDeep tried result.2.rest

/-- A part of the descent at `cs` does what the machine does from `start`. Where it gives an `x`,
the text left over satisfies `ends x`. -/
def Tracks (a : Allowance) (depth : Nat) (enclosing : List (Option Closer)) (cs : List Char)
    (f : Descent a.limit α) (start : Except Nat State) (done : α → State)
    (ends : α → List Char → Prop) : Prop :=
  ∀ cuts, Tracked a (ending a cuts start cs) done ends (f.run ⟨cs, depth, enclosing, cuts⟩)

namespace Tracks

theorem of_goes (h : Goes a start cs start' cs)
    (hf : Tracks a depth enclosing cs f start' done ends) :
    Tracks a depth enclosing cs f start done ends := by
  intro cuts
  rw [h cuts]
  exact hf cuts

/-- The machine may go on before the part does. -/
theorem pure {x : α} (h : Goes a start cs (.ok (done x)) cs) (hends : ends x cs) :
    Tracks a depth enclosing cs (Pure.pure x) start done ends :=
  fun cuts => ⟨hends, h cuts⟩

theorem bind {g : α → Descent a.limit β} {done' : β → State} {ends' : β → List Char → Prop}
    (hf : Tracks a depth enclosing cs f start done ends)
    (hg : ∀ x ds, ds <:+ cs → ends x ds →
      Tracks a depth enclosing ds (g x) (.ok (done x)) done' ends') :
    Tracks a depth enclosing cs (f >>= g) start done' ends' := by
  intro cuts
  have hfirst := hf cuts
  have hleaves := f.leaves ⟨cs, depth, enclosing, cuts⟩
  show Tracked _ _ _ _ ((f.andThen g).run _)
  rw [Descent.run_andThen]
  cases hrun : f.run ⟨cs, depth, enclosing, cuts⟩ with
  | mk answer p =>
    rw [hrun] at hfirst hleaves
    obtain ⟨rest, depth', enclosing', cuts'⟩ := p
    cases answer with
    | error e => exact hfirst
    | ok x =>
      obtain ⟨hends, hgoes⟩ := hfirst
      have hdepth : depth' = depth := hleaves.depth
      have henclosing : enclosing' = enclosing := hleaves.enclosing
      subst hdepth henclosing
      rw [hgoes]
      exact hg x rest hleaves.rest hends cuts'

/-- A part whose answer is turned into another. -/
theorem map {g : α → β} {done' : β → State} (hf : Tracks a depth enclosing cs f start done ends)
    (hdone : ∀ x ds, ends x ds → Goes a (.ok (done x)) ds (.ok (done' (g x))) ds) :
    Tracks a depth enclosing cs (f >>= fun x => Pure.pure (g x)) start done' fun _ _ => True :=
  hf.bind fun x ds _ hends => pure (hdone x ds hends) trivial

theorem peek {g : Option Char → Descent a.limit α}
    (h : Tracks a depth enclosing cs (g cs.head?) start done ends) :
    Tracks a depth enclosing cs (Descent.peek >>= g) start done ends :=
  h

theorem advance {c : Char} {g : Option Char → Descent a.limit α}
    (hgoes : Goes a start (c :: cs) start' cs)
    (h : Tracks a depth enclosing cs (g (some c)) start' done ends) :
    Tracks a depth enclosing (c :: cs) (Descent.advance >>= g) start done ends := by
  intro cuts
  rw [hgoes cuts]
  exact h cuts

theorem advance_nil {g : Option Char → Descent a.limit α}
    (h : Tracks a depth enclosing [] (g none) start done ends) :
    Tracks a depth enclosing [] (Descent.advance >>= g) start done ends :=
  h

theorem takeWhile {kind : Char → Bool} {g : List Char → Descent a.limit α}
    (hgoes : Goes a start cs start' (cs.dropWhile kind))
    (h : Tracks a depth enclosing (cs.dropWhile kind) (g (cs.takeWhile kind)) start' done ends) :
    Tracks a depth enclosing cs (Descent.takeWhile kind >>= g) start done ends := by
  intro cuts
  rw [hgoes cuts]
  exact h cuts

theorem closesEnclosing {c : Char} {g : Bool → Descent a.limit α}
    (h : Tracks a depth enclosing cs (g (enclosing.any (Descent.stopsAt · c))) start done ends) :
    Tracks a depth enclosing cs (Descent.closesEnclosing c >>= g) start done ends :=
  h

theorem note {cut : Cut} {g : Unit → Descent a.limit α}
    (hgoes : ∀ cuts, ending a cuts start cs = ending a (cuts ++ [cut]) start' cs)
    (h : Tracks a depth enclosing cs (g ()) start' done ends) :
    Tracks a depth enclosing cs (Descent.note cut >>= g) start done ends := by
  intro cuts
  rw [hgoes cuts]
  exact h (cuts ++ [cut])

theorem inside {stop : Option Closer}
    (h : Tracks a depth (stop :: enclosing) cs f start done ends) :
    Tracks a depth enclosing cs (Descent.inside stop f) start done ends :=
  h

/-- A level deeper the machine has one frame more. -/
theorem nested {frame : Frame} (hdepth : depth = a.used + st.frames.length)
    (h : depth + 1 ≤ a.limit → Tracks a (depth + 1) enclosing cs f
      (.ok ⟨st.items, frame :: st.frames, .ready⟩) done ends) :
    Tracks a depth enclosing cs (Descent.nested f) (push a st frame) done
      fun x ds => depth + 1 ≤ a.limit ∧ ends x ds := by
  intro cuts
  by_cases hroom : depth + 1 ≤ a.limit
  · have hpush : push a st frame = .ok ⟨st.items, frame :: st.frames, .ready⟩ :=
      push_eq_ok_iff.2 ⟨by omega, rfl⟩
    have hf := h hroom cuts
    rw [Descent.run_nested_of_le f hroom, hpush]
    unfold Tracked at hf ⊢
    cases hanswer : (f.run ⟨cs, depth + 1, enclosing, cuts⟩).1 with
    | error e =>
      simp only [hanswer] at hf ⊢
      exact hf
    | ok x =>
      simp only [hanswer] at hf ⊢
      exact ⟨⟨hroom, hf.1⟩, hf.2⟩
  · have hpush : push a st frame = .error (depth + 1) :=
      push_eq_error_iff.2 ⟨by omega, by omega⟩
    rw [Descent.run_nested_of_lt f (by simp only; omega), hpush]
    exact ⟨depth + 1, rfl, by rw [ending]⟩

end Tracks

/-! ## Text -/

/-- White space leaves the modes that wait for something after it as they are. -/
theorem Mode.Skips.step (h : st.mode.Skips) {c : Char} (hc : isWhiteSpace c = true) :
    resolve a st (some c) = .ok st ∧ consume a st c = .ok st := by
  have hne : ∀ d, isWhiteSpace d = false → c ≠ d := by
    rintro d hd rfl
    rw [hd] at hc
    cases hc
  have hlower := hne '_' (by decide)
  have hupper := hne '^' (by decide)
  have hbracket := hne '[' (by decide)
  have hbrace := hne '\x7b' (by decide)
  obtain ⟨items, frames, mode⟩ := st
  cases mode with
  | ready =>
    refine ⟨congrArg Except.ok (settle_of_closesAny (closesAny_of_isWhiteSpace hc)), ?_⟩
    show consumeReady a _ c = _
    rw [consumeReady, if_pos hc]
  | limits op lower upper =>
    simp [resolve, consume, awaitsLimit_of_isWhiteSpace hc, hlower, hupper]
  | radical => simp [resolve, resolveRadical, consume, hc, hbracket, State.withMode]
  | limit => simp [resolve, resolveCommand, consume, hc, hlower, State.withMode]
  | rawStart name => simp [resolve, resolveCommand, consume, hc, hbrace, State.withMode]
  | _ => exact h.elim

theorem Goes.of_skips (h : st.mode.Skips) (cs : List Char) :
    Goes a (.ok st) cs (.ok st) (cs.dropWhile isWhiteSpace) := by
  induction cs with
  | nil => exact fun _ => rfl
  | cons c cs ih =>
    cases hc : isWhiteSpace c with
    | false =>
      rw [List.dropWhile_cons_of_neg (by simp [hc])]
      exact fun _ => rfl
    | true =>
      rw [List.dropWhile_cons_of_pos hc]
      obtain ⟨hresolve, hconsume⟩ := h.step (a := a) hc
      exact fun cuts => (Goes.of_step hresolve hconsume cuts).trans (ih cuts)

theorem any_head?_dropWhile {α : Type} (kind : α → Bool) (xs : List α) :
    (xs.dropWhile kind).head?.any kind = false := by
  have hnot := List.head?_dropWhile_not kind xs
  cases h : (xs.dropWhile kind).head? with
  | none => rfl
  | some x =>
    rw [h] at hnot
    exact hnot

/-- White space is skipped up to a character that is none. -/
theorem Tracks.skipWhiteSpace {g : Option Char → Descent a.limit α} (hst : st.mode.Skips)
    (h : ∀ ds, ds <:+ cs → ds.head?.any isWhiteSpace = false →
      Tracks a depth enclosing ds (g ds.head?) (.ok st) done ends) :
    Tracks a depth enclosing cs (Descent.skipWhiteSpace >>= fun _ => Descent.peek >>= g) (.ok st)
      done ends :=
  Tracks.takeWhile (.of_skips hst cs)
    (Tracks.peek (h _ (List.dropWhile_suffix _) (any_head?_dropWhile isWhiteSpace cs)))

variable {items : Array Formula} {frames : List Frame}

/-- After a part, or after a command without ink. -/
def Mode.ofPart : Option Formula → Mode
  | some x => .finished x
  | none => .skipped

theorem tracks_number (c : Char) :
    Tracks a depth enclosing cs (Descent.number c) (.ok ⟨items, frames, .number [c]⟩)
      (fun x => ⟨items, frames, .finished x⟩) fun _ _ => True := by
  have hnumeric : ∀ d ∈ cs.takeWhile Descent.isNumeric, Descent.isNumeric d = true :=
    fun _ => List.mem_takeWhile_imp
  have hreach : reach a (State.withMode ⟨items, frames, .ready⟩ (.number [c]))
      (cs.takeWhile Descent.isNumeric) = .ok _ :=
    reach_digits hnumeric [c]
  have hgoes : Goes a _ (cs.takeWhile Descent.isNumeric ++ cs.dropWhile Descent.isNumeric) _ _ :=
    fun _ => ending_of_reach hreach _
  rw [List.takeWhile_append_dropWhile] at hgoes
  refine Tracks.takeWhile hgoes (Tracks.pure (.of_resolve ?_ fun hnil => ?_) trivial)
  · have hend : ((cs.dropWhile Descent.isNumeric).head?.any fun d => d.isDigit || d == '.') =
        false := any_head?_dropWhile Descent.isNumeric cs
    simp [resolve, State.withMode, State.deliver, hend]
  · rfl

/-- Literal text is taken up to the brace that closes the one before it, or to the end. -/
theorem ending_raw (inner : Nat) (text cs : List Char) (cuts : List Cut) :
    ending a cuts (.ok (st.withMode (.raw text inner))) cs =
      ending a (if (Descent.literal inner cs).2.isSome then cuts else cuts ++ [.rawText])
        (.ok (st.withMode (rawResult ((Descent.literal inner cs).1.reverse ++ text))))
        ((Descent.literal inner cs).2.getD []) := by
  have hstep : ∀ {inner : Nat} {text : List Char} {c : Char} {cs : List Char},
      Goes a (.ok (st.withMode (.raw text inner))) (c :: cs)
        (.ok (st.withMode (Move.raw text inner c))) cs := fun {inner text c cs} =>
    Goes.of_step rfl (consume_eq a _ c)
  fun_induction Descent.literal inner cs generalizing text with
  | case1 inner =>
    have hend : resolve a (st.withMode (.raw text inner)) none =
          resolve a (st.withMode (rawResult text)) none ∧
        (st.withMode (.raw text inner)).cuts = .rawText :: (st.withMode (rawResult text)).cuts := by
      by_cases ht : text.isEmpty
      · rw [rawResult, if_pos ht]
        simp [resolve, State.cuts, Reaction.of, Reaction.ofRaw, rawResult, ht, State.withMode,
          State.deliverNothing, State.deliver, Mode.cuts, Reaction.cuts]
      · rw [rawResult, if_neg ht]
        simp [resolve, State.cuts, Reaction.of, Reaction.ofRaw, rawResult, ht, State.withMode,
          State.deliver, Mode.cuts, Reaction.cuts]
    show ending a cuts _ [] = ending a (cuts ++ [.rawText]) (.ok (st.withMode (rawResult text))) []
    rw [ending, ending, hend.1, hend.2, List.append_assoc]
    rfl
  | case2 inner cs ih =>
    have hmove : Move.raw text inner '\x7b' = .raw ('\x7b' :: text) (inner + 1) := rfl
    rw [hstep cuts, hmove, ih]
    simp
  | case3 cs hopen => exact hstep cuts
  | case4 cs inner hopen ih =>
    have hmove : Move.raw text (inner + 1) '\x7d' = .raw ('\x7d' :: text) inner := rfl
    rw [hstep cuts, hmove, ih]
    simp
  | case5 inner c cs hopen hclose ih =>
    have hmove : Move.raw text inner c = .raw (c :: text) inner := by
      unfold Move.raw
      rw [if_neg hopen, if_neg hclose]
    rw [hstep cuts, hmove, ih]
    simp

theorem Tracks.literalText {g : List Char → Descent a.limit α}
    (h : Tracks a depth enclosing ((Descent.literal 0 cs).2.getD []) (g (Descent.literal 0 cs).1)
      (.ok (st.withMode (rawResult (Descent.literal 0 cs).1.reverse))) done ends) :
    Tracks a depth enclosing cs (Descent.literalText >>= g) (.ok (st.withMode (.raw [] 0))) done
      ends := by
  intro cuts
  rw [ending_raw 0 [] cs cuts, List.append_nil]
  exact h _

/-! ## Commands without arguments -/

/-- Names of commands are read to their end. -/
theorem goes_name (cs : List Char) :
    Goes a (.ok ⟨items, frames, .command []⟩) cs
      (.ok ⟨items, frames, .command (cs.takeWhile Char.isAlpha).reverse⟩)
      (cs.dropWhile Char.isAlpha) := by
  have hreach : reach a (State.withMode ⟨items, frames, .ready⟩ (.command []))
      (cs.takeWhile Char.isAlpha) = .ok _ :=
    reach_letters _ (fun d hd => List.mem_takeWhile_imp hd) []
  have hgoes : Goes a _ (cs.takeWhile Char.isAlpha ++ cs.dropWhile Char.isAlpha) _ _ :=
    fun _ => ending_of_reach hreach _
  rw [List.takeWhile_append_dropWhile, List.append_nil] at hgoes
  exact hgoes

theorem tracks_symbolCommand (halpha : cs.head?.any Char.isAlpha = false) :
    Tracks a depth enclosing cs Descent.symbolCommand (.ok ⟨items, frames, .command []⟩)
      (fun x => ⟨items, frames, .ofPart x⟩) fun _ _ => True := by
  cases cs with
  | nil =>
    have hcut : ∀ cuts, ending a cuts (.ok ⟨items, frames, .command []⟩) [] =
        ending a (cuts ++ [.command]) (.ok ⟨items, frames, .finished (.text "\\")⟩) [] := by
      intro cuts
      simp [ending, resolve, State.cuts, Mode.cuts, Reaction.of, Reaction.cuts, State.deliver]
    exact Tracks.advance_nil (Tracks.note hcut (Tracks.pure (fun _ => rfl) trivial))
  | cons c cs =>
    have hc : c.isAlpha = false := halpha
    have hconsume : consume a ⟨items, frames, .command []⟩ c = .ok ⟨items, frames, .ofPart
        (if spacingCharacters.contains c then none else some (.text (String.singleton c)))⟩ := by
      simp only [consume, hc, Bool.false_eq_true, if_false, State.withMode]
      split <;> rfl
    exact Tracks.advance (.of_step rfl hconsume) (Tracks.pure (fun _ => rfl) trivial)

/-- A dot after a sizing command is part of it. -/
theorem tracks_sizing :
    Tracks a depth enclosing cs Descent.sizing (.ok ⟨items, frames, .sizing⟩)
      (fun x => ⟨items, frames, .ofPart x⟩) fun _ _ => True := by
  refine Tracks.peek ?_
  by_cases hdot : cs.head? = some '.'
  · obtain ⟨cs, rfl⟩ : ∃ tail, cs = '.' :: tail := List.head?_eq_some_iff.1 hdot
    rw [if_pos hdot]
    exact Tracks.advance (.of_step rfl rfl) (Tracks.pure (fun _ => rfl) trivial)
  · rw [if_neg hdot]
    refine Tracks.pure (.of_resolve ?_ fun _ => rfl) trivial
    simp [resolve, resolveCommand, hdot, Mode.ofPart, State.deliverNothing, State.deliver,
      State.withMode]

theorem tracks_rawText (name : String) :
    Tracks a depth enclosing cs (Descent.rawText name) (.ok ⟨items, frames, .rawStart name⟩)
      (fun x => ⟨items, frames, .ofPart x⟩) fun _ _ => True := by
  refine Tracks.skipWhiteSpace trivial fun ds _ hspace => ?_
  by_cases hbrace : ds.head? = some '\x7b'
  · obtain ⟨ds, rfl⟩ : ∃ tail, ds = '\x7b' :: tail := List.head?_eq_some_iff.1 hbrace
    have hopen : Goes a (.ok ⟨items, frames, .rawStart name⟩) ('\x7b' :: ds)
        (.ok (State.withMode ⟨items, frames, .ready⟩ (.raw [] 0))) ds :=
      .of_step rfl rfl
    have hresult : ∀ text : List Char, rawResult text.reverse =
        .ofPart (if text.isEmpty then none else some (.text (String.ofList text))) := by
      intro text
      cases text with
      | nil => rfl
      | cons c text => simp [rawResult, Mode.ofPart]
    rw [if_pos hbrace]
    refine Tracks.advance hopen (Tracks.literalText (Tracks.pure ?_ trivial))
    rw [hresult]
    exact fun _ => rfl
  · rw [if_neg hbrace]
    refine Tracks.pure (.of_resolve ?_ fun hnil => ?_) trivial
    · cases ds with
      | nil => rfl
      | cons c ds =>
        have hc : isWhiteSpace c = false := hspace
        have hne : c ≠ '\x7b' := by simpa using hbrace
        simp [resolve, resolveCommand, hc, hne, Mode.ofPart, State.deliver]
    · rfl

/-! ## Closing a sequence -/

/-- Parts in front of the end of the text are in place at the end of it. -/
theorem finish_deliver (items : Array Formula) (x : Formula) (frames : List Frame) :
    finish (deliver none items x frames).items none (deliver none items x frames).frames =
      finish items (some x) frames := by
  fun_induction deliver none items x frames with
  | case1 x => rfl
  | case2 x closer xs frames => simp [finish_sequence]
  | case3 x frames hclose ih => rw [ih]; rfl
  | case4 x frames hclose => exact absurd rfl hclose
  | case5 x frames op upper hawait => cases hawait
  | case6 x frames op upper hawait ih => rw [ih]; rfl
  | case7 x frames op lower hawait => cases hawait
  | case8 x frames op lower hawait ih => rw [ih]; rfl
  | case9 x frames slot _ _ _ ih => rw [ih]; rfl

/-- At a stop the text ends, or the character that stops the sequence comes. -/
def Stopped (stop : Option Closer) (cs : List Char) : Prop :=
  ∀ c ∈ cs.head?, Descent.stopsAt stop c = true

theorem Stopped.cases {closer : Closer} (h : Stopped (some closer) cs) :
    cs = [] ∨ ∃ tail, cs = closer.char :: tail := by
  cases cs with
  | nil => exact .inl rfl
  | cons c tail =>
    have hc : (closer.char == c) = true := h c rfl
    exact .inr ⟨tail, by rw [beq_iff_eq.1 hc]⟩

/-- The end of the text closes a sequence as its closing character would. -/
theorem ending_close (closer : Closer) (xs : Array Formula) (cuts : List Cut) :
    ending a cuts (.ok ⟨items, .sequence closer xs :: frames, .ready⟩) [] =
      ending a (cuts ++ [.closer closer])
        (.ok (closeSequence ⟨items, frames, .ready⟩ frames xs closer)) [] := by
  have hfinish : finish items none (.sequence closer xs :: frames) =
      finish items (some (closer.complete xs.toList)) frames := by
    rw [finish_sequence, Option.toList_none, List.append_nil]
  have hcuts : State.cuts ⟨items, .sequence closer xs :: frames, .ready⟩ =
      .closer closer :: (closeSequence ⟨items, frames, .ready⟩ frames xs closer).cuts := by
    cases closer <;> rfl
  have hclosed : ∃ x, resolve a (closeSequence ⟨items, frames, .ready⟩ frames xs closer) none =
      .ok (deliver none items x frames) ∧ x = closer.complete xs.toList := by
    cases closer <;> exact ⟨_, rfl, rfl⟩
  obtain ⟨x, hresolve, hx⟩ := hclosed
  have hstart : resolve a ⟨items, .sequence closer xs :: frames, .ready⟩ none =
      .ok ⟨items, .sequence closer xs :: frames, .ready⟩ :=
    rfl
  rw [ending, ending, hstart, hresolve, hcuts]
  simp only
  rw [hfinish, finish_deliver, hx, List.append_assoc]
  rfl

theorem tracks_consumeClose {closer : Closer} {xs : Array Formula}
    (hstop : Stopped (some closer) cs) :
    Tracks a depth enclosing cs (Descent.consumeClose closer)
      (.ok ⟨items, .sequence closer xs :: frames, .ready⟩)
      (fun _ => closeSequence ⟨items, frames, .ready⟩ frames xs closer) fun _ _ => True := by
  refine Tracks.peek ?_
  rcases hstop.cases with rfl | ⟨ds, rfl⟩
  · rw [List.head?_nil, if_neg (by simp)]
    exact fun cuts => ⟨trivial, ending_close closer xs cuts⟩
  · have hclose : Goes a (.ok ⟨items, .sequence closer xs :: frames, .ready⟩) (closer.char :: ds)
        (.ok (closeSequence ⟨items, frames, .ready⟩ frames xs closer)) ds := by
      refine .of_step rfl ?_
      cases closer <;> rfl
    rw [List.head?_cons, if_pos rfl]
    exact Tracks.advance hclose (Tracks.pure (fun _ => rfl) trivial)

/-! ## Missing arguments -/

/-- What closes a sequence shows that an argument is missing. -/
theorem resolve_missing (slot : Slot) {next : Option Char} (h : closesAny frames next = true) :
    resolve a ⟨items, .argument slot :: frames, .ready⟩ next =
      resolve a ⟨items, .argument slot :: frames, .finished .missing⟩ next := by
  rw [← closesAny_argument slot] at h
  simp only [resolve, State.settle, h, if_true]
  rfl

/-- So does the end of the text, which cuts it off. -/
theorem ending_missing (slot : Slot) (cuts : List Cut) :
    ending a cuts (.ok ⟨items, .argument slot :: frames, .ready⟩) [] =
      ending a (cuts ++ [.argument]) (.ok ⟨items, .argument slot :: frames, .finished .missing⟩)
        [] := by
  have hcuts : State.cuts ⟨items, .argument slot :: frames, .ready⟩ =
      .argument :: State.cuts ⟨items, .argument slot :: frames, .finished .missing⟩ :=
    rfl
  rw [ending, ending, resolve_missing slot rfl, hcuts, List.append_assoc]
  rfl

/-! ## Structures -/

/-- A level of the descent at a depth is tracked: its arguments and its sequences are, below any
frames of that depth, and its sequences end at their stops. -/
structure Follows (a : Allowance) (inner : Descent.Inner a.limit) (depth : Nat) : Prop where
  argument : ∀ (items : Array Formula) (slot : Slot) (frames : List Frame) (cs : List Char),
    depth = a.used + frames.length + 1 →
      Tracks a depth (stops frames) cs inner.argument
        (.ok ⟨items, .argument slot :: frames, .ready⟩)
        (fun x => ⟨items, .argument slot :: frames, .finished x⟩) fun _ _ => True
  sequence : ∀ (items : Array Formula) (closer : Closer) (frames : List Frame) (cs : List Char),
    depth = a.used + frames.length + 1 →
      Tracks a depth (stops frames) cs (inner.sequence (some closer))
        (.ok ⟨items, .sequence closer #[] :: frames, .ready⟩)
        (fun xs => ⟨items, .sequence closer xs.toArray :: frames, .ready⟩)
        fun _ => Stopped (some closer)

section

variable {inner : Descent.Inner a.limit}
  (hinner : a.used + frames.length + 1 ≤ a.limit → Follows a inner (a.used + frames.length + 1))
include hinner

/-- An argument takes one level. -/
theorem tracks_argument (mode : Mode) (slot : Slot) (cs : List Char) :
    Tracks a (a.used + frames.length) (stops frames) cs (Descent.nested inner.argument)
      (push a ⟨items, frames, mode⟩ (.argument slot))
      (fun x => ⟨items, .argument slot :: frames, .finished x⟩)
      fun _ _ => a.used + frames.length + 1 ≤ a.limit ∧ True :=
  Tracks.nested rfl fun hroom => (hinner hroom).argument items slot frames cs rfl

/-- A sequence takes one level, and is closed after it. -/
theorem tracks_enclosed (mode : Mode) (closer : Closer) (cs : List Char) :
    Tracks a (a.used + frames.length) (stops frames) cs (Descent.enclosed inner closer)
      (push a ⟨items, frames, mode⟩ (.sequence closer #[]))
      (fun xs => closeSequence ⟨items, frames, .ready⟩ frames xs.toArray closer)
      fun _ _ => a.used + frames.length + 1 ≤ a.limit := by
  refine Tracks.bind (Tracks.nested rfl fun hroom =>
    (hinner hroom).sequence items closer frames cs rfl) fun xs ds _ hends => ?_
  exact (tracks_consumeClose hends.2).bind fun _ _ _ _ => Tracks.pure (fun _ => rfl) hends.1

theorem tracks_group (mode : Mode) (cs : List Char) :
    Tracks a (a.used + frames.length) (stops frames) cs (Descent.group inner)
      (push a ⟨items, frames, mode⟩ (.sequence .brace #[]))
      (fun x => ⟨items, frames, .finished x⟩) fun _ _ => True :=
  (tracks_enclosed hinner mode .brace cs).map fun _ _ _ _ => rfl

theorem tracks_fraction (mode : Mode) (cs : List Char) :
    Tracks a (a.used + frames.length) (stops frames) cs (Descent.fraction inner)
      (push a ⟨items, frames, mode⟩ (.argument .numerator))
      (fun x => ⟨items, frames, .finished x⟩) fun _ _ => True := by
  refine (tracks_argument hinner mode .numerator cs).bind fun n ds _ hroom => ?_
  have hpush : push a ⟨items, frames, .ready⟩ (.argument (.denominator n)) =
      .ok ⟨items, .argument (.denominator n) :: frames, .ready⟩ :=
    push_eq_ok_iff.2 ⟨hroom.1, rfl⟩
  have hgoes : Goes a (.ok ⟨items, .argument .numerator :: frames, .finished n⟩) ds
      (push a ⟨items, frames, .ready⟩ (.argument (.denominator n))) ds := by
    rw [hpush]
    refine .of_resolve ?_ fun _ => rfl
    simp only [resolve, State.settle, closesAny_argument, State.deliver, deliver, Slot.fill]
  refine .of_goes hgoes ((tracks_argument hinner .ready (.denominator n) ds).map ?_)
  exact fun d ds _ => .of_alike (alike_denominator n d) rfl

/-- An index leaves the machine before the content of its root. -/
theorem tracks_index (cs : List Char) :
    Tracks a (a.used + frames.length) (stops frames) cs (Descent.index inner)
      (.ok ⟨items, frames, .radical⟩)
      (fun
        | some i => ⟨items, .argument (.radicand (some i)) :: frames, .ready⟩
        | none => ⟨items, frames, .radical⟩)
      fun i ds => if i.isSome then a.used + frames.length + 1 ≤ a.limit
        else (ds.head?.any fun c => isWhiteSpace c || c == '[') = false := by
  refine Tracks.skipWhiteSpace trivial fun ds _ hspace => ?_
  by_cases hopen : ds.head? = some '['
  · obtain ⟨ds, rfl⟩ : ∃ tail, ds = '[' :: tail := List.head?_eq_some_iff.1 hopen
    have hpush : Goes a (.ok ⟨items, frames, .radical⟩) ('[' :: ds)
        (push a ⟨items, frames, .radical⟩ (.sequence .bracket #[])) ds :=
      .of_step rfl rfl
    rw [if_pos hopen]
    refine Tracks.advance hpush ((tracks_enclosed hinner .radical .bracket ds).bind ?_)
    exact fun xs ds _ hroom => Tracks.pure (fun _ => rfl) hroom
  · rw [if_neg hopen]
    refine Tracks.pure (fun _ => rfl) ?_
    cases ds with
    | nil => rfl
    | cons c ds =>
      have hc : isWhiteSpace c = false := hspace
      have hne : c ≠ '[' := by simpa using hopen
      simp [hc, hne]

theorem tracks_root (cs : List Char) :
    Tracks a (a.used + frames.length) (stops frames) cs (Descent.root inner)
      (.ok ⟨items, frames, .radical⟩) (fun x => ⟨items, frames, .finished x⟩)
      fun _ _ => True := by
  refine (tracks_index hinner cs).bind fun i ds _ hends => ?_
  refine .of_goes ?_ ((tracks_argument hinner .radical (.radicand i) ds).map
    fun x ds _ => .of_alike (alike_radicand i x) rfl)
  cases i with
  | none =>
    have hreaction : Reaction.of .radical ds.head? = .argue (.radicand none) :=
      if_neg (by simpa using hends)
    exact .of_argue hreaction rfl
  | some i =>
    have hpush : push a ⟨items, frames, .radical⟩ (.argument (.radicand (some i))) =
        .ok ⟨items, .argument (.radicand (some i)) :: frames, .ready⟩ :=
      push_eq_ok_iff.2 ⟨hends, rfl⟩
    rw [hpush]
    exact fun _ => rfl

theorem tracks_approach (cs : List Char) :
    Tracks a (a.used + frames.length) (stops frames) cs (Descent.approach inner)
      (.ok ⟨items, frames, .limit⟩) (fun x => ⟨items, frames, .finished x⟩)
      fun _ _ => True := by
  refine Tracks.skipWhiteSpace trivial fun ds _ hspace => ?_
  by_cases hsign : ds.head? = some '_'
  · obtain ⟨ds, rfl⟩ : ∃ tail, ds = '_' :: tail := List.head?_eq_some_iff.1 hsign
    have hpush : Goes a (.ok ⟨items, frames, .limit⟩) ('_' :: ds)
        (push a ⟨items, frames, .limit⟩ (.argument .approach)) ds :=
      .of_step rfl rfl
    rw [if_pos hsign]
    refine Tracks.advance hpush ((tracks_argument hinner .limit .approach ds).map ?_)
    exact fun x ds _ => .of_alike (alike_approach x) rfl
  · rw [if_neg hsign]
    refine Tracks.pure (.of_resolve ?_ fun hnil => ?_) trivial
    · cases ds with
      | nil => rfl
      | cons c ds =>
        have hc : isWhiteSpace c = false := hspace
        have hne : c ≠ '_' := by simpa using hsign
        simp [resolve, resolveCommand, hc, hne, State.deliver]
    · rfl

/-- By the limits that are absent. -/
theorem tracks_limits (op : BigOperator) (lower upper : Option Formula) (cs : List Char) :
    Tracks a (a.used + frames.length) (stops frames) cs (Descent.limits inner op lower upper)
      (.ok ⟨items, frames, .limits op lower upper⟩) (fun x => ⟨items, frames, .finished x⟩)
      fun _ _ => True := by
  fun_induction Descent.limits inner op lower upper generalizing cs with
  | case1 lower upper ih1 ih2 =>
    refine Tracks.skipWhiteSpace trivial fun ds _ hspace => ?_
    by_cases hlower : ds.head? = some '_' ∧ lower = none
    · obtain ⟨hsign, rfl⟩ := hlower
      obtain ⟨ds, rfl⟩ : ∃ tail, ds = '_' :: tail := List.head?_eq_some_iff.1 hsign
      have hawaits : resolve a ⟨items, frames, .limits op none upper⟩ (some '_') =
          .ok ⟨items, frames, .limits op none upper⟩ := by
        simp [resolve, awaitsLimit]
      have hpush : Goes a (.ok ⟨items, frames, .limits op none upper⟩) ('_' :: ds)
          (push a ⟨items, frames, .limits op none upper⟩ (.argument (.lowerLimit op upper))) ds :=
        .of_step hawaits rfl
      rw [dif_pos ⟨hsign, rfl⟩]
      refine Tracks.advance hpush ((tracks_argument hinner _ _ ds).bind fun x ds _ _ => ?_)
      exact .of_goes (.of_alike (alike_lowerLimit op x upper) rfl) (ih1 _ ⟨hsign, rfl⟩ x ds)
    · rw [dif_neg hlower]
      by_cases hupper : ds.head? = some '^' ∧ upper = none
      · obtain ⟨hsign, rfl⟩ := hupper
        obtain ⟨ds, rfl⟩ : ∃ tail, ds = '^' :: tail := List.head?_eq_some_iff.1 hsign
        have hawaits : resolve a ⟨items, frames, .limits op lower none⟩ (some '^') =
            .ok ⟨items, frames, .limits op lower none⟩ := by
          simp [resolve, awaitsLimit]
        have hpush : Goes a (.ok ⟨items, frames, .limits op lower none⟩) ('^' :: ds)
            (push a ⟨items, frames, .limits op lower none⟩ (.argument (.upperLimit op lower))) ds :=
          .of_step hawaits rfl
        rw [dif_pos ⟨hsign, rfl⟩]
        refine Tracks.advance hpush ((tracks_argument hinner _ _ ds).bind fun x ds _ _ => ?_)
        exact .of_goes (.of_alike (alike_upperLimit op lower x) rfl) (ih2 _ ⟨hsign, rfl⟩ x ds)
      · rw [dif_neg hupper]
        refine Tracks.pure (.of_resolve ?_ fun hnil => ?_) trivial
        · have hawaits : awaitsLimit lower upper ds.head? = false := by
            cases ds with
            | nil => rfl
            | cons c ds =>
              have hc : isWhiteSpace c = false := hspace
              rw [List.head?_cons, Option.some.injEq] at hlower hupper
              cases lower <;> cases upper <;> simp_all [awaitsLimit]
          simp [resolve, hawaits, State.deliver]
        · rfl

/-! ## Commands -/

/-- Where the machine reacts as a command calls for, it goes on as the command does. -/
theorem tracks_called {mode : Mode} {command : Command} {cs : List Char}
    (hmode : Reaction.of mode cs.head? = Reaction.ofCommand cs.head? command)
    (hcuts : mode.cuts = []) :
    Tracks a (a.used + frames.length) (stops frames) cs (Descent.called inner command)
      (.ok ⟨items, frames, mode⟩) (fun x => ⟨items, frames, .ofPart x⟩) fun _ _ => True := by
  have hwaits : ∀ mode', (∀ next, resolve a ⟨items, frames, mode'⟩ next =
      resolveCommand a ⟨items, frames, .ready⟩ next command) →
      State.cuts ⟨items, frames, mode'⟩ = (Reaction.ofCommand none command).cuts frames →
      Goes a (.ok ⟨items, frames, mode⟩) cs (.ok ⟨items, frames, mode'⟩) cs := by
    intro mode' hresolve hcuts'
    refine .of_resolve ?_ ?_
    · rw [hresolve, resolve_eq, hmode, ← resolveCommand_eq]
      exact @resolveCommand_withMode a ⟨items, frames, .ready⟩ mode _ command
    · rintro rfl
      have hnone : Reaction.of mode none = Reaction.ofCommand none command := hmode
      rw [hcuts', State.cuts, hcuts, hnone, List.nil_append]
  cases command with
  | fraction =>
    exact .of_goes (.of_argue hmode hcuts) ((tracks_fraction hinner mode cs).map fun _ _ _ _ => rfl)
  | root =>
    exact .of_goes (hwaits .radical (fun _ => rfl) rfl)
      ((tracks_root hinner cs).map fun _ _ _ _ => rfl)
  | bigOperator op =>
    exact .of_goes (hwaits (.limits op none none) (fun _ => rfl) rfl)
      ((tracks_limits hinner op none none cs).map fun _ _ _ _ => rfl)
  | limit =>
    exact .of_goes (hwaits .limit (fun _ => rfl) rfl)
      ((tracks_approach hinner cs).map fun _ _ _ _ => rfl)
  | sizing => exact .of_goes (hwaits .sizing (fun _ => rfl) rfl) tracks_sizing
  | space => exact Tracks.pure (hwaits .skipped (fun _ => rfl) rfl) trivial
  | rawText name =>
    exact .of_goes (hwaits (.rawStart name) (fun _ => rfl) rfl) (tracks_rawText name)
  | leaf leaf =>
    exact Tracks.pure (hwaits (.finished (.leaf leaf)) (fun _ => rfl) rfl) trivial

theorem tracks_command (cs : List Char) :
    Tracks a (a.used + frames.length) (stops frames) cs (Descent.command inner)
      (.ok ⟨items, frames, .command []⟩) (fun x => ⟨items, frames, .ofPart x⟩)
      fun _ _ => True := by
  refine Tracks.takeWhile (goes_name cs) ?_
  have halpha : (cs.dropWhile Char.isAlpha).head?.any Char.isAlpha = false :=
    any_head?_dropWhile Char.isAlpha cs
  cases hname : cs.takeWhile Char.isAlpha with
  | nil => exact tracks_symbolCommand halpha
  | cons d name =>
    obtain ⟨e, letters, hletters⟩ := List.exists_cons_of_ne_nil
      (List.reverse_ne_nil_iff.2 (List.cons_ne_nil d name))
    have hcommand : Reaction.of (.command (d :: name).reverse) (cs.dropWhile Char.isAlpha).head? =
        Reaction.ofCommand (cs.dropWhile Char.isAlpha).head?
          (.ofName (String.ofList (d :: name))) := by
      rw [hletters, Reaction.of]
      · rw [halpha, if_neg Bool.false_ne_true, ← hletters, List.reverse_reverse]
      · exact List.cons_ne_nil e letters
    refine tracks_called hinner hcommand ?_
    rw [hletters]
    rfl

/-! ## Parts -/

/-- The part that a character begins, once the machine has consumed it. -/
theorem tracks_begin (c : Char) (cs : List Char) :
    Tracks a (a.used + frames.length) (stops frames) cs (Descent.begin inner c)
      (consumePrimary a ⟨items, frames, .ready⟩ c) (fun x => ⟨items, frames, .ofPart x⟩)
      fun _ _ => True := by
  unfold Descent.begin consumePrimary
  by_cases hbackslash : c = '\\'
  · rw [if_pos hbackslash, if_pos hbackslash]
    exact tracks_command hinner cs
  rw [if_neg hbackslash, if_neg hbackslash]
  by_cases hbrace : c = '\x7b'
  · rw [if_pos hbrace, if_pos hbrace]
    exact (tracks_group hinner .ready cs).map fun _ _ _ _ => rfl
  rw [if_neg hbrace, if_neg hbrace]
  by_cases hparenthesis : c = '('
  · rw [if_pos hparenthesis, if_pos hparenthesis]
    exact (tracks_enclosed hinner .ready .parenthesis cs).map fun _ _ _ _ => rfl
  rw [if_neg hparenthesis, if_neg hparenthesis]
  by_cases hbar : c = '|'
  · rw [if_pos hbar, if_pos hbar]
    exact (tracks_enclosed hinner .ready .bar cs).map fun _ _ _ _ => rfl
  rw [if_neg hbar, if_neg hbar]
  have hscript : ∀ side x ds, Goes a
      (.ok ⟨items, .argument (.script side) :: frames, .finished x⟩) ds
      (.ok ⟨items, frames, .ofPart (some (.script side x))⟩) ds :=
    fun side x _ => .of_alike (alike_script side x) rfl
  by_cases hupper : c = '^'
  · rw [if_pos hupper, if_pos hupper]
    exact (tracks_argument hinner .ready _ cs).map fun x ds _ => hscript .superscript x ds
  rw [if_neg hupper, if_neg hupper]
  by_cases hlower : c = '_'
  · rw [if_pos hlower, if_pos hlower]
    exact (tracks_argument hinner .ready _ cs).map fun x ds _ => hscript .subscript x ds
  rw [if_neg hlower, if_neg hlower]
  by_cases hnumber : (c.isDigit || c = '.') = true
  · rw [if_pos hnumber, if_pos hnumber]
    exact (tracks_number c).map fun _ _ _ _ => rfl
  rw [if_neg hnumber, if_neg hnumber]
  by_cases hletter : isAlphabetic c = true
  · rw [if_pos hletter, if_pos hletter]
    exact Tracks.pure (fun _ => rfl) trivial
  rw [if_neg hletter, if_neg hletter]
  cases normalizeOperator? c <;> exact Tracks.pure (fun _ => rfl) trivial

/-- A part and what is made of it. -/
theorem tracks_part {c : Char} {g : Option Formula → Descent a.limit α}
    (hconsume : Goes a start (c :: cs) (consumePrimary a ⟨items, frames, .ready⟩ c) cs)
    (h : ∀ x ds, ds <:+ cs → Tracks a (a.used + frames.length) (stops frames) ds (g x)
      (.ok ⟨items, frames, .ofPart x⟩) done ends) :
    Tracks a (a.used + frames.length) (stops frames) (c :: cs) (Descent.part inner >>= g) start done
      ends := by
  have hbegin : Tracks a (a.used + frames.length) (stops frames) cs (Descent.begin inner c >>= g)
      _ done ends :=
    (tracks_begin hinner c cs).bind fun x ds hds _ => h x ds hds
  intro cuts
  rw [hconsume cuts]
  exact hbegin cuts

/-- An argument of the level itself, below its frame. -/
theorem tracks_argumentBody {slot : Slot} {rest : List Frame}
    (hframes : frames = .argument slot :: rest) (cs : List Char) :
    Tracks a (a.used + frames.length) (stops frames) cs (Descent.argument inner)
      (.ok ⟨items, frames, .ready⟩) (fun x => ⟨items, frames, .finished x⟩) fun _ _ => True := by
  refine Tracks.skipWhiteSpace trivial fun ds _ hspace => ?_
  cases ds with
  | nil =>
    subst hframes
    exact Tracks.note (ending_missing slot) (Tracks.pure (fun _ => rfl) trivial)
  | cons c ds =>
    have hc : isWhiteSpace c = false := hspace
    refine Tracks.closesEnclosing ?_
    rw [any_stops]
    by_cases hcloses : closesAny frames (some c) = true
    · rw [if_pos hcloses]
      subst hframes
      rw [closesAny_argument] at hcloses
      have hclosed : Goes a (.ok ⟨items, .argument slot :: rest, .ready⟩) (c :: ds)
          (.ok ⟨items, .argument slot :: rest, .finished .missing⟩) (c :: ds) :=
        .of_resolve (resolve_missing slot hcloses) fun hnil => absurd hnil (List.cons_ne_nil c ds)
      exact Tracks.pure hclosed trivial
    rw [if_neg hcloses]
    have hresolve : resolve a ⟨items, frames, .ready⟩ (some c) = .ok ⟨items, frames, .ready⟩ := by
      simp only [resolve, State.settle, hframes] at hcloses ⊢
      rw [if_neg hcloses]
    by_cases hbrace : c = '\x7b'
    · subst hbrace
      rw [if_pos rfl]
      have hconsume : consume a ⟨items, frames, .ready⟩ '\x7b' =
          push a ⟨items, frames, .ready⟩ (.sequence .brace #[]) := by
        rw [consume_eq, Move.of_eq_primary rfl (by decide) (by decide) inert_brace.closes]
        rfl
      exact Tracks.advance (.of_step hresolve hconsume) (tracks_group hinner .ready ds)
    rw [if_neg hbrace]
    by_cases hdigit : c.isDigit = true
    · rw [if_pos hdigit]
      have hconsume : consume a ⟨items, frames, .ready⟩ c =
          .ok ⟨items, frames, .finished (.number (String.singleton c))⟩ := by
        simp [consume, consumeReady, hc, hframes, hdigit, State.withMode]
      exact Tracks.advance (.of_step hresolve hconsume) (Tracks.pure (fun _ => rfl) trivial)
    rw [if_neg hdigit]
    have hconsume : consume a ⟨items, frames, .ready⟩ c =
        consumePrimary a ⟨items, frames, .ready⟩ c := by
      simp [consume, consumeReady, hc, hframes, hdigit]
    refine tracks_part hinner (.of_step hresolve hconsume) fun x ds _ => Tracks.pure ?_ trivial
    cases x with
    | some x => exact fun _ => rfl
    | none =>
      refine .of_alike (fun next => ?_) rfl
      simp [resolve, State.deliverNothing, hframes, Mode.ofPart, State.deliver]

/-- Where the items of a sequence are on the machine, and where the sequence stops. -/
inductive Place : Option Closer → (Array Formula → Array Formula × List Frame) → Prop
  | root : Place none fun xs => (xs, [])
  | inside (items : Array Formula) (closer : Closer) (frames : List Frame) :
    Place (some closer) fun xs => (items, .sequence closer xs :: frames)

end

namespace Place

variable {stop : Option Closer} {place : Array Formula → Array Formula × List Frame}

/-- Between the items of a sequence, what does not stop it begins a part. -/
theorem step (h : Place stop place) (xs : Array Formula) {c : Char} (hc : isWhiteSpace c = false)
    (hstop : Descent.stopsAt stop c = false) :
    resolve a ⟨(place xs).1, (place xs).2, .ready⟩ (some c) =
        .ok ⟨(place xs).1, (place xs).2, .ready⟩ ∧
      consume a ⟨(place xs).1, (place xs).2, .ready⟩ c =
        consumePrimary a ⟨(place xs).1, (place xs).2, .ready⟩ c := by
  cases h with
  | root => exact ⟨rfl, by simp [consume, consumeReady, hc]⟩
  | inside items closer frames =>
    have hne : (closer.char == c) = false := hstop
    rw [beq_eq_false_iff_ne] at hne
    exact ⟨rfl, by simp [consume, consumeReady, hc, hne]⟩

/-- A part between the items of a sequence is one more of them. -/
theorem goes_ofPart (h : Place stop place) (xs : Array Formula) (x : Option Formula) :
    Goes a (.ok ⟨(place xs).1, (place xs).2, .ofPart x⟩) cs
      (.ok ⟨(place (xs ++ x.toArray)).1, (place (xs ++ x.toArray)).2, .ready⟩) cs := by
  cases x with
  | none =>
    rw [Option.toArray_none, Array.append_empty]
    cases h with
    | root => exact .of_alike (fun _ => rfl) rfl
    | inside items closer frames => exact .of_alike (fun _ => rfl) rfl
  | some x =>
    cases h with
    | root => exact .of_alike (alike_root x) rfl
    | inside items closer frames => exact .of_alike (alike_sequence closer x) rfl

end Place

/-- As many parts as there are characters are read up to the stop. -/
theorem tracks_parts {inner : Descent.Inner a.limit} {stop : Option Closer}
    {place : Array Formula → Array Formula × List Frame} (hplace : Place stop place)
    (hdepth : ∀ xs, a.used + (place xs).2.length = depth)
    (hstops : ∀ xs, stops (place xs).2 = enclosing)
    (hinner : depth + 1 ≤ a.limit → Follows a inner (depth + 1)) {count : Nat} {cs : List Char}
    (hcount : cs.length ≤ count) (xs : Array Formula) :
    Tracks a depth enclosing cs (Descent.parts inner stop count)
      (.ok ⟨(place xs).1, (place xs).2, .ready⟩)
      (fun ys => ⟨(place (xs ++ ys.toArray)).1, (place (xs ++ ys.toArray)).2, .ready⟩)
      fun _ => Stopped stop := by
  have hdone : ∀ xs ds, Goes a (.ok ⟨(place xs).1, (place xs).2, .ready⟩) ds
      (.ok ⟨(place (xs ++ [].toArray)).1, (place (xs ++ [].toArray)).2, .ready⟩) ds := by
    intro xs ds
    rw [List.toArray, Array.append_empty]
    exact fun _ => rfl
  induction count generalizing cs xs with
  | zero =>
    obtain rfl : cs = [] := List.length_eq_zero_iff.1 (Nat.le_zero.1 hcount)
    exact Tracks.pure (hdone xs []) nofun
  | succ count ih =>
    refine Tracks.skipWhiteSpace trivial fun ds hds hspace => ?_
    have hlength := hds.length_le
    cases ds with
    | nil => exact Tracks.pure (hdone xs []) nofun
    | cons c ds =>
      have hc : isWhiteSpace c = false := hspace
      by_cases hstop : Descent.stopsAt stop c = true
      · have hstopped : Stopped stop (c :: ds) := by
          intro d hd
          rw [List.head?_cons, Option.mem_some_iff] at hd
          rw [← hd]
          exact hstop
        simp only [List.head?_cons, hstop, if_true]
        exact Tracks.pure (hdone xs _) hstopped
      · simp only [List.head?_cons, hstop]
        obtain ⟨hresolve, hconsume⟩ := hplace.step (a := a) xs hc (by simpa using hstop)
        rw [← hdepth xs, ← hstops xs]
        refine tracks_part (by rw [hdepth xs]; exact hinner) (.of_step hresolve hconsume)
          fun x rest hrest => ?_
        rw [hdepth xs, hstops xs]
        have hrest' : rest.length ≤ count := by
          have := hrest.length_le
          rw [List.length_cons] at hlength
          omega
        refine .of_goes (hplace.goes_ofPart xs x) ((ih hrest' (xs ++ x.toArray)).bind ?_)
        intro ys ds' _ hstopped
        refine Tracks.pure ?_ hstopped
        have happend : xs ++ x.toArray ++ ys.toArray = xs ++ (x.toList ++ ys).toArray := by
          cases x <;> simp
        rw [happend]
        exact fun _ => rfl

theorem tracks_sequence {inner : Descent.Inner a.limit} {stop : Option Closer}
    {place : Array Formula → Array Formula × List Frame} (hplace : Place stop place)
    (hdepth : ∀ xs, a.used + (place xs).2.length = depth)
    (hstops : ∀ xs, stops (place xs).2 = stop :: enclosing)
    (hinner : depth + 1 ≤ a.limit → Follows a inner (depth + 1)) (cs : List Char) :
    Tracks a depth enclosing cs (Descent.sequence inner stop)
      (.ok ⟨(place #[]).1, (place #[]).2, .ready⟩)
      (fun ys => ⟨(place ys.toArray).1, (place ys.toArray).2, .ready⟩) fun _ => Stopped stop := by
  have hparts := tracks_parts hplace hdepth hstops hinner (Nat.le_refl cs.length) #[]
  simp only [Array.empty_append] at hparts
  exact Tracks.inside fun cuts => hparts cuts

/-- A level is tracked if the one below it is, or cannot be entered. -/
theorem follows_level {inner : Descent.Inner a.limit}
    (hinner : depth + 1 ≤ a.limit → Follows a inner (depth + 1)) :
    Follows a ⟨Descent.argument inner, Descent.sequence inner⟩ depth where
  argument items slot frames cs hdepth := by
    have hframes : a.used + (Frame.argument slot :: frames).length = depth := by
      rw [hdepth]
      rfl
    have hbody := @tracks_argumentBody a items (.argument slot :: frames) inner
      (by rw [hframes]; exact hinner) slot frames rfl cs
    rw [hframes] at hbody
    exact hbody
  sequence items closer frames cs hdepth :=
    tracks_sequence (.inside items closer frames) (fun _ => hdepth.symm) (fun _ => rfl) hinner cs

/-- With enough levels below it a level is tracked: the lowest is never entered. -/
theorem follows_levels (n : Nat) (hdepth : depth ≤ a.limit) (hlimit : a.limit < depth + n) :
    Follows a (Descent.levels n) depth := by
  induction n generalizing depth with
  | zero => omega
  | succ n ih => exact follows_level fun hroom => ih hroom (by omega)

/-! ## Reading -/

/-- The root of a formula is read to the end of the text. -/
theorem tracks_equation (cs : List Char) :
    Tracks a a.used [] cs (Descent.equation a.limit) (.ok .initial)
      (fun x => ⟨x.children.toArray, [], .ready⟩)
      fun x ds => (∃ xs, x = .equation xs) ∧ ds = [] := by
  have hsequence : Tracks a a.used [] cs (Descent.sequence (Descent.levels a.limit) none) _ _ _ :=
    tracks_sequence .root (fun _ => rfl) (fun _ => rfl)
      (fun hroom => follows_levels a.limit hroom (by omega)) cs
  refine hsequence.bind fun xs ds _ hstopped => Tracks.pure (fun _ => rfl) ⟨⟨xs, rfl⟩, ?_⟩
  cases ds with
  | nil => rfl
  | cons c ds => exact absurd (hstopped c rfl) Bool.false_ne_true

/-- What a reading gives: the items of the machine's run, with what the end of the text cut off, or
the failure of that run. -/
theorem read_cases (limit : Nat) {p : Cursor} (hp : p.enclosing = []) :
    (∃ items, run ⟨p.depth, limit⟩ .initial p.rest = .complete items ∧
      (p.read limit).1 = .ok (.equation items) ∧ (p.read limit).2.rest = [] ∧
      (p.read limit).2.cuts = (ending ⟨p.depth, limit⟩ p.cuts (.ok .initial) p.rest).2) ∨
    ∃ depth, run ⟨p.depth, limit⟩ .initial p.rest = .tooDeep depth (p.read limit).2.rest ∧
      (p.read limit).1 = .error (.nestingTooDeep depth limit) := by
  obtain ⟨cs, depth, enclosing, cuts⟩ := p
  obtain rfl : enclosing = [] := hp
  have htracked := @tracks_equation ⟨depth, limit⟩ cs cuts
  rw [← ending_fst cuts]
  unfold Tracked at htracked
  simp only [Cursor.read]
  generalize (Descent.equation limit).run ⟨cs, depth, [], cuts⟩ = result at htracked ⊢
  obtain ⟨answer, p⟩ := result
  cases answer with
  | ok x =>
    obtain ⟨⟨⟨items, rfl⟩, hrest⟩, hending⟩ := htracked
    simp only at hrest hending ⊢
    rw [hrest] at hending
    rw [hending]
    exact .inl ⟨items, rfl, rfl, hrest, (List.append_nil p.cuts).symm⟩
  | error e =>
    obtain ⟨tried, rfl, hending⟩ := htracked
    exact .inr ⟨tried, hending, rfl⟩

theorem leaves_read (limit : Nat) (p : Cursor) : p.Leaves limit (p.read limit) :=
  (Descent.equation limit).leaves p

/-- The descent reads as the machine does: from a cursor outside of all sequences it gives the same
answer and leaves off at the same character, as deep as the reader. -/
theorem read_eq (limit : Nat) {p : Cursor} (hp : p.enclosing = []) :
    (p.read limit).1 = (Reader.mk p.rest p.depth limit).read.1 ∧
      Reader.mk (p.read limit).2.rest (p.read limit).2.depth limit =
        (Reader.mk p.rest p.depth limit).read.2 := by
  have hdepth := (leaves_read limit p).depth
  unfold Reader.read
  rcases read_cases limit hp with ⟨items, hrun, hanswer, hrest, -⟩ | ⟨tried, hrun, hanswer⟩
  · rw [hanswer] at hdepth ⊢
    rw [hdepth, hrest, hrun]
    exact ⟨rfl, rfl⟩
  · rw [hanswer] at hdepth ⊢
    rw [hdepth, hrun]
    exact ⟨rfl, rfl⟩

end FormulaDrawing.Latex
