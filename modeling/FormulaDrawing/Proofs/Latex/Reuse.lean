import FormulaDrawing.Proofs.Latex.Descent

/-!
# Reading again

A cursor that has read a source, or failed to, can read again from where it stopped. Whatever its
answers were, it is inside no sequence then, and as deep as it failed times (`Cursor.After`): the
level that a failure leaves is never given back, so after more failures than the limit each of them
reports one level more than the one before it.

A failure has consumed a character (`rest_of_run_tooDeep`), so there are only so many of them. A
success reads to the end of the source, and there is only the empty formula to be read after that.
-/

namespace FormulaDrawing.Latex

variable {a : Allowance} {st : State} {cs rest : List Char} {source : String} {limit depth : Nat}

/-! ## Progress -/

theorem suffix_of_run_tooDeep (h : run a st cs = .tooDeep depth rest) : rest <:+ cs := by
  induction cs generalizing st with
  | nil =>
    unfold run at h
    split at h
    · cases h
      exact List.suffix_refl _
    · cases h
  | cons c cs ih =>
    unfold run at h
    split at h
    · cases h
      exact List.suffix_refl _
    · split at h
      · cases h
        exact List.suffix_cons _ _
      · exact (ih h).trans (List.suffix_cons _ _)

/-- From the start only a character can make a run fail. -/
theorem rest_of_run_tooDeep (h : run a .initial cs = .tooDeep depth rest) :
    rest.length < cs.length := by
  cases cs with
  | nil => cases h
  | cons c cs =>
    have hresolve : resolve a .initial (some c) = .ok .initial := rfl
    rw [run, hresolve] at h
    have hrest : rest <:+ cs := by
      simp only at h
      split at h
      · cases h
        exact List.suffix_refl _
      · exact suffix_of_run_tooDeep h
    rw [List.length_cons]
    exact Nat.lt_succ_of_le hrest.length_le

namespace Cursor

variable {p : Cursor} {answers : List (Except Error Formula)}

/-- At the end of the text there is an empty formula, again and again. -/
theorem readTimes_of_nil (cuts : List Cut) (n : Nat) :
    (Cursor.mk [] depth [] cuts).readTimes limit n =
      (List.replicate n (.ok (.equation [])), ⟨[], depth, [], cuts⟩) := by
  induction n with
  | zero => rfl
  | succ n ih =>
    have hread : (Cursor.mk [] depth [] cuts).read limit =
        (.ok (.equation []), ⟨[], depth, [], cuts⟩) := rfl
    rw [readTimes, hread]
    simp only [ih]
    rfl

/-- The last of several readings starts where those before it left off. -/
theorem readTimes_succ (limit n : Nat) (p : Cursor) :
    p.readTimes limit (n + 1) =
      ((p.readTimes limit n).1 ++ [((p.readTimes limit n).2.read limit).1],
        ((p.readTimes limit n).2.read limit).2) := by
  induction n generalizing p with
  | zero => rfl
  | succ n ih =>
    have hfirst : ∀ m, p.readTimes limit (m + 1) = ((p.read limit).1 ::
        ((p.read limit).2.readTimes limit m).1, ((p.read limit).2.readTimes limit m).2) :=
      fun _ => rfl
    rw [hfirst, hfirst, ih]
    rfl

/-! ## What readings leave -/

/-- How many characters of its source a cursor has consumed. -/
def position (source : String) (p : Cursor) : Nat := source.length - p.rest.length

/-- A cursor on a source after some answers: it is inside no sequence, at a position of the source,
and as deep as there were failures. -/
structure After (source : String) (answers : List (Except Error Formula)) (p : Cursor) : Prop where
  enclosing : p.enclosing = []
  position_le : p.position source ≤ source.length
  rest : p.rest = source.toList.drop (p.position source)
  depth : p.depth = answers.countP failed

theorem drop_position (h : p.rest <:+ source.toList) :
    source.toList.drop (p.position source) = p.rest := by
  obtain ⟨before, hbefore⟩ := h
  have hlength : source.length = before.length + p.rest.length := by
    rw [← String.length_toList, ← hbefore, List.length_append]
  have hposition : p.position source = before.length := by
    unfold position
    omega
  rw [hposition, ← hbefore, List.drop_left]

theorem after_ofSource (source : String) : After source [] (ofSource source) where
  enclosing := rfl
  position_le := Nat.sub_le _ _
  rest := (drop_position (List.suffix_refl _)).symm
  depth := rfl

/-- One reading more. -/
theorem After.read (h : After source answers p) (limit : Nat) :
    After source (answers ++ [(p.read limit).1]) (p.read limit).2 := by
  have hleaves := leaves_read limit p
  have hsuffix : p.rest <:+ source.toList := h.rest ▸ List.drop_suffix _ _
  exact {
    enclosing := hleaves.enclosing.trans h.enclosing
    position_le := Nat.sub_le _ _
    rest := (drop_position (hleaves.rest.trans hsuffix)).symm
    depth := by
      rw [hleaves.depth, h.depth, List.countP_append, List.countP_singleton]
      cases failed (p.read limit).1 <;> rfl }

theorem after_readTimes (source : String) (limit n : Nat) :
    After source ((ofSource source).readTimes limit n).1
      ((ofSource source).readTimes limit n).2 := by
  induction n with
  | zero => exact after_ofSource source
  | succ n ih =>
    rw [readTimes_succ]
    exact ih.read limit

/-- What the reading after some answers comes to. A failure is one level past the limit, or past
the failures before it, and further on in the source. A success is at the end of the source, and
everything after it is empty. -/
def ReadsOn (source : String) (limit : Nat) (answers : List (Except Error Formula)) (p : Cursor) :
    Prop :=
  match (p.read limit).1 with
  | .error e =>
    e = .nestingTooDeep (max limit (answers.countP failed) + 1) limit ∧
      p.position source < (p.read limit).2.position source
  | .ok _ =>
    (p.read limit).2.position source = source.length ∧
      ∀ m, ((p.read limit).2.readTimes limit m).1 = List.replicate m (.ok (.equation []))

theorem After.readsOn (h : After source answers p) (limit : Nat) :
    p.ReadsOn source limit answers := by
  have herror := (leaves_read limit p).error
  unfold ReadsOn
  rcases read_cases limit h.enclosing with ⟨items, -, hanswer, hrest, -⟩ | ⟨tried, hrun, hanswer⟩
  · have henclosing := (h.read limit).enclosing
    rw [hanswer]
    generalize (p.read limit).2 = q at hrest henclosing
    obtain ⟨rest, depth, enclosing, cuts⟩ := q
    simp only at hrest henclosing
    subst hrest henclosing
    exact ⟨rfl, fun m => by rw [readTimes_of_nil]⟩
  · have hlt := rest_of_run_tooDeep hrun
    have hle : p.rest.length ≤ source.length := by
      rw [h.rest, ← String.length_toList]
      exact (List.drop_suffix _ _).length_le
    rw [hanswer]
    refine ⟨h.depth ▸ herror _ hanswer, ?_⟩
    unfold position
    omega

/-! ## The reader -/

/-- The answers are those of the reader. -/
theorem readTimes_eq (limit n : Nat) (hp : p.enclosing = []) :
    (p.readTimes limit n).1 = (Reader.mk p.rest p.depth limit).readTimes n := by
  induction n generalizing p with
  | zero => rfl
  | succ n ih =>
    obtain ⟨hanswer, hreader⟩ := read_eq limit hp
    have henclosing := (leaves_read limit p).enclosing.trans hp
    rw [readTimes, Reader.readTimes]
    simp only [ih henclosing, hanswer, hreader]

end Cursor

/-- The answers of one parser that is called `n` times, and its cursor after that. -/
def calls (source : String) (limit n : Nat) : List (Except Error Formula) × Cursor :=
  (Cursor.ofSource source).readTimes limit n

/-- A parser that is called any number of times answers as the reader does and is left inside of no
sequence, at a position of the source and as deep as it failed times; and the next call reads on
from there. -/
theorem after_calls (source : String) (limit n : Nat) :
    (calls source limit n).1 = (Reader.ofSource source limit).readTimes n ∧
      (calls source limit n).2.After source (calls source limit n).1 ∧
      (calls source limit n).2.ReadsOn source limit (calls source limit n).1 ∧
      calls source limit (n + 1) =
        ((calls source limit n).1 ++ [((calls source limit n).2.read limit).1],
          ((calls source limit n).2.read limit).2) := by
  have hafter := Cursor.after_readTimes source limit n
  exact ⟨Cursor.readTimes_eq limit n rfl, hafter, hafter.readsOn limit,
    Cursor.readTimes_succ limit n (Cursor.ofSource source)⟩

end FormulaDrawing.Latex
