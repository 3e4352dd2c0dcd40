import FormulaDrawing.Proofs.Latex.Parts
import FormulaDrawing.Proofs.Latex.Threshold

/-!
# Well formed formulas

Whatever is read, layout and drawing meet one form of formulas: an equation at the root and nowhere
else, groups that are not of one part, and leaves that some text or command stands for.

The condition on a node looks at the node and the number of its parts only (`Formula.Regular`), so
it is kept when regular parts are put together (`regular_compositional`), and every source gives a
well formed formula, its own text included (`parse_wellFormed`).
-/

namespace FormulaDrawing

open Unicode

/-- The sign of an operator is never the star or the slash. -/
theorem normalizeOperator?_ne {c d : Char} (h : normalizeOperator? d = some c) :
    c ≠ '*' ∧ c ≠ '/' := by
  unfold normalizeOperator? at h
  split at h
  · cases h
    exact ⟨by decide, by decide⟩
  split at h
  · cases h
    exact ⟨by decide, by decide⟩
  next hstar hslash =>
    split at h
    · cases h
      exact ⟨hstar, hslash⟩
    · cases h

/-- The operators of plain text are signs of their own. -/
theorem normalizeOperator?_self {c d : Char} (h : normalizeOperator? d = some c) :
    normalizeOperator? c = some c := by
  unfold normalizeOperator? at h
  split at h
  · cases h
    rfl
  split at h
  · cases h
    rfl
  next hstar hslash =>
    split at h
    next hmem =>
      cases h
      rw [normalizeOperator?, if_neg hstar, if_neg hslash, if_pos hmem]
    next => cases h

theorem mem_substitutions {name : String} {s : Substitution} (h : substitution? name = some s) :
    (name, s) ∈ substitutions := by
  obtain ⟨l₁, l₂, hl, -⟩ := List.lookup_eq_some_iff.1 h
  rw [hl]
  simp

theorem mem_greekLetters {name : String} {c : Char} (h : greekLetter? name = some c) :
    (name, c) ∈ greekLetters := by
  obtain ⟨l₁, l₂, hl, -⟩ := List.lookup_eq_some_iff.1 h
  rw [hl]
  simp

theorem exists_greekLetter_iff {c : Char} :
    (∃ entry ∈ greekLetters, entry.2 = c) ↔ ∃ name, greekLetter? name = some c := by
  have hall : ∀ entry ∈ greekLetters, greekLetter? entry.1 = some entry.2 := by decide +kernel
  constructor
  · rintro ⟨entry, hentry, rfl⟩
    exact ⟨entry.1, hall entry hentry⟩
  · rintro ⟨name, h⟩
    exact ⟨_, mem_greekLetters h, rfl⟩

theorem exists_substitution_iff {s : Substitution} :
    (∃ entry ∈ substitutions, entry.2 = s) ↔ ∃ name, substitution? name = some s := by
  have hall : ∀ entry ∈ substitutions, substitution? entry.1 = some entry.2 := by decide +kernel
  constructor
  · rintro ⟨entry, hentry, rfl⟩
    exact ⟨entry.1, hall entry hentry⟩
  · rintro ⟨name, h⟩
    exact ⟨_, mem_substitutions h, rfl⟩

theorem Leaf.Legible.operator_ne {c : Char} (h : (Leaf.operator c).Legible) :
    c ≠ '*' ∧ c ≠ '/' := by
  rcases h with ⟨d, hd⟩ | ⟨name, hname⟩
  · exact normalizeOperator?_ne hd
  · have hall : ∀ entry ∈ substitutions, entry.2 ≠ .operator '*' ∧ entry.2 ≠ .operator '/' := by
      decide
    have hentry := hall _ (mem_substitutions hname)
    simpa using hentry

/-- A sign that stands for an operator stands for it itself, and each table has a name for what it
gives. -/
instance Leaf.decidableLegible : DecidablePred Leaf.Legible
  | .number digits =>
    -- by the digits of the text, not by all characters there are
    have : Decidable (∀ c ∈ digits.toList, c.isDigit ∨ c = '.') := List.decidableBAll _ _
    inferInstanceAs (Decidable (digits ≠ "" ∧ ∀ c ∈ digits.toList, c.isDigit ∨ c = '.'))
  | .letter c => inferInstanceAs (Decidable (isAlphabetic c = true))
  | .function name => inferInstanceAs (Decidable (isFunctionName name = true))
  | .text s => inferInstanceAs (Decidable (s ≠ ""))
  | .greek c => decidable_of_iff (∃ entry ∈ greekLetters, entry.2 = c) exists_greekLetter_iff
  | .operator c =>
    decidable_of_iff
      (normalizeOperator? c = some c ∨ ∃ entry ∈ substitutions, entry.2 = .operator c)
      (or_congr ⟨fun h => ⟨c, h⟩, fun ⟨_, h⟩ => normalizeOperator?_self h⟩ exists_substitution_iff)

namespace Formula

/-- What reading keeps to at a node below the root. -/
def Regular : Formula → Prop
  | .leaf l => l.Legible
  | .group xs => xs.length ≠ 1
  | .equation _ => False
  | _ => True

instance decidableRegular : DecidablePred Regular
  | .leaf l => inferInstanceAs (Decidable l.Legible)
  | .group xs => inferInstanceAs (Decidable (xs.length ≠ 1))
  | .equation _ => .isFalse id
  | .fraction .. | .script .. | .root .. | .bigOperator .. | .limit .. | .delimited .. =>
    .isTrue trivial

/-- Every node is regular. -/
def AllRegular (x : Formula) : Prop := ∀ y ∈ x.nodes, y.Regular

instance decidableAllRegular : DecidablePred AllRegular :=
  fun x => inferInstanceAs (Decidable (∀ y ∈ x.nodes, y.Regular))

/-- An equation of regular parts. -/
structure WellFormed (t : Formula) : Prop where
  root : ∃ items, t = .equation items
  below : ∀ x ∈ t.children, x.AllRegular

/-- A formula is regular throughout if its root is and its children are throughout. -/
theorem allRegular_iff {x : Formula} :
    x.AllRegular ↔ x.Regular ∧ ∀ y ∈ x.children, y.AllRegular := by
  unfold AllRegular
  rw [nodes_eq]
  simp only [List.forall_mem_cons, List.mem_flatMap]
  constructor
  · rintro ⟨hx, hall⟩
    exact ⟨hx, fun y hy z hz => hall z ⟨y, hy, hz⟩⟩
  · rintro ⟨hx, hall⟩
    refine ⟨hx, ?_⟩
    rintro z ⟨y, hy, hz⟩
    exact hall y hy z hz

theorem allRegular_leaf {l : Leaf} (h : l.Legible) : (leaf l).AllRegular :=
  allRegular_iff.2 ⟨h, fun y hy => by cases hy⟩

/-- A group of one part is that part, so what remains a group is regular. -/
theorem allRegular_collapse {xs : List Formula} (h : ∀ x ∈ xs, x.AllRegular) :
    (collapse xs).AllRegular := by
  unfold collapse
  split
  next x => exact h x (List.mem_singleton_self x)
  next hone =>
    refine allRegular_iff.2 ⟨fun hlength => ?_, h⟩
    obtain ⟨x, rfl⟩ := List.length_eq_one_iff.1 hlength
    exact hone x rfl

end Formula

namespace Latex

open Formula

/-- Regular parts make regular structures, at any depth. -/
theorem regular_compositional (limit : Nat) : Compositional limit fun _ x => x.AllRegular where
  leaf _ hl := allRegular_leaf hl
  collapse _ hxs := allRegular_collapse hxs
  delimited _ hxs := allRegular_iff.2 ⟨trivial, hxs⟩
  script := by
    intro n side x _ hx
    refine allRegular_iff.2 ⟨trivial, fun y hy => ?_⟩
    rw [children, List.mem_singleton] at hy
    rwa [hy]
  fraction := by
    intro n x y _ hx hy
    refine allRegular_iff.2 ⟨trivial, ?_⟩
    rw [children, List.forall_mem_cons, List.forall_mem_singleton]
    exact ⟨hx, hy⟩
  root := by
    intro n index x _ hindex hx
    refine allRegular_iff.2 ⟨trivial, fun y hy => ?_⟩
    rw [children, List.mem_append, List.mem_singleton, Option.mem_toList] at hy
    rcases hy with hy | rfl
    · obtain ⟨xs, rfl, hxs⟩ := hindex y hy
      exact allRegular_collapse hxs
    · exact hx
  bigOperator := by
    intro n op lower upper _ hlower hupper
    refine allRegular_iff.2 ⟨trivial, fun y hy => ?_⟩
    rw [children, List.mem_append, Option.mem_toList, Option.mem_toList] at hy
    exact hy.elim (hlower y) (hupper y)
  limit := by
    intro n approach _ happroach
    refine allRegular_iff.2 ⟨trivial, fun y hy => ?_⟩
    rw [children, Option.mem_toList] at hy
    exact happroach y hy

theorem wellFormed_of_read {source : String} {limit : Nat} {t : Formula}
    (h : read source limit = .ok t) : t.WellFormed := by
  obtain ⟨items, hrun, rfl⟩ := read_eq_ok_iff.1 h
  have hitems := run_holds (regular_compositional limit) rfl State.initial_holds hrun
  exact ⟨⟨items, rfl⟩, hitems⟩

/-- The empty source nests nowhere. -/
theorem ne_empty_of_read {source : String} {limit : Nat} (h : ∀ t, read source limit ≠ .ok t) :
    source ≠ "" := by
  rintro rfl
  obtain ⟨t, ht⟩ := @read_of_length_le "" limit (Nat.zero_le limit)
  exact h t ht

/-- Whatever the source and the limit, the formula is an equation of regular parts; none of its
operators is a star or a slash, and a source that nests too deep is a text that is not empty. -/
theorem parse_wellFormed (source : String) (limit : Nat) :
    (parse source limit).WellFormed ∧
      (∀ c, .operator c ∈ (parse source limit).nodes → c ≠ '*' ∧ c ≠ '/') ∧
      ((∃ t, read source limit = .ok t ∧ parse source limit = t) ∨
        parse source limit = .equation [.text source] ∧ source ≠ "") := by
  have hcases : (∃ t, read source limit = .ok t ∧ parse source limit = t) ∨
      parse source limit = .equation [.text source] ∧ source ≠ "" := by
    by_cases hread : ∃ t, read source limit = .ok t
    · obtain ⟨t, ht⟩ := hread
      exact .inl ⟨t, ht, parse_of_read ht⟩
    · have hnone : ∀ t, read source limit ≠ .ok t := fun t ht => hread ⟨t, ht⟩
      refine .inr ⟨?_, ne_empty_of_read hnone⟩
      unfold parse
      rw [read_error hnone]
  have hform : (parse source limit).WellFormed := by
    rcases hcases with ⟨t, ht, heq⟩ | ⟨heq, hne⟩
    · rw [heq]
      exact wellFormed_of_read ht
    · rw [heq]
      refine ⟨⟨_, rfl⟩, fun x hx => ?_⟩
      rw [children, List.mem_singleton] at hx
      rw [hx]
      exact allRegular_leaf hne
  refine ⟨hform, fun c hc => ?_, hcases⟩
  obtain ⟨items, hitems⟩ := hform.root
  rw [nodes_eq, List.mem_cons, List.mem_flatMap] at hc
  rcases hc with hc | ⟨x, hx, hc⟩
  · rw [hitems] at hc
    cases hc
  · have hlegible : (Leaf.operator c).Legible := hform.below x hx _ hc
    exact hlegible.operator_ne

end Latex

end FormulaDrawing
