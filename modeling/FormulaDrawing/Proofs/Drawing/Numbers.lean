import FormulaDrawing.Proofs.Drawing.Look
import FormulaDrawing.Proofs.Drawing.Numeral

/-!
# The numbers of a document

What a document gives as coordinates, sizes and widths are the words of the values of some
attributes. They are the coordinates, sizes and widths of what is drawn, each written by itself
(`numbers_document`), so how a document writes its numbers is how a coordinate is written.
-/

namespace FormulaDrawing

variable {α : Type}

/-! ## Measures -/

def Point.coordinates (p : Point α) : List α := [p.x, p.y]

def PathCommand.coordinates (c : PathCommand α) : List α := c.points.flatMap Point.coordinates

/-- The coordinates, sizes and widths of a primitive, in the order in which they are written. -/
def Primitive.measures : Primitive α → List α
  | .textRun run =>
    run.anchor.coordinates ++
      run.fontSize :: run.rotation.toList.flatMap fun r => r.center.coordinates
  | .line l => l.start.coordinates ++ l.finish.coordinates ++ [l.width]
  | .path p => p.commands.flatMap PathCommand.coordinates ++ [p.width]

/-- The coordinates, sizes and widths of a drawing, in the order in which they are written. -/
def measures (primitives : List (Primitive α)) (bounds : Rect α) : List α :=
  [bounds.width, bounds.height, bounds.x, bounds.y, bounds.width, bounds.height] ++
    primitives.flatMap Primitive.measures

namespace Markup

/-! ## Words -/

/-- The characters that stand between the words of a value. -/
def isSeparator (c : Char) : Bool := c == ' ' || c == '(' || c == ')'

def words (cs : List Char) : List String :=
  ((cs.splitOnP isSeparator).filter fun word => !word.isEmpty).map String.ofList

theorem words_append_cons {c : Char} (hc : isSeparator c = true) (cs ds : List Char) :
    words (cs ++ c :: ds) = words cs ++ words ds := by
  unfold words
  rw [List.splitOnP_append_cons cs ds hc, List.filter_append, List.map_append]

theorem words_eq_singleton {s : String} (hne : s.toList ≠ [])
    (h : ∀ c ∈ s.toList, Plain.isNumberChar c = true) : words s.toList = [s] := by
  have hsolid : ∀ c ∈ s.toList, isSeparator c = false := by
    intro c hc
    cases hsep : isSeparator c with
    | false => rfl
    | true =>
      have hnumber := h c hc
      simp only [isSeparator, Bool.or_eq_true, beq_iff_eq] at hsep
      rcases hsep with (rfl | rfl) | rfl <;> cases hnumber
  unfold words
  rw [List.splitOnP_eq_singleton hsolid, List.filter_cons_of_pos (by simpa using hne),
    List.filter_nil, List.map_singleton, String.ofList_toList]

theorem toText_ne_empty (x : Single) : x.toText.toList ≠ [] := by
  cases x with
  | nan => decide
  | signed s k =>
    unfold Binary.toText
    simp only
    split
    · rw [String.toList_append]
      exact List.cons_ne_nil _ _
    · split
      · decide
      · split
        · decide
        · exact Plain.positional_ne_empty _

theorem words_toText (x : Single) : words x.toText.toList = [x.toText] :=
  words_eq_singleton (toText_ne_empty x) fun _ => Plain.isNumberChar_of_mem_toText

theorem words_coordinate (x : Single) : words (coordinate x).toList = [coordinate x] := by
  have hne : (coordinate x).toList ≠ [] := by
    unfold coordinate
    simp only
    split
    · decide
    · exact toText_ne_empty _
  exact words_eq_singleton hne fun _ => Plain.isNumberChar_of_mem_coordinate

theorem words_point (p : Point Single) :
    words (point p).toList = p.coordinates.map coordinate := by
  have hchars : (point p).toList =
      (coordinate p.x).toList ++ ' ' :: (coordinate p.y).toList := by
    simp [point]
  rw [hchars, words_append_cons rfl, words_coordinate, words_coordinate]
  rfl

/-- The center of a rotation stands after its degrees. -/
theorem words_rotation (r : Rotation Single) :
    words ("rotate(" ++ r.degrees.toText ++ " " ++ point r.center ++ ")").toList =
      "rotate" :: r.degrees.toText :: r.center.coordinates.map coordinate := by
  have hchars : ("rotate(" ++ r.degrees.toText ++ " " ++ point r.center ++ ")").toList =
      "rotate".toList ++ '(' :: (r.degrees.toText.toList ++ ' ' ::
        ((point r.center).toList ++ ')' :: [])) := by
    simp
  have hname : words "rotate".toList = ["rotate"] := by decide
  have hnone : words [] = [] := rfl
  rw [hchars, words_append_cons rfl, words_append_cons rfl, words_append_cons rfl, hname,
    words_toText, words_point, hnone, List.append_nil]
  rfl

/-! ## Path data -/

/-- The numbers in path data: the words without the letter of a command. -/
def pathNumbers (cs : List Char) : List String :=
  (words cs).filter fun word => (commandKinds word).isEmpty

theorem pathNumbers_append_cons {c : Char} (hc : isSeparator c = true) (cs ds : List Char) :
    pathNumbers (cs ++ c :: ds) = pathNumbers cs ++ pathNumbers ds := by
  unfold pathNumbers
  rw [words_append_cons hc, List.filter_append]

theorem pathNumbers_point (p : Point Single) :
    pathNumbers (point p).toList = p.coordinates.map coordinate := by
  unfold pathNumbers
  rw [words_point]
  refine List.filter_eq_self.2 fun word hword => ?_
  obtain ⟨x, -, rfl⟩ := List.mem_map.1 hword
  rw [(Plain.coordinate x).kinds]
  rfl

theorem pathNumbers_letter {letter : Char} {kind : CommandKind} (h : isSeparator letter = false)
    (hkind : commandKind? letter = some kind) : pathNumbers [letter] = [] := by
  have hword : words [letter] = [String.ofList [letter]] := by
    rw [words, List.splitOnP_eq_singleton (List.forall_mem_singleton.2 h)]
    rfl
  have hkinds : commandKinds (String.ofList [letter]) = [kind] := by
    rw [commandKinds, String.toList_ofList, List.filterMap_cons_some hkind, List.filterMap_nil]
  rw [pathNumbers, hword, List.filter_cons, hkinds]
  rfl

theorem pathNumbers_letter_cons {letter : Char} {kind : CommandKind}
    (h : isSeparator letter = false) (hkind : commandKind? letter = some kind) (cs : List Char) :
    pathNumbers (letter :: ' ' :: cs) = pathNumbers cs := by
  have hsplit := pathNumbers_append_cons (c := ' ') rfl [letter] cs
  rwa [pathNumbers_letter h hkind] at hsplit

theorem pathNumbers_command (c : PathCommand Single) :
    pathNumbers (command c).toList = c.coordinates.map coordinate := by
  unfold PathCommand.coordinates
  cases c with
  | moveTo p =>
    have hchars : (command (.moveTo p)).toList = 'M' :: ' ' :: (point p).toList := by
      simp [command]
    rw [hchars, pathNumbers_letter_cons rfl rfl, pathNumbers_point]
    simp [PathCommand.points]
  | lineTo p =>
    have hchars : (command (.lineTo p)).toList = 'L' :: ' ' :: (point p).toList := by
      simp [command]
    rw [hchars, pathNumbers_letter_cons rfl rfl, pathNumbers_point]
    simp [PathCommand.points]
  | quadTo c p =>
    have hchars : (command (.quadTo c p)).toList =
        'Q' :: ' ' :: ((point c).toList ++ ' ' :: (point p).toList) := by
      simp [command]
    rw [hchars, pathNumbers_letter_cons rfl rfl, pathNumbers_append_cons rfl, pathNumbers_point,
      pathNumbers_point]
    simp [PathCommand.points]
  | cubicTo c₁ c₂ p =>
    have hchars : (command (.cubicTo c₁ c₂ p)).toList =
        'C' :: ' ' :: ((point c₁).toList ++ ' ' :: ((point c₂).toList ++ ' ' ::
          (point p).toList)) := by
      simp [command]
    rw [hchars, pathNumbers_letter_cons rfl rfl, pathNumbers_append_cons rfl,
      pathNumbers_append_cons rfl, pathNumbers_point, pathNumbers_point, pathNumbers_point]
    simp [PathCommand.points]
  | close =>
    show pathNumbers ['Z'] = []
    exact pathNumbers_letter rfl rfl

/-- The numbers in path data are the coordinates of its commands. -/
theorem pathNumbers_pathData (cs : List (PathCommand Single)) :
    pathNumbers (pathData cs).toList =
      (cs.flatMap PathCommand.coordinates).map coordinate := by
  unfold pathData
  induction cs with
  | nil => rfl
  | cons c cs ih =>
    rw [List.flatMap_cons, List.map_append, ← pathNumbers_command, ← ih, List.map_cons]
    cases cs with
    | nil =>
      rw [List.map_nil, String.intercalate_singleton, String.intercalate_nil]
      exact (List.append_nil _).symm
    | cons d ds =>
      rw [List.map_cons, String.intercalate_cons_cons, String.toList_append, String.toList_append,
        List.append_assoc]
      exact pathNumbers_append_cons rfl _ _

/-! ## Attributes -/

/-- The names of the attributes whose values are coordinates, sizes or widths. -/
def measureNames : List String :=
  ["x", "y", "x1", "y1", "x2", "y2", "width", "height", "viewBox", "font-size", "stroke-width"]

/-- The coordinates, sizes and widths in the value of an attribute. Degrees are none of them, and
stand before the center of a rotation. -/
def attributeNumbers (name value : String) : List String :=
  if name = "d" then pathNumbers value.toList
  else if name = "transform" then (words value.toList).drop 2
  else if measureNames.contains name then words value.toList
  else []

/-- The coordinates, sizes and widths that a tag gives. -/
def Tag.numbers (t : Tag) : List String :=
  t.attributes.flatMap fun a => attributeNumbers a.1 a.2

/-- The coordinates, sizes and widths that a document gives, in the order in which they stand. -/
def numbers (document : String) : List String := (tags document).flatMap Tag.numbers

theorem flatMap_attributeNumbers_rotationAttributes (o : Option (Rotation Single)) :
    ((rotationAttributes o).flatMap fun a => attributeNumbers a.1 a.2) =
      (o.toList.flatMap fun r => r.center.coordinates).map coordinate := by
  cases o with
  | none => rfl
  | some r =>
    have hname : "transform" ≠ "d" := by decide
    rw [rotationAttributes, List.flatMap_singleton, attributeNumbers, if_neg hname, if_pos rfl,
      words_rotation]
    simp

theorem flatMap_numbers_primitiveTags (p : Primitive Single) :
    (primitiveTags p).flatMap Tag.numbers = p.measures.map coordinate := by
  cases p with
  | textRun run =>
    show (_ ++ rotationAttributes run.rotation).flatMap (fun a => attributeNumbers a.1 a.2) ++ [] =
      _
    rw [List.append_nil, List.flatMap_append, flatMap_attributeNumbers_rotationAttributes]
    simp [attributeNumbers, measureNames, words_coordinate, Primitive.measures, Point.coordinates]
  | line line =>
    simp [primitiveTags, Tag.numbers, attributeNumbers, measureNames, words_coordinate,
      Primitive.measures, Point.coordinates]
  | path path =>
    simp [primitiveTags, Tag.numbers, attributeNumbers, measureNames, words_coordinate,
      pathNumbers_pathData, Primitive.measures]

theorem numbers_documentTag (bounds : Rect Single) :
    (documentTag bounds).numbers = (measures [] bounds).map coordinate := by
  have hview : words (coordinate bounds.x ++ " " ++ coordinate bounds.y ++ " " ++
      coordinate bounds.width ++ " " ++ coordinate bounds.height).toList =
        [coordinate bounds.x, coordinate bounds.y, coordinate bounds.width,
          coordinate bounds.height] := by
    have hchars : (coordinate bounds.x ++ " " ++ coordinate bounds.y ++ " " ++
        coordinate bounds.width ++ " " ++ coordinate bounds.height).toList =
          (coordinate bounds.x).toList ++ ' ' :: ((coordinate bounds.y).toList ++ ' ' ::
            ((coordinate bounds.width).toList ++ ' ' :: (coordinate bounds.height).toList)) := by
      simp
    rw [hchars, words_append_cons rfl, words_append_cons rfl, words_append_cons rfl]
    simp only [words_coordinate, List.singleton_append]
  rw [documentTag, Tag.numbers]
  simp only [List.flatMap_cons, List.flatMap_nil, attributeNumbers, hview, words_coordinate]
  simp [measureNames, measures]

/-! ## Documents -/

/-- A document gives the coordinates, sizes and widths of what is drawn, and no others. -/
theorem numbers_document (primitives : List (Primitive Single)) (bounds : Rect Single) :
    numbers (document primitives bounds) = (measures primitives bounds).map coordinate := by
  have hlast : Tag.numbers { name := "/svg", attributes := [], closed := false, text := "" } =
      [] := rfl
  rw [numbers, tags_document, documentTags, List.flatMap_cons, List.flatMap_append,
    List.flatMap_singleton, hlast, List.append_nil, numbers_documentTag, List.flatMap_assoc]
  simp only [flatMap_numbers_primitiveTags, ← List.map_flatMap, ← List.map_append]
  simp [measures]

/-- The numbers of a document are its measures, and they are all written as numerals if and only if
no measure is so great that its hundredfold overflows. -/
theorem numbers_isNumeral_iff (primitives : List (Primitive Single)) (bounds : Rect Single) :
    numbers (document primitives bounds) = (measures primitives bounds).map coordinate ∧
      ((∀ word ∈ numbers (document primitives bounds), isNumeral word = true) ↔
        ∀ x ∈ measures primitives bounds,
          ∃ r, x.toRat? = some r ∧ |r| * 100 < 2 ^ 128 - 2 ^ 103) := by
  refine ⟨numbers_document primitives bounds, ?_⟩
  rw [numbers_document, List.forall_mem_map]
  exact forall₂_congr fun x _ => isNumeral_coordinate_iff x

/-- A line to a finite coordinate whose hundredfold overflows. -/
def longLine : Primitive Single :=
  .line { start := ⟨.zero false, .zero false⟩
          finish := ⟨1e37, .zero false⟩
          stroke := ⟨0, 0, 0, 255⟩
          width := 2.0 }

/-- That everything in a drawing is finite does not make its numbers numerals. -/
theorem not_numbers_isNumeral_of_isFinite :
    ¬∀ (primitives : List (Primitive Single)) (bounds : Rect Single),
      (∀ x ∈ measures primitives bounds ++ degrees primitives, x.isFinite = true) →
        ∀ word ∈ numbers (document primitives bounds), isNumeral word = true := by
  intro h
  have hfinite : ∀ x ∈ measures [longLine] ⟨.zero false, .zero false, 1.0, 1.0⟩ ++
      degrees [longLine], x.isFinite = true := by
    decide +kernel
  have hall := h [longLine] ⟨.zero false, .zero false, 1.0, 1.0⟩ hfinite
  rw [numbers_document, List.forall_mem_map] at hall
  have hlong : isNumeral (coordinate (1e37 : Single)) = true :=
    hall _ (by simp [measures, longLine, Primitive.measures, Point.coordinates])
  revert hlong
  decide +kernel

end Markup

end FormulaDrawing
