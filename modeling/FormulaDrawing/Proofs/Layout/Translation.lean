import FormulaDrawing.Proofs.Drawing.Look

/-!
# Moving a layout

A layout is its outlines and its quantities (`ext_outlines`): box by box in document order, an
outline is what a box shows and which parts and scripts it has, without a number, and the quantities
are the numbers, each a position across, a position down or a measure.

    (l.mapPoints f g).outlines = l.outlines
    (l.mapPoints f g).quantities = l.quantities.map (Quantity.map f g)

The two lists are a prefix code, since an outline tells how many numbers its box has and how many
boxes come under it. So these two equations leave nothing of a moved layout open.
-/

namespace FormulaDrawing

variable {α β : Type}

/-! ## Quantities -/

/-- A number in a layout. -/
inductive Quantity (α : Type) where
  | across (x : α)
  | down (y : α)
  | measure (a : α)
deriving DecidableEq, Repr

/-- Positions move, and measures stay. -/
def Quantity.map (f g : α → α) : Quantity α → Quantity α
  | .across x => .across (f x)
  | .down y => .down (g y)
  | .measure a => .measure a

namespace Rect

def quantities (r : Rect α) : List (Quantity α) :=
  [.across r.x, .down r.y, .measure r.width, .measure r.height]

theorem quantities_mapCorner (f g : α → α) (r : Rect α) :
    (r.mapCorner f g).quantities = r.quantities.map (Quantity.map f g) :=
  rfl

theorem quantities_append_inj {r s : Rect α} {qs qs' : List (Quantity α)} :
    r.quantities ++ qs = s.quantities ++ qs' ↔ r = s ∧ qs = qs' := by
  obtain ⟨x, y, width, height⟩ := r
  obtain ⟨x', y', width', height'⟩ := s
  simp [quantities, and_assoc]

theorem quantities_inj {r s : Rect α} : r.quantities = s.quantities ↔ r = s := by
  simpa using @quantities_append_inj α r s [] []

end Rect

namespace Bar

def quantities (b : Bar α) : List (Quantity α) :=
  [.across b.x, .down b.y, .measure b.width, .measure b.thickness]

theorem quantities_mapCorner (f g : α → α) (b : Bar α) :
    (b.mapCorner f g).quantities = b.quantities.map (Quantity.map f g) :=
  rfl

theorem quantities_inj {b c : Bar α} : b.quantities = c.quantities ↔ b = c := by
  obtain ⟨x, y, width, thickness⟩ := b
  obtain ⟨x', y', width', thickness'⟩ := c
  simp [quantities]

end Bar

namespace Kind

/-- The numbers of a kind, without those of its parts. -/
def quantities : Kind α β → List (Quantity α)
  | .text _ size _ => [.measure size]
  | .fraction _ bar _ => bar.quantities
  | .root r bar _ _ => r.quantities ++ bar.quantities
  | .bigOperator _ r _ _ => r.quantities
  | .delimited _ o _ c => o.quantities ++ c.quantities
  | .sequence _ | .script _ _ | .limit _ _ | .empty => []

/-- A kind without numbers and without what its parts are. -/
def outline : Kind α β → Kind Unit Unit
  | .text s _ role => .text s () role
  | .sequence xs => .sequence (xs.map fun _ => ())
  | .fraction _ _ _ => .fraction () ⟨(), (), (), ()⟩ ()
  | .root _ _ i _ => .root ⟨(), (), (), ()⟩ ⟨(), (), (), ()⟩ (i.map fun _ => ()) ()
  | .script side _ => .script side ()
  | .bigOperator op _ u l =>
    .bigOperator op ⟨(), (), (), ()⟩ (u.map fun _ => ()) (l.map fun _ => ())
  | .limit _ a => .limit () (a.map fun _ => ())
  | .delimited d _ _ _ => .delimited d ⟨(), (), (), ()⟩ () ⟨(), (), (), ()⟩
  | .empty => .empty

theorem parts_outline (k : Kind α β) : k.outline.parts = k.parts.map fun _ => () := by
  cases k <;> simp [outline, parts, Option.toList_map]

theorem length_quantities_outline (k : Kind α β) :
    k.outline.quantities.length = k.quantities.length := by
  cases k <;> rfl

/-- A kind is its outline, its numbers and its parts. -/
theorem ext_outline {k k' : Kind α β} (houtline : k.outline = k'.outline)
    (hquantities : k.quantities = k'.quantities) (hparts : k.parts = k'.parts) : k = k' := by
  cases k with
  | text s size role =>
    cases k' with
    | text s' size' role' => simp_all [outline, quantities]
    | _ => cases houtline
  | sequence xs =>
    cases k' with
    | sequence xs' => exact congrArg Kind.sequence hparts
    | _ => cases houtline
  | fraction n bar d =>
    cases k' with
    | fraction n' bar' d' => simp_all [quantities, parts, Bar.quantities_inj]
    | _ => cases houtline
  | root r bar i x =>
    cases k' with
    | root r' bar' i' x' =>
      cases i <;> cases i' <;>
        simp_all [outline, quantities, parts, Rect.quantities_append_inj, Bar.quantities_inj]
    | _ => cases houtline
  | script side x =>
    cases k' with
    | script side' x' => simp_all [outline, parts]
    | _ => cases houtline
  | bigOperator op r u l =>
    cases k' with
    | bigOperator op' r' u' l' =>
      cases u <;> cases u' <;> cases l <;> cases l' <;>
        simp_all [outline, quantities, parts, Rect.quantities_inj]
    | _ => cases houtline
  | limit x a =>
    cases k' with
    | limit x' a' => cases a <;> cases a' <;> simp_all [outline, parts]
    | _ => cases houtline
  | delimited d o x c =>
    cases k' with
    | delimited d' o' x' c' =>
      simp_all [outline, quantities, parts, Rect.quantities_append_inj, Rect.quantities_inj]
    | _ => cases houtline
  | empty =>
    cases k' with
    | empty => rfl
    | _ => cases houtline

end Kind

/-! ## Boxes -/

/-- A box without numbers: what it shows, how many parts it has and which slots are taken. -/
structure Outline where
  kind : Kind Unit Unit
  superscript : Bool
  subscript : Bool

namespace Layout

/-- The outline of the box on top. -/
def outline (l : Layout α) : Outline := ⟨l.kind.outline, l.superscript.isSome, l.subscript.isSome⟩

/-- The numbers of the box on top. -/
def ownQuantities (l : Layout α) : List (Quantity α) :=
  l.bounds.quantities ++ .measure l.baseline :: l.kind.quantities

/-- The outlines of the boxes in document order. -/
def outlines (l : Layout α) : List Outline := l.boxes.map outline

/-- The numbers of the boxes in document order. -/
def quantities (l : Layout α) : List (Quantity α) := l.boxes.flatMap ownQuantities

theorem outlines_eq (l : Layout α) : l.outlines = l.outline :: l.children.flatMap outlines := by
  rw [outlines, boxes_eq, List.map_cons, List.map_flatMap]
  rfl

theorem quantities_eq (l : Layout α) :
    l.quantities = l.ownQuantities ++ l.children.flatMap quantities := by
  rw [quantities, boxes_eq, List.flatMap_cons, List.flatMap_assoc]
  rfl

theorem length_ownQuantities {l m : Layout α} (h : l.outline = m.outline) :
    l.ownQuantities.length = m.ownQuantities.length := by
  have hkind : l.kind.outline = m.kind.outline := congrArg Outline.kind h
  have hlength : l.kind.quantities.length = m.kind.quantities.length := by
    rw [← Kind.length_quantities_outline, hkind, Kind.length_quantities_outline]
  simp [ownQuantities, Rect.quantities, hlength]

theorem length_parts {l m : Layout α} (h : l.outline = m.outline) :
    l.kind.parts.length = m.kind.parts.length := by
  have hparts := congrArg (fun o => o.kind.parts.length) h
  simpa [outline, Kind.parts_outline] using hparts

theorem length_toList {γ : Type} {o o' : Option γ} (h : o.isSome = o'.isSome) :
    o.toList.length = o'.toList.length := by
  cases o <;> cases o' <;> simp_all

theorem eq_of_toList {γ : Type} {o o' : Option γ} (h : o.toList = o'.toList) : o = o' := by
  cases o <;> cases o' <;> simp_all

theorem length_children {l m : Layout α} (h : l.outline = m.outline) :
    l.children.length = m.children.length := by
  have hsuper : l.superscript.isSome = m.superscript.isSome := congrArg Outline.superscript h
  have hsub : l.subscript.isSome = m.subscript.isSome := congrArg Outline.subscript h
  rw [children, children, scripts, scripts, List.length_append, List.length_append,
    List.length_append, List.length_append, length_parts h, length_toList hsuper,
    length_toList hsub]

/-- A box is its outline, its numbers and its children. -/
theorem ext_outline {l m : Layout α} (houtline : l.outline = m.outline)
    (hquantities : l.ownQuantities = m.ownQuantities) (hchildren : l.children = m.children) :
    l = m := by
  have hsuper : l.superscript.isSome = m.superscript.isSome := congrArg Outline.superscript houtline
  obtain ⟨hparts, hscripts⟩ := List.append_inj hchildren (length_parts houtline)
  obtain ⟨hs, ht⟩ := List.append_inj hscripts (length_toList hsuper)
  obtain ⟨hbounds, hquantities⟩ := Rect.quantities_append_inj.1 hquantities
  obtain ⟨hbaseline, hquantities⟩ := List.cons_eq_cons.1 hquantities
  have hkind := Kind.ext_outline (congrArg Outline.kind houtline) hquantities hparts
  obtain ⟨r, b, k, s, t⟩ := l
  obtain ⟨r', b', k', s', t'⟩ := m
  rw [node.injEq]
  exact ⟨hbounds, Quantity.measure.inj hbaseline, hkind, eq_of_toList hs, eq_of_toList ht⟩

/-! ## Layouts -/

/-- Where layouts in a row are each told from what is in front, so is the row. -/
theorem ext_append_list {ls ms : List (Layout α)} {os os' : List Outline}
    {qs qs' : List (Quantity α)}
    (ih : ∀ l ∈ ls, ∀ (m : Layout α) (os os' : List Outline) (qs qs' : List (Quantity α)),
      l.outlines ++ os = m.outlines ++ os' → l.quantities ++ qs = m.quantities ++ qs' →
      l = m ∧ os = os' ∧ qs = qs')
    (hlength : ls.length = ms.length)
    (houtlines : ls.flatMap outlines ++ os = ms.flatMap outlines ++ os')
    (hquantities : ls.flatMap quantities ++ qs = ms.flatMap quantities ++ qs') :
    ls = ms ∧ os = os' ∧ qs = qs' := by
  induction ls generalizing ms with
  | nil =>
    obtain rfl := List.eq_nil_of_length_eq_zero hlength.symm
    exact ⟨rfl, houtlines, hquantities⟩
  | cons l ls ihlist =>
    obtain _ | ⟨m, ms⟩ := ms
    · cases hlength
    rw [List.flatMap_cons, List.flatMap_cons, List.append_assoc, List.append_assoc]
      at houtlines hquantities
    obtain ⟨rfl, houtlines, hquantities⟩ :=
      ih l List.mem_cons_self m _ _ _ _ houtlines hquantities
    obtain ⟨rfl, hrest⟩ := ihlist (fun c hc => ih c (List.mem_cons_of_mem _ hc))
      (Nat.succ.inj hlength) houtlines hquantities
    exact ⟨rfl, hrest⟩

/-- A layout in front is told from the outlines and the numbers, and so is where it ends. -/
theorem ext_append {l m : Layout α} {os os' : List Outline} {qs qs' : List (Quantity α)}
    (houtlines : l.outlines ++ os = m.outlines ++ os')
    (hquantities : l.quantities ++ qs = m.quantities ++ qs') : l = m ∧ os = os' ∧ qs = qs' := by
  induction l using children_induction generalizing m os os' qs qs' with
  | step l ih =>
    rw [outlines_eq, outlines_eq m, List.cons_append, List.cons_append] at houtlines
    rw [quantities_eq, quantities_eq m, List.append_assoc, List.append_assoc] at hquantities
    -- the outline on top tells how many numbers are its own and how many children follow
    obtain ⟨houtline, houtlines⟩ := List.cons_eq_cons.1 houtlines
    obtain ⟨hown, hquantities⟩ := List.append_inj hquantities (length_ownQuantities houtline)
    obtain ⟨hchildren, hrest⟩ := ext_append_list (fun c hc m os os' qs qs' => ih c hc)
      (length_children houtline) houtlines hquantities
    exact ⟨ext_outline houtline hown hchildren, hrest⟩

/-- A layout is its outlines and its numbers. -/
theorem ext_outlines {l m : Layout α} (houtlines : l.outlines = m.outlines)
    (hquantities : l.quantities = m.quantities) : l = m := by
  have ho : l.outlines ++ [] = m.outlines ++ [] := by rw [houtlines]
  have hq : l.quantities ++ [] = m.quantities ++ [] := by rw [hquantities]
  exact (ext_append ho hq).1

/-! ## Moving -/

variable {f g : α → α}

theorem outline_mapPointsKind (k : Kind α (Layout α)) :
    (mapPointsKind f g k).outline = k.outline := by
  cases k <;>
    simp [mapPointsKind, Kind.outline, mapPointsList_eq, mapPointsOption_eq, Function.comp_def]

theorem quantities_mapPointsKind (k : Kind α (Layout α)) :
    (mapPointsKind f g k).quantities = k.quantities.map (Quantity.map f g) := by
  cases k <;> rfl

theorem outline_mapPoints (l : Layout α) : (l.mapPoints f g).outline = l.outline := by
  obtain ⟨r, b, k, s, t⟩ := l
  simp [mapPoints, outline, kind, superscript, subscript, outline_mapPointsKind,
    mapPointsOption_eq]

theorem ownQuantities_mapPoints (l : Layout α) :
    (l.mapPoints f g).ownQuantities = l.ownQuantities.map (Quantity.map f g) := by
  obtain ⟨r, b, k, s, t⟩ := l
  show (r.mapCorner f g).quantities ++ .measure b :: (mapPointsKind f g k).quantities =
    (r.quantities ++ .measure b :: k.quantities).map (Quantity.map f g)
  rw [quantities_mapPointsKind, Rect.quantities_mapCorner, List.map_append, List.map_cons]
  rfl

theorem boxes_mapPoints (l : Layout α) :
    (l.mapPoints f g).boxes = l.boxes.map (mapPoints f g) := by
  induction l using children_induction with
  | step l ih =>
    rw [boxes_eq, boxes_eq l, children_mapPoints, List.map_cons, List.map_flatMap, List.flatMap_map]
    exact congrArg _ (List.flatMap_congr ih)

theorem outlines_mapPoints (l : Layout α) : (l.mapPoints f g).outlines = l.outlines := by
  rw [outlines, boxes_mapPoints, List.map_map]
  exact List.map_congr_left fun b _ => outline_mapPoints b

theorem quantities_mapPoints (l : Layout α) :
    (l.mapPoints f g).quantities = l.quantities.map (Quantity.map f g) := by
  rw [quantities, boxes_mapPoints, List.flatMap_map, quantities, List.map_flatMap]
  exact List.flatMap_congr fun b _ => ownQuantities_mapPoints b

variable [Scalar α]

/-- Moving a layout keeps every outline and every measure, adds `dx` once to every position across
and `dy` once to every position down, and does nothing else: it gives the only layout of which that
is true. A pen draws the moved layout as it draws the other one, but for where things lie. -/
theorem translate_moves_all (l : Layout α) (dx dy : α) :
    (∀ m : Layout α, m = l.translate dx dy ↔
      m.outlines = l.outlines ∧
        m.quantities = l.quantities.map (Quantity.map (· + dx) (· + dy))) ∧
      ∀ pen : Pen α,
        (pen.draw (l.translate dx dy)).map Drawing.looks = (pen.draw l).map Drawing.looks := by
  have houtlines : (l.translate dx dy).outlines = l.outlines := outlines_mapPoints l
  have hquantities : (l.translate dx dy).quantities =
      l.quantities.map (Quantity.map (· + dx) (· + dy)) := quantities_mapPoints l
  refine ⟨fun m => ?_, fun pen => pen.draw_mapPoints _ _ l⟩
  constructor
  · rintro rfl
    exact ⟨houtlines, hquantities⟩
  · rintro ⟨ho, hq⟩
    apply ext_outlines
    · rw [ho, houtlines]
    · rw [hq, hquantities]

end Layout

end FormulaDrawing
