import FormulaDrawing.Formula.Json
import FormulaDrawing.Proofs.Formula.Nodes
import Mathlib.Data.List.Forall2
import Mathlib.Data.List.Nodup

/-!
# Formulas are read back from JSON

A formula is read back from what it is written as. The members of an object have no order of their
own, so this is shown of every value that lists them in some order, at any depth:

    j.Reordered x.toJson → ofJson? j = some x                              (decodes)

Reading looks members up by name, and where the names are distinct a look-up does not see their
order (`Reordered.exists_lookup`).
-/

namespace FormulaDrawing

namespace Json

/-- The same value, but for the order in which objects list their members. -/
inductive Reordered : Json → Json → Prop
  | null : Reordered .null .null
  | bool (b : Bool) : Reordered (.bool b) (.bool b)
  | number (n : Numeral) : Reordered (.number n) (.number n)
  | string (s : String) : Reordered (.string s) (.string s)
  | array {items items' : List Json} :
    List.Forall₂ Reordered items items' → Reordered (.array items) (.array items')
  | object {members listed members' : List (String × Json)} :
    members.Perm listed → listed.map Prod.fst = members'.map Prod.fst →
    List.Forall₂ Reordered (listed.map Prod.snd) (members'.map Prod.snd) →
    Reordered (.object members) (.object members')

theorem reordered_self : ∀ j, Reordered j j
  | .null => .null
  | .bool b => .bool b
  | .number n => .number n
  | .string s => .string s
  | .array items => .array (items_self items)
  | .object members => .object (List.Perm.refl _) rfl (members_self members)
where
  items_self : ∀ items : List Json, List.Forall₂ Reordered items items
    | [] => .nil
    | j :: js => .cons (reordered_self j) (items_self js)
  members_self : ∀ members : List (String × Json),
      List.Forall₂ Reordered (members.map Prod.snd) (members.map Prod.snd)
    | [] => .nil
    | (_, j) :: ms => .cons (reordered_self j) (members_self ms)

theorem lookup_eq_some {members : List (String × Json)} {name : String} {j : Json}
    (hkeys : (members.map Prod.fst).Nodup) (h : (name, j) ∈ members) :
    members.lookup name = some j := by
  induction members with
  | nil => cases h
  | cons m ms ih =>
    obtain ⟨key, k⟩ := m
    rw [List.map_cons, List.nodup_cons] at hkeys
    rcases List.mem_cons.1 h with heq | hmem
    · cases heq
      exact List.lookup_cons_self
    · have hne : (name == key) = false := by
        rw [beq_eq_false_iff_ne]
        rintro rfl
        exact hkeys.1 (List.mem_map.2 ⟨_, hmem, rfl⟩)
      rw [List.lookup_cons, hne]
      exact ih hkeys.2 hmem

namespace Reordered

variable {j : Json} {members members' : List (String × Json)}

theorem exists_mem {listed : List (String × Json)} {name : String} {k : Json}
    (hnames : listed.map Prod.fst = members'.map Prod.fst)
    (hvalues : List.Forall₂ Reordered (listed.map Prod.snd) (members'.map Prod.snd))
    (h : (name, k) ∈ members') : ∃ i, (name, i) ∈ listed ∧ Reordered i k := by
  induction listed generalizing members' with
  | nil =>
    rw [List.map_nil] at hnames
    rw [List.map_eq_nil_iff.1 hnames.symm] at h
    cases h
  | cons m ms ih =>
    obtain ⟨key, i⟩ := m
    obtain _ | ⟨⟨key', i'⟩, ms'⟩ := members'
    · cases h
    · rw [List.map_cons, List.map_cons] at hnames hvalues
      obtain ⟨hkey, hrest⟩ := List.cons_eq_cons.1 hnames
      obtain ⟨hvalue, hothers⟩ := List.forall₂_cons.1 hvalues
      obtain rfl : key = key' := hkey
      rcases List.mem_cons.1 h with heq | hmem
      · cases heq
        exact ⟨i, List.mem_cons_self, hvalue⟩
      · obtain ⟨i, hi, hik⟩ := ih hrest hothers hmem
        exact ⟨i, List.mem_cons_of_mem _ hi, hik⟩

/-- Where names are distinct, each member is found under its name. -/
theorem exists_lookup (h : Reordered (.object members) (.object members'))
    (hkeys : (members'.map Prod.fst).Nodup) {name : String} {k : Json} (hk : (name, k) ∈ members') :
    ∃ i, members.lookup name = some i ∧ Reordered i k := by
  obtain _ | _ | _ | _ | _ | @⟨_, listed, _, hperm, hnames, hvalues⟩ := h
  obtain ⟨i, hi, hik⟩ := exists_mem hnames hvalues hk
  refine ⟨i, lookup_eq_some ?_ (hperm.mem_iff.2 hi), hik⟩
  rw [(hperm.map Prod.fst).nodup_iff, hnames]
  exact hkeys

theorem exists_object (h : Reordered j (.object members')) : ∃ members, j = .object members := by
  cases h
  exact ⟨_, rfl⟩

theorem exists_array {items' : List Json} (h : Reordered j (.array items')) :
    ∃ items, j = .array items ∧ List.Forall₂ Reordered items items' := by
  cases h with
  | array hitems => exact ⟨_, rfl, hitems⟩

/-- A variant lists one member, so there is nothing to reorder but what it holds. -/
theorem exists_tagged {name : String} {payload : Json} (h : Reordered j (tagged name payload)) :
    ∃ k, j = tagged name k ∧ Reordered k payload := by
  obtain _ | _ | _ | _ | _ | @⟨members, listed, _, hperm, hnames, hvalues⟩ := h
  obtain ⟨⟨key, k⟩, rfl⟩ : ∃ m, listed = [m] := by
    rw [← List.length_eq_one_iff, ← List.length_map Prod.fst, hnames]
    rfl
  rw [List.perm_singleton.1 hperm]
  cases hnames
  exact ⟨k, rfl, (List.forall₂_cons.1 hvalues).1⟩

end Reordered

end Json

namespace Formula

/-! ## Variants and fields -/

/-- A formula is read from whatever says what it is written as. -/
def Decodes (x : Formula) : Prop := ∀ j, Json.Reordered j x.toJson → ofJson? j = some x

theorem exists_toJson_eq (x : Formula) : ∃ name payload, x.toJson = .tagged name payload := by
  cases x with
  | leaf l => cases l <;> exact ⟨_, _, rfl⟩
  | script side y => cases side <;> exact ⟨_, _, rfl⟩
  | bigOperator op l u => cases op <;> exact ⟨_, _, rfl⟩
  | delimited d xs => cases d <;> exact ⟨_, _, rfl⟩
  | _ => exact ⟨_, _, rfl⟩

theorem lookup_ofMembers (members : List (String × Json)) (name : String) :
    (ofMembers members).lookup name = (members.lookup name).map ofOptional? := by
  induction members with
  | nil => rfl
  | cons m ms ih =>
    obtain ⟨key, j⟩ := m
    rw [ofMembers, List.lookup_cons, List.lookup_cons, ih]
    cases name == key <;> rfl

variable {x : Formula} {j : Json}

theorem ofJson?_tagged (name : String) (payload : Json) :
    ofJson? (.tagged name payload) = ofVariant? name payload := by
  rw [Json.tagged, ofJson?, ofObject?]

theorem ofVariant?_object {name : String} (hsuper : name ≠ "Superscript")
    (hsub : name ≠ "Subscript") (members : List (String × Json)) :
    ofVariant? name (.object members) = ofFields? (ofMembers members) name := by
  rw [ofVariant?]
  · exact hsuper
  · exact hsub

/-- It is enough to read what the variant holds. -/
theorem decodes_of_tagged {name : String} {payload : Json} (hx : x.toJson = .tagged name payload)
    (h : ∀ k, Json.Reordered k payload → ofVariant? name k = some x) : x.Decodes := by
  intro j hj
  rw [hx] at hj
  obtain ⟨k, rfl, hk⟩ := hj.exists_tagged
  rw [ofJson?_tagged, h k hk]

theorem Decodes.ofObject? (h : x.Decodes) (hj : Json.Reordered j x.toJson) :
    ∃ members, j = .object members ∧ ofObject? members = some x := by
  obtain ⟨name, payload, hx⟩ := exists_toJson_eq x
  obtain ⟨k, rfl, -⟩ := (hx ▸ hj).exists_tagged
  have hread := h _ hj
  rw [Json.tagged, ofJson?] at hread
  exact ⟨_, rfl, hread⟩

theorem Decodes.optional (h : x.Decodes) (hj : Json.Reordered j x.toJson) :
    ofOptional? j = some (some x) := by
  obtain ⟨members, rfl, hread⟩ := h.ofObject? hj
  rw [ofOptional?, hread]
  rfl

theorem optional_toJsonOption {o : Option Formula} (h : ∀ x ∈ o, x.Decodes)
    (hj : Json.Reordered j (toJsonOption o)) : ofOptional? j = some o := by
  cases o with
  | none =>
    cases hj
    rfl
  | some x => exact (h x rfl).optional hj

theorem ofList?_toJsonList {xs : List Formula} (h : ∀ x ∈ xs, x.Decodes) {items : List Json}
    (hitems : List.Forall₂ Json.Reordered items (toJsonList xs)) : ofList? items = some xs := by
  induction xs generalizing items with
  | nil =>
    cases hitems
    rfl
  | cons x xs ih =>
    rw [toJsonList] at hitems
    obtain _ | ⟨hj, hjs⟩ := hitems
    rw [List.forall_mem_cons] at h
    rw [ofList?, h.1 _ hj, ih h.2 hjs]
    rfl

section Fields

variable {members members' : List (String × Json)} {name : String}

theorem requiredField_lookup (h : Json.Reordered (.object members) (.object members'))
    (hkeys : (members'.map Prod.fst).Nodup) (hx : x.Decodes) (hmem : (name, x.toJson) ∈ members') :
    requiredField ((ofMembers members).lookup name) = some x := by
  obtain ⟨j, hlookup, hj⟩ := h.exists_lookup hkeys hmem
  rw [lookup_ofMembers, hlookup, Option.map_some, hx.optional hj, requiredField]

theorem optionalField_lookup (h : Json.Reordered (.object members) (.object members'))
    (hkeys : (members'.map Prod.fst).Nodup) {o : Option Formula} (ho : ∀ x ∈ o, x.Decodes)
    (hmem : (name, toJsonOption o) ∈ members') :
    optionalField ((ofMembers members).lookup name) = some o := by
  obtain ⟨j, hlookup, hj⟩ := h.exists_lookup hkeys hmem
  rw [lookup_ofMembers, hlookup, Option.map_some, optional_toJsonOption ho hj, optionalField]

end Fields

/-! ## Formulas -/

theorem decodes_leaf (l : Leaf) : (leaf l).Decodes := by
  obtain ⟨name, s, hx⟩ : ∃ name s, toJson (.leaf l) = .tagged name (.string s) := by
    cases l <;> exact ⟨_, _, rfl⟩
  refine decodes_of_tagged hx fun k hk => ?_
  cases hk
  rw [← ofJson?_tagged, ← hx]
  cases l <;> simp [toJson, Json.ofChar, ofJson?_tagged, ofVariant?] <;> rfl

theorem decodes_script (side : ScriptSide) (h : x.Decodes) : (script side x).Decodes := by
  cases side
  all_goals
    refine decodes_of_tagged rfl fun k hk => ?_
    obtain ⟨members, rfl, hread⟩ := h.ofObject? hk
    rw [ofVariant?, hread]
    rfl

theorem decodes_fraction {n d : Formula} (hn : n.Decodes) (hd : d.Decodes) :
    (fraction n d).Decodes := by
  refine decodes_of_tagged rfl fun k hk => ?_
  obtain ⟨members, rfl⟩ := hk.exists_object
  have hkeys : ["numerator", "denominator"].Nodup := by decide
  rw [ofVariant?_object (by decide) (by decide), ofFields?,
    requiredField_lookup hk hkeys hn (by simp), requiredField_lookup hk hkeys hd (by simp)]
  rfl

theorem decodes_root {i : Option Formula} (hi : ∀ y ∈ i, y.Decodes) (hx : x.Decodes) :
    (root i x).Decodes := by
  refine decodes_of_tagged rfl fun k hk => ?_
  obtain ⟨members, rfl⟩ := hk.exists_object
  have hkeys : ["index", "content"].Nodup := by decide
  rw [ofVariant?_object (by decide) (by decide), ofFields?,
    optionalField_lookup hk hkeys hi (by simp), requiredField_lookup hk hkeys hx (by simp)]
  rfl

theorem decodes_bigOperator (op : BigOperator) {l u : Option Formula} (hl : ∀ y ∈ l, y.Decodes)
    (hu : ∀ y ∈ u, y.Decodes) : (bigOperator op l u).Decodes := by
  have hkeys : ["lower", "upper"].Nodup := by decide
  cases op
  all_goals
    refine decodes_of_tagged rfl fun k hk => ?_
    obtain ⟨members, rfl⟩ := hk.exists_object
    rw [ofVariant?_object (by decide) (by decide), ofFields?,
      optionalField_lookup hk hkeys hl (by simp), optionalField_lookup hk hkeys hu (by simp)]
    rfl

theorem decodes_limit {a : Option Formula} (ha : ∀ y ∈ a, y.Decodes) : (limit a).Decodes := by
  refine decodes_of_tagged rfl fun k hk => ?_
  obtain ⟨members, rfl⟩ := hk.exists_object
  have hkeys : ["approach"].Nodup := by decide
  rw [ofVariant?_object (by decide) (by decide), ofFields?,
    optionalField_lookup hk hkeys ha (by simp)]
  rfl

theorem decodes_sequence {xs : List Formula} (h : ∀ y ∈ xs, y.Decodes) {name : String}
    (hx : x.toJson = .tagged name (.array (toJsonList xs)))
    (hvariant : ∀ items, ofList? items = some xs → ofVariant? name (.array items) = some x) :
    x.Decodes := by
  refine decodes_of_tagged hx fun k hk => ?_
  obtain ⟨items, rfl, hitems⟩ := hk.exists_array
  exact hvariant items (ofList?_toJsonList h hitems)

/-- Every formula is read from what it is written as: the parts first, then the variant. -/
theorem decodes (x : Formula) : x.Decodes := by
  induction x using size_induction with
  | step x ih =>
    have hchild : ∀ y ∈ x.children, y.Decodes := fun y hy => ih y (sizeOf_lt_of_mem_children hy)
    cases x with
    | leaf l => exact decodes_leaf l
    | fraction n d =>
      exact decodes_fraction (hchild n (by simp [children])) (hchild d (by simp [children]))
    | script side y => exact decodes_script side (hchild y (by simp [children]))
    | root i y =>
      exact decodes_root (fun z hz => hchild z (by simp_all [children]))
        (hchild y (by simp [children]))
    | bigOperator op l u =>
      exact decodes_bigOperator op (fun z hz => hchild z (by simp_all [children]))
        fun z hz => hchild z (by simp_all [children])
    | limit a => exact decodes_limit fun z hz => hchild z (by simp_all [children])
    | group xs =>
      exact decodes_sequence hchild rfl fun items h => by rw [ofVariant?, h]; rfl
    | delimited d xs =>
      cases d with
      | parentheses => exact decodes_sequence hchild rfl fun items h => by rw [ofVariant?, h]; rfl
      | bars => exact decodes_sequence hchild rfl fun items h => by rw [ofVariant?, h]; rfl
    | equation xs => exact decodes_sequence hchild rfl fun items h => by rw [ofVariant?, h]; rfl

/-- Reading undoes writing: a formula is read back from the value that it is written as, and from
that value with the members of its objects in any other order. -/
theorem ofJson?_toJson (x : Formula) :
    ofJson? x.toJson = some x ∧ ∀ j, Json.Reordered j x.toJson → ofJson? j = some x :=
  ⟨decodes x _ (Json.reordered_self _), decodes x⟩

/-- A fraction with its denominator listed first. -/
theorem ofJson?_toJson_swapped :
    ∃ j, Json.Reordered j (toJson (.fraction (.number "1") (.letter 'x'))) ∧
      j = .tagged "Fraction" (.object [("denominator", .tagged "Variable" (.string "x")),
        ("numerator", .tagged "Number" (.string "1"))]) ∧
      ofJson? j = some (.fraction (.number "1") (.letter 'x')) := by
  have hj : Json.Reordered
      (.tagged "Fraction" (.object [("denominator", .tagged "Variable" (.string "x")),
        ("numerator", .tagged "Number" (.string "1"))]))
      (toJson (.fraction (.number "1") (.letter 'x'))) :=
    .object (List.Perm.refl _) rfl (.cons (.object (List.Perm.swap _ _ []) rfl
      (.cons (Json.reordered_self _) (.cons (Json.reordered_self _) .nil))) .nil)
  exact ⟨_, hj, rfl, (ofJson?_toJson _).2 _ hj⟩

end Formula

end FormulaDrawing
