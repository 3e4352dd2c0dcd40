import FormulaDrawing.Options.Reader
import FormulaDrawing.Proofs.Drawing.Color
import Mathlib.Data.List.Forall2

/-!
# The values given for options

Options are read in one pass over the tokens of a text, and no value of the text is built on the
way. `Json.skim` builds it, passing over what options do not use, so that it can be said which value
a text gives for an option (`Gives`). The two run side by side (`Follows`): where the reader takes a
token the builder takes it too, and in what they come to every value given for an option was one to
set it from (`exists_skim_of_decode`).

A text that gives a colour is read only if the colour is one.
-/

namespace FormulaDrawing

theorem exists_of_bind_eq_ok {ε α β : Type} {x : Except ε α} {f : α → Except ε β} {b : β}
    (h : x >>= f = .ok b) : ∃ a, x = .ok a ∧ f a = .ok b := by
  cases x with
  | error e => cases h
  | ok a => exact ⟨a, rfl, h⟩

namespace Json

/-! ## Skimming a text -/

/-- Build a value from tokens, which must be the whole text. What has no value is passed over. -/
def skimTokens (b : Builder) : List Token → Option Json
  | [] => none
  | t :: ts =>
    match b.take true t with
    | .error _ => none
    | .ok (.more b) => skimTokens b ts
    | .ok (.whole value) => if ts.isEmpty then some value else none

/-- The value of a text, without what cannot be used. -/
def skim (s : String) : Option Json := skimTokens .initial (Token.ofText s)

namespace Builder

variable {skipping : Bool} {stack : List Container} {t : Token}

theorem take_valueOrEnd (ht : t ≠ .closeBracket) :
    take skipping ⟨stack, .valueOrEnd⟩ t = takeValue skipping stack t := by
  cases t with
  | closeBracket => exact absurd rfl ht
  | _ => rfl

theorem take_keyOrEnd (ht : t ≠ .closeBrace) :
    take skipping ⟨stack, .keyOrEnd⟩ t = takeKey skipping stack t := by
  cases t with
  | closeBrace => exact absurd rfl ht
  | _ => rfl

theorem take_comma (ht : t ≠ .comma) :
    take skipping ⟨stack, .comma⟩ t = takeEnd stack t := by
  cases t with
  | comma => exact absurd rfl ht
  | _ => rfl

theorem take_true_of_take_false {b : Builder} {t : Token} {p : Progress}
    (h : b.take false t = .ok p) : b.take true t = .ok p := by
  have hvalue : ∀ {stack}, takeValue false stack t = .ok p → takeValue true stack t = .ok p := by
    intro stack h
    cases t with
    | number value skipped => cases value <;> first | exact h | cases h
    | string value skipped => cases value <;> first | exact h | cases h
    | _ => exact h
  have hkey : ∀ {stack}, takeKey false stack t = .ok p → takeKey true stack t = .ok p := by
    intro stack h
    cases t with
    | string value skipped => cases value <;> first | exact h | cases h
    | _ => exact h
  obtain ⟨stack, expected⟩ := b
  cases expected with
  | value => exact hvalue h
  | key => exact hkey h
  | valueOrEnd =>
    by_cases ht : t = .closeBracket
    · subst ht
      exact h
    · rw [take_valueOrEnd ht] at h ⊢
      exact hvalue h
  | keyOrEnd =>
    by_cases ht : t = .closeBrace
    · subst ht
      exact h
    · rw [take_keyOrEnd ht] at h ⊢
      exact hkey h
  | colon => cases t <;> exact h
  | comma => cases t <;> exact h

end Builder

/-- What can be read can be skimmed. -/
theorem skim_of_read {s : String} {j : Json} (h : read s = .ok j) : skim s = some j := by
  have htokens : ∀ (ts : List Token) (b : Builder), readTokens b ts = .ok j →
      skimTokens b ts = some j := by
    intro ts
    induction ts with
    | nil => nofun
    | cons t ts ih =>
      intro b hb
      rw [readTokens] at hb
      rw [skimTokens]
      cases htake : b.take false t with
      | error problem => rw [htake] at hb; cases hb
      | ok p =>
        rw [htake] at hb
        rw [Builder.take_true_of_take_false htake]
        cases p with
        | more b => exact ih b hb
        | whole value =>
          simp only at hb ⊢
          split at hb
          · cases hb
            simp [*]
          · cases hb
  exact htokens _ _ h

/-! ## Open containers below -/

/-- The same progress with more containers open below. -/
def Progress.onto (base : List Container) : Progress → Progress
  | .more b => .more ⟨b.stack ++ base, b.expected⟩
  | .whole value => Builder.place value base

namespace Builder

theorem place_append (value : Json) (stack base : List Container) :
    place value (stack ++ base) = (place value stack).onto base := by
  cases stack with
  | nil => rfl
  | cons c stack => cases c <;> rfl

variable {stack : List Container} {t : Token} {p : Progress}

theorem takeValue_append (base : List Container) (h : takeValue true stack t = .ok p) :
    takeValue true (stack ++ base) t = .ok (p.onto base) := by
  cases t with
  | number value skipped =>
    cases value <;> cases skipped <;> cases h <;> simp [takeValue, place_append]
  | string value skipped =>
    cases value <;> cases skipped <;> cases h <;> simp [takeValue, place_append]
  | _ => cases h <;> simp [takeValue, place_append, Progress.onto]

theorem takeKey_append (base : List Container) (h : takeKey true stack t = .ok p) :
    takeKey true (stack ++ base) t = .ok (p.onto base) := by
  cases t with
  | string value skipped =>
    cases stack with
    | nil => cases value <;> cases skipped <;> cases h
    | cons c stack =>
      cases c <;> cases value <;> cases skipped <;> cases h
      all_goals rfl
  | _ => cases h

theorem takeEnd_append (base : List Container) (h : takeEnd stack t = .ok p) :
    takeEnd (stack ++ base) t = .ok (p.onto base) := by
  cases stack with
  | nil => cases h
  | cons c stack => cases c <;> cases t <;> cases h <;> simp [takeEnd, place_append]

/-- What a builder does in its own containers it does on top of others. -/
theorem take_append {expected : Expected} (base : List Container)
    (h : take true ⟨stack, expected⟩ t = .ok p) :
    take true ⟨stack ++ base, expected⟩ t = .ok (p.onto base) := by
  cases expected with
  | value => exact takeValue_append base h
  | key => exact takeKey_append base h
  | valueOrEnd =>
    by_cases ht : t = .closeBracket
    · subst ht
      exact takeEnd_append base h
    · rw [take_valueOrEnd ht] at h ⊢
      exact takeValue_append base h
  | keyOrEnd =>
    by_cases ht : t = .closeBrace
    · subst ht
      exact takeEnd_append base h
    · rw [take_keyOrEnd ht] at h ⊢
      exact takeKey_append base h
  | colon =>
    cases t with
    | colon =>
      cases h
      rfl
    | _ => cases h
  | comma =>
    by_cases ht : t = .comma
    · subst ht
      cases stack with
      | nil => cases h
      | cons c stack => cases c <;> cases h <;> rfl
    · rw [take_comma ht] at h ⊢
      exact takeEnd_append base h

end Builder

end Json

namespace Options

open Json (Builder Container Progress skim skimTokens)

/-! ## Values for options -/

/-- A value that some token has from which the option is set. -/
def Settable (field : Field) (v : Json) : Prop :=
  ∃ t o o', Builder.takeValue true [] t = .ok (.whole v) ∧ Options.set o t field = .ok o'

/-- A text gives values for options by their names in an object, and by their places in an array. -/
inductive Gives : Json → Field → Json → Prop
  | member {members : List (String × Json)} {field : Field} {v : Json} :
    (field.name, v) ∈ members → Gives (.object members) field v
  | item {items : List Json} {field : Field} {v : Json} {i : Nat} :
    Field.all[i]? = some field → items[i]? = some v → Gives (.array items) field v

/-- Every value given for an option is one to set it from. -/
def AllSettable (j : Json) : Prop := ∀ field v, Gives j field v → Settable field v

/-- The tokens that an option is set from are values of their own. -/
theorem exists_value_of_set {o o' : Options} {t : Token} {field : Field}
    (h : o.set t field = .ok o') :
    ∃ v, (∀ stack, Builder.takeValue true stack t = .ok (Builder.place v stack)) ∧
      Settable field v := by
  have hvalue : ∀ v, (∀ stack, Builder.takeValue true stack t = .ok (Builder.place v stack)) →
      ∃ v, (∀ stack, Builder.takeValue true stack t = .ok (Builder.place v stack)) ∧
        Settable field v :=
    fun v hv => ⟨v, hv, t, o, o', hv [], h⟩
  cases t with
  | null => exact hvalue .null fun _ => rfl
  | bool b => exact hvalue (.bool b) fun _ => rfl
  | number value skipped =>
    cases value with
    | ok n => exact hvalue (.number n) fun _ => rfl
    | error problem => cases field <;> cases h
  | string value skipped =>
    cases value with
    | ok s => exact hvalue (.string s) fun _ => rfl
    | error problem => cases field <;> cases h
  | _ => cases field <;> cases h

/-- A text is a value for the colour only if it is read as one. -/
theorem Settable.color {s : String} (h : Settable .color (.string s)) :
    ∃ c, Color.ofHex? s = some c := by
  obtain ⟨t, o, o', hvalue, hset⟩ := h
  cases t with
  | string value skipped =>
    cases value with
    | ok s' =>
      cases hvalue
      cases hc : Color.ofHex? s with
      | some c => exact ⟨c, rfl⟩
      | none => simp [Options.set, readColor, readString, hc, bind, Except.bind] at hset
    | error problem => cases skipped <;> cases hvalue
  | number value skipped => cases value <;> cases skipped <;> cases hvalue
  | _ => cases hvalue

/-! ## Side by side -/

/-- What is known of the members so far. -/
def MembersSettable (members : List (String × Json)) : Prop :=
  ∀ field v, (Field.name field, v) ∈ members → Settable field v

/-- What is known of the items so far, latest first, when so many options are left. -/
def ItemsSettable (items : List Json) (left : List Field) : Prop :=
  ∃ done, Field.all = done ++ left ∧ List.Forall₂ Settable done items.reverse

/-- A builder that has taken the same tokens as the reader. A value that the reader skips is built
on top of the members so far, by the builder that skips it. -/
inductive Follows : Builder → Expected → Prop
  | start : Follows ⟨[], .value⟩ .start
  | keyOrEnd {key : String} : Follows ⟨[.object [] key], .keyOrEnd⟩ .keyOrEnd
  | key {members : List (String × Json)} {key : String} : MembersSettable members →
    Follows ⟨[.object members key], .key⟩ .key
  | colon {members : List (String × Json)} {field : Field} : MembersSettable members →
    Follows ⟨[.object members field.name], .colon⟩ (.colon (some field))
  | unknown {members : List (String × Json)} {key : String} : MembersSettable members →
    Field.ofName? key = none → Follows ⟨[.object members key], .colon⟩ (.colon none)
  | value {members : List (String × Json)} {field : Field} : MembersSettable members →
    Follows ⟨[.object members field.name], .value⟩ (.value field)
  | skipping {members : List (String × Json)} {key : String} {b : Builder} :
    MembersSettable members → Field.ofName? key = none →
    Follows ⟨b.stack ++ [.object members key], b.expected⟩ (.skipping b)
  | comma {members : List (String × Json)} {key : String} : MembersSettable members →
    Follows ⟨[.object members key], .comma⟩ .comma
  | itemOrEnd : Follows ⟨[.array []], .valueOrEnd⟩ .itemOrEnd
  | item {items : List Json} {left : List Field} : ItemsSettable items left →
    Follows ⟨[.array items], .value⟩ (.item left)
  | itemComma {items : List Json} {left : List Field} : ItemsSettable items left →
    Follows ⟨[.array items], .comma⟩ (.itemComma left)

/-- What the builder comes to when the reader comes to expect something. -/
def Keeps (expected : Expected) : Progress → Prop
  | .more b => Follows b expected
  | .whole j => expected = .finish ∧ AllSettable j

theorem ofName?_name (field : Field) : Field.ofName? field.name = some field := by
  cases field <;> decide

theorem eq_name_of_ofName? {s : String} {field : Field} (h : Field.ofName? s = some field) :
    s = field.name := by
  have := List.find?_some h
  exact (beq_iff_eq.1 this).symm

theorem mem_addMember {members : List (String × Json)} {key name : String} {v w : Json}
    (h : (name, w) ∈ Builder.addMember members key v) :
    (name, w) = (key, v) ∨ (name, w) ∈ members := by
  rw [Builder.addMember, List.mem_cons] at h
  exact h.imp_right fun hmem => (List.mem_filter.1 hmem).1

theorem MembersSettable.set {members : List (String × Json)} {field : Field} {v : Json}
    (h : MembersSettable members) (hv : Settable field v) :
    MembersSettable (Builder.addMember members field.name v) := by
  intro field' w hmem
  rcases mem_addMember hmem with heq | hmem
  · obtain ⟨hname, rfl⟩ := Prod.mk.inj heq
    have hfield := ofName?_name field'
    rw [hname, ofName?_name] at hfield
    cases hfield
    exact hv
  · exact h field' w hmem

theorem MembersSettable.skip {members : List (String × Json)} {key : String} (v : Json)
    (h : MembersSettable members) (hkey : Field.ofName? key = none) :
    MembersSettable (Builder.addMember members key v) := by
  intro field w hmem
  rcases mem_addMember hmem with heq | hmem
  · obtain ⟨rfl, -⟩ := Prod.mk.inj heq
    rw [ofName?_name] at hkey
    cases hkey
  · exact h field w hmem

theorem MembersSettable.allSettable {members : List (String × Json)} (h : MembersSettable members) :
    AllSettable (.object members.reverse) := by
  intro field v hgives
  cases hgives with
  | member hmem => exact h field v (List.mem_reverse.1 hmem)

theorem ItemsSettable.set {items : List Json} {field : Field} {left : List Field} {v : Json}
    (h : ItemsSettable items (field :: left)) (hv : Settable field v) :
    ItemsSettable (v :: items) left := by
  obtain ⟨done, hall, hitems⟩ := h
  refine ⟨done ++ [field], by rw [hall, List.append_assoc]; rfl, ?_⟩
  rw [List.reverse_cons]
  exact List.rel_append hitems (.cons hv .nil)

theorem ItemsSettable.allSettable {items : List Json} {left : List Field}
    (h : ItemsSettable items left) : AllSettable (.array items.reverse) := by
  obtain ⟨done, hall, hitems⟩ := h
  intro field v hgives
  cases hgives with
  | @item _ _ _ i hfield hv =>
    obtain ⟨hi, hget⟩ := List.getElem?_eq_some_iff.1 hv
    have hlength : i < done.length := hitems.length_eq ▸ hi
    rw [hall, List.getElem?_append_left hlength, List.getElem?_eq_getElem hlength] at hfield
    cases hfield
    subst hget
    exact hitems.get hlength hi

variable {r r' : Reader} {t : Token}

theorem follows_key {members : List (String × Json)} (key : String) (h : MembersSettable members)
    (hr : r.takeKey t = .ok r') :
    ∃ p, Builder.takeKey true [.object members key] t = .ok p ∧ Keeps r'.expected p := by
  cases t with
  | string value skipped =>
    cases value with
    | error problem => cases hr
    | ok name =>
      refine ⟨_, rfl, ?_⟩
      rw [Reader.takeKey] at hr
      cases hname : Field.ofName? name with
      | none =>
        simp only [hname] at hr
        cases hr
        exact .unknown h hname
      | some field =>
        simp only [hname] at hr
        split at hr
        · cases hr
        · cases hr
          rw [eq_name_of_ofName? hname]
          exact .colon h
  | _ => cases hr

theorem follows_item {items : List Json} {left : List Field} (h : ItemsSettable items left)
    (hr : r.takeItem t left = .ok r') :
    ∃ p, Builder.takeValue true [.array items] t = .ok p ∧ Keeps r'.expected p := by
  cases left with
  | nil => cases hr
  | cons field left =>
    rw [Reader.takeItem] at hr
    obtain ⟨o, hset, hr⟩ := exists_of_bind_eq_ok hr
    cases hr
    obtain ⟨v, hvalue, hv⟩ := exists_value_of_set hset
    exact ⟨_, hvalue _, .itemComma (h.set hv)⟩

/-- Where the reader takes a token, the builder takes it too and goes on following. -/
theorem follows_take {b : Builder} (h : Follows b r.expected) (hr : r.take t = .ok r') :
    ∃ p, b.take true t = .ok p ∧ Keeps r'.expected p := by
  unfold Reader.take at hr
  generalize r.expected = expected at h hr
  cases h with
  | start =>
    cases t with
    | openBrace =>
      cases hr
      exact ⟨_, rfl, .keyOrEnd⟩
    | openBracket =>
      cases hr
      exact ⟨_, rfl, .itemOrEnd⟩
    | number value skipped => cases value <;> cases hr
    | string value skipped => cases value <;> cases hr
    | _ => cases hr
  | keyOrEnd =>
    have hnone : MembersSettable [] := fun _ _ hmem => absurd hmem List.not_mem_nil
    by_cases ht : t = .closeBrace
    · subst ht
      cases hr
      exact ⟨_, rfl, rfl, hnone.allSettable⟩
    · have hkey : r.takeKey t = .ok r' := by
        cases t with
        | closeBrace => exact absurd rfl ht
        | _ => exact hr
      rw [Builder.take_keyOrEnd ht]
      exact follows_key _ hnone hkey
  | @key members key hmembers => exact follows_key key hmembers hr
  | colon hmembers =>
    cases t with
    | colon =>
      cases hr
      exact ⟨_, rfl, .value hmembers⟩
    | _ => cases hr
  | unknown hmembers hkey =>
    cases t with
    | colon =>
      cases hr
      exact ⟨_, rfl, .skipping (b := .initial) hmembers hkey⟩
    | _ => cases hr
  | value hmembers =>
    obtain ⟨o, hset, hr⟩ := exists_of_bind_eq_ok hr
    cases hr
    obtain ⟨v, hvalue, hv⟩ := exists_value_of_set hset
    exact ⟨_, hvalue _, .comma (hmembers.set hv)⟩
  | @skipping members key b hmembers hkey =>
    cases htake : b.take true t with
    | error problem => simp [htake, fail] at hr
    | ok p =>
      refine ⟨_, Builder.take_append _ htake, ?_⟩
      simp only [htake] at hr
      cases p with
      | more b =>
        cases hr
        exact .skipping hmembers hkey
      | whole v =>
        cases hr
        exact .comma (hmembers.skip v hkey)
  | comma hmembers =>
    cases t with
    | comma =>
      cases hr
      exact ⟨_, rfl, .key hmembers⟩
    | closeBrace =>
      cases hr
      exact ⟨_, rfl, rfl, hmembers.allSettable⟩
    | _ => cases hr
  | itemOrEnd =>
    have hnone : ItemsSettable [] Field.all := ⟨[], rfl, .nil⟩
    by_cases ht : t = .closeBracket
    · subst ht
      cases hr
      exact ⟨_, rfl, rfl, hnone.allSettable⟩
    · have hitem : r.takeItem t Field.all = .ok r' := by
        cases t with
        | closeBracket => exact absurd rfl ht
        | _ => exact hr
      rw [Builder.take_valueOrEnd ht]
      exact follows_item hnone hitem
  | item hitems => exact follows_item hitems hr
  | @itemComma items left hitems =>
    cases t with
    | closeBracket =>
      cases hr
      exact ⟨_, rfl, rfl, hitems.allSettable⟩
    | comma =>
      cases left with
      | nil => cases hr
      | cons field left =>
        cases hr
        exact ⟨_, rfl, .item hitems⟩
    | _ => cases left <;> cases hr

/-- A text that is read to its end is a value, and what it gives for options was one to set them
from. -/
theorem exists_skim_of_run {o : Options} {ts : List Token} {b : Builder}
    (h : Follows b r.expected) (hr : r.run ts = .ok o) :
    ∃ j, skimTokens b ts = some j ∧ AllSettable j := by
  induction ts generalizing r b with
  | nil =>
    rw [Reader.run] at hr
    generalize r.expected = expected at h hr
    cases h <;> cases hr
  | cons t ts ih =>
    rw [Reader.run] at hr
    cases htake : r.take t with
    | error e =>
      rw [htake] at hr
      cases hr
    | ok r' =>
      rw [htake] at hr
      obtain ⟨p, hp, hkeeps⟩ := follows_take h htake
      rw [skimTokens, hp]
      cases p with
      | more b => exact ih hkeeps hr
      | whole j =>
        -- the reader takes no token after the end
        obtain ⟨hfinish, hj⟩ := hkeeps
        cases ts with
        | nil => exact ⟨j, rfl, hj⟩
        | cons t ts =>
          have hfail : r'.take t = fail .malformed := by
            unfold Reader.take
            rw [hfinish]
          simp only [Reader.run, hfail, fail] at hr
          cases hr

/-- Options are read only from a text that is a value and gives each option a value to set it
from. -/
theorem exists_skim_of_decode {s : String} {o : Options} (h : decode s = .ok o) :
    ∃ j, skim s = some j ∧ AllSettable j :=
  exists_skim_of_run (r := .initial) .start h

theorem decode_of_ofText {s : String} {o : Options} (h : ofText s = .ok o) :
    decode s = .ok o := by
  obtain ⟨o', hdecode, h⟩ := exists_of_bind_eq_ok h
  split at h
  · cases h
    exact hdecode
  · cases h

/-- The colours of the grammar are read as what they write, nothing else is read as a colour, and
no options text may give anything else for the colour: this is so for every text but those that
reading takes for a plus sign, and for these it is not. -/
theorem colors_documented_iff (s : String) :
    ((∀ c, Color.ofHex? s = some c ↔ Color.IsHex s c) ∧
      ∀ text j, skim text = some j → Gives j .color (.string s) → (∀ c, ¬Color.IsHex s c) →
        ∃ e, ofText text = .error e) ↔
      ¬Color.IsSigned s := by
  rw [← Color.ofHex?_iff_isHex]
  refine ⟨And.left, fun hread => ⟨hread, fun text j hskim hgives hnone => ?_⟩⟩
  cases htext : ofText text with
  | error e => exact ⟨e, rfl⟩
  | ok o =>
    obtain ⟨j', hskim', hall⟩ := exists_skim_of_decode (decode_of_ofText htext)
    rw [hskim] at hskim'
    cases hskim'
    obtain ⟨c, hc⟩ := (hall _ _ hgives).color
    exact absurd ((hread c).1 hc) (hnone c)

/-- A plus sign is read in place of a first digit, from options too. -/
theorem not_colors_documented_plus :
    Color.ofHex? "#+f+f+f" = some ⟨15, 15, 15, 255⟩ ∧ (∀ c, ¬Color.IsHex "#+f+f+f" c) ∧
      ∃ o, ofText "\x7b\"color\":\"#+f+f+f\"\x7d" = .ok o ∧ o.color = ⟨15, 15, 15, 255⟩ := by
  refine ⟨by decide, fun c hc => Color.plus_notMem hc (by decide), ?_⟩
  exact ⟨{ color := ⟨15, 15, 15, 255⟩ }, by decide +kernel, rfl⟩

end Options

end FormulaDrawing
