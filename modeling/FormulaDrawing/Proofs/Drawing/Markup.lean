import FormulaDrawing.Drawing.MarkupReader
import Mathlib.Data.List.Basic

/-!
# Markup is read back

A document is a list of tags written one after the other (`document_eq`), and what is written so is
read back (`tags_write`), as no character that ends a tag, a value or a text is left in an escaped
one. On texts and font families these tags depend only in that they are the texts of tags and the
values of attributes.

Numbers, colours and path data are written as they are: escaping leaves them (`Plain`).
-/

namespace FormulaDrawing.Markup

/-! ## Escaping -/

/-- The characters that have an entity. -/
def specials : List Char := ['&', '<', '>', '\x22', '\x27']

theorem escapeChar_of_notMem {c : Char} (h : c ∉ specials) : escapeChar c = [c] := by
  simp only [specials, List.mem_cons, List.not_mem_nil, or_false, not_or] at h
  obtain ⟨hamp, hlt, hgt, hquot, hapos⟩ := h
  unfold escapeChar
  rw [if_neg hamp, if_neg hlt, if_neg hgt, if_neg hquot, if_neg hapos]

/-- Replace a character by a word wherever it stands. -/
def replace (c : Char) (word s : String) : String :=
  String.ofList (s.toList.flatMap fun d => if d = c then word.toList else [d])

/-- Escaping is replacing one character after the other, ampersands first: later words are not
replaced in turn, as their ampersands and letters have no entity any more. -/
theorem escape_eq_replace (s : String) :
    escape s = replace '\x27' "&apos;" (replace '\x22' "&quot;" (replace '>' "&gt;"
      (replace '<' "&lt;" (replace '&' "&amp;" s)))) := by
  have hchar : ∀ c : Char, escapeChar c =
      (if c = '&' then "&amp;".toList else [c]).flatMap fun d =>
        (if d = '<' then "&lt;".toList else [d]).flatMap fun d =>
          (if d = '>' then "&gt;".toList else [d]).flatMap fun d =>
            (if d = '\x22' then "&quot;".toList else [d]).flatMap fun d =>
              if d = '\x27' then "&apos;".toList else [d] := by
    intro c
    by_cases hc : c ∈ specials
    · simp only [specials, List.mem_cons, List.not_mem_nil, or_false] at hc
      rcases hc with rfl | rfl | rfl | rfl | rfl <;> decide
    · rw [escapeChar_of_notMem hc]
      simp only [specials, List.mem_cons, List.not_mem_nil, or_false, not_or] at hc
      obtain ⟨hamp, hlt, hgt, hquot, hapos⟩ := hc
      rw [if_neg hamp, List.flatMap_singleton, if_neg hlt, List.flatMap_singleton, if_neg hgt,
        List.flatMap_singleton, if_neg hquot, List.flatMap_singleton, if_neg hapos]
  unfold escape replace
  simp only [String.toList_ofList, List.flatMap_assoc]
  exact congrArg String.ofList (List.flatMap_congr fun c _ => hchar c)

theorem unescape_cons {c : Char} (h : c ≠ '&') (cs : List Char) :
    unescape (c :: cs) = c :: unescape cs := by
  conv_lhs => unfold unescape
  split
  iterate 5 next heq => exact absurd (List.cons.inj heq).1 h
  next heq =>
    cases heq
    rfl
  next heq => cases heq

theorem unescape_escapeChar (c : Char) (cs : List Char) :
    unescape (escapeChar c ++ cs) = c :: unescape cs := by
  by_cases hc : c ∈ specials
  · simp only [specials, List.mem_cons, List.not_mem_nil, or_false] at hc
    rcases hc with rfl | rfl | rfl | rfl | rfl <;> rfl
  · rw [escapeChar_of_notMem hc]
    exact unescape_cons (fun hamp => hc (by simp [specials, hamp])) cs

theorem unescape_escape (s : String) : String.ofList (unescape (escape s).toList) = s := by
  have hlist : ∀ cs : List Char, unescape (cs.flatMap escapeChar) = cs := by
    intro cs
    induction cs with
    | nil => rfl
    | cons c cs ih => rw [List.flatMap_cons, unescape_escapeChar, ih]
  rw [escape, String.toList_ofList, hlist, String.ofList_toList]

/-- The characters that end a tag, a value or a text. -/
def isDelimiter (c : Char) : Bool := c == '<' || c == '>' || c == '\x22'

theorem isDelimiter_of_mem_escape {s : String} {c : Char} (h : c ∈ (escape s).toList) :
    isDelimiter c = false := by
  rw [escape, String.toList_ofList, List.mem_flatMap] at h
  obtain ⟨d, -, hd⟩ := h
  by_cases hspecial : d ∈ specials
  · have hentity : ((escapeChar d).all fun c => !isDelimiter c) = true := by
      simp only [specials, List.mem_cons, List.not_mem_nil, or_false] at hspecial
      rcases hspecial with rfl | rfl | rfl | rfl | rfl <;> decide
    simpa using List.all_eq_true.1 hentity c hd
  · rw [escapeChar_of_notMem hspecial, List.mem_singleton] at hd
    subst hd
    simp only [specials, List.mem_cons, List.not_mem_nil, or_false, not_or] at hspecial
    simp [isDelimiter, hspecial]

/-! ## Writing tags -/

/-- Attributes as a tag holds them. -/
def attrs (as : List (String × String)) : String :=
  String.join (as.map fun a => attr a.1 (escape a.2))

namespace Tag

/-- A tag and the text after it. -/
def write (t : Tag) : String :=
  "<" ++ t.name ++ attrs t.attributes ++ (if t.closed then "/>" else ">") ++ escape t.text

/-- The characters of a tag between its angle brackets. -/
def inside (t : Tag) : List Char :=
  t.name.toList ++ ((attrs t.attributes).toList ++ if t.closed then ['/'] else [])

/-- The names in a tag are names, and only a tag with attributes closes itself. -/
structure Named (t : Tag) : Prop where
  name : ∀ c ∈ t.name.toList, isNameChar c = true
  ne_slash : t.name.toList ≠ ['/']
  attributes : ∀ a ∈ t.attributes, ∀ c ∈ a.1.toList, isNameChar c = true
  closed : t.closed = true → t.attributes ≠ []

end Tag

theorem toList_attr (name value : String) :
    (attr name value).toList =
      ' ' :: name.toList ++ '=' :: '\x22' :: (value.toList ++ ['\x22']) := by
  simp [attr, String.toList_append]

theorem toList_attrs (as : List (String × String)) :
    (attrs as).toList = as.flatMap fun a => (attr a.1 (escape a.2)).toList := by
  rw [attrs, String.toList_join, List.flatMap_map]

theorem isDelimiter_of_isNameChar {c : Char} (h : isNameChar c = true) : isDelimiter c = false := by
  cases hc : isDelimiter c with
  | false => rfl
  | true =>
    simp only [isDelimiter, Bool.or_eq_true, beq_iff_eq] at hc
    rcases hc with (rfl | rfl) | rfl <;> cases h

/-! ## Reading tags -/

theorem splitOn_append_cons {x : Char} {xs : List Char} (h : x ∉ xs) (ys : List Char) :
    (xs ++ x :: ys).splitOn x = xs :: ys.splitOn x := by
  have hfree : ∀ c ∈ xs, (c == x) = false := by
    intro c hc
    rw [beq_eq_false_iff_ne]
    rintro rfl
    exact h hc
  exact List.splitOnP_append_cons_of_forall_mem hfree x (beq_self_eq_true x) ys

theorem attributeName_append {before name : List Char} (hbefore : ∀ c ∈ before, isNameChar c = true)
    (hname : ∀ c ∈ name, isNameChar c = true) :
    attributeName (before ++ ' ' :: (name ++ ['='])) = String.ofList name := by
  have hspace : ∀ c ∈ before, (c != ' ') = true := by
    intro c hc
    rw [bne_iff_ne]
    rintro rfl
    cases hbefore ' ' hc
  unfold attributeName
  rw [List.dropWhile_append_of_pos hspace, List.dropWhile_cons_of_neg (by decide), List.tail_cons,
    List.takeWhile_append_of_pos hname, List.takeWhile_cons_of_neg (by decide), List.append_nil]

/-- Attributes are read back from between their quotes. -/
theorem attributes_splitOn {before last : List Char} {as : List (String × String)}
    (hbefore : ∀ c ∈ before, isNameChar c = true)
    (has : ∀ a ∈ as, ∀ c ∈ a.1.toList, isNameChar c = true) (hlast : '\x22' ∉ last) :
    attributes ((before ++ ((attrs as).toList ++ last)).splitOn '\x22') =
      (as, if as = [] then before ++ last else last) := by
  have hquote : ∀ cs : List Char, (∀ c ∈ cs, isNameChar c = true) → '\x22' ∉ cs := by
    intro cs hcs hmem
    cases hcs '\x22' hmem
  induction as generalizing before with
  | nil =>
    have hnone : '\x22' ∉ before ++ last := by
      rw [List.mem_append, not_or]
      exact ⟨hquote before hbefore, hlast⟩
    rw [toList_attrs, List.flatMap_nil, List.nil_append, List.splitOn_eq_singleton hnone,
      if_pos rfl]
    rfl
  | cons a as ih =>
    obtain ⟨name, value⟩ := a
    rw [List.forall_mem_cons] at has
    have hname : '\x22' ∉ before ++ ' ' :: (name.toList ++ ['=']) := by
      have := hquote before hbefore
      have := hquote name.toList has.1
      simp_all
    have hvalue : '\x22' ∉ (escape value).toList := by
      intro hmem
      cases isDelimiter_of_mem_escape hmem
    have hsplit : before ++ ((attrs ((name, value) :: as)).toList ++ last) =
        (before ++ ' ' :: (name.toList ++ ['='])) ++ '\x22' :: ((escape value).toList ++
          '\x22' :: ([] ++ ((attrs as).toList ++ last))) := by
      simp [toList_attrs, toList_attr]
    rw [hsplit, splitOn_append_cons hname, splitOn_append_cons hvalue,
      if_neg (List.cons_ne_nil _ _), attributes, ih (fun c hc => absurd hc List.not_mem_nil) has.2,
      attributeName_append hbefore has.1, unescape_escape, String.ofList_toList]
    simp only [List.nil_append, ite_self]

namespace Tag

variable {t : Tag}

/-- The characters after the angle bracket that opens a tag. -/
def body (t : Tag) : List Char := t.inside ++ '>' :: (escape t.text).toList

theorem toList_write (t : Tag) : t.write.toList = '<' :: t.body := by
  unfold write body inside
  cases t.closed <;> simp

theorem ne_bracket_of_mem_inside (h : t.Named) {c : Char} (hc : c ∈ t.inside) :
    c ≠ '<' ∧ c ≠ '>' := by
  have hplain : ∀ c, isDelimiter c = false → c ≠ '<' ∧ c ≠ '>' := by
    intro c hc
    constructor <;> rintro rfl <;> cases hc
  have hname : ∀ c, isNameChar c = true → c ≠ '<' ∧ c ≠ '>' :=
    fun c hc => hplain c (isDelimiter_of_isNameChar hc)
  rw [inside, List.mem_append, List.mem_append, toList_attrs, List.mem_flatMap] at hc
  rcases hc with hc | ⟨⟨name, value⟩, ha, hc⟩ | hc
  · exact hname c (h.name c hc)
  · rw [toList_attr] at hc
    simp only [List.cons_append, List.mem_cons, List.mem_append, List.not_mem_nil, or_false] at hc
    rcases hc with rfl | hc | rfl | rfl | hc | rfl
    · decide
    · exact hname c (h.attributes _ ha c hc)
    · decide
    · decide
    · exact hplain c (isDelimiter_of_mem_escape hc)
    · decide
  · split at hc
    · rw [List.mem_singleton.1 hc]
      decide
    · cases hc

theorem bracket_notMem_body (h : t.Named) : '<' ∉ t.body := by
  rw [body, List.mem_append, List.mem_cons]
  rintro (hc | hc | hc)
  · exact (ne_bracket_of_mem_inside h hc).1 rfl
  · cases hc
  · cases isDelimiter_of_mem_escape hc

/-- The name of a tag ends where its attributes begin. -/
theorem takeWhile_inside (h : t.Named) : t.inside.takeWhile isNameChar = t.name.toList := by
  unfold inside
  rw [List.takeWhile_append_of_pos h.name]
  cases has : t.attributes with
  | nil =>
    have hclosed : t.closed = false := by
      cases hc : t.closed with
      | false => rfl
      | true => exact absurd has (h.closed hc)
    rw [hclosed]
    simp [toList_attrs]
  | cons a as =>
    rw [toList_attrs, List.flatMap_cons, toList_attr, List.cons_append, List.cons_append,
      List.cons_append, List.takeWhile_cons_of_neg (by decide), List.append_nil]

/-- A tag that is written is read back. -/
theorem ofChars_body (h : t.Named) : ofChars t.body = t := by
  have hopen : ∀ c ∈ t.inside, (c != '>') = true := by
    intro c hc
    rw [bne_iff_ne]
    exact (ne_bracket_of_mem_inside h hc).2
  have hinside : t.body.takeWhile (· != '>') = t.inside := by
    rw [body, List.takeWhile_append_of_pos hopen, List.takeWhile_cons_of_neg (by decide),
      List.append_nil]
  have htext : (t.body.dropWhile (· != '>')).tail = (escape t.text).toList := by
    rw [body, List.dropWhile_append_of_pos hopen, List.dropWhile_cons_of_neg (by decide),
      List.tail_cons]
  have hlast : '\x22' ∉ (if t.closed then ['/'] else [] : List Char) := by
    split <;> decide
  have hattributes := attributes_splitOn h.name h.attributes hlast
  unfold ofChars
  simp only [hinside, htext, takeWhile_inside h, unescape_escape, String.ofList_toList]
  rw [inside, hattributes]
  have hclosed : ((if t.attributes = [] then
      t.name.toList ++ (if t.closed then ['/'] else []) else if t.closed then ['/'] else []) ==
        ['/']) = t.closed := by
    cases hc : t.closed with
    | true =>
      rw [if_neg (h.closed hc)]
      rfl
    | false =>
      rw [beq_eq_false_iff_ne, if_neg Bool.false_ne_true, List.append_nil]
      split
      · exact h.ne_slash
      · exact (List.cons_ne_nil _ _).symm
  rw [hclosed]

end Tag

theorem splitOn_flatMap_cons {α : Type} {x : Char} {f : α → List Char} {ts : List α}
    (h : ∀ t ∈ ts, x ∉ f t) {before : List Char} (hbefore : x ∉ before) :
    (before ++ ts.flatMap fun t => x :: f t).splitOn x = before :: ts.map f := by
  induction ts generalizing before with
  | nil => rw [List.flatMap_nil, List.append_nil, List.splitOn_eq_singleton hbefore, List.map_nil]
  | cons t ts ih =>
    rw [List.forall_mem_cons] at h
    rw [List.flatMap_cons, List.cons_append, splitOn_append_cons hbefore, ih h.2 h.1, List.map_cons]

theorem toList_join_write (ts : List Tag) :
    (String.join (ts.map Tag.write)).toList = ts.flatMap fun t => '<' :: t.body := by
  rw [String.toList_join, List.flatMap_map]
  exact List.flatMap_congr fun t _ => t.toList_write

/-- What is written as tags is read back. -/
theorem tags_write {ts : List Tag} (h : ∀ t ∈ ts, t.Named) :
    tags (String.join (ts.map Tag.write)) = ts := by
  have hsplit := splitOn_flatMap_cons (fun t ht => Tag.bracket_notMem_body (h t ht))
    (List.not_mem_nil (a := '<'))
  rw [List.nil_append] at hsplit
  rw [tags, toList_join_write, hsplit, List.tail_cons, List.map_map]
  exact (List.map_congr_left fun t ht => Tag.ofChars_body (h t ht)).trans (List.map_id' ts)

/-- Every tag has one angle bracket that opens it. -/
theorem count_write {ts : List Tag} (h : ∀ t ∈ ts, t.Named) :
    (String.join (ts.map Tag.write)).toList.count '<' = ts.length := by
  rw [toList_join_write]
  induction ts with
  | nil => rfl
  | cons t ts ih =>
    rw [List.forall_mem_cons] at h
    rw [List.flatMap_cons, List.count_append, ih h.2, List.count_cons_self,
      List.count_eq_zero.2 (Tag.bracket_notMem_body h.1), List.length_cons]
    omega

/-! ## Values that are written as they are -/

/-- A text without special characters, and the commands whose letters are in it. -/
structure Plain (s : String) (kinds : List CommandKind) : Prop where
  special : ∀ c ∈ s.toList, c ∉ specials
  kinds : commandKinds s = kinds

namespace Plain

variable {s s' : String} {ks ks' : List CommandKind}

theorem escape (h : Plain s ks) : Markup.escape s = s := by
  have hlist : ∀ cs : List Char, (∀ c ∈ cs, c ∉ specials) → cs.flatMap escapeChar = cs := by
    intro cs hcs
    induction cs with
    | nil => rfl
    | cons c cs ih =>
      rw [List.forall_mem_cons] at hcs
      rw [List.flatMap_cons, escapeChar_of_notMem hcs.1, ih hcs.2, List.singleton_append]
  rw [Markup.escape, hlist _ h.special, String.ofList_toList]

theorem append (h : Plain s ks) (h' : Plain s' ks') : Plain (s ++ s') (ks ++ ks') where
  special c hc := by
    rw [String.toList_append, List.mem_append] at hc
    exact hc.elim (h.special c) (h'.special c)
  kinds := by
    rw [← h.kinds, ← h'.kinds]
    unfold commandKinds
    rw [String.toList_append, List.filterMap_append]

/-- The characters of numbers and colours, and the space between numbers. -/
def isValueChar (c : Char) : Bool :=
  c.isDigit || [' ', '#', '-', '.', 'N', 'a', 'b', 'c', 'd', 'e', 'f', 'i', 'n'].contains c

theorem of_valueChars (h : s.toList.all isValueChar = true) : Plain s [] where
  special c hc hspecial := by
    have hvalue := List.all_eq_true.1 h c hc
    simp only [specials, List.mem_cons, List.not_mem_nil, or_false] at hspecial
    rcases hspecial with rfl | rfl | rfl | rfl | rfl <;> cases hvalue
  kinds := by
    refine List.filterMap_eq_nil_iff.2 fun c hc => ?_
    have hne : ∀ d, isValueChar d = false → c ≠ d := by
      rintro d hd rfl
      rw [List.all_eq_true.1 h c hc] at hd
      cases hd
    unfold commandKind?
    rw [if_neg (hne 'M' rfl), if_neg (hne 'L' rfl), if_neg (hne 'Q' rfl), if_neg (hne 'C' rfl),
      if_neg (hne 'Z' rfl)]

theorem of_check (h : (s.toList.all fun c => !specials.contains c) = true)
    (hkinds : commandKinds s = ks) : Plain s ks where
  special c hc hspecial := by
    have hfree := List.all_eq_true.1 h c hc
    rw [List.contains_iff_mem.2 hspecial] at hfree
    cases hfree
  kinds := hkinds

theorem space : Plain " " [] := of_valueChars (by decide)

/-! ### Numbers -/

/-- Positional notation is digits, and a point before as many digits more as the exponent is below
zero. -/
theorem exists_positional (d : Decimal) :
    ∃ whole places : List Char, whole ≠ [] ∧ (∀ c ∈ whole, c.isDigit = true) ∧
      (∀ c ∈ places, c.isDigit = true) ∧ places.length = (-d.exponent).toNat ∧
      d.positional.toList = whole ++ if places = [] then [] else '.' :: places := by
  have hdigits : ∀ c ∈ Decimal.digitsOf d.digits, c.isDigit = true :=
    fun c hc => Nat.isDigit_of_mem_toDigits (by decide) (by decide) hc
  have hzeros : ∀ n, ∀ c ∈ List.replicate n '0', c.isDigit = true := by
    intro n c hc
    rw [List.eq_of_mem_replicate hc]
    rfl
  have hne : Decimal.digitsOf d.digits ≠ [] := Nat.toDigits_ne_nil
  unfold Decimal.positional
  simp only
  split
  next hexp =>
    refine ⟨Decimal.digitsOf d.digits ++ List.replicate d.exponent.toNat '0', [],
      List.append_ne_nil_of_left_ne_nil hne _, List.forall_mem_append.2 ⟨hdigits, hzeros _⟩,
      List.forall_mem_nil _, ?_, ?_⟩
    · rw [List.length_nil]
      omega
    · rw [String.toList_ofList, if_pos rfl, List.append_nil]
  next hexp =>
    set n := (-d.exponent).toNat with hn
    set padded := List.replicate (n + 1 - (Decimal.digitsOf d.digits).length) '0' ++
      Decimal.digitsOf d.digits with hpadded
    have hall : ∀ c ∈ padded, c.isDigit = true := List.forall_mem_append.2 ⟨hzeros _, hdigits⟩
    have hlength : n + 1 ≤ padded.length := by
      rw [hpadded, List.length_append, List.length_replicate]
      omega
    have htake : padded.take (padded.length - n) ≠ [] := by
      refine List.ne_nil_of_length_pos ?_
      rw [List.length_take]
      omega
    have hdrop : (padded.drop (padded.length - n)).length = n := by
      rw [List.length_drop]
      omega
    have hplaces : padded.drop (padded.length - n) ≠ [] := by
      refine List.ne_nil_of_length_pos ?_
      omega
    refine ⟨_, _, htake, fun c hc => hall c (List.mem_of_mem_take hc),
      fun c hc => hall c (List.mem_of_mem_drop hc), hdrop, ?_⟩
    rw [String.toList_ofList, if_neg hplaces]

theorem positional_ne_empty (d : Decimal) : d.positional.toList ≠ [] := by
  obtain ⟨whole, places, hwhole, -, -, -, heq⟩ := exists_positional d
  rw [heq]
  exact List.append_ne_nil_of_left_ne_nil hwhole _

theorem isDigit_or_point {d : Decimal} {c : Char} (h : c ∈ d.positional.toList) :
    c.isDigit = true ∨ c = '.' := by
  obtain ⟨whole, places, -, hwhole, hplaces, -, heq⟩ := exists_positional d
  rw [heq, List.mem_append] at h
  rcases h with h | h
  · exact .inl (hwhole c h)
  · split at h
    · cases h
    · exact (List.mem_cons.1 h).symm.imp_left (hplaces c)

/-- The characters of numbers, and of the names of infinity and not-a-number. -/
def isNumberChar (c : Char) : Bool :=
  c.isDigit || ['-', '.', 'N', 'a', 'f', 'i', 'n'].contains c

theorem isNumberChar_of_mem_toText {x : Single} {c : Char} (h : c ∈ x.toText.toList) :
    isNumberChar c = true := by
  have hpositional : ∀ d : Decimal, ∀ c ∈ d.positional.toList, isNumberChar c = true := by
    intro d c hc
    rcases isDigit_or_point hc with hdigit | rfl
    · rw [isNumberChar, hdigit]
      rfl
    · rfl
  cases x with
  | nan => exact List.all_eq_true.1 (by decide : "NaN".toList.all isNumberChar = true) c h
  | signed s k =>
    have hunsigned : ∀ c ∈ (if k.val = Format.single.infinity then "inf"
        else if k.val = 0 then "0" else (Format.single.shortest k.val).positional).toList,
        isNumberChar c = true := by
      split
      · exact List.all_eq_true.1 (by decide)
      · split
        · exact List.all_eq_true.1 (by decide)
        · exact hpositional _
    unfold Binary.toText at h
    simp only at h
    split at h
    · rw [String.toList_append, List.mem_append] at h
      exact h.elim (List.all_eq_true.1 (by decide) c) (hunsigned c)
    · exact hunsigned c h

theorem isNumberChar_of_mem_coordinate {x : Single} {c : Char}
    (h : c ∈ (Markup.coordinate x).toList) : isNumberChar c = true := by
  unfold Markup.coordinate at h
  simp only at h
  split at h
  · exact List.all_eq_true.1 (by decide : "0".toList.all isNumberChar = true) c h
  · exact isNumberChar_of_mem_toText h

theorem of_numberChars (h : ∀ c ∈ s.toList, isNumberChar c = true) : Plain s [] := by
  have hsubset : ['-', '.', 'N', 'a', 'f', 'i', 'n'] ⊆
      [' ', '#', '-', '.', 'N', 'a', 'b', 'c', 'd', 'e', 'f', 'i', 'n'] := by
    decide
  refine of_valueChars (List.all_eq_true.2 fun c hc => ?_)
  have hc := h c hc
  simp only [isNumberChar, isValueChar, Bool.or_eq_true, List.contains_iff_mem] at hc ⊢
  exact hc.imp_right fun hc => hsubset hc

theorem toText (x : Single) : Plain x.toText [] :=
  of_numberChars fun _ => isNumberChar_of_mem_toText

theorem coordinate (x : Single) : Plain (Markup.coordinate x) [] :=
  of_numberChars fun _ => isNumberChar_of_mem_coordinate

theorem point (p : Point Single) : Plain (Markup.point p) [] :=
  ((coordinate p.x).append space).append (coordinate p.y)

/-! ### Colours -/

theorem toHex (c : Color) : Plain c.toHex [] := by
  have hdigit : ∀ n < 16, isValueChar n.digitChar = true := by decide
  have hbyte : ∀ b : UInt8, ∀ d ∈ hexByte b, isValueChar d = true := by
    intro b d hd
    simp only [hexByte, List.mem_cons, List.not_mem_nil, or_false] at hd
    have hlt : b.toNat < 256 := b.toNat_lt
    rcases hd with rfl | rfl
    · exact hdigit _ (by omega)
    · exact hdigit _ (by omega)
  refine of_valueChars (List.all_eq_true.2 fun d hd => ?_)
  rw [Color.toHex, String.toList_ofList] at hd
  simp only [List.mem_cons, List.mem_append] at hd
  rcases hd with rfl | ((hd | hd) | hd) | hd
  · rfl
  · exact hbyte _ d hd
  · exact hbyte _ d hd
  · exact hbyte _ d hd
  · split at hd
    · cases hd
    · exact hbyte _ d hd

theorem fill (o : Option Color) : Plain (Markup.fill o) [] := by
  cases o with
  | none => exact of_check (by decide) (by decide)
  | some c => exact toHex c

/-! ### Paths -/

theorem command (c : PathCommand Single) : Plain (Markup.command c) [c.kind] := by
  cases c with
  | moveTo p =>
    have hletter : Plain "M " [.moveTo] := of_check (by decide) (by decide)
    exact hletter.append (point p)
  | lineTo p =>
    have hletter : Plain "L " [.lineTo] := of_check (by decide) (by decide)
    exact hletter.append (point p)
  | quadTo c p =>
    have hletter : Plain "Q " [.quadTo] := of_check (by decide) (by decide)
    exact ((hletter.append (point c)).append space).append (point p)
  | cubicTo c₁ c₂ p =>
    have hletter : Plain "C " [.cubicTo] := of_check (by decide) (by decide)
    exact ((((hletter.append (point c₁)).append space).append (point c₂)).append space).append
      (point p)
  | close => exact of_check (by decide) (by decide)

theorem pathData (cs : List (PathCommand Single)) :
    Plain (Markup.pathData cs) (cs.map PathCommand.kind) := by
  unfold Markup.pathData
  induction cs with
  | nil => exact of_check (by decide) (by decide)
  | cons c cs ih =>
    cases cs with
    | nil =>
      rw [List.map_cons, List.map_nil, String.intercalate_singleton]
      exact command c
    | cons d ds =>
      rw [List.map_cons, List.map_cons, String.intercalate_cons_cons]
      exact ((command c).append space).append ih

/-! ### Rotations -/

theorem rotation (r : Rotation Single) :
    Plain ("rotate(" ++ r.degrees.toText ++ " " ++ Markup.point r.center ++ ")") [] := by
  have hopen : Plain "rotate(" [] := of_check (by decide) (by decide)
  have hclose : Plain ")" [] := of_check (by decide) (by decide)
  exact (((hopen.append (toText r.degrees)).append space).append (point r.center)).append hclose

end Plain

/-! ## The tags of a document -/

/-- The attribute of a rotation. -/
def rotationAttributes : Option (Rotation Single) → List (String × String)
  | none => []
  | some r =>
    [("transform", "rotate(" ++ r.degrees.toText ++ " " ++ point r.center ++ ")")]

/-- The tags of a primitive. A run of text has a tag that ends it; strokes close themselves. -/
def primitiveTags : Primitive Single → List Tag
  | .textRun run =>
    [{ name := "text"
       attributes := [("x", coordinate run.anchor.x), ("y", coordinate run.anchor.y),
         ("font-family", run.fontFamily), ("font-size", coordinate run.fontSize),
         ("fill", run.color.toHex)] ++ rotationAttributes run.rotation
       closed := false
       text := run.text },
     { name := "/text", attributes := [], closed := false, text := "\n" }]
  | .line line =>
    [{ name := "line"
       attributes := [("x1", coordinate line.start.x), ("y1", coordinate line.start.y),
         ("x2", coordinate line.finish.x), ("y2", coordinate line.finish.y),
         ("stroke", line.stroke.toHex), ("stroke-width", coordinate line.width),
         ("stroke-linecap", "round")]
       closed := true
       text := "\n" }]
  | .path path =>
    [{ name := "path"
       attributes := [("d", pathData path.commands), ("stroke", path.stroke.toHex),
         ("fill", fill path.fill), ("stroke-width", coordinate path.width),
         ("stroke-linecap", "round"), ("stroke-linejoin", "round")]
       closed := true
       text := "\n" }]

theorem escape_newline : escape "\n" = "\n" := by decide

theorem attrs_append (as bs : List (String × String)) :
    attrs (as ++ bs) = attrs as ++ attrs bs := by
  rw [attrs, List.map_append, String.join_append]
  rfl

theorem attrs_rotationAttributes (o : Option (Rotation Single)) :
    attrs (rotationAttributes o) = transform o := by
  cases o with
  | none => rfl
  | some r =>
    rw [rotationAttributes, attrs, List.map_singleton, (Plain.rotation r).escape, String.join_cons,
      String.join_nil, String.append_empty]
    rfl

/-- The element of a primitive is its tags. -/
theorem element_eq (p : Primitive Single) :
    element p ++ "\n" = String.join ((primitiveTags p).map Tag.write) := by
  have hround : escape "round" = "round" := by decide
  cases p with
  | textRun run =>
    have hopen : "<text" = "<" ++ "text" := by decide
    have hclose : "</text>" ++ "\n" = "<" ++ ("/text" ++ (">" ++ "\n")) := by decide
    show textElement run ++ "\n" = _
    delta textElement
    simp only [primitiveTags, List.map_cons, List.map_nil, String.join_cons, String.join_nil,
      Tag.write, attrs_append, attrs_rotationAttributes]
    simp only [attrs, List.map_cons, List.map_nil, String.join_cons, String.join_nil,
      (Plain.coordinate _).escape, (Plain.toHex _).escape, escape_newline, Bool.false_eq_true,
      if_false, String.append_assoc, String.append_empty, hopen, hclose]
  | line line =>
    have hopen : "<line" = "<" ++ "line" := by decide
    show lineElement line ++ "\n" = _
    delta lineElement
    simp only [primitiveTags, List.map_cons, List.map_nil, String.join_cons, String.join_nil,
      Tag.write, attrs, hround, (Plain.coordinate _).escape, (Plain.toHex _).escape, escape_newline,
      if_true, String.append_assoc, String.append_empty, hopen]
  | path path =>
    have hopen : "<path" = "<" ++ "path" := by decide
    show pathElement path ++ "\n" = _
    delta pathElement
    simp only [primitiveTags, List.map_cons, List.map_nil, String.join_cons, String.join_nil,
      Tag.write, attrs, hround, (Plain.coordinate _).escape, (Plain.toHex _).escape,
      (Plain.fill _).escape, (Plain.pathData _).escape, escape_newline, if_true,
      String.append_assoc, String.append_empty, hopen]

theorem elements_eq (primitives : List (Primitive Single)) :
    elements primitives = String.join ((primitives.flatMap primitiveTags).map Tag.write) := by
  apply String.toList_inj.1
  unfold elements
  rw [toList_join_write, String.toList_join, List.flatMap_map, List.flatMap_assoc]
  refine List.flatMap_congr fun p _ => ?_
  rw [element_eq, toList_join_write]

/-- The tag that opens a document. -/
def documentTag (bounds : Rect Single) : Tag where
  name := "svg"
  attributes := [("xmlns", "http://www.w3.org/2000/svg"), ("width", coordinate bounds.width),
    ("height", coordinate bounds.height),
    ("viewBox", coordinate bounds.x ++ " " ++ coordinate bounds.y ++ " " ++
      coordinate bounds.width ++ " " ++ coordinate bounds.height)]
  closed := false
  text := "\n"

/-- The tags of a document. -/
def documentTags (primitives : List (Primitive Single)) (bounds : Rect Single) : List Tag :=
  documentTag bounds :: (primitives.flatMap primitiveTags ++
    [{ name := "/svg", attributes := [], closed := false, text := "" }])

theorem openingTag_eq (bounds : Rect Single) :
    openingTag bounds ++ "\n" = (documentTag bounds).write := by
  have hnamespace : escape "http://www.w3.org/2000/svg" = "http://www.w3.org/2000/svg" := by decide
  have hcorner := ((Plain.coordinate bounds.x).append .space).append (.coordinate bounds.y)
  have hview := (((hcorner.append .space).append (.coordinate bounds.width)).append .space).append
    (.coordinate bounds.height)
  have hopen : "<svg" = "<" ++ "svg" := by decide
  have hattrs : attrs (documentTag bounds).attributes =
      attr "xmlns" "http://www.w3.org/2000/svg" ++ (attr "width" (coordinate bounds.width) ++
        (attr "height" (coordinate bounds.height) ++ attr "viewBox" (coordinate bounds.x ++ " " ++
          coordinate bounds.y ++ " " ++ coordinate bounds.width ++ " " ++
            coordinate bounds.height))) := by
    simp only [documentTag, attrs, List.map_cons, List.map_nil, String.join_cons, String.join_nil,
      hnamespace, hview.escape, (Plain.coordinate _).escape, String.append_empty]
  rw [Tag.write, hattrs]
  simp only [documentTag, openingTag, escape_newline, Bool.false_eq_true, if_false, hopen,
    String.append_assoc]

/-- A document is its tags, written one after the other. -/
theorem document_eq (primitives : List (Primitive Single)) (bounds : Rect Single) :
    document primitives bounds =
      String.join ((documentTags primitives bounds).map Tag.write) := by
  have hlast : Tag.write { name := "/svg", attributes := [], closed := false, text := "" } =
      "</svg>" := by
    decide
  rw [document, openingTag_eq, elements_eq, documentTags, List.map_cons, List.map_append,
    String.join_cons, String.join_append, List.map_singleton, String.join_cons, String.join_nil,
    hlast, String.append_empty, String.append_assoc]

theorem Tag.Named.of_names {t : Tag} (name : String) (names : List String) (closed : Bool)
    (h : (name :: names).all (·.toList.all isNameChar) = true) (hslash : name.toList ≠ ['/'])
    (hclosed : closed = true → names ≠ []) (hname : t.name = name)
    (hnames : t.attributes.map Prod.fst = names) (hc : t.closed = closed) : t.Named := by
  have hall : ∀ n ∈ name :: names, ∀ c ∈ n.toList, isNameChar c = true :=
    fun n hn => List.all_eq_true.1 (List.all_eq_true.1 h n hn)
  subst hname hnames hc
  exact {
    name := hall t.name List.mem_cons_self
    ne_slash := hslash
    attributes := fun a ha => hall a.1 (List.mem_cons_of_mem _ (List.mem_map_of_mem ha))
    closed := fun hclosed' hnil => hclosed hclosed' (by rw [hnil, List.map_nil]) }

theorem named_primitiveTags {p : Primitive Single} {t : Tag} (h : t ∈ primitiveTags p) :
    t.Named := by
  cases p with
  | textRun run =>
    simp only [primitiveTags, List.mem_cons, List.not_mem_nil, or_false] at h
    rcases h with rfl | rfl
    · cases hrotation : run.rotation with
      | none =>
        exact .of_names "text" ["x", "y", "font-family", "font-size", "fill"] false (by decide)
          (by decide) nofun rfl rfl rfl
      | some r =>
        exact .of_names "text" ["x", "y", "font-family", "font-size", "fill", "transform"] false
          (by decide) (by decide) nofun rfl rfl rfl
    · exact .of_names "/text" [] false (by decide) (by decide) nofun rfl rfl rfl
  | line line =>
    rw [List.mem_singleton.1 h]
    exact .of_names "line" ["x1", "y1", "x2", "y2", "stroke", "stroke-width", "stroke-linecap"]
      true (by decide) (by decide) (fun _ => List.cons_ne_nil _ _) rfl rfl rfl
  | path path =>
    rw [List.mem_singleton.1 h]
    exact .of_names "path" ["d", "stroke", "fill", "stroke-width", "stroke-linecap",
      "stroke-linejoin"] true (by decide) (by decide) (fun _ => List.cons_ne_nil _ _) rfl rfl rfl

/-- Every name in a document is a name. -/
theorem named_documentTags {primitives : List (Primitive Single)} {bounds : Rect Single} {t : Tag}
    (h : t ∈ documentTags primitives bounds) : t.Named := by
  rw [documentTags, List.mem_cons, List.mem_append, List.mem_flatMap, List.mem_singleton] at h
  rcases h with rfl | ⟨p, -, ht⟩ | rfl
  · exact .of_names "svg" ["xmlns", "width", "height", "viewBox"] false (by decide) (by decide)
      nofun rfl rfl rfl
  · exact named_primitiveTags ht
  · exact .of_names "/svg" [] false (by decide) (by decide) nofun rfl rfl rfl

/-- The tags of a document are read back. -/
theorem tags_document (primitives : List (Primitive Single)) (bounds : Rect Single) :
    tags (document primitives bounds) = documentTags primitives bounds := by
  rw [document_eq, tags_write fun t => named_documentTags]

/-- The view box that a document gives in its first tag. -/
def viewBox? (document : String) : Option String :=
  (tags document).head?.bind (·.attribute? "viewBox")

/-- The view box of a document is the corner and the sides of the bounds. -/
theorem viewBox?_document (primitives : List (Primitive Single)) (bounds : Rect Single) :
    viewBox? (document primitives bounds) =
      some (coordinate bounds.x ++ " " ++ coordinate bounds.y ++ " " ++ coordinate bounds.width ++
        " " ++ coordinate bounds.height) := by
  rw [viewBox?, tags_document]
  rfl

/-! ## Figures -/

theorem channel?_hexByte (n : UInt8) :
    Color.channel? (n.toNat / 16).digitChar (n.toNat % 16).digitChar = some n := by
  have hdigit : ∀ d < 16, hexValue? d.digitChar = some d ∧ d.digitChar ≠ '+' := by decide
  have hlt : n.toNat < 256 := n.toNat_lt
  obtain ⟨hhigh, hplus⟩ := hdigit (n.toNat / 16) (by omega)
  obtain ⟨hlow, -⟩ := hdigit (n.toNat % 16) (by omega)
  have hsum : n.toNat / 16 * 16 + n.toNat % 16 = n.toNat := by omega
  rw [Color.channel?, if_neg hplus, hhigh, hlow]
  show some (UInt8.ofNat (n.toNat / 16 * 16 + n.toNat % 16)) = some n
  rw [hsum, UInt8.ofNat_toNat]

/-- Colours are read back. -/
theorem ofHex?_toHex (c : Color) : Color.ofHex? c.toHex = some c := by
  obtain ⟨r, g, b, a⟩ := c
  rw [Color.ofHex?, Color.toHex, String.toList_ofList]
  by_cases ha : a = 0xff
  · rw [if_pos ha, ha]
    simp [hexByte, Color.ofDigits?, channel?_hexByte]
  · rw [if_neg ha]
    simp [hexByte, Color.ofDigits?, channel?_hexByte]

theorem fill?_fill (o : Option Color) : fill? (fill o) = some o := by
  cases o with
  | none => rfl
  | some c =>
    have hne : c.toHex ≠ "none" := by
      intro h
      have hhead := congrArg (fun s => s.toList.head?) h
      rw [Color.toHex] at hhead
      simp at hhead
    rw [fill?, fill, if_neg hne, ofHex?_toHex]
    rfl

/-- The tags of a primitive draw its figure. -/
theorem filterMap_figure?_primitiveTags (p : Primitive Single) :
    (primitiveTags p).filterMap Tag.figure? = [p.figure] := by
  cases p with
  | textRun run =>
    have hrotated : ((rotationAttributes run.rotation).lookup "transform").isSome =
        run.rotation.isSome := by
      cases run.rotation <;> rfl
    simp [primitiveTags, Tag.figure?, Tag.attribute?, Tag.color?, List.lookup_cons, ofHex?_toHex,
      hrotated, Primitive.figure]
  | line line =>
    simp [primitiveTags, Tag.figure?, Tag.attribute?, Tag.color?, List.lookup_cons, ofHex?_toHex,
      Primitive.figure]
  | path path =>
    simp [primitiveTags, Tag.figure?, Tag.attribute?, Tag.color?, List.lookup_cons, ofHex?_toHex,
      fill?_fill, (Plain.pathData path.commands).kinds, Primitive.figure]

theorem filterMap_figure?_documentTags (primitives : List (Primitive Single))
    (bounds : Rect Single) :
    (documentTags primitives bounds).filterMap Tag.figure? = primitives.map Primitive.figure := by
  have hopen : (documentTag bounds).figure? = none := rfl
  have hclose : Tag.figure? { name := "/svg", attributes := [], closed := false, text := "" } =
      none := rfl
  rw [documentTags, List.filterMap_cons_none hopen, List.filterMap_append, List.filterMap_flatMap,
    List.filterMap_cons_none hclose, List.filterMap_nil, List.append_nil, List.map_eq_flatMap]
  exact List.flatMap_congr fun p _ => filterMap_figure?_primitiveTags p

theorem length_primitiveTags (p : Primitive Single) :
    (primitiveTags p).length = if p.isText then 2 else 1 := by
  cases p <;> rfl

theorem length_documentTags (primitives : List (Primitive Single)) (bounds : Rect Single) :
    (documentTags primitives bounds).length = 2 + 2 * primitives.countP Primitive.isText +
      primitives.countP fun p => !p.isText := by
  have hlength : (primitives.flatMap primitiveTags).length =
      2 * primitives.countP Primitive.isText + primitives.countP fun p => !p.isText := by
    induction primitives with
    | nil => rfl
    | cons p ps ih =>
      rw [List.flatMap_cons, List.length_append, ih, length_primitiveTags, List.countP_cons,
        List.countP_cons]
      cases p.isText <;> simp <;> omega
  rw [documentTags, List.length_cons, List.length_append, hlength, List.length_singleton]
  omega

/-- A document is read back: its tags are those of its primitives, with names and values that no
text adds to, and their figures are those of the primitives. It has an angle bracket for each tag
and no other. -/
theorem read_document (primitives : List (Primitive Single)) (bounds : Rect Single) :
    tags (document primitives bounds) = documentTags primitives bounds ∧
      figures (document primitives bounds) = primitives.map Primitive.figure ∧
      (document primitives bounds).toList.count '<' =
        2 + 2 * primitives.countP Primitive.isText + primitives.countP fun p => !p.isText := by
  refine ⟨tags_document primitives bounds, ?_, ?_⟩
  · rw [figures, tags_document, filterMap_figure?_documentTags]
  · rw [document_eq, count_write fun t => named_documentTags, length_documentTags]

end FormulaDrawing.Markup
