import FormulaDrawing.Drawing.Color
import Mathlib.Data.List.Basic

/-!
# The texts of colours

A colour is written as a number sign and three or four pairs of hexadecimal digits, a pair for each
channel (`Color.IsHex`). Reading takes more than that: in every pair a plus sign may stand in place
of the first digit.

    ofHex? s = some c ↔ Written ChannelPair s.toList c                      (ofHex?_eq_some_iff)

These are all the texts that it takes, and where there is no plus sign the two grammars are the same
(`written_iff_of_notMem`).
-/

namespace FormulaDrawing

/-! ## Digits -/

/-- A hexadecimal digit of either case, and its value. -/
def HexDigit (c : Char) (n : Nat) : Prop :=
  "0123456789abcdef".toList[n]? = some c ∨ "0123456789ABCDEF".toList[n]? = some c

theorem HexDigit.lt {c : Char} {n : Nat} (h : HexDigit c n) : n < 16 := by
  rcases h with h | h <;> exact (List.getElem?_eq_some_iff.1 h).1

/-- Digits in a row have values in a row. -/
theorem hexDigit_of_between {a b c : Char} (base : Nat)
    (h : ∀ m ≤ b.toNat - a.toNat, HexDigit (Char.ofNat (a.toNat + m)) (m + base))
    (ha : a ≤ c) (hb : c ≤ b) : HexDigit c (c.toNat - a.toNat + base) := by
  have hle : a.toNat ≤ c.toNat := ha
  have hle' : c.toNat ≤ b.toNat := hb
  have hc := h (c.toNat - a.toNat) (by omega)
  rwa [Nat.add_sub_cancel' hle, Char.ofNat_toNat] at hc

theorem hexValue?_eq_some_iff {c : Char} {n : Nat} : hexValue? c = some n ↔ HexDigit c n := by
  constructor
  · intro h
    unfold hexValue? at h
    simp only [Bool.and_eq_true, decide_eq_true_eq] at h
    split at h
    next hc =>
      cases h
      exact hexDigit_of_between 0 (by unfold HexDigit; decide) hc.1 hc.2
    split at h
    next hc =>
      cases h
      exact hexDigit_of_between 10 (by unfold HexDigit; decide) hc.1 hc.2
    split at h
    next hc =>
      cases h
      exact hexDigit_of_between 10 (by unfold HexDigit; decide) hc.1 hc.2
    next => cases h
  · intro h
    have hvalue : ∀ m < 16, ∀ d ∈ ["0123456789abcdef".toList[m]?, "0123456789ABCDEF".toList[m]?],
        d.bind hexValue? = some m := by decide
    rcases h with h | h
    · exact hvalue n (HexDigit.lt (.inl h)) (some c) (by simp [← h])
    · exact hvalue n (HexDigit.lt (.inr h)) (some c) (by simp [← h])

theorem not_hexDigit_plus {n : Nat} : ¬HexDigit '+' n := by
  rw [← hexValue?_eq_some_iff]
  nofun

/-- Two digits, the higher one first, and the byte that they write. -/
def DigitPair (high low : Char) (b : UInt8) : Prop :=
  ∃ m n, HexDigit high m ∧ HexDigit low n ∧ b.toNat = m * 16 + n

/-- A plus sign, a digit, and the byte that they write. -/
def SignedDigit (sign digit : Char) (b : UInt8) : Prop :=
  sign = '+' ∧ HexDigit digit b.toNat

/-- What reading takes for a channel. -/
def ChannelPair (first second : Char) (b : UInt8) : Prop :=
  DigitPair first second b ∨ SignedDigit first second b

namespace Color

/-! ## Channels -/

theorem channel?_eq_some_iff {c d : Char} {b : UInt8} :
    channel? c d = some b ↔ ChannelPair c d b := by
  unfold channel? ChannelPair
  split
  next hplus =>
    subst hplus
    have hnone : ¬DigitPair '+' d b := fun ⟨_, _, h, _⟩ => not_hexDigit_plus h
    rw [Option.map_eq_some_iff]
    constructor
    · rintro ⟨n, hn, rfl⟩
      have hdigit := hexValue?_eq_some_iff.1 hn
      have hlt : n < UInt8.size := Nat.lt_trans hdigit.lt (by decide)
      exact .inr ⟨rfl, by rwa [UInt8.toNat_ofNat_of_lt' hlt]⟩
    · rintro (h | ⟨-, h⟩)
      · exact absurd h hnone
      · exact ⟨b.toNat, hexValue?_eq_some_iff.2 h, UInt8.ofNat_toNat⟩
  next hplus =>
    constructor
    · intro h
      obtain ⟨m, hm, h⟩ := Option.bind_eq_some_iff.1 h
      obtain ⟨n, hn, h⟩ := Option.bind_eq_some_iff.1 h
      cases h
      have hhigh := hexValue?_eq_some_iff.1 hm
      have hlow := hexValue?_eq_some_iff.1 hn
      have hlt : m * 16 + n < UInt8.size := by
        have := hhigh.lt
        have := hlow.lt
        show _ < 256
        omega
      exact .inl ⟨m, n, hhigh, hlow, UInt8.toNat_ofNat_of_lt' hlt⟩
    · rintro (⟨m, n, hm, hn, hb⟩ | ⟨h, -⟩)
      · rw [hexValue?_eq_some_iff.2 hm, hexValue?_eq_some_iff.2 hn]
        show some (UInt8.ofNat (m * 16 + n)) = some b
        rw [← hb, UInt8.ofNat_toNat]
      · exact absurd h hplus

/-! ## Colours -/

/-- A number sign and three or four channels; a colour of three is full. -/
inductive Written (channel : Char → Char → UInt8 → Prop) : List Char → Color → Prop
  | three {r r' g g' b b' : Char} {red green blue : UInt8} :
    channel r r' red → channel g g' green → channel b b' blue →
    Written channel ['#', r, r', g, g', b, b'] ⟨red, green, blue, 255⟩
  | four {r r' g g' b b' a a' : Char} {red green blue alpha : UInt8} :
    channel r r' red → channel g g' green → channel b b' blue → channel a a' alpha →
    Written channel ['#', r, r', g, g', b, b', a, a'] ⟨red, green, blue, alpha⟩

/-- The text of a colour: a number sign and six or eight hexadecimal digits. -/
def IsHex (s : String) (c : Color) : Prop := Written DigitPair s.toList c

/-- A text that is read as a colour for all that it has a plus sign in it. -/
def IsSigned (s : String) : Prop :=
  '+' ∈ s.toList ∧ ∃ c, Written ChannelPair s.toList c

theorem ofHex?_eq_some_iff {s : String} {c : Color} :
    ofHex? s = some c ↔ Written ChannelPair s.toList c := by
  unfold ofHex?
  generalize s.toList = cs
  constructor
  · intro h
    split at h
    next digits =>
      unfold ofDigits? at h
      split at h
      next =>
        obtain ⟨red, hr, h⟩ := Option.bind_eq_some_iff.1 h
        obtain ⟨green, hg, h⟩ := Option.bind_eq_some_iff.1 h
        obtain ⟨blue, hb, h⟩ := Option.bind_eq_some_iff.1 h
        cases h
        exact .three (channel?_eq_some_iff.1 hr) (channel?_eq_some_iff.1 hg)
          (channel?_eq_some_iff.1 hb)
      next =>
        obtain ⟨red, hr, h⟩ := Option.bind_eq_some_iff.1 h
        obtain ⟨green, hg, h⟩ := Option.bind_eq_some_iff.1 h
        obtain ⟨blue, hb, h⟩ := Option.bind_eq_some_iff.1 h
        obtain ⟨alpha, ha, h⟩ := Option.bind_eq_some_iff.1 h
        cases h
        exact .four (channel?_eq_some_iff.1 hr) (channel?_eq_some_iff.1 hg)
          (channel?_eq_some_iff.1 hb) (channel?_eq_some_iff.1 ha)
      next => cases h
    next => cases h
  · rintro (⟨hr, hg, hb⟩ | ⟨hr, hg, hb, ha⟩)
    · rw [← channel?_eq_some_iff] at hr hg hb
      simp [ofDigits?, hr, hg, hb]
    · rw [← channel?_eq_some_iff] at hr hg hb ha
      simp [ofDigits?, hr, hg, hb, ha]

theorem Written.imp {p q : Char → Char → UInt8 → Prop} {cs : List Char} {c : Color}
    (h : Written p cs c) (hpq : ∀ x ∈ cs, ∀ y b, p x y b → q x y b) : Written q cs c := by
  cases h with
  | three hr hg hb =>
    exact .three (hpq _ (by simp) _ _ hr) (hpq _ (by simp) _ _ hg) (hpq _ (by simp) _ _ hb)
  | four hr hg hb ha =>
    exact .four (hpq _ (by simp) _ _ hr) (hpq _ (by simp) _ _ hg) (hpq _ (by simp) _ _ hb)
      (hpq _ (by simp) _ _ ha)

theorem plus_notMem {cs : List Char} {c : Color} (h : Written DigitPair cs c) : '+' ∉ cs := by
  have hpair : ∀ {x y : Char} {b : UInt8}, DigitPair x y b → '+' ≠ x ∧ '+' ≠ y := by
    rintro x y b ⟨m, n, hx, hy, -⟩
    constructor <;> rintro rfl
    · exact not_hexDigit_plus hx
    · exact not_hexDigit_plus hy
  have hsign : '+' ≠ '#' := by decide
  cases h with
  | three hr hg hb => simp [hsign, hpair hr, hpair hg, hpair hb]
  | four hr hg hb ha => simp [hsign, hpair hr, hpair hg, hpair hb, hpair ha]

/-- Without a plus sign, reading takes digits only. -/
theorem written_iff_of_notMem {cs : List Char} (hcs : '+' ∉ cs) {c : Color} :
    Written ChannelPair cs c ↔ Written DigitPair cs c := by
  refine ⟨fun h => h.imp fun x hx y b hpair => ?_, fun h => h.imp fun _ _ _ _ => .inl⟩
  rcases hpair with hpair | ⟨rfl, -⟩
  · exact hpair
  · exact absurd hx hcs

/-- Reading agrees with the grammar on the texts that it does not take for a plus sign, and on no
others. -/
theorem ofHex?_iff_isHex {s : String} :
    (∀ c, ofHex? s = some c ↔ IsHex s c) ↔ ¬IsSigned s := by
  simp only [ofHex?_eq_some_iff]
  constructor
  · rintro h ⟨hplus, c, hc⟩
    exact plus_notMem ((h c).1 hc) hplus
  · intro hsigned c
    by_cases hplus : '+' ∈ s.toList
    · constructor
      · exact fun hc => absurd ⟨hplus, c, hc⟩ hsigned
      · exact fun hc => absurd hplus (plus_notMem hc)
    · exact written_iff_of_notMem hplus

end Color

end FormulaDrawing
