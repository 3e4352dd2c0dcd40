import FormulaDrawing.Proofs.Binary.Interval
import FormulaDrawing.Proofs.Drawing.Markup

/-!
# Coordinates are numerals

A coordinate is rounded to a hundredth of an integer, and a grid of hundredths has a point in the
rounding interval of the quotient. So its shortest decimal has at most two places. This takes that
the hundredfold of the coordinate does not overflow:

    isNumeral (coordinate x) ↔ x has a value r and |r| * 100 < 2 ^ 128 - 2 ^ 103

(`isNumeral_coordinate_iff`); otherwise the name of infinity or of not-a-number is written.
-/

namespace FormulaDrawing.Markup

/-! ## Numerals -/

def isDigits (cs : List Char) : Bool := !cs.isEmpty && cs.all Char.isDigit

/-- Digits, or digits with one or two more after a point. -/
def isUnsignedNumeral (cs : List Char) : Bool :=
  match cs.splitOn '.' with
  | [whole] => isDigits whole
  | [whole, places] => isDigits whole && isDigits places && places.length ≤ 2
  | _ => false

/-- A plain decimal numeral of at most two places, with or without a minus sign. -/
def isNumeral (s : String) : Bool :=
  match s.toList with
  | '-' :: cs => isUnsignedNumeral cs
  | cs => isUnsignedNumeral cs

theorem isDigits_of_ne_nil {cs : List Char} (hne : cs ≠ []) (h : ∀ c ∈ cs, c.isDigit = true) :
    isDigits cs = true := by
  rw [isDigits, List.all_eq_true.2 h, Bool.and_true, List.isEmpty_eq_false_iff.2 hne]
  rfl

theorem point_notMem {cs : List Char} (h : ∀ c ∈ cs, c.isDigit = true) : '.' ∉ cs :=
  fun hmem => absurd (h '.' hmem) (by decide)

theorem isUnsignedNumeral_positional {d : Decimal} (h : -2 ≤ d.exponent) :
    isUnsignedNumeral d.positional.toList = true := by
  obtain ⟨whole, places, hne, hwhole, hplaces, hlength, heq⟩ := Plain.exists_positional d
  unfold isUnsignedNumeral
  rw [heq]
  split_ifs with hnone
  · rw [List.append_nil, List.splitOn_eq_singleton (point_notMem hwhole)]
    exact isDigits_of_ne_nil hne hwhole
  · rw [splitOn_append_cons (point_notMem hwhole),
      List.splitOn_eq_singleton (point_notMem hplaces)]
    simp only [isDigits_of_ne_nil hne hwhole, isDigits_of_ne_nil hnone hplaces, Bool.true_and,
      decide_eq_true_eq]
    omega

/-- A decimal of at most two places is written as a numeral, with a minus sign too. -/
theorem isNumeral_positional {d : Decimal} (h : -2 ≤ d.exponent) :
    isNumeral d.positional = true ∧ isNumeral ("-" ++ d.positional) = true := by
  have hunsigned := isUnsignedNumeral_positional h
  unfold isNumeral
  constructor
  · split
    next cs heq =>
      have hminus : '-' ∈ d.positional.toList := heq ▸ List.mem_cons_self
      rcases Plain.isDigit_or_point hminus with hdigit | hpoint
      · cases hdigit
      · cases hpoint
    next => exact hunsigned
  · rw [String.toList_append]
    exact hunsigned

/-! ## The 32 bit format -/

theorem hundred_eq : (100.0 : Single) = .signed false ⟨1120403456, by decide⟩ := by
  decide +kernel

theorem magnitude_hundred : Format.single.magnitude 1120403456 = 100 := by
  simp only [Format.magnitude, Format.significand, Format.exponent, Format.single]
  norm_num

theorem magnitude_greatest :
    Format.single.magnitude (Format.single.infinity - 1) = ((2 ^ 24 - 1) * 2 ^ 104 : Nat) := by
  simp only [Format.magnitude, Format.significand, Format.exponent, Format.single, Format.infinity]
  norm_num

theorem halfWay_greatest :
    Format.single.halfWay (Format.single.infinity - 1) = 2 ^ 128 - 2 ^ 103 := by
  have hinfinity : Format.single.magnitude (Format.single.infinity - 1 + 1) = 2 ^ 128 := by
    simp only [Format.magnitude, Format.significand, Format.exponent, Format.single,
      Format.infinity]
    norm_num
  rw [Format.halfWay, magnitude_greatest, hinfinity]
  norm_num

/-- The shortest decimal of the number nearest to a hundredth of an integer has at most two
places. -/
theorem neg_two_le_exponent {k n : Nat} (hk : k ≠ 0)
    (h : Format.single.nearest ((n : Rat) / 100).num.natAbs ((n : Rat) / 100).den = k) :
    -2 ≤ (Format.single.shortest k).exponent := by
  have hgrid : (n : Rat) / 100 = n * 10 ^ (-2 : Int) := by
    norm_num [zpow_neg]
    ring
  exact Format.le_exponent_shortest (by decide) hk hgrid h (by decide) (by decide)

/-! ## Coordinates -/

theorem isNumeral_coordinate {x : Single} (hx : (x * 100.0).isFinite = true) :
    isNumeral (coordinate x) = true := by
  obtain ⟨s, j, hround, hj, n, hn⟩ := Binary.exists_round (by decide) magnitude_greatest hx
  have hone : 1 ≤ Format.single.magnitude 1120403456 := by
    rw [magnitude_hundred]
    norm_num
  obtain ⟨t, k, hdiv, hk, hnearest⟩ := Binary.exists_div (s := s) (t := false)
    (k := ⟨1120403456, by decide⟩) (by decide) hj (by decide) hone
  rw [hn, magnitude_hundred] at hnearest
  rw [coordinate, hround, hundred_eq, hdiv]
  by_cases hzero : k.val = 0
  · have hisZero : (Binary.signed t k).isZero = true := by
      rw [Binary.isZero, hzero]
      rfl
    simp only [hisZero, if_true]
    decide
  · have hisZero : (Binary.signed t k).isZero = false := by
      rw [Binary.isZero, beq_false_of_ne hzero]
    obtain ⟨hplus, hminus⟩ := isNumeral_positional (neg_two_le_exponent hzero hnearest.symm)
    simp only [hisZero, Bool.false_eq_true, if_false, Binary.toText, if_neg hk.ne, if_neg hzero]
    split
    · exact hminus
    · exact hplus

/-- The hundredfold of a number overflows from half way to infinity on. -/
theorem isFinite_hundredfold_iff (x : Single) :
    (x * 100.0).isFinite = true ↔ ∃ r, x.toRat? = some r ∧ |r| * 100 < 2 ^ 128 - 2 ^ 103 := by
  cases hx : x.isFinite with
  | false =>
    refine iff_of_false (fun h => ?_) ?_
    · rcases Binary.eq_nan_or_infinite hx with rfl | ⟨s, rfl⟩
      · cases h
      · revert h
        cases s <;> decide +kernel
    · rintro ⟨r, hr, -⟩
      cases x with
      | nan => cases hr
      | signed s k =>
        rw [Binary.toRat?, if_neg (of_decide_eq_false hx)] at hr
        cases hr
  | true =>
    cases x with
    | nan => cases hx
    | signed s k =>
      have hk : k.val < Format.single.infinity := Binary.isFinite_iff.1 hx
      rw [hundred_eq, Binary.mul_signed hk.ne (by decide),
        Binary.isFinite_ofRat_iff (by decide) (by decide), abs_mul, Binary.abs_rational false,
        magnitude_hundred, halfWay_greatest, Binary.toRat?, if_pos hk]
      simp only [Option.some.injEq, exists_eq_left']

/-- A coordinate is written as a numeral if and only if it has a value whose hundredfold does not
overflow. -/
theorem isNumeral_coordinate_iff (x : Single) :
    isNumeral (coordinate x) = true ↔
      ∃ r, x.toRat? = some r ∧ |r| * 100 < 2 ^ 128 - 2 ^ 103 := by
  rw [← isFinite_hundredfold_iff]
  refine ⟨fun h => ?_, isNumeral_coordinate⟩
  by_contra hinf
  rcases Binary.eq_nan_or_infinite (Bool.eq_false_of_not_eq_true hinf) with hnan | ⟨s, hs⟩
  · rw [coordinate, hnan] at h
    revert h
    decide
  · rw [coordinate, hs] at h
    revert h
    cases s <;> decide +kernel

end FormulaDrawing.Markup
