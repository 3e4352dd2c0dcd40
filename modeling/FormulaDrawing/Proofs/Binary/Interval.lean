import FormulaDrawing.Binary.Text
import FormulaDrawing.Proofs.Binary.Rounding
import Mathlib.Data.Rat.Floor
import Mathlib.Order.Monotone.Basic

/-!
# Rounding intervals

The rationals that round to an ordinal are those between the half ways to its neighbours
(`roundsTo_iff`), so rounding keeps the order (`nearest_mono`), and it overflows from the half way
to infinity on (`nearest_lt_infinity_iff`).

The search for the shortest decimal stops at the latest on a grid that has a point in the interval
(`le_exponent_shortest`).
-/

namespace FormulaDrawing

/-- A tie is broken to the even side, so an odd nearest integer is not a half away. -/
theorem roundHalfEven_odd {n d : Nat} (hd : 0 < d) (hodd : roundHalfEven n d % 2 = 1) :
    2 * (roundHalfEven n d * d) ≠ 2 * n + d ∧ 2 * n ≠ 2 * (roundHalfEven n d * d) + d := by
  have hdiv : d * (n / d) + n % d = n := Nat.div_add_mod n d
  have hmod : n % d < d := Nat.mod_lt n hd
  have hcomm : n / d * d = d * (n / d) := Nat.mul_comm _ _
  revert hodd
  unfold roundHalfEven
  simp only
  split
  · omega
  · split
    · rw [Nat.add_mul]
      omega
    · omega

theorem roundHalfEven_between {n d : Nat} (hd : 0 < d) :
    ((n / d : Rat) < roundHalfEven n d + 1 / 2 ∨
        (n / d : Rat) = roundHalfEven n d + 1 / 2 ∧ roundHalfEven n d % 2 = 0) ∧
      ((roundHalfEven n d : Rat) < n / d + 1 / 2 ∨
        (roundHalfEven n d : Rat) = n / d + 1 / 2 ∧ roundHalfEven n d % 2 = 0) := by
  have hd' : (d : Rat) ≠ 0 := by exact_mod_cast hd.ne'
  -- a half away is a tie of the counts
  have hlow : (n / d : Rat) = roundHalfEven n d + 1 / 2 →
      2 * n = 2 * (roundHalfEven n d * d) + d := by
    intro h
    field_simp at h
    have : (2 * n : Rat) = 2 * (roundHalfEven n d * d) + d := by linarith
    exact_mod_cast this
  have hhigh : (roundHalfEven n d : Rat) = n / d + 1 / 2 →
      2 * (roundHalfEven n d * d) = 2 * n + d := by
    intro h
    field_simp at h
    have : (2 * (roundHalfEven n d * d) : Rat) = 2 * n + d := by linarith
    exact_mod_cast this
  rcases Nat.mod_two_eq_zero_or_one (roundHalfEven n d) with hpar | hpar
  · exact ⟨(le_roundHalfEven hd).lt_or_eq.imp_right fun h => ⟨h, hpar⟩,
      (roundHalfEven_le hd).lt_or_eq.imp_right fun h => ⟨h, hpar⟩⟩
  · obtain ⟨hne, hne'⟩ := roundHalfEven_odd hd hpar
    exact ⟨.inl ((le_roundHalfEven hd).lt_of_ne fun h => hne' (hlow h)),
      .inl ((roundHalfEven_le hd).lt_of_ne fun h => hne (hhigh h))⟩

namespace Format

variable {f : Format}

/-! ## The order of magnitudes -/

/-- The magnitude of the ordinal at a count of units. The count may be the power of two above all
counts of its units, which is the first one of the next units. -/
theorem magnitude_add {t s : Nat} (hlead : t = 0 ∨ 2 ^ f.fractionBits ≤ s)
    (hs : s ≤ 2 * 2 ^ f.fractionBits) :
    f.magnitude (t * 2 ^ f.fractionBits + s) = s * 2 ^ (f.leastExponent + t) := by
  have hpos : 0 < 2 ^ f.fractionBits := by positivity
  obtain ⟨t', s', hk, hs', hlead', heq⟩ :=
    magnitude_eq (f := f) (t * 2 ^ f.fractionBits + s)
  rw [heq]
  -- the same units, or the next ones
  rcases Nat.lt_trichotomy t t' with htt | rfl | htt
  · have hle : (t + 1) * 2 ^ f.fractionBits ≤ t' * 2 ^ f.fractionBits :=
      Nat.mul_le_mul_right _ htt
    have hlead' : 2 ^ f.fractionBits ≤ s' := hlead'.resolve_left (by omega)
    rw [Nat.add_mul] at hle
    have hs'eq : s' = 2 ^ f.fractionBits := by omega
    have hseq : s = 2 * 2 ^ f.fractionBits := by omega
    have htt' : t' * 2 ^ f.fractionBits = (t + 1) * 2 ^ f.fractionBits := by
      rw [Nat.add_mul]
      omega
    obtain rfl := Nat.eq_of_mul_eq_mul_right hpos htt'
    rw [hs'eq, hseq]
    push_cast
    rw [← add_assoc, zpow_add_one₀ (by norm_num)]
    ring
  · have : s = s' := by omega
    rw [this]
  · exfalso
    have hle : (t' + 1) * 2 ^ f.fractionBits ≤ t * 2 ^ f.fractionBits :=
      Nat.mul_le_mul_right _ htt
    have hlead : 2 ^ f.fractionBits ≤ s := hlead.resolve_left (by omega)
    rw [Nat.add_mul] at hle
    omega

theorem magnitude_strictMono : StrictMono f.magnitude := by
  refine strictMono_nat_of_lt_succ fun k => ?_
  obtain ⟨t, s, hk, hs, hlead, heq⟩ := magnitude_eq (f := f) k
  have hnext : f.magnitude (k + 1) = ((s + 1 : Nat) : Rat) * 2 ^ (f.leastExponent + t) := by
    rw [hk, Nat.add_assoc]
    exact magnitude_add (hlead.imp_right fun h => by omega) (by omega)
  rw [heq, hnext]
  refine mul_lt_mul_of_pos_right ?_ (by positivity)
  push_cast
  linarith

theorem nearest_abs (q : Rat) :
    f.nearest |q|.num.natAbs |q|.den = f.nearest q.num.natAbs q.den := by
  rw [Rat.num_abs_eq_abs_num, Rat.den_abs_eq_den, Int.natAbs_abs]

/-! ## Half ways -/

/-- Half way from an ordinal to the next one. -/
def halfWay (f : Format) (k : Nat) : Rat := (f.magnitude k + f.magnitude (k + 1)) / 2

theorem magnitude_lt_halfWay (k : Nat) : f.magnitude k < f.halfWay k := by
  have := magnitude_strictMono (f := f) (Nat.lt_succ_self k)
  unfold halfWay
  linarith

theorem halfWay_lt_magnitude (k : Nat) : f.halfWay k < f.magnitude (k + 1) := by
  have := magnitude_strictMono (f := f) (Nat.lt_succ_self k)
  unfold halfWay
  linarith

theorem halfWay_strictMono : StrictMono f.halfWay :=
  strictMono_nat_of_lt_succ fun k => (halfWay_lt_magnitude k).trans (magnitude_lt_halfWay (k + 1))

theorem halfWay_add {t s : Nat} (hlead : t = 0 ∨ 2 ^ f.fractionBits ≤ s)
    (hs : s < 2 * 2 ^ f.fractionBits) :
    f.halfWay (t * 2 ^ f.fractionBits + s) =
      ((s : Rat) + 1 / 2) * 2 ^ (f.leastExponent + t) := by
  have hnext : f.magnitude (t * 2 ^ f.fractionBits + s + 1) =
      ((s + 1 : Nat) : Rat) * 2 ^ (f.leastExponent + t) :=
    magnitude_add (hlead.imp_right fun h => by omega) hs
  rw [halfWay, magnitude_add hlead hs.le, hnext]
  push_cast
  ring

/-- The units of a positive rational, its count of them, and the nearest integer to the count, which
is at most the power of two above all counts of the unit. -/
theorem exists_count {q : Rat} (hq : 0 < q) :
    ∃ (t m : Nat) (c : Rat), f.nearest q.num.natAbs q.den = t * 2 ^ f.fractionBits + m ∧
      q = c * 2 ^ (f.leastExponent + t) ∧ c < 2 * 2 ^ f.fractionBits ∧
      m ≤ 2 * 2 ^ f.fractionBits ∧
      (t = 0 ∨ (2 ^ f.fractionBits : Rat) ≤ c ∧ 2 ^ f.fractionBits ≤ m) ∧
      (c < m + 1 / 2 ∨ c = m + 1 / 2 ∧ m % 2 = 0) ∧
      ((m : Rat) < c + 1 / 2 ∨ (m : Rat) = c + 1 / 2 ∧ m % 2 = 0) := by
  obtain ⟨t, n, d, hd, hcount, heq, hlt, hlead⟩ := nearest_eq_roundHalfEven (f := f) hq.ne'
  obtain ⟨habove, hbelow⟩ := roundHalfEven_between (n := n) hd
  rw [abs_of_pos hq] at hcount hlt hlead
  rw [hcount] at habove hbelow
  rw [pow_succ, mul_comm] at hlt
  refine ⟨t, _, _, heq, (div_mul_cancel₀ _ (by positivity)).symm, hlt, ?_,
    hlead.imp_right fun h => ⟨h, ?_⟩, habove, hbelow⟩
  · have : (roundHalfEven n d : Rat) < 2 * 2 ^ f.fractionBits + 1 := by
      rcases hbelow with h | ⟨h, -⟩ <;> linarith
    have : roundHalfEven n d < 2 * 2 ^ f.fractionBits + 1 := by exact_mod_cast this
    omega
  · have : (2 ^ f.fractionBits : Rat) < roundHalfEven n d + 1 := by
      rcases habove with h' | ⟨h', -⟩ <;> linarith
    have : 2 ^ f.fractionBits < roundHalfEven n d + 1 := by exact_mod_cast this
    omega

theorem add_mod_two (hf : 0 < f.fractionBits) (t m : Nat) :
    (t * 2 ^ f.fractionBits + m) % 2 = m % 2 := by
  obtain ⟨b, hb⟩ := Nat.exists_eq_add_of_lt hf
  rw [hb, Nat.zero_add, Nat.pow_succ, ← Nat.mul_assoc]
  omega

/-- A rational does not pass the half way above its nearest ordinal, and is half way only from an
even one. -/
theorem lt_halfWay_nearest (hf : 0 < f.fractionBits) {q : Rat} (hq : 0 ≤ q) {k : Nat}
    (hk : f.nearest q.num.natAbs q.den = k) :
    q < f.halfWay k ∨ q = f.halfWay k ∧ k % 2 = 0 := by
  rcases hq.eq_or_lt with rfl | hpos
  · obtain rfl : k = 0 := hk.symm
    rw [← magnitude_zero (f := f)]
    exact .inl (magnitude_lt_halfWay 0)
  obtain ⟨t, m, c, heq, hq, hlt, hm, hlead, habove, -⟩ := exists_count (f := f) hpos
  have hunit : (0 : Rat) < 2 ^ (f.leastExponent + t) := by positivity
  have hmlead := hlead.imp_right And.right
  rw [← hk, heq, add_mod_two hf]
  rcases hm.lt_or_eq with hlast | hlast
  · rw [halfWay_add hmlead hlast, hq]
    exact habove.imp (fun h => mul_lt_mul_of_pos_right h hunit) fun h => ⟨by rw [h.1], h.2⟩
  · -- the power of two above all counts of the unit
    refine .inl (lt_trans ?_ (magnitude_lt_halfWay _))
    rw [magnitude_add hmlead hm, hq, hlast]
    refine mul_lt_mul_of_pos_right ?_ hunit
    push_cast
    exact hlt

/-- A rational does not come down to the half way below its nearest ordinal, unless the ordinal is
even. -/
theorem halfWay_lt_nearest (hf : 0 < f.fractionBits) {q : Rat} (hq : 0 ≤ q) {j : Nat}
    (hj : f.nearest q.num.natAbs q.den = j + 1) :
    f.halfWay j < q ∨ f.halfWay j = q ∧ (j + 1) % 2 = 0 := by
  rcases hq.eq_or_lt with rfl | hpos
  · cases hj
  obtain ⟨t, m, c, heq, hq, hlt, hm, hlead, -, hbelow⟩ := exists_count (f := f) hpos
  have hunit : (0 : Rat) < 2 ^ (f.leastExponent + t) := by positivity
  have hbits : 0 < 2 ^ f.fractionBits := by positivity
  obtain ⟨i, rfl⟩ : ∃ i, m = i + 1 := by
    refine Nat.exists_eq_succ_of_ne_zero fun hzero => ?_
    rcases hlead with rfl | h <;> omega
  rw [hj] at heq
  rw [heq, add_mod_two hf]
  by_cases hilead : t = 0 ∨ 2 ^ f.fractionBits ≤ i
  · obtain rfl : j = t * 2 ^ f.fractionBits + i := by omega
    rw [halfWay_add hilead (by omega), hq]
    push_cast at hbelow
    refine hbelow.imp (fun h => mul_lt_mul_of_pos_right (by linarith) hunit) fun h => ⟨?_, h.2⟩
    have : (i : Rat) + 1 / 2 = c := by linarith [h.1]
    rw [this]
  · -- the power of two below all other counts of the unit
    rw [not_or] at hilead
    obtain ⟨hclead, hmlead⟩ := hlead.resolve_left hilead.1
    refine .inl (lt_of_lt_of_le (halfWay_lt_magnitude j) ?_)
    rw [heq, magnitude_add (.inr hmlead) hm, hq]
    refine mul_le_mul_of_nonneg_right ?_ hunit.le
    have hmeq : i + 1 = 2 ^ f.fractionBits := by omega
    rw [hmeq]
    exact_mod_cast hclead

/-- Rounding does not pass an ordinal as long as a rational does not pass the half way above it.
Half way it is the even side that is taken. -/
theorem nearest_le_iff (hf : 0 < f.fractionBits) {q : Rat} (hq : 0 ≤ q) (k : Nat) :
    f.nearest q.num.natAbs q.den ≤ k ↔ q < f.halfWay k ∨ q = f.halfWay k ∧ k % 2 = 0 := by
  have habove := lt_halfWay_nearest hf hq rfl
  rcases Nat.lt_trichotomy (f.nearest q.num.natAbs q.den) k with hlt | heq | hgt
  · refine iff_of_true hlt.le (.inl ?_)
    refine lt_of_le_of_lt ?_ (halfWay_strictMono hlt)
    exact habove.elim le_of_lt fun h => h.1.le
  · rw [heq] at habove
    exact iff_of_true heq.le habove
  · refine iff_of_false hgt.not_ge ?_
    obtain ⟨i, hi⟩ := Nat.exists_eq_add_of_lt hgt
    have hle : f.halfWay k ≤ f.halfWay (k + i) :=
      halfWay_strictMono.monotone (Nat.le_add_right k i)
    have hbelow := halfWay_lt_nearest hf hq hi
    rintro (h | ⟨h, hpar⟩)
    · rcases hbelow with h' | ⟨h', -⟩ <;> linarith
    · rcases hbelow with h' | ⟨h', hpar'⟩
      · linarith
      · -- two neighbours are not both even
        have hik : k + i = k := halfWay_strictMono.injective (by linarith)
        omega

theorem nearest_mono (hf : 0 < f.fractionBits) {p q : Rat} (hp : 0 ≤ p) (hpq : p ≤ q) :
    f.nearest p.num.natAbs p.den ≤ f.nearest q.num.natAbs q.den := by
  rw [nearest_le_iff hf hp]
  have h := (nearest_le_iff hf (hp.trans hpq) _).1 le_rfl
  rcases hpq.lt_or_eq with hlt | rfl
  · exact .inl (h.elim hlt.trans fun h => hlt.trans_eq h.1)
  · exact h

theorem nearest_eq_of_between (hf : 0 < f.fractionBits) {p q r : Rat} {k : Nat} (hp : 0 ≤ p)
    (hpq : p ≤ q) (hqr : q ≤ r) (hpk : f.nearest p.num.natAbs p.den = k)
    (hrk : f.nearest r.num.natAbs r.den = k) : f.nearest q.num.natAbs q.den = k :=
  le_antisymm (hrk ▸ nearest_mono hf (hp.trans hpq) hqr) (hpk ▸ nearest_mono hf hp hpq)

/-- The rationals of the interval around an ordinal are those that round to it. -/
theorem roundsTo_iff (hf : 0 < f.fractionBits) {q : Rat} (hq : 0 ≤ q) {k : Nat} (hk : k ≠ 0) :
    f.roundsTo q k = true ↔ f.nearest q.num.natAbs q.den = k := by
  obtain ⟨j, rfl⟩ := Nat.exists_eq_succ_of_ne_zero hk
  have hinterval : f.roundsTo q (j + 1) = true ↔
      (q < f.halfWay (j + 1) ∨ q = f.halfWay (j + 1) ∧ (j + 1) % 2 = 0) ∧
        ¬(q < f.halfWay j ∨ q = f.halfWay j ∧ j % 2 = 0) := by
    have hlow : (f.magnitude j + f.magnitude (j + 1)) / 2 = f.halfWay j := rfl
    have hhigh : (f.magnitude (j + 1) + f.magnitude (j + 1 + 1)) / 2 = f.halfWay (j + 1) := rfl
    simp only [roundsTo, Nat.add_sub_cancel, hlow, hhigh]
    split
    next hpar =>
      have hj : j % 2 ≠ 0 := by omega
      simp only [hpar, hj, decide_eq_true_eq, and_true, and_false, or_false, not_lt,
        le_iff_lt_or_eq]
      tauto
    next hpar =>
      have hj : j % 2 = 0 := by omega
      simp only [hpar, hj, decide_eq_true_eq, and_true, and_false, or_false, not_or, not_lt]
      constructor
      · exact fun h => ⟨h.2, h.1.le, h.1.ne'⟩
      · exact fun h => ⟨h.2.1.lt_of_ne' h.2.2, h.1⟩
  rw [hinterval, ← nearest_le_iff hf hq, ← nearest_le_iff hf hq]
  omega

/-- Rounding overflows from half way to infinity on. -/
theorem nearest_lt_infinity_iff (hf : 0 < f.fractionBits) (he : 0 < f.exponents) {q : Rat}
    (hq : 0 ≤ q) :
    f.nearest q.num.natAbs q.den < f.infinity ↔ q < f.halfWay (f.infinity - 1) := by
  have hpos : 0 < f.infinity := Nat.mul_pos he (by positivity)
  have heven : f.infinity % 2 = 0 := add_mod_two hf f.exponents 0
  have hodd : (f.infinity - 1) % 2 ≠ 0 := by omega
  rw [← Nat.le_sub_one_iff_lt hpos, nearest_le_iff hf hq]
  simp only [hodd, and_false, or_false]

/-! ## Integers -/

/-- The nearest of the numbers that a format holds to an integer is an integer. -/
theorem exists_magnitude_nearest (n : Nat) : ∃ m : Nat, f.magnitude (f.nearest n 1) = m := by
  rcases Nat.eq_zero_or_pos n with rfl | hn
  · exact ⟨0, by rw [Nat.cast_zero]; exact magnitude_zero⟩
  obtain ⟨t, m, c, heq, hq, -, hm, hlead, habove, hbelow⟩ :=
    exists_count (f := f) (q := n) (by exact_mod_cast hn)
  change f.nearest n 1 = _ at heq
  rw [heq, magnitude_add (hlead.imp_right And.right) hm]
  by_cases he : 0 ≤ f.leastExponent + t
  · obtain ⟨e, he⟩ := Int.eq_ofNat_of_zero_le he
    refine ⟨m * 2 ^ e, ?_⟩
    rw [he]
    push_cast
    rw [zpow_natCast]
  · -- a unit below one counts an integer exactly
    obtain ⟨e, he⟩ := Int.eq_ofNat_of_zero_le (show 0 ≤ -(f.leastExponent + t) by omega)
    refine ⟨n, ?_⟩
    have hc : c = ((n * 2 ^ e : Nat) : Rat) := by
      have hexp : f.leastExponent + t = -(e : Int) := by omega
      rw [hexp, zpow_neg, zpow_natCast, eq_mul_inv_iff_mul_eq₀ (by positivity)] at hq
      push_cast
      exact hq.symm
    have hmc : m = n * 2 ^ e := by
      have hlt : ((n * 2 ^ e : Nat) : Rat) < m + 1 := by
        rw [← hc]
        rcases habove with h | ⟨h, -⟩ <;> linarith
      have hgt : (m : Rat) < ((n * 2 ^ e : Nat) : Rat) + 1 := by
        rw [← hc]
        rcases hbelow with h | ⟨h, -⟩ <;> linarith
      have hlt : n * 2 ^ e < m + 1 := by exact_mod_cast hlt
      have hgt : m < n * 2 ^ e + 1 := by exact_mod_cast hgt
      omega
    rw [hmc, ← hc]
    exact hq.symm

/-! ## The shortest decimal -/

theorem exponent_onGrid? {k : Nat} {g : Int} {d : Decimal} (h : f.onGrid? k g = some d) :
    d.exponent = g := by
  simp only [onGrid?] at h
  split at h <;> cases h <;> rfl

/-- A grid with a multiple that rounds to an ordinal has one next to the magnitude. -/
theorem onGrid?_ne_none (hf : 0 < f.fractionBits) {k n : Nat} (hk : k ≠ 0) {g : Int} {q : Rat}
    (hq : q = n * 10 ^ g) (hn : f.nearest q.num.natAbs q.den = k) : f.onGrid? k g ≠ none := by
  have hunit : (0 : Rat) < 10 ^ g := by positivity
  have hself := nearest_magnitude (f := f) k
  have hnonneg := magnitude_nonneg (f := f) k
  have hfloor : (f.magnitude k / 10 ^ g).floor.toNat = ⌊f.magnitude k / 10 ^ g⌋₊ := rfl
  unfold onGrid?
  simp only [hfloor]
  set v := f.magnitude k
  set b := ⌊v / 10 ^ g⌋₊ with hb
  have hbelow : (b : Rat) * 10 ^ g ≤ v :=
    (le_div_iff₀ hunit).1 (Nat.floor_le (by positivity))
  have habove : v < ((b + 1 : Nat) : Rat) * 10 ^ g := by
    rw [← div_lt_iff₀ hunit, Nat.cast_add_one]
    exact Nat.lt_floor_add_one _
  -- the multiple next to the magnitude on the side of the given one
  have hrounds : f.roundsTo (b * 10 ^ g) k = true ∨
      f.roundsTo ((b + 1 : Nat) * 10 ^ g) k = true := by
    rw [roundsTo_iff hf (by positivity) hk, roundsTo_iff hf (by positivity) hk]
    rcases le_or_gt q v with hqv | hvq
    · have hnb : n ≤ b := by
        rw [hb, Nat.le_floor_iff (by positivity), le_div_iff₀ hunit, ← hq]
        exact hqv
      have hqb : q ≤ b * 10 ^ g := by
        rw [hq]
        exact mul_le_mul_of_nonneg_right (by exact_mod_cast hnb) hunit.le
      exact .inl (nearest_eq_of_between hf (by rw [hq]; positivity) hqb hbelow hn hself)
    · have hbn : b + 1 ≤ n := by
        rw [Nat.add_one_le_iff, hb, Nat.floor_lt (by positivity), div_lt_iff₀ hunit, ← hq]
        exact hvq
      have hbq : ((b + 1 : Nat) : Rat) * 10 ^ g ≤ q := by
        rw [hq]
        exact mul_le_mul_of_nonneg_right (by exact_mod_cast hbn) hunit.le
      exact .inr (nearest_eq_of_between hf hnonneg habove.le hbq hself hn)
  split
  next => exact Option.some_ne_none _
  next => exact Option.some_ne_none _
  next => exact Option.some_ne_none _
  next hfalse hfalse' =>
    rw [hfalse, hfalse'] at hrounds
    exact absurd hrounds (by decide)

/-- The search does not go past a grid with a multiple that rounds to the ordinal. -/
theorem le_exponent_searchGrids (hf : 0 < f.fractionBits) {k n : Nat} (hk : k ≠ 0) {g : Int}
    {q : Rat} (hq : q = n * 10 ^ g) (hn : f.nearest q.num.natAbs q.den = k) {steps : Nat}
    {grid : Int} (hgrid : g ≤ grid) (hsteps : grid - steps ≤ g) :
    g ≤ (f.searchGrids k steps grid).exponent := by
  induction steps generalizing grid with
  | zero => exact hgrid
  | succ steps ih =>
    rw [searchGrids]
    cases hd : f.onGrid? k grid with
    | none =>
      have hne : g ≠ grid := by
        rintro rfl
        exact onGrid?_ne_none hf hk hq hn hd
      exact ih (by omega) (by push_cast at hsteps; omega)
    | some d => exact hgrid.trans_eq (exponent_onGrid? hd).symm

theorem le_exponent_shortest (hf : 0 < f.fractionBits) {k n : Nat} (hk : k ≠ 0) {g : Int}
    {q : Rat} (hq : q = n * 10 ^ g) (hn : f.nearest q.num.natAbs q.den = k)
    (hg : f.leastExponent ≤ g) (hg' : g ≤ 0) : g ≤ (f.shortest k).exponent := by
  unfold shortest
  exact le_exponent_searchGrids hf hk hq hn (by omega) (by omega)

end Format

/-! ## Finite numbers -/

namespace Binary

variable {f : Format}

theorem isFinite_ofRat_iff (hf : 0 < f.fractionBits) (he : 0 < f.exponents) {z : Bool} {q : Rat} :
    (ofRat z q : Binary f).isFinite = true ↔ |q| < f.halfWay (f.infinity - 1) := by
  rw [← Format.nearest_lt_infinity_iff hf he (abs_nonneg q), Format.nearest_abs, ofRat, ofOrdinal,
    isFinite_iff]
  exact min_lt_iff.trans (or_iff_left (lt_irrefl _))

theorem exists_ofRat (z : Bool) {q : Rat}
    (h : f.nearest |q|.num.natAbs |q|.den < f.infinity) :
    ∃ s k, (ofRat z q : Binary f) = signed s k ∧ k.val = f.nearest |q|.num.natAbs |q|.den := by
  rw [Format.nearest_abs] at h ⊢
  exact ⟨_, _, rfl, Nat.min_eq_left h.le⟩

theorem eq_nan_or_infinite {x : Binary f} (hx : x.isFinite = false) :
    x = nan ∨ ∃ s, x = infinite s := by
  cases x with
  | nan => exact .inl rfl
  | signed s k =>
    have hk : ¬k.val < f.infinity := of_decide_eq_false hx
    refine .inr ⟨s, congrArg _ (Fin.ext ?_)⟩
    rw [Fin.val_last]
    omega

/-- A finite number is rounded to an integer, and stays finite where the greatest one is an
integer. -/
theorem exists_round (hf : 0 < f.fractionBits) {m : Nat} (hm : f.magnitude (f.infinity - 1) = m)
    {x : Binary f} (hx : x.isFinite = true) :
    ∃ s k, x.round = signed s k ∧ k.val < f.infinity ∧ ∃ n : Nat, f.magnitude k.val = n := by
  cases x with
  | nan => cases hx
  | signed s k =>
    have hk : k.val < f.infinity := isFinite_iff.1 hx
    have hnonneg := Format.magnitude_nonneg (f := f) k.val
    have hle : f.magnitude k.val ≤ m := hm ▸ Format.magnitude_strictMono.monotone (by omega)
    obtain ⟨n, hn⟩ : ∃ n : Nat, (f.magnitude k.val + 1 / 2).floor = n := by
      refine Int.eq_ofNat_of_zero_le (Rat.le_floor_iff.2 ?_)
      push_cast
      linarith
    have hnm : n ≤ m := by
      have h := Rat.floor_le (f.magnitude k.val + 1 / 2)
      rw [hn, Int.cast_natCast] at h
      have : (n : Rat) < m + 1 := by linarith
      have : n < m + 1 := by exact_mod_cast this
      omega
    set q : Rat := if s then -(n : Rat) else n with hq
    have hround : (signed s k : Binary f).round = ofRat s q := by
      rw [round, if_neg hk.ne]
      simp only [hn, Int.cast_natCast, hq]
    have habs : |q| = n := by
      rw [hq]
      cases s <;> simp
    have hlt : f.nearest |q|.num.natAbs |q|.den < f.infinity := by
      rw [habs]
      refine (Format.nearest_mono hf (Nat.cast_nonneg n) (Nat.cast_le.2 hnm)).trans_lt ?_
      rw [← hm, Format.nearest_magnitude]
      omega
    obtain ⟨s', k', heq, hk'⟩ := exists_ofRat s hlt
    refine ⟨s', k', hround.trans heq, hk' ▸ hlt, ?_⟩
    rw [hk', habs]
    exact Format.exists_magnitude_nearest n

/-- A quotient by a number that is not less than one does not overflow. -/
theorem exists_div (hf : 0 < f.fractionBits) {s t : Bool} {j k : Fin (f.infinity + 1)}
    (hj : j.val < f.infinity) (hk : k.val < f.infinity) (hone : 1 ≤ f.magnitude k.val) :
    ∃ s' i, (signed s j / signed t k : Binary f) = signed s' i ∧ i.val < f.infinity ∧
      i.val = f.nearest (f.magnitude j.val / f.magnitude k.val).num.natAbs
        (f.magnitude j.val / f.magnitude k.val).den := by
  have hne : k.val ≠ 0 := by
    intro h
    rw [h, Format.magnitude_zero] at hone
    linarith
  set q : Rat := rational s j / rational t k with hq
  have hdiv : (signed s j / signed t k : Binary f) = ofRat (s != t) q := by
    show div _ _ = _
    rw [div, if_neg hj.ne, if_neg hk.ne, if_neg hne]
  have habs : |q| = f.magnitude j.val / f.magnitude k.val := by
    rw [hq, abs_div, abs_rational, abs_rational]
  have hlt : f.nearest |q|.num.natAbs |q|.den < f.infinity := by
    have hnonneg : 0 ≤ |q| := abs_nonneg q
    have hle : |q| ≤ f.magnitude j.val := by
      rw [habs]
      exact div_le_self (Format.magnitude_nonneg _) hone
    refine (Format.nearest_mono hf hnonneg hle).trans_lt ?_
    rwa [Format.nearest_magnitude]
  obtain ⟨s', i, heq, hi⟩ := exists_ofRat (s != t) hlt
  exact ⟨s', i, hdiv.trans heq, hi ▸ hlt, by rw [hi, habs]⟩

end Binary

end FormulaDrawing
