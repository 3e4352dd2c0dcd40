import FormulaDrawing.Binary.Arithmetic
import Mathlib.Algebra.Order.Field.Power
import Mathlib.Algebra.Order.Field.Rat
import Mathlib.Tactic.FieldSimp
import Mathlib.Tactic.Linarith
import Mathlib.Tactic.Positivity
import Mathlib.Tactic.Ring

/-!
# Rounding

What a format holds is rounded to itself (`nearest_magnitude`), so adding a zero changes no number
but a negative zero (`add_zero_false`).

Near a power of two that the format holds with all its fraction bits, rounding keeps a rational on
its side of the power, and takes one that is close enough to the power itself.

    q ≤ power j + power j / 2 ^ (fractionBits + 2)  →  f.nearest q ≤ f.binade j   (nearest_le)
    power j - power j / 2 ^ (fractionBits + 3) ≤ q  →  f.binade j ≤ f.nearest q   (le_nearest)

`Binary.AtMost` and `Binary.AtLeast` carry these bounds through the arithmetic of numbers.
-/

namespace FormulaDrawing

/-! ## Nearest integers -/

/-- A nearest integer is at most a half away. -/
theorem roundHalfEven_spec {n d : Nat} (hd : 0 < d) :
    2 * (roundHalfEven n d * d) ≤ 2 * n + d ∧ 2 * n ≤ 2 * (roundHalfEven n d * d) + d := by
  have hdiv : d * (n / d) + n % d = n := Nat.div_add_mod n d
  have hmod : n % d < d := Nat.mod_lt n hd
  have hcomm : n / d * d = d * (n / d) := Nat.mul_comm _ _
  unfold roundHalfEven
  simp only
  split
  next h => omega
  next h =>
    split
    next h' =>
      rw [Nat.add_mul]
      omega
    next h' =>
      rcases Nat.mod_two_eq_zero_or_one (n / d) with hpar | hpar <;>
        rw [hpar, Nat.add_mul] <;> omega

theorem roundHalfEven_le {n d : Nat} (hd : 0 < d) :
    (roundHalfEven n d : Rat) ≤ n / d + 1 / 2 := by
  have hd' : (0 : Rat) < d := by exact_mod_cast hd
  have h : (2 * (roundHalfEven n d * d) : Rat) ≤ 2 * n + d := by
    exact_mod_cast (roundHalfEven_spec (n := n) hd).1
  rw [div_add_div _ _ hd'.ne' (by norm_num), le_div_iff₀ (by positivity)]
  linarith

theorem le_roundHalfEven {n d : Nat} (hd : 0 < d) :
    (n / d : Rat) ≤ roundHalfEven n d + 1 / 2 := by
  have hd' : (0 : Rat) < d := by exact_mod_cast hd
  have h : (2 * n : Rat) ≤ 2 * (roundHalfEven n d * d) + d := by
    exact_mod_cast (roundHalfEven_spec (n := n) hd).2
  rw [div_le_iff₀ hd']
  linarith

/-! ## Binary orders -/

theorem zpow_eq_div (e : Int) : (2 : Rat) ^ e = 2 ^ e.toNat / 2 ^ (-e).toNat := by
  rcases le_total 0 e with h | h
  · obtain ⟨n, rfl⟩ := Int.eq_ofNat_of_zero_le h
    simp
  · obtain ⟨n, hn⟩ := Int.eq_ofNat_of_zero_le (neg_nonneg.2 h)
    obtain rfl : e = -(n : Int) := by omega
    simp

theorem zpow_log2_le {n : Nat} (hn : 0 < n) : (2 : Rat) ^ (n.log2 : Int) ≤ n := by
  rw [zpow_natCast]
  exact_mod_cast Nat.log2_self_le hn.ne'

theorem lt_zpow_log2 (n : Nat) : (n : Rat) < 2 ^ ((n.log2 : Int) + 1) := by
  have h : n < 2 ^ (n.log2 + 1) := Nat.lt_log2_self
  have hcast : ((n.log2 : Int) + 1) = ((n.log2 + 1 : Nat) : Int) := by push_cast; rfl
  rw [hcast, zpow_natCast]
  exact_mod_cast h

/-- The binary order of a quotient brackets it between two powers of two. -/
theorem binaryOrder_spec {n d : Nat} (hn : 0 < n) (hd : 0 < d) :
    (2 : Rat) ^ binaryOrder n d ≤ n / d ∧ (n / d : Rat) < 2 ^ (binaryOrder n d + 1) := by
  have hd' : (0 : Rat) < d := by exact_mod_cast hd
  have htwo : (2 : Rat) ≠ 0 := by norm_num
  set e : Int := (n.log2 : Int) - d.log2 with he
  have hcond : d * 2 ^ e.toNat ≤ n * 2 ^ (-e).toNat ↔ (2 : Rat) ^ e ≤ n / d := by
    rw [zpow_eq_div, div_le_div_iff₀ (by positivity) hd', mul_comm (2 ^ e.toNat : Rat)]
    exact_mod_cast Iff.rfl
  have hlow : (2 : Rat) ^ (e - 1) ≤ n / d := by
    have hexp : e - 1 + ((d.log2 : Int) + 1) = n.log2 := by omega
    rw [le_div_iff₀ hd']
    calc (2 : Rat) ^ (e - 1) * d
        ≤ 2 ^ (e - 1) * 2 ^ ((d.log2 : Int) + 1) :=
          mul_le_mul_of_nonneg_left (lt_zpow_log2 d).le (by positivity)
      _ = 2 ^ (n.log2 : Int) := by rw [← zpow_add₀ htwo, hexp]
      _ ≤ n := zpow_log2_le hn
  have hhigh : (n / d : Rat) < 2 ^ (e + 1) := by
    have hexp : e + 1 + (d.log2 : Int) = n.log2 + 1 := by omega
    rw [div_lt_iff₀ hd']
    calc (n : Rat) < 2 ^ ((n.log2 : Int) + 1) := lt_zpow_log2 n
      _ = 2 ^ (e + 1) * 2 ^ (d.log2 : Int) := by rw [← zpow_add₀ htwo, hexp]
      _ ≤ 2 ^ (e + 1) * d := mul_le_mul_of_nonneg_left (zpow_log2_le hd) (by positivity)
  unfold binaryOrder
  simp only [← he]
  split
  next h => exact ⟨hcond.1 h, hhigh⟩
  next h =>
    rw [hcond, not_le] at h
    exact ⟨hlow, by rw [sub_add_cancel]; exact h⟩

theorem two_pow_div_two_pow_add (n k : Nat) : (2 ^ n / 2 ^ (n + k) : Rat) = 1 / 2 ^ k := by
  rw [pow_add]
  field_simp

namespace Format

variable (f : Format)

/-! ## Powers of two -/

/-- A power of two that the format holds with all its fraction bits. -/
def power (j : Nat) : Rat := 2 ^ (f.leastExponent + f.fractionBits + j)

/-- The ordinal of a power of two. -/
def binade (j : Nat) : Nat := (j + 1) * 2 ^ f.fractionBits

variable {f}

theorem power_pos (j : Nat) : 0 < f.power j := by
  unfold power
  positivity

theorem power_succ (j : Nat) : f.power (j + 1) = 2 * f.power j := by
  unfold power
  push_cast
  rw [← add_assoc, zpow_add_one₀ (by norm_num), mul_comm]

theorem power_le {i j : Nat} (h : i ≤ j) : f.power i ≤ f.power j := by
  unfold power
  refine zpow_le_zpow_right₀ (by norm_num) ?_
  omega

theorem power_mul {i j k : Nat} (h : (k : Int) = f.leastExponent + f.fractionBits + i + j) :
    f.power i * f.power j = f.power k := by
  unfold power
  rw [← zpow_add₀ (by norm_num)]
  congr 1
  omega

theorem binade_le {i j : Nat} (h : i ≤ j) : f.binade i ≤ f.binade j :=
  Nat.mul_le_mul_right _ (by omega)

/-- A power of two is a fraction of one with an exponent so much greater. -/
theorem power_le_div {i j n : Nat} (h : i + n ≤ j) : f.power i ≤ f.power j / 2 ^ n := by
  rw [le_div_iff₀ (by positivity)]
  unfold power
  rw [← zpow_natCast, ← zpow_add₀ (by norm_num)]
  refine zpow_le_zpow_right₀ (by norm_num) ?_
  omega

/-- In units of its exponent a power of two is a shifted leading one. -/
theorem power_div (j t : Nat) (h : t ≤ j) :
    f.power j / 2 ^ (f.leastExponent + t) = 2 ^ f.fractionBits * 2 ^ (j - t) := by
  obtain ⟨i, rfl⟩ := Nat.exists_eq_add_of_le h
  unfold power
  rw [← zpow_sub₀ (by norm_num), Nat.add_sub_cancel_left, ← zpow_natCast, ← zpow_natCast,
    ← zpow_add₀ (by norm_num)]
  congr 1
  push_cast
  ring

theorem power_div_self (j : Nat) :
    f.power j / 2 ^ (f.leastExponent + j) = 2 ^ f.fractionBits := by
  rw [power_div j j le_rfl, Nat.sub_self, pow_zero, mul_one]

/-! ## Rounding -/

theorem natAbs_num_div_den (q : Rat) : (q.num.natAbs : Rat) / q.den = |q| := by
  conv_rhs => rw [← Rat.num_div_den q]
  rw [abs_div, Nat.abs_cast, Nat.cast_natAbs, Int.cast_abs]

/-- The place of a rational: its units, and the nearest integer to its count of them. A rational in
a unit above the least has its leading one at the end of the fraction bits. -/
theorem nearest_eq_roundHalfEven {q : Rat} (hq : q ≠ 0) :
    ∃ t n d : Nat, 0 < d ∧ (n / d : Rat) = |q| / 2 ^ (f.leastExponent + t) ∧
      f.nearest q.num.natAbs q.den = t * 2 ^ f.fractionBits + roundHalfEven n d ∧
      |q| / 2 ^ (f.leastExponent + t) < 2 ^ (f.fractionBits + 1) ∧
      (t = 0 ∨ (2 ^ f.fractionBits : Rat) ≤ |q| / 2 ^ (f.leastExponent + t)) := by
  have hn : 0 < q.num.natAbs := Int.natAbs_pos.2 (Rat.num_ne_zero.2 hq)
  have hd : 0 < q.den := q.den_pos
  have hqeq := natAbs_num_div_den q
  obtain ⟨hlow, hhigh⟩ := binaryOrder_spec hn hd
  rw [hqeq] at hlow hhigh
  set b := binaryOrder q.num.natAbs q.den with hb
  set e : Int := max f.leastExponent (b - f.fractionBits) with he
  obtain ⟨t, ht⟩ : ∃ t : Nat, e = f.leastExponent + t := by
    obtain ⟨t, ht⟩ := Int.eq_ofNat_of_zero_le (show 0 ≤ e - f.leastExponent by omega)
    exact ⟨t, by omega⟩
  refine ⟨t, q.num.natAbs * 2 ^ (-e).toNat, q.den * 2 ^ e.toNat, by positivity, ?_, ?_, ?_, ?_⟩
  · rw [← ht, zpow_eq_div e]
    conv_rhs => rw [← hqeq]
    push_cast
    rw [div_div_div_eq]
  · unfold nearest
    rw [if_neg hn.ne']
    simp only [← hb, ← he]
    congr 2
    omega
  · rw [div_lt_iff₀ (by positivity), ← zpow_natCast, ← zpow_add₀ (by norm_num)]
    refine hhigh.trans_le (zpow_le_zpow_right₀ (by norm_num) ?_)
    push_cast
    omega
  · rcases Nat.eq_zero_or_pos t with h | h
    · exact .inl h
    · refine .inr ?_
      rw [le_div_iff₀ (by positivity), ← zpow_natCast, ← zpow_add₀ (by norm_num)]
      refine le_trans (zpow_le_zpow_right₀ (by norm_num) ?_) hlow
      omega

/-- The count of a rational's units is at most a half away from its nearest integer. -/
theorem nearest_eq {q : Rat} (hq : q ≠ 0) :
    ∃ t m : Nat, f.nearest q.num.natAbs q.den = t * 2 ^ f.fractionBits + m ∧
      (m : Rat) ≤ |q| / 2 ^ (f.leastExponent + t) + 1 / 2 ∧
      |q| / 2 ^ (f.leastExponent + t) ≤ m + 1 / 2 ∧
      |q| / 2 ^ (f.leastExponent + t) < 2 ^ (f.fractionBits + 1) ∧
      (t = 0 ∨ (2 ^ f.fractionBits : Rat) ≤ |q| / 2 ^ (f.leastExponent + t)) := by
  obtain ⟨t, n, d, hd, hunit, heq, hlt, hlead⟩ := nearest_eq_roundHalfEven (f := f) hq
  refine ⟨t, roundHalfEven n d, heq, ?_, ?_, hlt, hlead⟩
  · rw [← hunit]
    exact roundHalfEven_le hd
  · rw [← hunit]
    exact le_roundHalfEven hd

/-- Rounding stays below a power of two, and comes down to one from slightly above. -/
theorem nearest_le {q : Rat} {j : Nat}
    (h : |q| ≤ f.power j + f.power j / 2 ^ (f.fractionBits + 2)) :
    f.nearest q.num.natAbs q.den ≤ f.binade j := by
  by_cases hq : q = 0
  · subst hq
    exact Nat.zero_le _
  obtain ⟨t, m, heq, hm, -, hlt, hlead⟩ := nearest_eq (f := f) hq
  have hunit : (0 : Rat) < 2 ^ (f.leastExponent + t) := by positivity
  set c := |q| / 2 ^ (f.leastExponent + t) with hc
  rw [heq, binade]
  rcases Nat.lt_trichotomy t j with htj | rfl | htj
  · -- below the binade of the power
    have hm' : m < 2 ^ (f.fractionBits + 1) + 1 := by
      have : (m : Rat) < 2 ^ (f.fractionBits + 1) + 1 := by linarith
      exact_mod_cast this
    calc t * 2 ^ f.fractionBits + m ≤ t * 2 ^ f.fractionBits + 2 * 2 ^ f.fractionBits := by
          rw [Nat.pow_succ] at hm'
          omega
      _ = (t + 2) * 2 ^ f.fractionBits := by ring
      _ ≤ (j + 1) * 2 ^ f.fractionBits := Nat.mul_le_mul_right _ (by omega)
  · -- in the binade of the power
    have hpow := power_div_self (f := f) t
    have hcle : c ≤ 2 ^ f.fractionBits + 1 / 4 := by
      have := div_le_div_of_nonneg_right h hunit.le
      rw [add_div, div_right_comm, hpow, two_pow_div_two_pow_add] at this
      linarith
    have hm' : m < 2 ^ f.fractionBits + 1 := by
      have : (m : Rat) < 2 ^ f.fractionBits + 1 := by linarith
      exact_mod_cast this
    rw [Nat.add_mul]
    omega
  · -- above it
    exfalso
    have hlead : (2 ^ f.fractionBits : Rat) ≤ c := hlead.resolve_left (by omega)
    have hpow := power_div_self (f := f) t
    have hle : f.power t ≤ |q| := by
      rw [← hpow, hc] at hlead
      exact (div_le_div_iff_of_pos_right hunit).1 hlead
    have htwo : 2 * f.power j ≤ f.power t := by
      rw [← power_succ]
      exact power_le htj
    have hsmall : f.power j / 2 ^ (f.fractionBits + 2) < f.power j := by
      refine div_lt_self (power_pos j) ?_
      exact one_lt_pow₀ (by norm_num) (by omega)
    linarith

/-- Rounding stays above a power of two, and comes up to one from slightly below. -/
theorem le_nearest {q : Rat} {j : Nat}
    (h : f.power j - f.power j / 2 ^ (f.fractionBits + 3) ≤ |q|) :
    f.binade j ≤ f.nearest q.num.natAbs q.den := by
  have hsmall : f.power j / 2 ^ (f.fractionBits + 3) < f.power j / 2 := by
    refine div_lt_div_of_pos_left (power_pos j) (by norm_num) ?_
    exact lt_self_pow₀ (by norm_num) (by omega)
  have hpos : 0 < f.power j := power_pos j
  have hq : q ≠ 0 := by
    rintro rfl
    rw [abs_zero] at h
    linarith
  obtain ⟨t, m, heq, -, hm, hlt, -⟩ := nearest_eq (f := f) hq
  have hunit : (0 : Rat) < 2 ^ (f.leastExponent + t) := by positivity
  rw [heq, binade]
  rcases Nat.lt_trichotomy t j with htj | rfl | htj
  · have hlead : |q| < f.power (t + 1) := by
      have := (div_lt_iff₀ hunit).1 hlt
      rw [pow_succ, mul_right_comm, ← power_div_self (f := f) t,
        div_mul_cancel₀ _ hunit.ne'] at this
      rw [power_succ]
      linarith
    obtain rfl : j = t + 1 := by
      by_contra hne
      have := power_le (f := f) (show t + 2 ≤ j by omega)
      rw [power_succ] at this
      linarith
    -- the unit below the binade of the power
    have hpow : f.power (t + 1) / 2 ^ (f.leastExponent + t) = 2 ^ (f.fractionBits + 1) := by
      rw [power_succ, mul_div_assoc, power_div_self, pow_succ, mul_comm]
    have hcle : (2 ^ (f.fractionBits + 1) : Rat) - 1 / 4 ≤ |q| / 2 ^ (f.leastExponent + t) := by
      have := div_le_div_of_nonneg_right h hunit.le
      rw [sub_div, div_right_comm, hpow, two_pow_div_two_pow_add (f.fractionBits + 1) 2] at this
      linarith
    have hm' : 2 ^ (f.fractionBits + 1) < m + 1 := by
      have : (2 ^ (f.fractionBits + 1) : Rat) < m + 1 := by linarith
      exact_mod_cast this
    rw [Nat.pow_succ] at hm'
    rw [Nat.add_mul, Nat.add_mul]
    omega
  · -- the unit of the power
    have hcle : (2 ^ f.fractionBits : Rat) - 1 / 8 ≤ |q| / 2 ^ (f.leastExponent + t) := by
      have := div_le_div_of_nonneg_right h hunit.le
      rw [sub_div, div_right_comm, power_div_self, two_pow_div_two_pow_add] at this
      linarith
    have hm' : 2 ^ f.fractionBits < m + 1 := by
      have : (2 ^ f.fractionBits : Rat) < m + 1 := by linarith
      exact_mod_cast this
    rw [Nat.add_mul]
    omega
  · calc (j + 1) * 2 ^ f.fractionBits ≤ t * 2 ^ f.fractionBits := Nat.mul_le_mul_right _ htj
      _ ≤ t * 2 ^ f.fractionBits + m := Nat.le_add_right _ _

/-- A rational next to a power of two is rounded to it. -/
theorem nearest_eq_binade {q : Rat} {j : Nat}
    (h : |(|q| - f.power j)| ≤ f.power j / 2 ^ (f.fractionBits + 3)) :
    f.nearest q.num.natAbs q.den = f.binade j := by
  have hle : f.power j / 2 ^ (f.fractionBits + 3) ≤ f.power j / 2 ^ (f.fractionBits + 2) := by
    refine div_le_div_of_nonneg_left (power_pos j).le (by positivity) ?_
    exact pow_le_pow_right₀ (by norm_num) (by omega)
  obtain ⟨hlow, hhigh⟩ := abs_le.1 h
  exact le_antisymm (nearest_le (by linarith)) (le_nearest (by linarith))

/-! ## Magnitudes -/

/-- The units of an ordinal, and its count of them. -/
theorem magnitude_eq (k : Nat) :
    ∃ t s : Nat, k = t * 2 ^ f.fractionBits + s ∧ s < 2 * 2 ^ f.fractionBits ∧
      (t = 0 ∨ 2 ^ f.fractionBits ≤ s) ∧ f.magnitude k = s * 2 ^ (f.leastExponent + t) := by
  have hpos : 0 < 2 ^ f.fractionBits := by positivity
  by_cases hk : k < 2 ^ f.fractionBits
  · refine ⟨0, k, by omega, by omega, .inl rfl, ?_⟩
    simp [magnitude, significand, exponent, hk, Nat.div_eq_of_lt hk]
  · have hdiv : 2 ^ f.fractionBits * (k / 2 ^ f.fractionBits) + k % 2 ^ f.fractionBits = k :=
      Nat.div_add_mod _ _
    have hmod : k % 2 ^ f.fractionBits < 2 ^ f.fractionBits := Nat.mod_lt _ hpos
    have hone : 1 ≤ k / 2 ^ f.fractionBits := (Nat.one_le_div_iff hpos).2 (by omega)
    refine ⟨k / 2 ^ f.fractionBits - 1, 2 ^ f.fractionBits + k % 2 ^ f.fractionBits, ?_,
      by omega, .inr (by omega), ?_⟩
    · rw [Nat.sub_mul, Nat.mul_comm]
      have : 1 * 2 ^ f.fractionBits ≤ 2 ^ f.fractionBits * (k / 2 ^ f.fractionBits) := by
        rw [Nat.mul_comm]
        exact Nat.mul_le_mul_left _ hone
      omega
    · rw [magnitude, significand, exponent, if_neg hk]

theorem magnitude_le {k j : Nat} (h : k ≤ f.binade j) : f.magnitude k ≤ f.power j := by
  obtain ⟨t, s, hk, hs, hlead, heq⟩ := magnitude_eq (f := f) k
  have hunit : (0 : Rat) < 2 ^ (f.leastExponent + t) := by positivity
  have hpos : 0 < 2 ^ f.fractionBits := by positivity
  have htj : t ≤ j := by
    rcases hlead with rfl | hlead
    · exact Nat.zero_le j
    · have : (t + 1) * 2 ^ f.fractionBits ≤ (j + 1) * 2 ^ f.fractionBits := by
        rw [binade, hk] at h
        rw [Nat.add_mul, Nat.one_mul]
        omega
      have := Nat.le_of_mul_le_mul_right this hpos
      omega
  have hcount : s ≤ 2 ^ f.fractionBits * 2 ^ (j - t) := by
    obtain ⟨i, rfl⟩ := Nat.exists_eq_add_of_le htj
    have hsle : s ≤ 2 ^ f.fractionBits * (i + 1) := by
      rw [binade, hk] at h
      have : (t + i + 1) * 2 ^ f.fractionBits =
          t * 2 ^ f.fractionBits + 2 ^ f.fractionBits * (i + 1) := by ring
      omega
    rw [Nat.add_sub_cancel_left]
    exact hsle.trans (Nat.mul_le_mul_left _ Nat.lt_two_pow_self)
  rw [heq, ← le_div_iff₀ hunit, power_div j t htj]
  exact_mod_cast hcount

theorem le_magnitude {k j : Nat} (h : f.binade j ≤ k) : f.power j ≤ f.magnitude k := by
  obtain ⟨t, s, hk, hs, hlead, heq⟩ := magnitude_eq (f := f) k
  have hpos : 0 < 2 ^ f.fractionBits := by positivity
  rw [binade, hk] at h
  have hjt : j ≤ t := by
    by_contra hlt
    have : (t + 2) * 2 ^ f.fractionBits ≤ (j + 1) * 2 ^ f.fractionBits :=
      Nat.mul_le_mul_right _ (by omega)
    rw [Nat.add_mul] at this
    omega
  have hcount : 2 ^ f.fractionBits ≤ s := by
    rcases hlead with rfl | hlead
    · obtain rfl : j = 0 := by omega
      omega
    · exact hlead
  calc f.power j ≤ f.power t := power_le hjt
    _ = 2 ^ f.fractionBits * 2 ^ (f.leastExponent + t) := by
        rw [← power_div_self (f := f) t, div_mul_cancel₀ _ (by positivity)]
    _ ≤ s * 2 ^ (f.leastExponent + t) := by
        refine mul_le_mul_of_nonneg_right ?_ (by positivity)
        exact_mod_cast hcount
    _ = f.magnitude k := heq.symm

theorem magnitude_nonneg (k : Nat) : 0 ≤ f.magnitude k := by
  unfold magnitude
  positivity

theorem magnitude_zero : f.magnitude 0 = 0 := by
  have hpos : 0 < 2 ^ f.fractionBits := by positivity
  simp [magnitude, significand, hpos]

theorem magnitude_pos {k : Nat} (hk : k ≠ 0) : 0 < f.magnitude k := by
  obtain ⟨t, s, hkeq, -, hlead, heq⟩ := magnitude_eq (f := f) k
  have hs : 0 < s := by
    rcases hlead with rfl | hlead
    · omega
    · exact lt_of_lt_of_le (by positivity) hlead
  rw [heq]
  positivity

/-- What the format holds is rounded to itself. -/
theorem nearest_magnitude (k : Nat) :
    f.nearest (f.magnitude k).num.natAbs (f.magnitude k).den = k := by
  by_cases hk : k = 0
  · subst hk
    rw [magnitude_zero]
    rfl
  have hpos := magnitude_pos (f := f) hk
  obtain ⟨t, s, hkeq, hs, hlead, heq⟩ := magnitude_eq (f := f) k
  obtain ⟨t', m, hnearest, hle, hge, hlt, hlead'⟩ := nearest_eq (f := f) hpos.ne'
  -- the count in units of the nearest ordinal
  have hcount : |f.magnitude k| / 2 ^ (f.leastExponent + t') = s * 2 ^ ((t : Int) - t') := by
    rw [abs_of_pos hpos, heq, mul_div_assoc, ← zpow_sub₀ (by norm_num)]
    congr 2
    omega
  rw [hcount] at hle hge hlt hlead'
  have hs' : (s : Rat) < 2 * 2 ^ f.fractionBits := by exact_mod_cast hs
  rcases Nat.lt_trichotomy t' t with htt | rfl | htt
  · -- too fine a unit: the count would not fit
    exfalso
    have hlead : (2 ^ f.fractionBits : Rat) ≤ s := by
      exact_mod_cast hlead.resolve_left (by omega)
    have htwo : (2 : Rat) ^ (1 : Int) ≤ 2 ^ ((t : Int) - t') :=
      zpow_le_zpow_right₀ (by norm_num) (by omega)
    have hbig : (2 ^ f.fractionBits : Rat) * 2 ^ (1 : Int) ≤ s * 2 ^ ((t : Int) - t') :=
      mul_le_mul hlead htwo (by positivity) (by positivity)
    rw [zpow_one, ← pow_succ] at hbig
    exact absurd hlt (not_lt.2 hbig)
  · rw [sub_self, zpow_zero, mul_one] at hle hge
    have hms : m = s := by
      have hupper : m < s + 1 := by
        have : (m : Rat) < s + 1 := by linarith
        exact_mod_cast this
      have hlower : s < m + 1 := by
        have : (s : Rat) < m + 1 := by linarith
        exact_mod_cast this
      omega
    rw [hnearest, hms, hkeq]
  · -- too coarse a unit: the leading one would be missing
    exfalso
    have hlead' : (2 ^ f.fractionBits : Rat) ≤ s * 2 ^ ((t : Int) - t') :=
      hlead'.resolve_left (by omega)
    have hhalf : (2 : Rat) ^ ((t : Int) - t') ≤ 2 ^ (-1 : Int) :=
      zpow_le_zpow_right₀ (by norm_num) (by omega)
    have hsmall : (s : Rat) * 2 ^ ((t : Int) - t') ≤ s * 2 ^ (-1 : Int) :=
      mul_le_mul_of_nonneg_left hhalf (by positivity)
    rw [zpow_neg_one] at hsmall
    linarith

end Format

/-! ## Bounds of numbers -/

namespace Binary

variable {f : Format}

/-- The magnitude of a number is at most a power of two. -/
def AtMost (j : Nat) : Binary f → Prop
  | .nan => False
  | .signed _ k => k.val ≤ f.binade j

/-- A number is positive and at least a power of two. -/
def AtLeast (j : Nat) : Binary f → Prop
  | .nan => False
  | .signed s k => s = false ∧ f.binade j ≤ k.val

instance (j : Nat) : DecidablePred (AtMost (f := f) j)
  | .nan => inferInstanceAs (Decidable False)
  | .signed _ k => inferInstanceAs (Decidable (k.val ≤ f.binade j))

instance (j : Nat) : DecidablePred (AtLeast (f := f) j)
  | .nan => inferInstanceAs (Decidable False)
  | .signed s k => inferInstanceAs (Decidable (s = false ∧ f.binade j ≤ k.val))

theorem AtMost.mono {i j : Nat} {x : Binary f} (h : AtMost i x) (hij : i ≤ j) : AtMost j x := by
  cases x with
  | nan => exact h
  | signed s k => exact le_trans h (Format.binade_le hij)

theorem AtLeast.mono {i j : Nat} {x : Binary f} (h : AtLeast j x) (hij : i ≤ j) :
    AtLeast i x := by
  cases x with
  | nan => exact h
  | signed s k => exact ⟨h.1, (Format.binade_le hij).trans h.2⟩

theorem abs_rational (s : Bool) (k : Fin (f.infinity + 1)) :
    |rational s k| = f.magnitude k.val := by
  have hnonneg := Format.magnitude_nonneg (f := f) k.val
  cases s with
  | false => rw [rational, if_neg Bool.false_ne_true, abs_of_nonneg hnonneg]
  | true => rw [rational, if_pos rfl, abs_neg, abs_of_nonneg hnonneg]

theorem AtMost.isFinite {j : Nat} {x : Binary f} (h : AtMost j x) (hj : f.binade j < f.infinity) :
    x.isFinite = true := by
  cases x with
  | nan => exact h.elim
  | signed s k => exact decide_eq_true (lt_of_le_of_lt h hj)

theorem AtLeast.isPositive {j : Nat} {x : Binary f} (h : AtLeast j x) :
    (zero false : Binary f).lt x = true := by
  cases x with
  | nan => exact h.elim
  | signed s k =>
    obtain ⟨rfl, hk⟩ := h
    have hpos : 0 < f.binade j := by
      unfold Format.binade
      positivity
    have hzero : (zero false : Binary f) = .signed false 0 := rfl
    simp only [hzero, lt, place, Bool.false_eq_true, if_false, decide_eq_true_eq]
    have : ((0 : Fin (f.infinity + 1)).val : Int) = 0 := rfl
    omega

theorem AtMost.abs_rational_le {j : Nat} {s : Bool} {k : Fin (f.infinity + 1)}
    (h : AtMost j (.signed s k)) : |rational s k| ≤ f.power j := by
  rw [abs_rational]
  exact Format.magnitude_le h

theorem AtLeast.le_rational {j : Nat} {s : Bool} {k : Fin (f.infinity + 1)}
    (h : AtLeast j (.signed s k)) : f.power j ≤ rational s k := by
  obtain ⟨rfl, hk⟩ := h
  rw [rational, if_neg Bool.false_ne_true]
  exact Format.le_magnitude hk

/-- Rounding keeps a number below a power of two, or takes it there from slightly above. -/
theorem atMost_ofRat {j : Nat} {z : Bool} {q : Rat}
    (h : |q| ≤ f.power j + f.power j / 2 ^ (f.fractionBits + 2)) :
    AtMost j (ofRat z q : Binary f) :=
  (Nat.min_le_left _ _).trans (Format.nearest_le h)

theorem atLeast_ofRat {j : Nat} {z : Bool} {q : Rat} (hj : f.binade j ≤ f.infinity)
    (h : f.power j ≤ q) : AtLeast j (ofRat z q : Binary f) := by
  have hpos := (Format.power_pos j).trans_le h
  have hsmall : 0 ≤ f.power j / 2 ^ (f.fractionBits + 3) :=
    div_nonneg (Format.power_pos j).le (by positivity)
  constructor
  · rw [if_neg hpos.ne']
    exact decide_eq_false hpos.le.not_gt
  · refine Nat.le_min.2 ⟨Format.le_nearest ?_, hj⟩
    rw [abs_of_pos hpos]
    linarith

/-! ## Arithmetic -/

theorem add_signed {s t : Bool} {j k : Fin (f.infinity + 1)} (hj : j.val ≠ f.infinity)
    (hk : k.val ≠ f.infinity) :
    (signed s j : Binary f) + signed t k = ofRat (s && t) (rational s j + rational t k) := by
  show add _ _ = _
  rw [add, if_neg hj, if_neg hk]

theorem isFinite_iff {s : Bool} {k : Fin (f.infinity + 1)} :
    (signed s k : Binary f).isFinite = true ↔ k.val < f.infinity :=
  decide_eq_true_iff

/-- The value of a number other than zero is rounded to that number. -/
theorem ofRat_rational {s : Bool} {k : Fin (f.infinity + 1)} (hk : k.val ≠ 0) (z : Bool) :
    ofRat z (rational s k) = signed s k := by
  have hpos := Format.magnitude_pos (f := f) hk
  have hmin : min k.val f.infinity = k.val := Nat.min_eq_left (Nat.le_of_lt_succ k.isLt)
  have hnearest : f.nearest (rational s k).num.natAbs (rational s k).den = k.val := by
    cases s with
    | false => exact Format.nearest_magnitude k.val
    | true =>
      rw [rational, if_pos rfl, Rat.neg_num, Int.natAbs_neg, Rat.neg_den]
      exact Format.nearest_magnitude k.val
  have hsign : (if rational s k = 0 then z else decide (rational s k < 0)) = s := by
    cases s with
    | false =>
      rw [rational, if_neg Bool.false_ne_true, if_neg hpos.ne']
      exact decide_eq_false hpos.le.not_gt
    | true =>
      rw [rational, if_pos rfl, if_neg (neg_ne_zero.2 hpos.ne')]
      exact decide_eq_true (neg_lt_zero.2 hpos)
  rw [ofRat, hsign, hnearest, ofOrdinal]
  congr 1
  exact Fin.ext hmin

theorem ofRat_zero (z : Bool) : (ofRat z 0 : Binary f) = zero z := by
  rw [ofRat, if_pos rfl, ofOrdinal, zero]
  congr 1

/-- A finite number less itself is zero, and the zero has no sign. -/
theorem sub_self_of_isFinite {x : Binary f} (hx : x.isFinite = true) : x - x = zero false := by
  cases x with
  | nan => cases hx
  | signed s k =>
    have hk : k.val ≠ f.infinity := (isFinite_iff.1 hx).ne
    have hzero : rational s k + rational (!s) k = 0 := by
      cases s <;> simp [rational]
    show (signed s k : Binary f) + signed (!s) k = zero false
    rw [add_signed hk hk, hzero, Bool.and_not_self, ofRat_zero]

theorem rational_eq_zero {s : Bool} {k : Fin (f.infinity + 1)} (hk : k.val = 0) :
    rational s k = 0 := by
  rw [rational, hk, Format.magnitude_zero, neg_zero, ite_self]

/-- Adding zero changes nothing, but a negative zero loses its sign. -/
theorem add_zero_false (hf : 0 < f.infinity) (x : Binary f) :
    x + zero false = if x.isZero then zero false else x := by
  cases x with
  | nan => rfl
  | signed s k =>
    have hzero : (0 : Fin (f.infinity + 1)).val ≠ f.infinity := hf.ne
    by_cases hinf : k.val = f.infinity
    · have hisZero : (signed s k : Binary f).isZero = false := by
        rw [isZero, hinf]
        exact beq_false_of_ne hf.ne'
      rw [hisZero, if_neg Bool.false_ne_true]
      show add _ _ = _
      rw [zero, add, if_pos hinf, decide_eq_false hzero, Bool.false_and, if_neg Bool.false_ne_true]
    · have hnone : rational false (0 : Fin (f.infinity + 1)) = 0 := rational_eq_zero rfl
      rw [zero, add_signed hinf hzero, hnone, add_zero, Bool.and_false]
      by_cases hk : k.val = 0
      · rw [rational_eq_zero hk, ofRat_zero, isZero, hk]
        rfl
      · rw [ofRat_rational hk, isZero, beq_false_of_ne hk, if_neg Bool.false_ne_true]

theorem mul_signed {s t : Bool} {j k : Fin (f.infinity + 1)} (hj : j.val ≠ f.infinity)
    (hk : k.val ≠ f.infinity) :
    (signed s j : Binary f) * signed t k = ofRat (s != t) (rational s j * rational t k) := by
  show mul _ _ = _
  simp [mul, hj, hk]

theorem AtMost.max {j : Nat} {x y : Binary f} (hx : AtMost j x) (hy : AtMost j y) :
    AtMost j (max x y) := by
  show AtMost j (greater x y)
  unfold greater
  split
  · exact hy
  · split
    · exact hx
    · split
      · exact hy
      · exact hx

/-- A number is not raised past a power of two by one that its last fraction bit dwarfs. -/
theorem AtMost.add {i j : Nat} {x y : Binary f} (hx : AtMost j x) (hy : AtMost i y)
    (hij : i + (f.fractionBits + 2) ≤ j) (hj : f.binade j < f.infinity) : AtMost j (x + y) := by
  cases x with
  | nan => exact hx.elim
  | signed s k =>
    cases y with
    | nan => exact hy.elim
    | signed t l =>
      have hy' := hy.mono (show i ≤ j by omega)
      rw [add_signed (lt_of_le_of_lt hx hj).ne (lt_of_le_of_lt hy' hj).ne]
      refine atMost_ofRat ((abs_add_le _ _).trans (add_le_add hx.abs_rational_le ?_))
      exact hy.abs_rational_le.trans (Format.power_le_div hij)

/-- A power of two absorbs what its last fraction bit dwarfs. -/
theorem add_eq_self {i j : Nat} {k : Fin (f.infinity + 1)} {y : Binary f}
    (hk : k.val = f.binade j) (hy : AtMost i y) (hij : i + (f.fractionBits + 3) ≤ j)
    (hj : f.binade j < f.infinity) : (signed false k : Binary f) + y = signed false k := by
  cases y with
  | nan => exact hy.elim
  | signed t l =>
    have hy' := hy.mono (show i ≤ j by omega)
    have hvalue : rational false k = f.power j := by
      rw [rational, if_neg Bool.false_ne_true]
      exact le_antisymm (Format.magnitude_le hk.le) (Format.le_magnitude hk.ge)
    have hsmall := hy.abs_rational_le.trans (Format.power_le_div hij)
    have hlt : f.power j / 2 ^ (f.fractionBits + 3) < f.power j :=
      div_lt_self (Format.power_pos j) (one_lt_pow₀ (by norm_num) (by omega))
    have hpos : 0 < f.power j + rational t l := by
      have := (abs_le.1 hsmall).1
      linarith
    have hnear : f.nearest (f.power j + rational t l).num.natAbs
        (f.power j + rational t l).den = f.binade j := by
      refine Format.nearest_eq_binade ?_
      rw [abs_of_pos hpos, add_sub_cancel_left]
      exact hsmall
    rw [add_signed (hk ▸ hj.ne) (lt_of_le_of_lt hy' hj).ne, hvalue, ofRat, if_neg hpos.ne', hnear,
      decide_eq_false hpos.le.not_gt, ofOrdinal]
    congr 1
    apply Fin.ext
    simp only [hk]
    omega

theorem AtMost.mul {i j k : Nat} {x y : Binary f} (hx : AtMost i x) (hy : AtMost j y)
    (hk : (k : Int) = f.leastExponent + f.fractionBits + i + j) (hi : f.binade i < f.infinity)
    (hj : f.binade j < f.infinity) : AtMost k (x * y) := by
  cases x with
  | nan => exact hx.elim
  | signed s l =>
    cases y with
    | nan => exact hy.elim
    | signed t m =>
      rw [mul_signed (lt_of_le_of_lt hx hi).ne (lt_of_le_of_lt hy hj).ne]
      refine atMost_ofRat ?_
      have hsmall : 0 ≤ f.power k / 2 ^ (f.fractionBits + 2) :=
        div_nonneg (Format.power_pos k).le (by positivity)
      have hprod : |rational s l * rational t m| ≤ f.power k := by
        rw [abs_mul, ← Format.power_mul hk]
        exact mul_le_mul hx.abs_rational_le hy.abs_rational_le (abs_nonneg _)
          (Format.power_pos i).le
      linarith

theorem AtLeast.mul {i j k : Nat} {x y : Binary f} (hx : AtLeast i x) (hy : AtLeast j y)
    (hk : (k : Int) = f.leastExponent + f.fractionBits + i + j) (hx' : x.isFinite = true)
    (hy' : y.isFinite = true) (hinf : f.binade k ≤ f.infinity) : AtLeast k (x * y) := by
  cases x with
  | nan => exact hx.elim
  | signed s l =>
    cases y with
    | nan => exact hy.elim
    | signed t m =>
      rw [mul_signed (of_decide_eq_true hx').ne (of_decide_eq_true hy').ne]
      refine atLeast_ofRat hinf ?_
      rw [← Format.power_mul hk]
      exact mul_le_mul hx.le_rational hy.le_rational (Format.power_pos j).le
        ((Format.power_pos i).le.trans hx.le_rational)

/-- What is below zero is cut off. -/
theorem atMost_max_zero_of_negative {j : Nat} {k : Fin (f.infinity + 1)} :
    AtMost j (Max.max (signed true k) (zero false : Binary f)) := by
  have hzero : (zero false : Binary f) = signed false 0 := rfl
  show AtMost j (greater _ _)
  unfold greater
  split
  · exact Nat.zero_le _
  · split
    · next h => exact absurd h Bool.false_ne_true
    · split
      · exact Nat.zero_le _
      · next h =>
        simp only [hzero, lt, place, if_true, Bool.false_eq_true, if_false,
          decide_eq_true_eq] at h
        have : ((0 : Fin (f.infinity + 1)).val : Int) = 0 := rfl
        show k.val ≤ _
        omega

/-- What is left of a number below a power of two after something positive is taken away. -/
theorem AtMost.sub_max_zero {i j k : Nat} {x y : Binary f} (hx : AtMost j x) (hy : AtLeast i y)
    (hy' : AtMost k y) (hj : f.binade j < f.infinity) (hk : f.binade k < f.infinity) :
    AtMost j (Max.max (x - y) (zero false)) := by
  cases x with
  | nan => exact hx.elim
  | signed s l =>
    cases y with
    | nan => exact hy.elim
    | signed t m =>
      have hneg : (signed s l : Binary f) - signed t m = signed s l + signed (!t) m := rfl
      have hflip : rational (!t) m = -rational t m := by
        cases t <;> simp [rational]
      have hpos : 0 < rational t m := (Format.power_pos i).trans_le hy.le_rational
      have hxle := (abs_le.1 hx.abs_rational_le).2
      rw [hneg, add_signed (lt_of_le_of_lt hx hj).ne (lt_of_le_of_lt hy' hk).ne, hflip]
      set q := rational s l + -rational t m with hq
      rcases lt_trichotomy q 0 with hlt | hzero | hgt
      · rw [ofRat, if_neg hlt.ne, decide_eq_true hlt]
        exact atMost_max_zero_of_negative
      · refine AtMost.max ?_ (Nat.zero_le _)
        rw [hzero]
        exact (Nat.min_le_left _ _).trans (Nat.zero_le _)
      · refine AtMost.max (atMost_ofRat ?_) (Nat.zero_le _)
        have hsmall : 0 ≤ f.power j / 2 ^ (f.fractionBits + 2) :=
          div_nonneg (Format.power_pos j).le (by positivity)
        rw [abs_of_pos hgt]
        linarith

end Binary

end FormulaDrawing
