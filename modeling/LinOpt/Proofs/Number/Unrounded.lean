import LinOpt.Proofs.Number.Decimal
import LinOpt.Proofs.Number.Sum
import Mathlib.Algebra.Order.Field.Basic

namespace LinOpt

theorem cast_tenPower (n : Nat) : ((tenPower n : ℕ) : ℚ) = 10 ^ n := by
  rw [tenPower, Nat.pow_eq, Nat.cast_pow, Nat.cast_ofNat]

def Decimal.value (d : Decimal) : ℚ :=
  d.digits * 10 ^ d.exponent

namespace Decimal

variable {d : Decimal}

theorem value_of_nonneg (whole : 0 ≤ d.exponent) :
    d.value = (d.digits * tenPower d.exponent.toNat : ℕ) := by
  obtain ⟨n, exponent⟩ := Int.eq_ofNat_of_zero_le whole
  rw [value, exponent, Int.toNat_natCast, zpow_natCast, Nat.cast_mul, cast_tenPower]

theorem value_of_neg (fraction : ¬ 0 ≤ d.exponent) :
    d.value = d.digits / (tenPower (-d.exponent).toNat : ℕ) := by
  obtain ⟨n, exponent⟩ := Int.eq_ofNat_of_zero_le (by omega : 0 ≤ -d.exponent)
  have power : d.exponent = -(n : Int) := by omega
  rw [value, exponent, power, Int.toNat_natCast, zpow_neg, zpow_natCast, cast_tenPower,
    div_eq_mul_inv]

theorem value_bounds (nonzero : d.digits ≠ 0) :
    (10 : ℚ) ^ (digitCount d.digits + d.exponent - 1) ≤ d.value ∧
      d.value < 10 ^ (digitCount d.digits + d.exponent) := by
  obtain ⟨k, size⟩ : ∃ k, digitCount d.digits = k + 1 :=
    Nat.exists_eq_succ_of_ne_zero Nat.length_toDigits_pos.ne'
  have least : tenPower k ≤ d.digits := by
    rcases Nat.eq_zero_or_pos k with rfl | more
    · exact Nat.pos_of_ne_zero nonzero
    · refine Nat.not_lt.1 fun below => ?_
      have fewer := (Binary64.digitCount_le_iff k more).2 below
      omega
  have most : d.digits < tenPower (k + 1) :=
    (Binary64.digitCount_le_iff (k + 1) k.succ_pos).1 size.le
  have low : (10 : ℚ) ^ k ≤ d.digits := cast_tenPower k ▸ Nat.cast_le.2 least
  have high : (d.digits : ℚ) < 10 ^ (k + 1) := cast_tenPower (k + 1) ▸ Nat.cast_lt.2 most
  have power : (0 : ℚ) < 10 ^ d.exponent := zpow_pos (by norm_num) _
  have before : (k + 1 : ℕ) + d.exponent - 1 = k + d.exponent := by omega
  rw [size, before, zpow_add₀ (by norm_num), zpow_add₀ (by norm_num), zpow_natCast, zpow_natCast]
  exact ⟨mul_le_mul_of_nonneg_right low power.le, mul_lt_mul_of_pos_right high power⟩

end Decimal

namespace Binary64

theorem IsDouble.bounds {r : ℚ} (h : IsDouble r) (positive : 0 < r) :
    1 / (scale : ℚ) ≤ r ∧ r < (ceiling : ℚ) / scale := by
  obtain ⟨x, value⟩ := h
  obtain ⟨s, k, _, bound, rfl, rfl⟩ := exists_of_toRat? value
  have magnitude : signed s k = k ∧ 0 < k := by
    have sign : 0 < signed s k := by
      have above := (div_pos_iff_of_pos_right scale_cast_pos).1 positive
      exact_mod_cast above
    cases s
    · exact ⟨rfl, by simpa [signed] using sign⟩
    · simp [signed] at sign
      omega
  rw [magnitude.1]
  constructor
  · rw [div_le_div_iff_of_pos_right scale_cast_pos]
    exact_mod_cast magnitude.2
  · rw [div_lt_div_iff_of_pos_right scale_cast_pos]
    exact_mod_cast bound

theorem toRat?_div {x y : Binary64} {a b : ℚ} (first : x.toRat? = some a)
    (second : y.toRat? = some b) (nonzero : b ≠ 0) (representable : IsDouble (a / b)) :
    (x.div y).toRat? = some (a / b) := by
  obtain ⟨s, m, _, _, rfl, rfl⟩ := exists_of_toRat? first
  obtain ⟨t, n, _, _, rfl, rfl⟩ := exists_of_toRat? second
  have apart : n ≠ 0 := by
    rintro rfl
    have zero : signed t 0 = 0 := by cases t <;> rfl
    exact nonzero (by rw [zero, Int.cast_zero, zero_div])
  have quotient : (signed s m : ℚ) / scale / (signed t n / scale) =
      (signed (s != t) (m * scale) : ℚ) / n / scale := by
    have scaled : (scale : ℚ) ≠ 0 := scale_cast_pos.ne'
    have divides : (n : ℚ) ≠ 0 := Nat.cast_ne_zero.2 apart
    rw [signed_mul, Int.cast_mul, Int.cast_natCast]
    -- The scale is a name from here on, and no number to be computed.
    generalize (scale : ℚ) = scale at scaled ⊢
    cases s <;> cases t <;> simp [signed] <;> field_simp
  rw [quotient] at representable ⊢
  rw [div, if_neg apart, toRat?_ofQuotient (Nat.pos_of_ne_zero apart) representable]

/-- Of decimals that are far from any double none is worth what a double is worth. -/
theorem size_of_representable {d : Decimal} (nonzero : d.digits ≠ 0)
    (representable : IsDouble d.value) :
    -330 ≤ (digitCount d.digits : Int) + d.exponent ∧
      (digitCount d.digits : Int) + d.exponent ≤ 310 := by
  obtain ⟨low, high⟩ := Decimal.value_bounds nonzero
  obtain ⟨least, most⟩ := representable.bounds (lt_of_lt_of_le (zpow_pos (by norm_num) _) low)
  constructor
  · refine Int.not_lt.1 fun small => ?_
    have less : d.value < 10 ^ (-330 : Int) := by
      refine high.trans_le (zpow_le_zpow_right₀ (by norm_num) ?_)
      omega
    have short : (10 : ℚ) ^ (-330 : Int) ≤ 1 / scale := by
      have naturals : scale ≤ tenPower 330 := by decide +kernel
      rw [show (-330 : Int) = -((330 : ℕ) : Int) from rfl, zpow_neg, zpow_natCast,
        ← cast_tenPower, ← one_div]
      exact one_div_le_one_div_of_le scale_cast_pos (Nat.cast_le.2 naturals)
    exact lt_irrefl _ (less.trans_le (short.trans least))
  · refine Int.not_lt.1 fun large => ?_
    have more : (10 : ℚ) ^ (310 : Int) ≤ d.value := by
      refine (zpow_le_zpow_right₀ (by norm_num) ?_).trans low
      omega
    have past : (ceiling : ℚ) / scale ≤ 10 ^ (310 : Int) := by
      have naturals : ceiling ≤ tenPower 310 * scale := by decide +kernel
      rw [div_le_iff₀ scale_cast_pos, show (310 : Int) = (310 : ℕ) from rfl, zpow_natCast,
        ← cast_tenPower, ← Nat.cast_mul]
      exact Nat.cast_le.2 naturals
    exact lt_irrefl _ (more.trans_lt (most.trans_le past))

theorem toRat?_ofDecimal {d : Decimal} (representable : IsDouble d.value) :
    (ofDecimal false d).toRat? = some d.value := by
  unfold ofDecimal
  by_cases nothing : d.digits = 0
  · have none : d.value = 0 := by simp [Decimal.value, nothing]
    simp only [nothing, if_true, none]
    exact toRat?_zero
  · obtain ⟨least, most⟩ := size_of_representable nothing representable
    simp only [nothing, Int.not_lt.2 most, Int.not_lt.2 least, if_false]
    split
    next whole =>
      have quanta : (signed false (d.digits * tenPower d.exponent.toNat * scale) : ℚ) / (1 : ℕ) /
          scale = d.value := by
        rw [Decimal.value_of_nonneg whole, Nat.cast_one, div_one, div_eq_iff scale_cast_pos.ne']
        exact_mod_cast rfl
      rw [← quanta] at representable ⊢
      exact toRat?_ofQuotient Nat.one_pos representable
    next fraction =>
      have quanta : (signed false (d.digits * scale) : ℚ) /
          (tenPower (-d.exponent).toNat : ℕ) / scale = d.value := by
        rw [Decimal.value_of_neg fraction, div_right_comm]
        congr 1
        rw [div_eq_iff scale_cast_pos.ne']
        exact_mod_cast rfl
      rw [← quanta] at representable ⊢
      exact toRat?_ofQuotient (tenPower_pos _) representable

end Binary64

end LinOpt
