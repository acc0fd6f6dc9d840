import LinOpt.Number.Decimal

namespace LinOpt

theorem roundHalfEven_mul_right (num den : Nat) {c : Nat} (positive : 0 < c) :
    roundHalfEven (num * c) (den * c) = roundHalfEven num den := by
  have below : 2 * (num % den * c) < den * c ↔ 2 * (num % den) < den := by
    rw [← Nat.mul_assoc]
    exact Nat.mul_lt_mul_right positive
  have above : den * c < 2 * (num % den * c) ↔ den < 2 * (num % den) := by
    rw [← Nat.mul_assoc]
    exact Nat.mul_lt_mul_right positive
  simp only [roundHalfEven, Nat.mul_div_mul_right _ _ positive, Nat.mul_mod_mul_right, below, above]

theorem roundSignificand_mul_right (num den : Nat) {c : Nat} (positive : 0 < c) :
    roundSignificand (num * c) (den * c) = roundSignificand num den := by
  simp only [roundSignificand, Nat.mul_div_mul_right _ _ positive, Nat.mul_right_comm den c,
    roundHalfEven_mul_right _ _ positive]

theorem digitCount_mul_ten {n : Nat} (nonzero : n ≠ 0) : digitCount (n * 10) = digitCount n + 1 := by
  have digits : Nat.toDigits 10 n ++ Nat.toDigits 10 0 = Nat.toDigits 10 (10 * n + 0) :=
    Nat.toDigits_append_toDigits (by decide) (Nat.pos_of_ne_zero nonzero) (by decide)
  rw [Nat.add_zero, Nat.mul_comm] at digits
  rw [digitCount, ← digits, List.length_append]
  rfl

theorem tenPower_succ (n : Nat) : tenPower (n + 1) = tenPower n * 10 :=
  Nat.pow_succ 10 n

namespace Binary64

theorem ofQuotient_mul_right (negative : Bool) (num den : Nat) {c : Nat} (positive : 0 < c) :
    ofQuotient negative (num * c) (den * c) = ofQuotient negative num den := by
  simp only [ofQuotient, roundSignificand_mul_right num den positive]

/-- The part of the reading in which powers of ten are computed. -/
theorem ofQuotient_shift (negative : Bool) (digits : Nat) (exponent : Int) :
    (if 0 ≤ exponent - 1 then
        ofQuotient negative (digits * 10 * tenPower (exponent - 1).toNat * scale) 1
      else ofQuotient negative (digits * 10 * scale) (tenPower (-(exponent - 1)).toNat)) =
    if 0 ≤ exponent then ofQuotient negative (digits * tenPower exponent.toNat * scale) 1
      else ofQuotient negative (digits * scale) (tenPower (-exponent).toNat) := by
  rcases Int.lt_trichotomy exponent 0 with below | rfl | above
  · have power : (-(exponent - 1)).toNat = (-exponent).toNat + 1 := by omega
    rw [if_neg (by omega), if_neg (by omega), power, tenPower_succ, Nat.mul_right_comm]
    exact ofQuotient_mul_right negative _ _ (by decide)
  · have shifted := ofQuotient_mul_right negative (digits * tenPower 0 * scale) 1
      (c := 10) (by decide)
    rw [← Nat.mul_right_comm, Nat.one_mul, Nat.mul_right_comm digits] at shifted
    rw [if_neg (by omega), if_pos (by omega)]
    refine Eq.trans ?_ shifted
    rw [show tenPower 0 = 1 from rfl, Nat.mul_one]
    rfl
  · have power : exponent.toNat = (exponent - 1).toNat + 1 := by omega
    rw [if_pos (by omega), if_pos (by omega), power, tenPower_succ, ← Nat.mul_assoc,
      Nat.mul_right_comm digits]

theorem ofDecimal_shift (negative : Bool) (digits : Nat) (exponent : Int) :
    ofDecimal negative ⟨digits * 10, exponent - 1⟩ = ofDecimal negative ⟨digits, exponent⟩ := by
  by_cases nothing : digits = 0
  · simp [ofDecimal, nothing]
  · have size : ((digitCount digits + 1 : Nat) : Int) + (exponent - 1) =
        digitCount digits + exponent := by omega
    have still : digits * 10 ≠ 0 := by omega
    simp only [ofDecimal, digitCount_mul_ten nothing, size, nothing, still, if_false,
      ofQuotient_shift]

theorem ofDecimal_mul_tenPower (negative : Bool) (digits k : Nat) (exponent : Int) :
    ofDecimal negative ⟨digits * tenPower k, exponent - k⟩ =
      ofDecimal negative ⟨digits, exponent⟩ := by
  induction k with
  | zero =>
    have same : exponent - ((0 : Nat) : Int) = exponent := Int.sub_zero exponent
    rw [same, show tenPower 0 = 1 from rfl, Nat.mul_one]
  | succ k ih =>
    have lower : exponent - ((k + 1 : Nat) : Int) = exponent - k - 1 := by omega
    rw [tenPower_succ, ← Nat.mul_assoc, lower, ofDecimal_shift, ih]

theorem ofDecimal_trim (negative : Bool) (d : Decimal) :
    ofDecimal negative d.trim = ofDecimal negative d := by
  have go (fuel : Nat) (d : Decimal) :
      ofDecimal negative (Decimal.trim.go fuel d) = ofDecimal negative d := by
    induction fuel generalizing d with
    | zero => rfl
    | succ fuel ih =>
      rw [Decimal.trim.go]
      split
      next whole =>
        have digits : d.digits / 10 * 10 = d.digits :=
          Nat.div_mul_cancel (Nat.dvd_of_mod_eq_zero whole)
        have exponent : d.exponent + 1 - 1 = d.exponent := by omega
        have shifted := ofDecimal_shift negative (d.digits / 10) (d.exponent + 1)
        rw [digits, exponent] at shifted
        rw [ih, ← shifted]
      next => rfl
  exact go _ d

theorem ofDecimal_trim_shortest (quanta : Nat) (short : ShortSignificand quanta)
    (bound : quanta < ceiling) :
    ofDecimal false (shortest quanta short bound).trim = .finite false quanta short bound := by
  rw [ofDecimal_trim, ofDecimal_shortest]

end Binary64

end LinOpt
