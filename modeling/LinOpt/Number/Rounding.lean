
namespace LinOpt

def twoPower (n : Nat) : Nat := Nat.pow 2 n

def tenPower (n : Nat) : Nat := Nat.pow 10 n

theorem twoPower_pos (n : Nat) : 0 < twoPower n :=
  Nat.two_pow_pos n

theorem tenPower_pos (n : Nat) : 0 < tenPower n :=
  Nat.pow_pos (by decide)

theorem twoPower_add (m n : Nat) : twoPower (m + n) = twoPower m * twoPower n :=
  Nat.pow_add 2 m n

theorem twoPower_dvd {m n : Nat} (h : m ≤ n) : twoPower m ∣ twoPower n :=
  Nat.pow_dvd_pow 2 h

def roundHalfEven (num den : Nat) : Nat :=
  let quotient := num / den
  let rest := num % den
  if 2 * rest < den then quotient
  else if den < 2 * rest then quotient + 1
  else quotient + quotient % 2

theorem roundHalfEven_le (num den : Nat) : roundHalfEven num den ≤ num / den + 1 := by
  unfold roundHalfEven
  dsimp only
  split
  · omega
  · split <;> omega

theorem roundHalfEven_mul (quotient : Nat) {den : Nat} (positive : 0 < den) :
    roundHalfEven (quotient * den) den = quotient := by
  simp [roundHalfEven, Nat.mul_div_cancel _ positive, positive]

/-- At most 53 significant bits. -/
def ShortSignificand (n : Nat) : Prop := twoPower (n.log2 - 52) ∣ n

/-- Numerator over denominator rounded to a whole number of at most 53 significant bits. -/
def roundSignificand (num den : Nat) : Nat :=
  let step := twoPower ((num / den).log2 - 52)
  roundHalfEven num (den * step) * step

theorem lt_twoPower_log2 (n : Nat) : n < twoPower (n.log2 + 1) :=
  Nat.lt_log2_self

theorem log2_lt_of_lt {n k : Nat} (nonzero : n ≠ 0) (h : n < twoPower k) : n.log2 < k :=
  (Nat.log2_lt nonzero).2 h

theorem log2_twoPower (n : Nat) : (twoPower n).log2 = n :=
  Nat.log2_two_pow

theorem shortSignificand_mul_twoPower {m : Nat} (bound : m ≤ twoPower 53) (k : Nat) :
    ShortSignificand (m * twoPower k) := by
  unfold ShortSignificand
  rcases Nat.eq_zero_or_pos m with rfl | positive
  · simp
  have nonzero : m * twoPower k ≠ 0 := Nat.mul_ne_zero (Nat.ne_of_gt positive)
    (Nat.ne_of_gt (twoPower_pos k))
  rcases Nat.lt_or_eq_of_le bound with small | rfl
  · have : (m * twoPower k).log2 < 53 + k := by
      apply log2_lt_of_lt nonzero
      rw [twoPower_add]
      exact Nat.mul_lt_mul_of_pos_right small (twoPower_pos k)
    exact Nat.dvd_trans (twoPower_dvd (by omega)) (Nat.dvd_mul_left _ _)
  · rw [← twoPower_add, log2_twoPower]
    exact twoPower_dvd (by omega)

theorem roundSignificand_short (num den : Nat) : ShortSignificand (roundSignificand num den) := by
  apply shortSignificand_mul_twoPower
  refine Nat.le_trans (roundHalfEven_le _ _) ?_
  rw [← Nat.div_div_eq_div_mul]
  have bound : num / den < twoPower 53 * twoPower ((num / den).log2 - 52) := by
    rw [← twoPower_add]
    exact Nat.lt_of_lt_of_le (lt_twoPower_log2 _)
      (Nat.le_of_dvd (twoPower_pos _) (twoPower_dvd (by omega)))
  exact Nat.div_lt_of_lt_mul (by rwa [Nat.mul_comm] at bound)

theorem roundSignificand_mul {n den : Nat} (short : ShortSignificand n) (positive : 0 < den) :
    roundSignificand (n * den) den = n := by
  obtain ⟨m, hm⟩ := short
  generalize exponent : n.log2 - 52 = k at hm
  have scaled : n * den = m * (den * twoPower k) := by
    rw [hm, Nat.mul_right_comm, Nat.mul_comm m, Nat.mul_comm den]
  unfold roundSignificand
  rw [Nat.mul_div_cancel _ positive, exponent]
  dsimp only
  rw [scaled, roundHalfEven_mul m (Nat.mul_pos positive (twoPower_pos k)), Nat.mul_comm, ← hm]

end LinOpt
