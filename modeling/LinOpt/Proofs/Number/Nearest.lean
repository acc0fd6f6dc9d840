import LinOpt.Model.Feasibility
import LinOpt.Proofs.Number.Order
import LinOpt.Proofs.Outcome
import Mathlib.Algebra.Order.Field.Basic

namespace LinOpt

theorem roundHalfEven_mul_of_dvd {num den : Nat} (positive : 0 < den) (whole : den ∣ num) :
    roundHalfEven num den * den = num := by
  obtain ⟨n, rfl⟩ := whole
  rw [Nat.mul_comm den n, roundHalfEven_mul n positive]

namespace Binary64

theorem quotient_lt_of_fraction {quanta : Nat} (short : ShortSignificand quanta)
    (fraction : ¬ scale ∣ quanta) : quanta / scale < twoPower 52 := by
  have few : quanta.log2 - 52 < 1074 := by
    refine Nat.lt_of_not_le fun many => fraction ?_
    exact Nat.dvd_trans (twoPower_dvd many) short
  refine Nat.div_lt_of_lt_mul ?_
  have bound : twoPower (quanta.log2 + 1) ≤ scale * twoPower 52 := by
    rw [scale, ← twoPower_add]
    exact Nat.le_of_dvd (twoPower_pos _) (twoPower_dvd (by omega))
  exact Nat.lt_of_lt_of_le (lt_twoPower_log2 quanta) bound

theorem nearest_isShort {quanta : Nat} (short : ShortSignificand quanta)
    (bound : quanta < ceiling) :
    ShortSignificand (roundHalfEven quanta scale * scale) ∧
      roundHalfEven quanta scale * scale < ceiling := by
  by_cases whole : scale ∣ quanta
  · rw [roundHalfEven_mul_of_dvd scale_pos whole]
    exact ⟨short, bound⟩
  · have nearest : roundHalfEven quanta scale ≤ twoPower 52 :=
      Nat.le_trans (roundHalfEven_le quanta scale) (quotient_lt_of_fraction short whole)
    have more := Nat.le_of_lt (twoPower_lt (by decide : 52 < 53))
    have product : twoPower 52 * scale < ceiling := by
      rw [scale, ceiling, ← twoPower_add]
      exact twoPower_lt (by decide)
    exact ⟨shortSignificand_mul_twoPower (Nat.le_trans nearest more) 1074,
      Nat.lt_of_le_of_lt (Nat.mul_le_mul_right scale nearest) product⟩

theorem isZero_add {x y : Binary64} {a b : ℚ} (first : x.toRat? = some a)
    (second : y.toRat? = some b) :
    (∃ p, (Number.real (x.add y)).rank? = some p) ∧
      ((Number.real (x.add y)).isZero = true ↔ a + b = 0) := by
  obtain ⟨s, m, _, _, rfl, rfl⟩ := exists_of_toRat? first
  obtain ⟨t, n, _, _, rfl, rfl⟩ := exists_of_toRat? second
  rw [← add_div, div_eq_zero_iff, or_iff_left scale_cast_pos.ne', ← Int.cast_add, Int.cast_eq_zero,
    Number.isZero_iff, add, ofQuanta]
  generalize signed s m + signed t n = total
  by_cases nothing : total = 0
  · subst nothing
    have short : ShortSignificand 0 := Nat.dvd_zero _
    have none : signed (s && t) 0 = 0 := by cases s <;> cases t <;> rfl
    rw [if_pos rfl, Int.natAbs_zero, ofQuotient_one _ 0 short ceiling_pos, Number.rank?_finite,
      none]
    exact ⟨⟨_, rfl⟩, iff_of_true rfl rfl⟩
  · have left : total.natAbs ≠ 0 := Int.natAbs_ne_zero.2 nothing
    refine ⟨?_, iff_of_false (Number.rank?_ofQuotient left) nothing⟩
    unfold ofQuotient
    dsimp only
    split <;> exact ⟨_, rfl⟩

end Binary64

namespace Number

variable {n : Number}

theorem ratAbs_eq (q : ℚ) : q.abs = |q| := by
  rw [Rat.abs]
  split
  next least => exact (abs_of_nonneg least).symm
  next below => exact (abs_of_neg (not_le.1 below)).symm

theorem rank?_abs {p : Int × ℚ} (rank : n.rank? = some p) :
    n.abs.rank? = some ((p.1.natAbs : Int), |p.2|) := by
  cases n with
  | int k =>
    cases rank
    have scale : (0 : ℚ) ≤ Binary64.scale := Nat.cast_nonneg _
    rw [abs, rank?_int, Int.cast_mul, Int.cast_mul, abs_mul, Int.natCast_natAbs, Int.cast_abs,
      Int.cast_natCast, abs_of_nonneg scale]
    rfl
  | ratio q =>
    cases rank
    have scale : (0 : ℚ) ≤ Binary64.scale := Nat.cast_nonneg _
    rw [abs, rank?_ratio, ratAbs_eq, abs_mul, abs_of_nonneg scale]
    rfl
  | real x =>
    cases x with
    | nan => cases rank
    | infinite negative =>
      cases rank
      cases negative <;> rfl
    | finite negative quanta short bound =>
      cases rank
      rw [← Int.cast_abs, Int.abs_eq_natAbs, Binary64.signed_natAbs]
      rfl

theorem zero_lt_abs {p : Int × ℚ} (rank : n.rank? = some p) :
    (0 : Number).lt n.abs = true ↔ ¬ n.isZero = true := by
  obtain ⟨i, j⟩ := p
  rw [lt_iff rank?_zero (rank?_abs rank), isZero_iff, rank, Option.some.injEq, Prod.mk.injEq]
  dsimp only
  rw [abs_pos]
  grind

theorem toRat?_abs {r : ℚ} (value : n.toRat? = some r) : n.abs.toRat? = some |r| := by
  cases n with
  | int k =>
    cases value
    refine congrArg some ?_
    rw [Int.natCast_natAbs, Int.cast_abs]
  | ratio q =>
    cases value
    exact congrArg some (ratAbs_eq r)
  | real x =>
    obtain ⟨s, quanta, short, bound, rfl, rfl⟩ := Binary64.exists_of_toRat? value
    refine congrArg some ?_
    rw [abs_div, Nat.abs_cast, ← Int.cast_abs, Int.abs_eq_natAbs, Binary64.signed_natAbs]
    rfl

theorem toRat?_settled (n : Number) : n.settled.toRat? = n.toRat? := by
  cases n with
  | real x => exact Binary64.toRat?_settled x
  | _ => rfl

theorem rank?_number_settled (n : Number) : n.settled.rank? = n.rank? := by
  cases n with
  | real x => exact rank?_settled x
  | _ => rfl

theorem sub_zero (n : Number) : n.sub 0 = some n.settled :=
  add_zero n

theorem isExact_of_toRat? {k : Int} {x : Binary64} (value : x.toRat? = some (k : ℚ)) :
    (int k).IsExact := by
  obtain ⟨s, quanta, short, bound, rfl, same⟩ := Binary64.exists_of_toRat? value
  rw [eq_div_iff Binary64.scale_cast_pos.ne'] at same
  have ranks : k * Binary64.scale = Binary64.signed s quanta := by exact_mod_cast same
  have rank := rank?_finite s quanta short bound
  rw [← ranks] at rank
  exact ⟨_, rfl, same_iff.2 ⟨_, rank?_int k, rank⟩⟩

end Number

namespace Binary64

variable {s : Bool} {quanta : Nat}

theorem nearest_isExact (s : Bool) (short : ShortSignificand quanta) (bound : quanta < ceiling) :
    (Number.int (-signed s (roundHalfEven quanta scale))).IsExact := by
  obtain ⟨isShort, isBound⟩ := nearest_isShort short bound
  refine Number.isExact_of_toRat? (x := .finite (!s) _ isShort isBound) (congrArg some ?_)
  rw [signed_mul, Int.cast_mul, Int.cast_natCast, mul_div_cancel_right₀ _ scale_cast_pos.ne']
  generalize roundHalfEven quanta scale = nearest
  cases s <;> simp [signed]

/-- The nearest whole number is the only whole one that a double can be. -/
theorem isWhole_iff : (∃ k : ℤ, (signed s quanta : ℚ) / scale = k) ↔
    (signed s quanta : ℚ) / scale = signed s (roundHalfEven quanta scale) := by
  constructor
  · rintro ⟨k, same⟩
    rw [div_eq_iff scale_cast_pos.ne'] at same
    have ranks : signed s quanta = k * scale := by exact_mod_cast same
    have whole : scale ∣ quanta := by
      rw [← signed_natAbs s quanta, ranks, Int.natAbs_mul, Int.natAbs_natCast]
      exact Nat.dvd_mul_left scale k.natAbs
    conv_lhs => rw [← roundHalfEven_mul_of_dvd scale_pos whole]
    rw [signed_mul, Int.cast_mul, Int.cast_natCast, mul_div_cancel_right₀ _ scale_cast_pos.ne']
  · exact fun same => ⟨_, same⟩

end Binary64

/-- The nearest whole number of a ratio that is whole. -/
theorem nearest_intCast (k : ℤ) :
    Binary64.signed (decide ((k : ℚ).num < 0)) (roundHalfEven (k : ℚ).num.natAbs (k : ℚ).den) = k := by
  rw [Rat.num_intCast, Rat.den_intCast, ← Nat.mul_one k.natAbs, roundHalfEven_mul _ Nat.one_pos]
  cases below : decide (k < 0) with
  | true =>
    have sign := of_decide_eq_true below
    simp only [Binary64.signed, if_true]
    omega
  | false =>
    have sign := of_decide_eq_false below
    simp only [Binary64.signed, Bool.false_eq_true, if_false]
    omega

namespace Model

open Binary64

theorem distanceToInt_real {x : Binary64} {k : Int} {d : Number} (nearest : x.round? = some k)
    (difference : (Number.real x).sub (.int k) = some d) :
    distanceToInt (.real x) = .ok d.abs := by
  have rounded : inRange x.round? = .ok k := inRange_eq_ok.2 nearest
  have subtracted : inRange ((Number.real x).sub (.int k)) = .ok d := inRange_eq_ok.2 difference
  cases x with
  | nan => cases nearest
  | _ =>
    unfold distanceToInt
    dsimp only
    rw [bind_eq_ok]
    refine ⟨k, rounded, ?_⟩
    rw [bind_eq_ok]
    exact ⟨d, subtracted, rfl⟩

theorem distanceToInt_eq_ok {n : Number} {r : ℚ} (value : n.toRat? = some r) :
    ∃ d, distanceToInt n = .ok d ∧ ((0 : Number).lt d = true ↔ ¬ ∃ k : ℤ, r = k) := by
  cases n with
  | int k =>
    cases value
    exact ⟨0, rfl, iff_of_false (by decide +kernel) fun none => none ⟨k, rfl⟩⟩
  | real x =>
    obtain ⟨s, quanta, short, bound, rfl, rfl⟩ := exists_of_toRat? value
    have exact := nearest_isExact s short bound
    have difference : (Number.real (.finite s quanta short bound)).sub
        (.int (signed s (roundHalfEven quanta scale))) = _ := exact.isFinite.real_add _
    have own : (Binary64.finite s quanta short bound).toRat? = _ := value
    obtain ⟨⟨p, rank⟩, nothing⟩ := isZero_add own exact.toRat?_double
    refine ⟨_, distanceToInt_real rfl difference, ?_⟩
    rw [Number.zero_lt_abs rank, nothing, isWhole_iff, Number.rational, Int.cast_neg,
      ← sub_eq_add_neg, sub_eq_zero]
  | ratio q =>
    cases value
    refine ⟨_, rfl, ?_⟩
    rw [Number.zero_lt_abs (Number.rank?_ratio _), Number.isZero_iff, Number.rank?_ratio,
      Option.some.injEq, Prod.mk.injEq, mul_eq_zero, or_iff_left scale_cast_pos.ne', sub_eq_zero,
      and_iff_right rfl, not_iff_not]
    constructor
    · exact fun same => ⟨_, same⟩
    · rintro ⟨k, rfl⟩
      rw [nearest_intCast]

end Model

end LinOpt
