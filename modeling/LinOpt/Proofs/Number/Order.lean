import LinOpt.Proofs.Number.Sum

namespace LinOpt

namespace Binary64

theorem isLower_iff_of_toRat? {x : Binary64} {r s : ℚ} (value : x.toRat? = some r) :
    x.IsLower s ↔ r ≤ s := by
  match x with
  | .finite .. =>
    cases value
    exact Iff.rfl

theorem isUpper_iff_of_toRat? {x : Binary64} {r s : ℚ} (value : x.toRat? = some r) :
    x.IsUpper s ↔ s ≤ r := by
  match x with
  | .finite .. =>
    cases value
    exact Iff.rfl

end Binary64

namespace Number

open Binary64

def toRat? : Number → Option ℚ
  | int n => some n
  | real x => x.toRat?
  | ratio q => some q

def rational : Number → ℚ
  | int n => n
  | real x => x.rational
  | ratio q => q

theorem toRat?_eq_of_rank (n : Number) :
    n.toRat? = n.rank?.bind fun p => if p.1 = 0 then some (p.2 / scale) else none := by
  have cancel (q : ℚ) : q * scale / scale = q := mul_div_cancel_right₀ q scale_cast_pos.ne'
  cases n with
  | int k =>
    rw [rank?_int, Option.bind_some, if_pos rfl, Int.cast_mul, Int.cast_natCast, cancel]
    rfl
  | ratio q =>
    rw [rank?_ratio, Option.bind_some, if_pos rfl, cancel]
    rfl
  | real x =>
    cases x with
    | nan => rfl
    | infinite negative => cases negative <;> rfl
    | finite negative quanta short bound =>
      rw [rank?_finite, Option.bind_some, if_pos rfl]
      rfl

theorem toRat?_congr {a b : Number} (same : a.same b = true) : a.toRat? = b.toRat? := by
  obtain ⟨place, first, second⟩ := same_iff.1 same
  rw [toRat?_eq_of_rank, toRat?_eq_of_rank, first, second]

theorem IsExact.toRat?_double {n : Number} (exact : n.IsExact) :
    n.double.toRat? = some n.rational := by
  have value : n.toRat? = n.double.toRat? := toRat?_congr exact.same_double
  cases n with
  | real x => exact Binary64.toRat?_eq exact.isFinite_double
  | _ => exact value.symm

theorem IsExact.rational_double {n : Number} (exact : n.IsExact) :
    (real n.double).rational = n.rational :=
  Binary64.rational_eq exact.toRat?_double

theorem rational_double_one : (double 1).rational = 1 :=
  isExact_one.rational_double.trans Int.cast_one

theorem IsExact.isDouble {n : Number} (exact : n.IsExact) : Binary64.IsDouble n.rational :=
  ⟨_, exact.toRat?_double⟩

variable {a b : Number} {p q : Int × ℚ} {r s : ℚ}

theorem toRat?_zero : (0 : Number).toRat? = some 0 :=
  congrArg some Int.cast_zero

theorem rational_of_toRat? (value : a.toRat? = some r) : a.rational = r := by
  cases a with
  | real x => exact rational_eq value
  | _ => exact Option.some.inj value

theorem IsExact.toRat? (exact : a.IsExact) : a.toRat? = some a.rational := by
  cases a with
  | real x => exact exact.toRat?_double
  | _ => rfl

theorem rank_of_toRat? (value : a.toRat? = some r) : a.rank? = some (0, r * scale) := by
  rw [toRat?_eq_of_rank, Option.bind_eq_some_iff] at value
  obtain ⟨⟨i, j⟩, rank, value⟩ := value
  split at value
  next level =>
    cases value
    rw [rank, div_mul_cancel₀ _ scale_cast_pos.ne', ← level]
  next => cases value

theorem quotient_lt : r * scale < s * scale ↔ r < s :=
  mul_lt_mul_iff_left₀ scale_cast_pos

theorem lt_iff_of_toRat? (first : a.toRat? = some r) (second : b.toRat? = some s) :
    a.lt b = true ↔ r < s := by
  rw [lt_iff (rank_of_toRat? first) (rank_of_toRat? second), quotient_lt]
  simp

theorem same_iff_not_lt (first : a.rank? = some p) (second : b.rank? = some q) :
    a.same b = true ↔ ¬ a.lt b = true ∧ ¬ b.lt a = true := by
  rw [lt_iff first second, lt_iff second first, same_iff, first, second]
  obtain ⟨i, j⟩ := p
  obtain ⟨k, l⟩ := q
  simp only [Option.some.injEq, exists_eq_left', Prod.mk.injEq]
  grind

theorem not_lt_of_lt (first : a.rank? = some p) (second : b.rank? = some q)
    (below : a.lt b = true) : ¬ b.lt a = true := by
  rw [lt_iff first second] at below
  rw [lt_iff second first]
  grind

theorem le_iff_not_lt (first : a.rank? = some p) (second : b.rank? = some q) :
    a.le b = true ↔ ¬ b.lt a = true := by
  rw [lt_iff second first]
  obtain ⟨i, j⟩ := p
  obtain ⟨k, l⟩ := q
  simp only [le, compares, first, second]
  rcases lt_trichotomy i k with below | same | above
  · have order : compare i k = .lt := compare_lt_iff_lt.2 below
    simp [order]
    omega
  · subst same
    have rest : (compareOfLessAndEq j l).isLE = true ↔ j ≤ l := by
      rw [Ordering.isLE_iff_ne_gt,
        compareOfLessAndEq_eq_gt Rat.le_antisymm (fun _ _ => Rat.le_total) Rat.not_le]
      exact not_lt
    simp [rest]
  · have order : compare i k = .gt := compare_gt_iff_gt.2 above
    simp [order, above]

theorem le_iff_of_toRat? (first : a.toRat? = some r) (second : b.toRat? = some s) :
    a.le b = true ↔ r ≤ s := by
  rw [le_iff_not_lt (rank_of_toRat? first) (rank_of_toRat? second), lt_iff_of_toRat? second first,
    not_lt]

theorem not_lt_iff_isLower {x : Binary64} (value : a.toRat? = some r)
    (limit : b.same (.real x) = true) : ¬ a.lt b = true ↔ x.IsLower r := by
  obtain ⟨p, first, second⟩ := same_iff.1 limit
  rw [isLower_iff second, lt_iff (rank_of_toRat? value) first, div_le_iff₀ scale_cast_pos]
  grind

theorem not_lt_iff_isUpper {x : Binary64} (value : a.toRat? = some r)
    (limit : b.same (.real x) = true) : ¬ b.lt a = true ↔ x.IsUpper r := by
  obtain ⟨p, first, second⟩ := same_iff.1 limit
  rw [isUpper_iff second, lt_iff first (rank_of_toRat? value), le_div_iff₀ scale_cast_pos]
  grind

end Number

end LinOpt
