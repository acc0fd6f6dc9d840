import LinOpt.Program.Builder
import LinOpt.Proofs.Number.Exact
import Mathlib.Data.Rat.Cast.Order
import Mathlib.Tactic.Linarith

namespace LinOpt

namespace Binary64

def toRat? : Binary64 → Option ℚ
  | nan => none
  | infinite _ => none
  | finite negative quanta _ _ => some (signed negative quanta / scale)

def IsLower (r : ℚ) : Binary64 → Prop
  | nan => False
  | infinite negative => negative = true
  | finite negative quanta _ _ => (signed negative quanta : ℚ) / scale ≤ r

def IsUpper (r : ℚ) : Binary64 → Prop
  | nan => False
  | infinite negative => negative = false
  | finite negative quanta _ _ => r ≤ (signed negative quanta : ℚ) / scale

end Binary64

namespace Number

theorem lt_iff {a b : Number} {p q : Int × ℚ} (first : a.rank? = some p)
    (second : b.rank? = some q) : a.lt b = true ↔ p.1 < q.1 ∨ p.1 = q.1 ∧ p.2 < q.2 := by
  obtain ⟨i, j⟩ := p
  obtain ⟨k, l⟩ := q
  simp only [lt, compares, first, second]
  rcases lt_trichotomy i k with below | same | above
  · have order : compare i k = .lt := compare_lt_iff_lt.2 below
    simp [order, below]
  · subst same
    have rest : compareOfLessAndEq j l = .lt ↔ j < l := compareOfLessAndEq_eq_lt
    simp [rest]
  · have order : compare i k = .gt := compare_gt_iff_gt.2 above
    have notBelow : ¬ i < k := by omega
    have notSame : i ≠ k := by omega
    simp [order, notBelow, notSame]

theorem not_lt_of_same {a b : Number} (h : a.same b = true) : ¬ a.lt b = true := by
  obtain ⟨place, first, second⟩ := same_iff.1 h
  rw [lt_iff first second]
  rintro (below | ⟨-, below⟩)
  · exact lt_irrefl _ below
  · exact lt_irrefl _ below

theorem infinite_lt_zero : (real (.infinite true)).lt 0 = true :=
  (lt_iff (rank?_infinite true) (rank?_int 0)).2 (.inl (by decide))

theorem exists_rank {x : Binary64} (number : x.isNaN = false) : ∃ p, (real x).rank? = some p := by
  match x with
  | .nan => cases number
  | .infinite negative => exact ⟨_, rfl⟩
  | .finite negative quanta _ _ => exact ⟨_, rfl⟩

end Number

namespace Binary64

open Number

variable {x y : Binary64} {r : ℚ} {p q : Int × ℚ}

theorem isLower_iff (rank : (real x).rank? = some p) :
    x.IsLower r ↔ p.1 < 0 ∨ p.1 = 0 ∧ p.2 / scale ≤ r := by
  match x with
  | nan => cases rank
  | infinite negative =>
    rw [rank?_infinite] at rank
    cases rank
    have apart : (signed negative 1 : Int) ≠ 0 := by cases negative <;> decide
    rw [IsLower, or_iff_left fun both => apart both.1]
    cases negative <;> decide
  | finite negative quanta _ _ =>
    rw [rank?_finite] at rank
    cases rank
    exact (or_iff_right (lt_irrefl 0)).trans (and_iff_right rfl) |>.symm

theorem isUpper_iff (rank : (real x).rank? = some p) :
    x.IsUpper r ↔ 0 < p.1 ∨ p.1 = 0 ∧ r ≤ p.2 / scale := by
  match x with
  | nan => cases rank
  | infinite negative =>
    rw [rank?_infinite] at rank
    cases rank
    have apart : (signed negative 1 : Int) ≠ 0 := by cases negative <;> decide
    rw [IsUpper, or_iff_left fun both => apart both.1]
    cases negative <;> decide
  | finite negative quanta _ _ =>
    rw [rank?_finite] at rank
    cases rank
    exact (or_iff_right (lt_irrefl 0)).trans (and_iff_right rfl) |>.symm

theorem toRat?_of_rank {j : ℚ} (rank : (real x).rank? = some (0, j)) :
    x.toRat? = some (j / scale) := by
  match x with
  | nan => cases rank
  | infinite negative =>
    rw [rank?_infinite] at rank
    cases negative <;> simp [signed] at rank
  | finite negative quanta _ _ =>
    rw [rank?_finite] at rank
    cases rank
    rfl

theorem scale_cast_pos : (0 : ℚ) < (scale : ℚ) :=
  Nat.cast_pos.2 scale_pos

theorem toRat?_zero : (zero false).toRat? = some 0 := by
  change some (((0 : Int) : ℚ) / scale) = some 0
  rw [Int.cast_zero, zero_div]

theorem toRat?_one : (1 : Number).double.settled.toRat? = some 1 := by
  obtain ⟨place, first, second⟩ := same_iff.1 (same_settled isExact_one.same_double)
  have rank : (1 : Number).rank? = some (0, ((1 * (scale : Int) : Int) : ℚ)) := rank?_int 1
  rw [rank] at first
  cases first
  rw [toRat?_of_rank second, one_mul, Int.cast_natCast, div_self scale_cast_pos.ne']

theorem quotient_le {j l : ℚ} (order : j ≤ l) : j / scale ≤ l / scale :=
  div_le_div_of_nonneg_right order scale_cast_pos.le

/-- A limit below another one is a weaker lower limit, and a stronger upper one. -/
theorem IsLower.of_lt (h : y.IsLower r) (below : (real x).lt (real y) = true)
    (first : x.isNaN = false) (second : y.isNaN = false) : x.IsLower r := by
  obtain ⟨p, isFirst⟩ := exists_rank first
  obtain ⟨q, isSecond⟩ := exists_rank second
  rw [isLower_iff isSecond] at h
  rw [lt_iff isFirst isSecond] at below
  rw [isLower_iff isFirst]
  rcases below with outside | ⟨same, inside⟩
  · left
    rcases h with below | ⟨level, -⟩ <;> omega
  · rcases h with below | ⟨level, least⟩
    · left
      omega
    · right
      exact ⟨same.trans level, (quotient_le inside.le).trans least⟩

theorem IsLower.of_not_lt (h : x.IsLower r) (notBelow : ¬ (real x).lt (real y) = true)
    (first : x.isNaN = false) (second : y.isNaN = false) : y.IsLower r := by
  obtain ⟨p, isFirst⟩ := exists_rank first
  obtain ⟨q, isSecond⟩ := exists_rank second
  rw [isLower_iff isFirst] at h
  rw [lt_iff isFirst isSecond, not_or, not_and, not_lt, not_lt] at notBelow
  rw [isLower_iff isSecond]
  rcases h with below | ⟨level, least⟩
  · left
    omega
  · rcases notBelow.1.lt_or_eq with lower | same
    · left
      omega
    · right
      exact ⟨same.trans level, (quotient_le (notBelow.2 same.symm)).trans least⟩

theorem IsUpper.of_lt (h : x.IsUpper r) (below : (real x).lt (real y) = true)
    (first : x.isNaN = false) (second : y.isNaN = false) : y.IsUpper r := by
  obtain ⟨p, isFirst⟩ := exists_rank first
  obtain ⟨q, isSecond⟩ := exists_rank second
  rw [isUpper_iff isFirst] at h
  rw [lt_iff isFirst isSecond] at below
  rw [isUpper_iff isSecond]
  rcases below with outside | ⟨same, inside⟩
  · left
    rcases h with above | ⟨level, -⟩ <;> omega
  · rcases h with above | ⟨level, most⟩
    · left
      omega
    · right
      exact ⟨same.symm.trans level, most.trans (quotient_le inside.le)⟩

theorem IsUpper.of_not_lt (h : y.IsUpper r) (notBelow : ¬ (real x).lt (real y) = true)
    (first : x.isNaN = false) (second : y.isNaN = false) : x.IsUpper r := by
  obtain ⟨p, isFirst⟩ := exists_rank first
  obtain ⟨q, isSecond⟩ := exists_rank second
  rw [isUpper_iff isSecond] at h
  rw [lt_iff isFirst isSecond, not_or, not_and, not_lt, not_lt] at notBelow
  rw [isUpper_iff isFirst]
  rcases h with above | ⟨level, most⟩
  · left
    omega
  · rcases notBelow.1.lt_or_eq with lower | same
    · left
      omega
    · right
      exact ⟨same.symm.trans level, most.trans (quotient_le (notBelow.2 same.symm))⟩

theorem isLower_congr (h : (real x).same (real y) = true) : x.IsLower r ↔ y.IsLower r := by
  obtain ⟨place, first, second⟩ := same_iff.1 h
  rw [isLower_iff first, isLower_iff second]

theorem isUpper_congr (h : (real x).same (real y) = true) : x.IsUpper r ↔ y.IsUpper r := by
  obtain ⟨place, first, second⟩ := same_iff.1 h
  rw [isUpper_iff first, isUpper_iff second]

end Binary64

namespace LinearProgram.Builder

open Binary64

variable {x y : Binary64} {r : ℚ}

theorem isLower_larger (first : x.isNaN = false) (second : y.isNaN = false) :
    (larger x y).IsLower r ↔ x.IsLower r ∧ y.IsLower r := by
  unfold larger
  split
  next below => exact ⟨fun h => ⟨h.of_lt below first second, h⟩, And.right⟩
  next notBelow => exact ⟨fun h => ⟨h, h.of_not_lt notBelow first second⟩, And.left⟩

theorem isUpper_smaller (first : x.isNaN = false) (second : y.isNaN = false) :
    (smaller x y).IsUpper r ↔ x.IsUpper r ∧ y.IsUpper r := by
  unfold smaller
  split
  next below => exact ⟨fun h => ⟨h.of_lt below second first, h⟩, And.right⟩
  next notBelow => exact ⟨fun h => ⟨h, h.of_not_lt notBelow second first⟩, And.left⟩

end LinearProgram.Builder

end LinOpt
