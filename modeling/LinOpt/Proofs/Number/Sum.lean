import LinOpt.Program.Basic
import LinOpt.Proofs.Number.Rational
import Mathlib.Tactic.FieldSimp

namespace LinOpt

namespace Binary64

def rational (x : Binary64) : ℚ :=
  x.toRat?.getD 0

/-- Some double is exactly this number. -/
def IsDouble (r : ℚ) : Prop :=
  ∃ x : Binary64, x.toRat? = some r

theorem toRat?_eq {x : Binary64} (finite : x.isFinite = true) : x.toRat? = some x.rational := by
  match x with
  | .finite .. => rfl

theorem rational_eq {x : Binary64} {r : ℚ} (h : x.toRat? = some r) : x.rational = r := by
  rw [rational, h, Option.getD_some]

theorem rational_eq_zero_iff {x : Binary64} (finite : x.isFinite = true) :
    x.rational = 0 ↔ (Number.real x).isZero = true := by
  match x with
  | .finite negative quanta short bound =>
    have rank := Number.rank?_finite negative quanta short bound
    rw [Number.isZero_iff, rank, rational_eq (toRat?_of_rank rank), div_eq_zero_iff]
    simp only [scale_cast_pos.ne', or_false, Int.cast_eq_zero, Option.some.injEq, Prod.mk.injEq,
      true_and]

theorem isFinite_of_toRat? {x : Binary64} {r : ℚ} (h : x.toRat? = some r) : x.isFinite = true := by
  match x with
  | .finite .. => rfl

theorem exists_of_toRat? {x : Binary64} {r : ℚ} (h : x.toRat? = some r) :
    ∃ negative quanta short bound, x = .finite negative quanta short bound ∧
      r = (signed negative quanta : ℚ) / scale := by
  match x with
  | .finite negative quanta short bound =>
    exact ⟨negative, quanta, short, bound, rfl, (Option.some.inj h).symm⟩

theorem toRat?_neg {x : Binary64} {r : ℚ} (value : x.toRat? = some r) :
    x.neg.toRat? = some (-r) := by
  obtain ⟨s, quanta, short, bound, rfl, rfl⟩ := exists_of_toRat? value
  have turned : signed (!s) quanta = -signed s quanta := by
    cases s <;> simp [signed]
  rw [neg, toRat?, turned, Int.cast_neg, neg_div]

theorem signed_sign (quanta : Int) (negativeZero : Bool) :
    signed (if quanta = 0 then negativeZero else decide (quanta < 0)) quanta.natAbs = quanta := by
  by_cases nothing : quanta = 0
  · cases negativeZero <;> simp [signed, nothing]
  · by_cases below : quanta < 0
    · simp only [signed, nothing, if_false, below, decide_true, if_true]
      omega
    · simp only [signed, nothing, if_false, below, decide_false, Bool.false_eq_true]
      omega

theorem toRat?_ofQuanta {quanta : Int} (negativeZero : Bool)
    (representable : IsDouble ((quanta : ℚ) / scale)) :
    (ofQuanta quanta negativeZero).toRat? = some ((quanta : ℚ) / scale) := by
  obtain ⟨x, value⟩ := representable
  obtain ⟨negative, n, short, bound, rfl, values⟩ := exists_of_toRat? value
  have same : quanta = signed negative n := by
    exact_mod_cast (div_left_inj' scale_cast_pos.ne').1 values
  have magnitude : quanta.natAbs = n := same ▸ signed_natAbs negative n
  subst magnitude
  rw [ofQuanta, ofQuotient_one _ _ short bound, toRat?, signed_sign]

theorem toRat?_add {x y : Binary64} {a b : ℚ} (first : x.toRat? = some a)
    (second : y.toRat? = some b) (representable : IsDouble (a + b)) :
    (x.add y).toRat? = some (a + b) := by
  obtain ⟨s, m, _, _, rfl, rfl⟩ := exists_of_toRat? first
  obtain ⟨t, n, _, _, rfl, rfl⟩ := exists_of_toRat? second
  have total : (signed s m : ℚ) / scale + (signed t n : ℚ) / scale =
      ((signed s m + signed t n : Int) : ℚ) / scale := by
    rw [Int.cast_add, add_div]
  rw [total] at representable ⊢
  exact toRat?_ofQuanta _ representable

theorem signed_mul_signed (s t : Bool) (m n : Nat) :
    signed s m * signed t n = signed (s != t) (m * n) := by
  cases s <;> cases t <;> simp [signed]

theorem toRat?_ofQuotient {negative : Bool} {num den : Nat} (positive : 0 < den)
    (representable : IsDouble ((signed negative num : ℚ) / den / scale)) :
    (ofQuotient negative num den).toRat? = some ((signed negative num : ℚ) / den / scale) := by
  obtain ⟨z, value⟩ := representable
  obtain ⟨s, k, short, bound, rfl, values⟩ := exists_of_toRat? value
  have apart : (den : ℚ) ≠ 0 := Nat.cast_ne_zero.2 positive.ne'
  have whole : signed negative num = signed s k * den := by
    rw [div_left_inj' scale_cast_pos.ne', div_eq_iff apart] at values
    exact_mod_cast values
  have quanta : num = k * den := by
    have magnitudes := congrArg Int.natAbs whole
    rwa [Int.natAbs_mul, signed_natAbs, signed_natAbs, Int.natAbs_natCast] at magnitudes
  have sign : signed negative k = signed s k := by
    rw [quanta, signed_mul] at whole
    exact Int.eq_of_mul_eq_mul_right (Int.natCast_ne_zero.2 positive.ne') whole
  rw [values, quanta, ofQuotient_quanta _ _ _ short bound positive, toRat?, sign]

theorem toRat?_mul {x y : Binary64} {a b : ℚ} (first : x.toRat? = some a)
    (second : y.toRat? = some b) (representable : IsDouble (a * b)) :
    (x.mul y).toRat? = some (a * b) := by
  obtain ⟨s, m, _, _, rfl, rfl⟩ := exists_of_toRat? first
  obtain ⟨t, n, _, _, rfl, rfl⟩ := exists_of_toRat? second
  have product : (signed s m : ℚ) / scale * (signed t n / scale) =
      (signed (s != t) (m * n) : ℚ) / scale / scale := by
    rw [← signed_mul_signed, Int.cast_mul, div_mul_div_comm, div_div]
  rw [product] at representable ⊢
  rw [mul, toRat?_ofQuotient scale_pos representable]

@[simp]
theorem toRat?_settled (x : Binary64) : x.settled.toRat? = x.toRat? := by
  match x with
  | nan => rfl
  | infinite _ => rfl
  | finite negative quanta short bound =>
    exact toRat?_of_rank ((Number.rank?_settled _).trans (Number.rank?_finite ..))

end Binary64

open Binary64

/-- Nothing is rounded when the products of pairs are added to a total one after the other. -/
def Unrounded (total : ℚ) : List (ℚ × ℚ) → Prop
  | [] => True
  | (a, b) :: pairs => IsDouble (a * b) ∧ IsDouble (total + a * b) ∧ Unrounded (total + a * b) pairs

theorem toRat?_foldl_products {xs ys : List Binary64} {total : Binary64} {t : ℚ}
    (start : total.toRat? = some t) (first : ∀ x ∈ xs, x.isFinite = true)
    (second : ∀ y ∈ ys, y.isFinite = true)
    (unrounded : Unrounded t ((xs.map rational).zip (ys.map rational))) :
    ((List.zipWith mul xs ys).foldl add total).toRat? =
      some (t + (((xs.map rational).zip (ys.map rational)).map fun p => p.1 * p.2).sum) := by
  induction xs generalizing ys total t with
  | nil => simpa using start
  | cons x xs ih =>
    cases ys with
    | nil => simpa using start
    | cons y ys =>
      obtain ⟨isX, restX⟩ := List.forall_mem_cons.1 first
      obtain ⟨isY, restY⟩ := List.forall_mem_cons.1 second
      obtain ⟨product, sum, rest⟩ := unrounded
      have term := toRat?_mul (toRat?_eq isX) (toRat?_eq isY) product
      have next := ih (toRat?_add start term sum) restX restY rest
      simpa [add_assoc] using next

theorem toRat?_dot {xs ys : List Binary64} (first : ∀ x ∈ xs, x.isFinite = true)
    (second : ∀ y ∈ ys, y.isFinite = true)
    (unrounded : Unrounded 0 ((xs.map rational).zip (ys.map rational))) :
    (dot xs ys).toRat? =
      some (((xs.map rational).zip (ys.map rational)).map fun p => p.1 * p.2).sum := by
  simpa [dot] using toRat?_foldl_products toRat?_zero first second unrounded

end LinOpt
