import LinOpt.Constraint
import LinOpt.Proofs.Number.Nearest
import LinOpt.Proofs.Program.Objective

namespace LinOpt

namespace Number

def sum? (total : Number) (pairs : List (Number × Number)) : Option Number :=
  pairs.foldlM (fun total p => do total.add (← p.1.mul p.2)) total

/-- Nothing is rounded when products of numbers are added to a total one after the other. -/
def SumsExactly (total : Number) : List (Number × Number) → Prop
  | [] => True
  | (a, b) :: pairs => ∃ product sum, a.mul b = some product ∧
      product.toRat? = some (a.rational * b.rational) ∧ total.add product = some sum ∧
      sum.toRat? = some (total.rational + a.rational * b.rational) ∧ SumsExactly sum pairs

theorem sumsExactly_int (pairs : List (Int × Int)) (total : Int) :
    SumsExactly (int total) (pairs.map fun p => (int p.1, int p.2)) := by
  induction pairs generalizing total with
  | nil => exact True.intro
  | cons p pairs ih =>
    refine ⟨_, _, rfl, congrArg some ?_, rfl, congrArg some ?_, ih _⟩
    · exact Int.cast_mul p.1 p.2
    · rw [Int.cast_add, Int.cast_mul]
      rfl

end Number

namespace Expression

def factorsAt (e : Expression) (values : Variable → Number) : List (Number × Number) :=
  e.linearTerms.map fun t => (t.1, values t.2)

section

variable {valuation : Valuation} {values : Variable → Number}

theorem multiply_single (c : Number) {v : Variable} (assigned : valuation v = .number (values v))
    {product : Number} (isProduct : c.mul (values v) = some product) :
    multiply (.number c) [valuation v] = .ok (some (.number product)) := by
  have times : (Product.number c).times (.number (values v)) = .ok (.number product) := by
    simp only [Product.times, isProduct]
    rfl
  have factor : Product.ofValue (.number (values v)) = .ok (.number (values v)) := rfl
  simp only [multiply, assigned, Value.isNull, Bool.false_eq_true, if_false]
  rw [factor, ok_bind, times]
  rfl

theorem evaluateTerms_eq_ok {terms : List Term} (linear : terms.any Term.isQuadratic = false)
    (assigned : ∀ t ∈ linearTerms { terms }, valuation t.2 = .number (values t.2))
    {total : Number} {r : ℚ} (start : total.toRat? = some r)
    (exactly : Number.SumsExactly total (factorsAt { terms } values)) :
    ∃ n, evaluateTerms valuation total terms = .ok (some n) ∧
      Number.sum? total (factorsAt { terms } values) = some n ∧ n.toRat? =
        some (r +
          ((linearTerms { terms }).map fun t => t.1.rational * (values t.2).rational).sum) := by
  induction terms generalizing total r with
  | nil => exact ⟨total, rfl, rfl, by simpa [linearTerms] using start⟩
  | cons t terms ih =>
    rw [List.any_cons, Bool.or_eq_false_iff] at linear
    cases t with
    | quadratic => cases linear.1
    | linear c v =>
      have parts :
          linearTerms { terms := .linear c v :: terms } = (c, v) :: linearTerms { terms } := rfl
      rw [parts] at assigned ⊢
      obtain ⟨here, assigned⟩ := List.forall_mem_cons.1 assigned
      obtain ⟨product, sum, isProduct, -, isSum, value, exactly⟩ := exactly
      rw [Number.rational_of_toRat? start] at value
      obtain ⟨n, rest, sums, result⟩ := ih linear.2 assigned value exactly
      have first : multiply (.number c) ([v].map valuation) = .ok (some (.number product)) :=
        multiply_single c here isProduct
      refine ⟨n, ?_, ?_, ?_⟩
      · rw [evaluateTerms, Term.vars, Term.coefficient, first, ok_bind]
        simp only [isSum]
        exact rest
      · simp only [factorsAt, parts, Number.sum?, List.map_cons, List.foldlM_cons, isProduct, isSum,
          Option.bind_eq_bind, Option.bind_some]
        exact sums
      · rw [result, List.map_cons, List.sum_cons, add_assoc]

theorem evaluate_eq_ok {e : Expression} (linear : e.isQuadratic = false)
    (finite : e.constant.IsExact)
    (assigned : ∀ t ∈ e.linearTerms, valuation t.2 = .number (values t.2))
    (exactly : Number.SumsExactly e.constant (e.factorsAt values)) :
    ∃ n, e.evaluate valuation = .ok (some n) ∧
      Number.sum? e.constant (e.factorsAt values) = some n ∧
      n.toRat? = some (e.rationalAt fun v => (values v).rational) := by
  obtain ⟨n, evaluated, sums, result⟩ := evaluateTerms_eq_ok linear assigned finite.toRat? exactly
  refine ⟨n, evaluated, sums, result.trans ?_⟩
  rw [rationalAt, sum_linearTerms linear]
  rfl

end

end Expression

namespace Constraint

def HoldsAt (c : Constraint) (point : Variable → ℚ) : Prop :=
  match c.comparison with
  | .le => c.lhs.rationalAt point ≤ c.rhs.rational
  | .ge => c.rhs.rational ≤ c.lhs.rationalAt point
  | .eq => c.lhs.rationalAt point = c.rhs.rational

/-- Nothing is rounded when a row is checked at some values, nor when its numbers become doubles. -/
structure IsCheckedExactly (c : Constraint) (values : Variable → Number) : Prop where
  lhs : c.lhs.IsExact
  rhs : c.rhs.IsExact
  activity : Number.SumsExactly c.lhs.constant (c.lhs.factorsAt values)
  difference : c.comparison = .eq →
    ∀ total, Number.sum? c.lhs.constant (c.lhs.factorsAt values) = some total →
      (total.sub c.rhs).bind Number.toRat? = some (total.rational - c.rhs.rational)

variable {c : Constraint} {valuation : Valuation} {values : Variable → Number}

theorem isSatisfied_eq_ok (linear : c.lhs.isQuadratic = false)
    (assigned : ∀ t ∈ c.lhs.linearTerms, valuation t.2 = .number (values t.2))
    (exactly : c.IsCheckedExactly values) :
    ∃ holds, c.isSatisfied valuation (0 : Number) = .ok (some holds) ∧
      (holds = true ↔ c.HoldsAt fun v => (values v).rational) := by
  obtain ⟨total, evaluated, sums, value⟩ :=
    Expression.evaluate_eq_ok linear exactly.lhs.constant assigned exactly.activity
  have rhs := exactly.rhs.toRat?
  have zero : Value.asNumber (0 : Number) = .ok 0 := rfl
  unfold HoldsAt
  cases comparison : c.comparison with
  | le =>
    have order : total.le c.rhs.settled = true ↔ _ :=
      Number.le_iff_of_toRat? value ((Number.toRat?_settled c.rhs).trans rhs)
    refine ⟨total.le c.rhs.settled, ?_, order⟩
    simp only [isSatisfied, evaluated, comparison, zero, bind, Except.bind, Number.add_zero,
      inRange]
    rfl
  | ge =>
    have order : c.rhs.settled.le total = true ↔ _ :=
      Number.le_iff_of_toRat? ((Number.toRat?_settled c.rhs).trans rhs) value
    refine ⟨c.rhs.settled.le total, ?_, order⟩
    simp only [isSatisfied, evaluated, comparison, zero, bind, Except.bind, Number.sub_zero,
      inRange]
    rfl
  | eq =>
    -- An equation is checked by a distance, which must not be rounded either.
    obtain ⟨difference, isDifference, left⟩ :=
      Option.bind_eq_some_iff.1 (exactly.difference comparison total sums)
    rw [Number.rational_of_toRat? value] at left
    have order := Number.le_iff_of_toRat? (Number.toRat?_abs left) Number.toRat?_zero
    rw [abs_nonpos_iff, sub_eq_zero] at order
    refine ⟨difference.abs.le 0, ?_, order⟩
    simp only [isSatisfied, evaluated, comparison, zero, bind, Except.bind, isDifference, inRange]
    rfl

end Constraint

end LinOpt
