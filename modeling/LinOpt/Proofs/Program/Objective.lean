import LinOpt.Proofs.Number.Order
import LinOpt.Proofs.Program.OfModel

namespace LinOpt

def Value.rational : Value → ℚ
  | .number n => n.rational
  | _ => 0

theorem Value.map_rational {α β : Type} {as : List α} {bs : List β} {f : α → Value} {g : β → Value}
    (same : as.map f = bs.map g) :
    as.map (fun a => (f a).rational) = bs.map fun b => (g b).rational := by
  have rationals := congrArg (List.map rational) same
  rwa [List.map_map, List.map_map] at rationals

namespace Expression

def rationalAt (e : Expression) (point : Variable → ℚ) : ℚ :=
  e.constant.rational + (e.terms.map fun t => t.coefficient.rational * (t.vars.map point).prod).sum

def coefficientOf (e : Expression) (v : Variable) : ℚ :=
  ((e.linearTerms.filter (·.2 == v)).map (·.1.rational)).sum

theorem sum_linearTerms {e : Expression} (linear : e.isQuadratic = false) (point : Variable → ℚ) :
    (e.terms.map fun t => t.coefficient.rational * (t.vars.map point).prod).sum =
      (e.linearTerms.map fun t => t.1.rational * point t.2).sum := by
  unfold isQuadratic at linear
  unfold linearTerms
  generalize e.terms = terms at linear ⊢
  induction terms with
  | nil => rfl
  | cons t terms ih =>
    rw [List.any_cons, Bool.or_eq_false_iff] at linear
    cases t with
    | quadratic => cases linear.1
    | linear c v =>
      rw [List.map_cons, List.sum_cons, ih linear.2]
      simp [Term.coefficient, Term.vars]

theorem sum_ite_eq {α : Type} [DecidableEq α] {as : List α} (nodup : as.Nodup) {a : α}
    (member : a ∈ as) (x : ℚ) (f : α → ℚ) :
    (as.map fun b => (if a = b then x else 0) * f b).sum = x * f a := by
  induction as with
  | nil => cases member
  | cons b as ih =>
    obtain ⟨alone, nodup⟩ := List.nodup_cons.1 nodup
    rcases List.mem_cons.1 member with rfl | member
    · have others : (as.map fun b => (if a = b then x else 0) * f b).sum = 0 := by
        refine List.sum_eq_zero (List.forall_mem_map.2 fun b among => ?_)
        have differs : a ≠ b := fun same => alone (same.symm ▸ among)
        rw [if_neg differs, zero_mul]
      rw [List.map_cons, List.sum_cons, others, if_pos rfl, add_zero]
    · have differs : a ≠ b := fun same => alone (same ▸ member)
      rw [List.map_cons, List.sum_cons, ih nodup member, if_neg differs, zero_mul, zero_add]

theorem sum_coefficientOf {e : Expression} {vs : List Variable} (nodup : vs.Nodup)
    (known : ∀ t ∈ e.linearTerms, t.2 ∈ vs) (f : Variable → ℚ) :
    (vs.map fun v => e.coefficientOf v * f v).sum =
      (e.linearTerms.map fun t => t.1.rational * f t.2).sum := by
  unfold coefficientOf
  generalize e.linearTerms = terms at known ⊢
  induction terms with
  | nil => simp
  | cons t terms ih =>
    obtain ⟨here, known⟩ := List.forall_mem_cons.1 known
    have step (v : Variable) : (((t :: terms).filter (·.2 == v)).map (·.1.rational)).sum * f v =
        (if t.2 = v then t.1.rational else 0) * f v +
          ((terms.filter (·.2 == v)).map (·.1.rational)).sum * f v := by
      by_cases same : t.2 = v
      · simp [same, add_mul]
      · simp [same]
    simp only [step]
    rw [List.sum_map_add, sum_ite_eq nodup here, ih known, List.map_cons, List.sum_cons]

theorem rationalAt_eq {e : Expression} {vs : List Variable} (nodup : vs.Nodup)
    (known : ∀ t ∈ e.linearTerms, t.2 ∈ vs) (linear : e.isQuadratic = false)
    (point : Variable → ℚ) :
    e.rationalAt point =
      e.constant.rational + (vs.map fun v => e.coefficientOf v * point v).sum := by
  rw [rationalAt, sum_linearTerms linear, sum_coefficientOf nodup known]

theorem OwnedBy.linear {e : Expression} {r : Registry} (owned : e.OwnedBy r) :
    ∀ t ∈ e.linearTerms, t.2 ∈ r.vars := fun t member =>
  Registry.mem_of_owns (owned _ (linearTerms_mem.1 member) t.2 List.mem_cons_self)

def productsAt (e : Expression) (vs : List Variable) (point : Variable → ℚ) : List (ℚ × ℚ) :=
  vs.map fun v => (e.coefficientOf v, point v)

/-- Nothing is rounded when an expression is added up, variable by variable and its constant
last. -/
structure IsSummedExactly (e : Expression) (vs : List Variable) (point : Variable → ℚ) : Prop where
  products : Unrounded 0 (e.productsAt vs point)
  total : Binary64.IsDouble (e.rationalAt point)

end Expression

namespace LinearProgram.Builder

def entryOf (e : Expression) (x : String) : Binary64 :=
  (((doubles e).get? x).map Binary64.settled).getD (Binary64.zero false)

/-- What an expression comes to at a point without its constant, in doubles that are added up in the
order of the names. -/
def sumAt (e : Expression) (names : List String) (xs : List Binary64) : Binary64 :=
  dot (names.map (entryOf e)) xs

theorem costUnder_doubles {e : Expression} (canonical : e.IsCanonical) (x : String) :
    costUnder (doubles e) x (Binary64.zero false) = entryOf e x := by
  rw [costUnder_of_nodup (doubles_nodup canonical), entryOf]
  refine congrArg (Option.getD · _) (congrArg (Option.map · _) (funext fun y => ?_))
  exact Binary64.zero_add y

theorem get?_sumByName_doubles {e : Expression} (canonical : e.IsCanonical) (x : String) :
    ((sumByName (doubles e)).get? x).getD (Binary64.zero false) = entryOf e x := by
  rw [get?_sumByName (doubles_nodup canonical), entryOf]

section Dot

variable {e : Expression} {vs : List Variable} {point : Variable → ℚ} {xs : List Binary64}
  (nodup : (vs.map (·.name)).Nodup) (known : ∀ t ∈ e.linearTerms, t.2 ∈ vs)
  (canonical : e.IsCanonical) (exact : e.IsExact)
include nodup known canonical exact

theorem toRat?_entryOf {v : Variable} (member : v ∈ vs) :
    (entryOf e v.name).toRat? = some (e.coefficientOf v) := by
  have own : ∀ t ∈ e.linearTerms, t.2.name = v.name → t.2 = v := fun t among same =>
    List.inj_on_of_nodup_map nodup (known t among) member same
  have distinct := byName_nodup canonical
  have doubles := exact.linear
  rw [entryOf, get?_doubles]
  unfold Expression.coefficientOf
  -- The induction is on the terms alone, without the expression that they belong to.
  clear known canonical exact
  generalize e.linearTerms = terms at own distinct doubles ⊢
  induction terms with
  | nil => simp [byName, Entries.get?, Binary64.toRat?_zero]
  | cons t terms ih =>
    obtain ⟨alone, distinct⟩ := List.nodup_cons.1 distinct
    obtain ⟨here, own⟩ := List.forall_mem_cons.1 own
    obtain ⟨double, doubles⟩ := List.forall_mem_cons.1 doubles
    have value := ih own distinct doubles
    by_cases same : t.2.name = v.name
    · -- No later term is about the variable, as the names of the terms are distinct.
      have absent : Entries.get? (byName terms) v.name = none :=
        Entries.get?_eq_none.2 (same ▸ alone)
      have found : Entries.get? (byName (t :: terms)) v.name = some t.1 :=
        (Entries.get?_cons _ _ _).trans (if_pos same)
      have rest : ((terms.filter (·.2 == v)).map (·.1.rational)).sum = 0 := by
        rw [absent] at value
        exact (Option.some.inj (value.symm.trans Binary64.toRat?_zero))
      have coefficient : (((t :: terms).filter (·.2 == v)).map (·.1.rational)).sum =
          t.1.rational := by
        rw [List.filter_cons_of_pos (by simp [here same]), List.map_cons, List.sum_cons, rest,
          add_zero]
      rw [found, coefficient]
      exact (Binary64.toRat?_settled _).trans double.toRat?_double
    · have differs : t.2 ≠ v := fun equal => same (congrArg (·.name) equal)
      have later : Entries.get? (byName (t :: terms)) v.name = Entries.get? (byName terms) v.name :=
        (Entries.get?_cons _ _ _).trans (if_neg same)
      rw [later, List.filter_cons_of_neg (by simpa using differs)]
      exact value

theorem toRat?_sumAt (finite : ∀ x ∈ xs, x.isFinite = true)
    (coordinates : xs.map Binary64.rational = vs.map point)
    (unrounded : Unrounded 0 (e.productsAt vs point)) :
    (sumAt e (vs.map (·.name)) xs).toRat? =
      some (vs.map fun v => e.coefficientOf v * point v).sum := by
  have entry (v : Variable) (member : v ∈ vs) :=
    toRat?_entryOf nodup known canonical exact member
  have coefficients : (vs.map fun v => entryOf e v.name).map Binary64.rational =
      vs.map e.coefficientOf := by
    rw [List.map_map]
    exact List.map_congr_left fun v member => Binary64.rational_eq (entry v member)
  have pairs : ((vs.map fun v => entryOf e v.name).map Binary64.rational).zip
      (xs.map Binary64.rational) = e.productsAt vs point := by
    rw [coefficients, coordinates, List.zip_map', Expression.productsAt]
  have allFinite : ∀ x ∈ vs.map fun v => entryOf e v.name, x.isFinite = true :=
    List.forall_mem_map.2 fun v member => Binary64.isFinite_of_toRat? (entry v member)
  rw [sumAt, List.map_map]
  refine (toRat?_dot allFinite finite (pairs ▸ unrounded)).trans ?_
  rw [pairs, Expression.productsAt, List.map_map]
  rfl

theorem toRat?_objective (linear : e.isQuadratic = false)
    (finite : ∀ x ∈ xs, x.isFinite = true)
    (coordinates : xs.map Binary64.rational = vs.map point)
    (summed : e.IsSummedExactly vs point) {sum constant : Binary64}
    (isSum : sum.toRat? = (sumAt e (vs.map (·.name)) xs).toRat?)
    (isConstant : constant.toRat? = some e.constant.rational) :
    (sum.add constant).toRat? = some (e.rationalAt point) := by
  have total := Expression.rationalAt_eq (List.Nodup.of_map _ nodup) known linear point
  rw [toRat?_sumAt nodup known canonical exact finite coordinates summed.products] at isSum
  rw [total, add_comm]
  exact Binary64.toRat?_add isSum isConstant (by rw [add_comm, ← total]; exact summed.total)

end Dot

end LinearProgram.Builder

namespace Expression

/-- An expression as it is once its numbers are doubles. -/
def inDoubles (e : Expression) : Expression where
  constant := .real e.constant.double
  terms := e.terms.map fun t => t.withCoefficient (.real t.coefficient.double)

variable {e : Expression}

theorem linearTerms_inDoubles :
    e.inDoubles.linearTerms = e.linearTerms.map fun t => (.real t.1.double, t.2) := by
  unfold linearTerms inDoubles
  rw [List.filterMap_map, List.map_filterMap]
  refine List.filterMap_congr fun t _ => ?_
  cases t <;> rfl

theorem isQuadratic_inDoubles : e.inDoubles.isQuadratic = e.isQuadratic := by
  rw [isQuadratic, inDoubles, List.any_map]
  refine congrArg (List.any _) (funext fun t => ?_)
  cases t <;> rfl

theorem IsCanonical.inDoubles (canonical : e.IsCanonical) (portable : e.IsPortable) :
    e.inDoubles.IsCanonical where
  distinct := by
    have subjects : e.inDoubles.terms.map Term.subject = e.terms.map Term.subject := by
      rw [Expression.inDoubles, List.map_map]
      refine List.map_congr_left fun t _ => ?_
      simp [Term.subject, Term.vars_withCoefficient]
    exact subjects ▸ canonical.distinct
  nonzero := by
    refine List.forall_mem_map.2 fun t member => ?_
    rw [Term.coefficient_withCoefficient, (portable.coefficients t member).isZero_double]
    exact canonical.nonzero t member
  ordered := List.forall_mem_map.2 fun t member =>
    Term.ordered_withCoefficient (canonical.ordered t member)

theorem IsPortable.inDoubles (portable : e.IsPortable) : e.inDoubles.IsExact where
  constant := portable.constant.isFinite.isExact_double
  coefficients := by
    refine List.forall_mem_map.2 fun t member => ?_
    rw [Term.coefficient_withCoefficient]
    exact (portable.coefficients t member).isFinite.isExact_double

theorem IsExact.rationalAt_inDoubles (exact : e.IsExact) (point : Variable → ℚ) :
    e.inDoubles.rationalAt point = e.rationalAt point := by
  rw [rationalAt, rationalAt, inDoubles, List.map_map, exact.constant.rational_double]
  refine congrArg (fun terms => _ + List.sum terms) (List.map_congr_left fun t member => ?_)
  simp [(exact.coefficients t member).rational_double]

theorem IsExact.coefficientOf_inDoubles (exact : e.IsExact) (v : Variable) :
    e.inDoubles.coefficientOf v = e.coefficientOf v := by
  rw [coefficientOf, coefficientOf, linearTerms_inDoubles, List.filter_map, List.map_map]
  refine congrArg List.sum (List.map_congr_left fun t member => ?_)
  exact (exact.linear t (List.mem_of_mem_filter member)).rational_double

theorem IsExact.isSummedExactly_inDoubles (exact : e.IsExact) {vs : List Variable}
    {point : Variable → ℚ} (summed : e.IsSummedExactly vs point) :
    e.inDoubles.IsSummedExactly vs point where
  products := by
    have products : e.inDoubles.productsAt vs point = e.productsAt vs point :=
      List.map_congr_left fun v _ => by rw [exact.coefficientOf_inDoubles]
    exact products ▸ summed.products
  total := exact.rationalAt_inDoubles point ▸ summed.total

end Expression

namespace LinearProgram.Builder

theorem entryOf_inDoubles {e : Expression} : entryOf e.inDoubles = entryOf e := by
  have same : doubles e.inDoubles = doubles e := by
    rw [doubles, doubles, byName, byName, Expression.linearTerms_inDoubles]
    simp only [List.map_map]
    rfl
  funext x
  rw [entryOf, same, entryOf]

theorem toRat?_total {e : Expression} {vs : List Variable} {point : Variable → ℚ}
    {xs : List Binary64} (nodup : (vs.map (·.name)).Nodup) (known : ∀ t ∈ e.linearTerms, t.2 ∈ vs)
    (canonical : e.IsCanonical) (portable : e.IsPortable) (linear : e.isQuadratic = false)
    (finitePoint : ∀ x ∈ xs, x.isFinite = true)
    (coordinates : xs.map Binary64.rational = vs.map point)
    (summed : e.inDoubles.IsSummedExactly vs point) {sum constant : Binary64}
    (isSum : sum.toRat? = (sumAt e (vs.map (·.name)) xs).toRat?)
    (isConstant : constant.toRat? = e.constant.double.toRat?) :
    (sum.add constant).toRat? = some (e.inDoubles.rationalAt point) := by
  have among : ∀ t ∈ e.inDoubles.linearTerms, t.2 ∈ vs := by
    rw [Expression.linearTerms_inDoubles, List.forall_mem_map]
    exact known
  have sameSum : sumAt e.inDoubles = sumAt e := by
    funext names ys
    rw [sumAt, entryOf_inDoubles, sumAt]
  refine toRat?_objective nodup among (canonical.inDoubles portable) portable.inDoubles
    (Expression.isQuadratic_inDoubles.trans linear) finitePoint coordinates summed
    (sameSum ▸ isSum) (isConstant.trans ?_)
  exact Binary64.toRat?_eq portable.constant.isFinite

end LinearProgram.Builder

end LinOpt
