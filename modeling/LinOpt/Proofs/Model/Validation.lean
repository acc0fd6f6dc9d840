import LinOpt.Proofs.Model.Exact
import LinOpt.Proofs.Model.Feasibility

namespace LinOpt

theorem forall_of_mapM_flatten_eq_nil {f : α → Except ε (List β)} {as : List α}
    {found : List (List β)} (run : as.mapM f = .ok found) (nothing : found.flatten = []) :
    ∀ a ∈ as, f a = .ok [] := by
  induction as generalizing found with
  | nil => exact List.forall_mem_nil _
  | cons a as ih =>
    obtain ⟨first, rest, one, others, rfl⟩ := mapM_cons_eq_ok.1 run
    obtain ⟨rfl, later⟩ := List.append_eq_nil_iff.1 nothing
    exact List.forall_mem_cons.2 ⟨one, ih others later⟩

theorem flatten_eq_nil_of_mapM {f : α → Except ε (List β)} {as : List α} {found : List (List β)}
    (run : as.mapM f = .ok found) (step : ∀ a ∈ as, ∀ bs, f a = .ok bs → bs = []) :
    found.flatten = [] := by
  induction as generalizing found with
  | nil =>
    cases run
    rfl
  | cons a as ih =>
    obtain ⟨first, rest, one, others, rfl⟩ := mapM_cons_eq_ok.1 run
    obtain ⟨own, later⟩ := List.forall_mem_cons.1 step
    rw [List.flatten_cons, own first one, ih others later]
    rfl

namespace Number

theorem rank?_negated (n : Number) : n.neg.rank? = n.rank?.map fun (i, j) => (-i, -j) := by
  cases n with
  | int k =>
    rw [neg, rank?_int, rank?_int, Option.map_some, Int.neg_mul, Int.cast_neg]
    rfl
  | real x => exact rank?_neg x
  | ratio q =>
    rw [neg, rank?_ratio, rank?_ratio, Option.map_some, neg_mul]
    rfl

theorem abs_le_zero_iff {n : Number} : n.abs.le 0 = true ↔ n.isZero = true := by
  cases rank : n.rank? with
  | none =>
    cases n with
    | int k => cases rank
    | ratio q => cases rank
    | real x =>
      cases x with
      | nan => exact iff_of_false (by decide) (by decide)
      | infinite negative => cases rank
      | finite negative quanta short bound => cases rank
  | some p => rw [le_iff_not_lt (rank?_abs rank) rank?_zero, zero_lt_abs rank, not_not]

theorem abs_neg_le_zero {n : Number} (apart : n.same 0 = false) :
    n.neg.settled.abs.le 0 = false := by
  refine Bool.eq_false_of_not_eq_true fun within => ?_
  have nothing := isZero_iff.1 (abs_le_zero_iff.1 within)
  rw [rank?_number_settled, rank?_negated, Option.map_eq_some_iff] at nothing
  obtain ⟨⟨i, j⟩, rank, turned⟩ := nothing
  obtain ⟨side, place⟩ := Prod.mk.inj turned
  have zero : n.rank? = some (0, 0) := by rw [rank, neg_eq_zero.1 side, neg_eq_zero.1 place]
  have isZero : n.same 0 = true := isZero_iff.2 zero
  rw [apart] at isZero
  cases isZero

theorem ranks_of_lt {a b : Number} (below : a.lt b = true) :
    ∃ p q, a.rank? = some p ∧ b.rank? = some q := by
  unfold lt compares at below
  split at below
  next first second => exact ⟨_, _, first, second⟩
  next => cases below

theorem not_le_of_lt {a b : Number} (below : a.lt b = true) : b.le a = false := by
  obtain ⟨p, q, first, second⟩ := ranks_of_lt below
  exact Bool.eq_false_of_not_eq_true fun above => (le_iff_not_lt second first).1 above below

theorem lt_settled_left (a b : Number) : a.settled.lt b = a.lt b := by
  simp only [lt, compares, rank?_number_settled]

theorem lt_settled_right (a b : Number) : a.lt b.settled = a.lt b := by
  simp only [lt, compares, rank?_number_settled]

theorem not_lt_of_between {a b x : Number} (number : x.isNaN = false) (least : x.lt a = false)
    (most : b.lt x = false) : b.lt a = false := by
  refine Bool.eq_false_of_not_eq_true fun crossed => ?_
  obtain ⟨q, p, second, first⟩ := ranks_of_lt crossed
  obtain ⟨r, rank⟩ : ∃ r, x.rank? = some r := by
    cases x with
    | int k => exact ⟨_, rank?_int k⟩
    | real x => exact exists_rank number
    | ratio q => exact ⟨_, rank?_ratio q⟩
  rw [lt_iff second first] at crossed
  have notBelow := (lt_iff rank first).not.1 (Bool.eq_false_iff.1 least)
  have notAbove := (lt_iff second rank).not.1 (Bool.eq_false_iff.1 most)
  grind

end Number

namespace Model

theorem crossedBounds_eq_nil {v : Variable} {value : Value} {x : Number}
    (isValue : value.toNumber? = some x) (number : x.isNaN = false)
    (checked : variableViolations (0 : Number) v value = .ok []) (notBinary : v.isBinary = false) :
    crossedBounds v = .ok [] := by
  have bounds : v.effectiveBounds = (v.lower, v.upper) := by
    rw [Declaration.effectiveBounds, notBinary, if_neg Bool.false_ne_true]
  have own : value.asNumber = .ok x := by rw [Value.asNumber, isValue]
  rw [variableViolations, bounds] at checked
  obtain ⟨tolerance, zero, checked⟩ := bind_eq_ok.1 checked
  cases zero
  obtain ⟨least, lower, checked⟩ := bind_eq_ok.1 checked
  obtain ⟨y, same, checked⟩ := bind_eq_ok.1 checked
  obtain ⟨greatest, upper, checked⟩ := bind_eq_ok.1 checked
  -- Without a tolerance the value is compared with the bounds themselves.
  have nothing : listIf (y.lt least) (Violation.lowerBound v value v.lower) ++
      listIf (greatest.lt y) (Violation.upperBound v value v.upper) = [] := by
    dsimp only at checked
    split at checked
    · obtain ⟨fractional, -, checked⟩ := bind_eq_ok.1 checked
      exact (List.append_eq_nil_iff.1 (Except.ok.inj checked)).1
    · obtain ⟨fractional, -, checked⟩ := bind_eq_ok.1 checked
      exact (List.append_eq_nil_iff.1 (Except.ok.inj checked)).1
  rw [own] at same
  cases same
  rw [Number.sub_zero, inRange] at lower
  rw [Number.add_zero, inRange] at upper
  cases lower
  cases upper
  obtain ⟨least, most⟩ := List.append_eq_nil_iff.1 nothing
  rw [listIf_eq_nil, Number.lt_settled_right, Bool.not_eq_true] at least
  rw [listIf_eq_nil, Number.lt_settled_left, Bool.not_eq_true] at most
  rw [crossedBounds, Number.not_lt_of_between number least most, if_neg Bool.false_ne_true]

/-- What is found about the bounds of variables, if only binary ones can have crossed bounds. -/
theorem crossedBounds_of_findings {vs : List Variable} {findings : List (List String × List String)}
    (run : vs.mapM variableFindings = .ok findings)
    (nothing : ∀ v ∈ vs, v.isBinary = false → crossedBounds v = .ok []) :
    List.flatten <$> (vs.filter (·.isBinary)).mapM crossedBounds =
      .ok (findings.flatMap Prod.fst) := by
  induction vs generalizing findings with
  | nil =>
    cases run
    rfl
  | cons v vs ih =>
    obtain ⟨first, rest, one, later, rfl⟩ := mapM_cons_eq_ok.1 run
    obtain ⟨own, others⟩ := List.forall_mem_cons.1 nothing
    obtain ⟨errors, crossed, one⟩ := bind_eq_ok.1 one
    obtain ⟨warnings, -, one⟩ := bind_eq_ok.1 one
    cases one
    obtain ⟨found, crossings, same⟩ := map_eq_ok.1 (ih later others)
    rw [List.flatMap_cons, ← same]
    cases binary : v.isBinary with
    | true =>
      have both := mapM_cons_eq_ok.2 ⟨errors, found, crossed, crossings, rfl⟩
      rw [List.filter_cons, if_pos binary, both]
      rfl
    | false =>
      rw [own binary] at crossed
      cases crossed
      rw [List.filter_cons, if_neg (Bool.eq_false_iff.1 binary), crossings]
      rfl

theorem isSatisfied_of_failsWhenEmpty {c : Constraint} (empty : c.lhs.terms = [])
    (constant : c.lhs.constant = 0) (fails : failsWhenEmpty c = true) (valuation : Valuation) :
    c.isSatisfied valuation (0 : Number) = .ok (some false) := by
  have zero : Value.asNumber (0 : Number) = .ok 0 := rfl
  have activity : c.lhs.evaluate valuation = .ok (some 0) := by
    rw [Expression.evaluate, empty, constant]
    rfl
  rw [Constraint.isSatisfied, activity]
  cases comparison : c.comparison with
  | le =>
    rw [failsWhenEmpty, comparison] at fails
    have unmet : (0 : Number).le c.rhs.settled = false :=
      Number.not_le_of_lt ((Number.lt_settled_left _ _).trans fails)
    simp only [zero, Number.add_zero, inRange, bind, Except.bind, unmet]
    rfl
  | ge =>
    rw [failsWhenEmpty, comparison] at fails
    have unmet : c.rhs.settled.le 0 = false :=
      Number.not_le_of_lt ((Number.lt_settled_right _ _).trans fails)
    simp only [zero, Number.sub_zero, inRange, bind, Except.bind, unmet]
    rfl
  | eq =>
    rw [failsWhenEmpty, comparison, Bool.not_eq_true'] at fails
    have difference : (0 : Number).sub c.rhs = some c.rhs.neg.settled := Number.zero_add _
    have unmet := Number.abs_neg_le_zero fails
    simp only [difference, zero, inRange, bind, Except.bind, unmet]
    rfl

theorem rowErrors_eq_nil {c : Constraint} {valuation : Valuation} {index place : Nat}
    {errors : List String} (constant : c.lhs.constant = 0)
    (checked : rowViolations valuation (0 : Number) place c = .ok [])
    (reported : rowErrors index c = .ok errors) : errors = [] := by
  rw [rowErrors] at reported
  split at reported
  next empty =>
    rw [Bool.and_eq_true, List.isEmpty_iff] at empty
    have unmet := isSatisfied_of_failsWhenEmpty empty.1 constant empty.2 valuation
    have activity : c.lhs.evaluate valuation = .ok (some 0) := by
      rw [Expression.evaluate, empty.1, constant]
      rfl
    simp only [rowViolations, unmet, activity] at checked
    cases checked
  next =>
    cases reported
    rfl

theorem checks_of_holds {m : Model} {f : Feasibility}
    (checked : m.checkFeasibility (0 : Number) = .ok f) (holds : f.holds = true) :
    (∀ v ∈ m.registry.vars, variableViolations (0 : Number) v (m.value v) = .ok []) ∧
      ∀ c ∈ m.constraints, ∃ place, rowViolations m.value (0 : Number) place c = .ok [] := by
  obtain ⟨onVariables, columns, checked⟩ := bind_eq_ok.1 checked
  obtain ⟨onRows, rows, checked⟩ := bind_eq_ok.1 checked
  cases checked
  obtain ⟨violations, unset⟩ := Bool.and_eq_true_iff.1 holds
  obtain ⟨noColumns, noRows⟩ := List.append_eq_nil_iff.1 (List.isEmpty_iff.1 violations)
  have set : ∀ v ∈ m.registry.vars, (m.value v).isNull = false := fun v member =>
    Bool.eq_false_iff.2 (List.filter_eq_nil_iff.1
      (List.map_eq_nil_iff.1 (List.isEmpty_iff.1 unset)) v member)
  have each := forall_of_mapM_flatten_eq_nil columns noColumns
  constructor
  · intro v member
    refine each v (List.mem_filter.2 ⟨member, ?_⟩)
    rw [set v member, Bool.not_false]
  · intro c member
    obtain ⟨place, inside, rfl⟩ := List.getElem_of_mem member
    have indexed := List.mk_mem_zipIdx_iff_getElem?.2 (List.getElem?_eq_getElem inside)
    exact ⟨_, forall_of_mapM_flatten_eq_nil rows noRows _ indexed⟩

/-- An error that is reported of a model is one of those about the declared bounds of binary
variables, or no numbers meet the model's bounds, whole-number conditions and rows. -/
theorem infeasible_of_error {m n : Model} (reachable : m.Reachable) (same : m.Agrees n)
    {report : Report} (validated : n.validate = .ok report)
    (error : List.flatten <$> (n.registry.vars.filter (·.isBinary)).mapM crossedBounds ≠
      .ok report.errors)
    (assigned : ∀ v ∈ n.registry.vars, ∃ x, (n.value v).toNumber? = some x ∧ x.isNaN = false) :
    ∀ f, n.checkFeasibility (0 : Number) = .ok f → f.holds = false := by
  intro f checked
  refine Bool.eq_false_of_not_eq_true fun holds => error ?_
  have sound := reachable.wellFormed.agrees same
  obtain ⟨columns, rows⟩ := checks_of_holds checked holds
  obtain ⟨findings, found, validated⟩ := bind_eq_ok.1 validated
  obtain ⟨rowsFound, reported, validated⟩ := bind_eq_ok.1 validated
  cases validated
  have noRows : rowsFound.flatten = [] := by
    refine flatten_eq_nil_of_mapM reported fun i member errors found => ?_
    have known := List.fst_mem_of_mem_zipIdx member
    obtain ⟨place, nothing⟩ := rows i.1 known
    exact rowErrors_eq_nil (sound.constraints i.1 known).constant nothing found
  -- With a value within its bounds, only a binary variable can have crossed ones.
  rw [noRows, List.append_nil]
  refine crossedBounds_of_findings found fun v member notBinary => ?_
  obtain ⟨x, isValue, number⟩ := assigned v member
  exact crossedBounds_eq_nil isValue number (columns v member) notBinary

namespace Sample

def crossedX : Variable :=
  { name := "x", lower := 3, upper := 2, id := ⟨0, 0⟩ }

def crossed : Model :=
  (empty 0).run [
    .addVar { name := .text "x", lower := (3 : Number), upper := (2 : Number) },
    .addConstraint (.list [.var crossedX]) (.text ">=") (.list [.var crossedX, .number 1])]

def crossedValued : Model :=
  crossed.setValue crossedX (3 : Number)

end Sample

theorem sample_infeasible_of_error :
    ∃ report, Sample.crossedValued.validate = .ok report ∧ report.errors =
        ["Variable x: lower bound (3) > upper bound (2)",
          "Constraint 0: 0 >= 1 can never be satisfied"] ∧
      ∀ f, Sample.crossedValued.checkFeasibility (0 : Number) = .ok f → f.holds = false := by
  have reachable : Sample.crossed.Reachable := ⟨0, _, rfl⟩
  have same : Sample.crossed.Agrees Sample.crossedValued := ⟨rfl, rfl, rfl⟩
  have outcome : Sample.crossedValued.validate.toOption.map Report.errors = some
      ["Variable x: lower bound (3) > upper bound (2)",
        "Constraint 0: 0 >= 1 can never be satisfied"] := by decide +kernel
  obtain ⟨report, validated, errors⟩ := Option.map_eq_some_iff.1 outcome
  rw [toOption_eq_some] at validated
  have vars : Sample.crossedValued.registry.vars = [Sample.crossedX] := by decide +kernel
  have others : List.flatten <$> (Sample.crossedValued.registry.vars.filter (·.isBinary)).mapM
      crossedBounds = .ok [] := by
    rw [vars]
    rfl
  have assigned : ∀ v ∈ Sample.crossedValued.registry.vars, ∃ x,
      (Sample.crossedValued.value v).toNumber? = some x ∧ x.isNaN = false := by
    rw [vars, List.forall_mem_singleton]
    exact ⟨3, rfl, rfl⟩
  refine ⟨report, validated, errors, infeasible_of_error reachable same validated ?_ assigned⟩
  rw [errors, others]
  exact fun same => List.cons_ne_nil _ _ (Except.ok.inj same).symm

namespace Sample

def crossedBinary : Variable :=
  { name := "x", lower := 1, upper := 0, kind := .binary, id := ⟨0, 0⟩ }

def crossedUnit : Model :=
  (empty 0).run [.addVar
    { name := .text "x", lower := (1 : Number), upper := (0 : Number), kind := .text "binary" }]

end Sample

/-- A model with an error in its report that the value 0 of its only variable is feasible for. -/
theorem crossed_binary_is_feasible :
    Sample.crossedUnit.Reachable ∧ Sample.crossedUnit.IsExact ∧
      Sample.crossedUnit.registry.vars = [Sample.crossedBinary] ∧
      (∃ report, Sample.crossedUnit.validate = .ok report ∧ report.isValid = false) ∧
      ∃ f, (Sample.crossedUnit.setValue Sample.crossedBinary (0 : Number)).checkFeasibility
        (0 : Number) = .ok f ∧ f.holds = true := by
  have invalid : Sample.crossedUnit.validate.toOption.map Report.isValid = some false := by
    decide +kernel
  have feasible : ((Sample.crossedUnit.setValue Sample.crossedBinary
      (0 : Number)).checkFeasibility (0 : Number)).toOption.map Feasibility.holds = some true := by
    decide +kernel
  obtain ⟨report, validated, isInvalid⟩ := Option.map_eq_some_iff.1 invalid
  obtain ⟨f, checked, holds⟩ := Option.map_eq_some_iff.1 feasible
  exact ⟨⟨0, _, rfl⟩, by decide +kernel, by decide +kernel,
    ⟨report, toOption_eq_some.1 validated, isInvalid⟩, f, toOption_eq_some.1 checked, holds⟩

end Model

end LinOpt
