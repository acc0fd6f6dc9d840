import LinOpt.Proofs.Model.Run
import LinOpt.Proofs.Program.Feasible

namespace LinOpt

theorem mapM_flatten_eq_nil {f : α → Except ε (List β)} {P : α → Prop} {as : List α}
    (step : ∀ a ∈ as, ∃ found, f a = .ok found ∧ (found = [] ↔ P a)) :
    ∃ found, as.mapM f = .ok found ∧ (found.flatten = [] ↔ ∀ a ∈ as, P a) := by
  induction as with
  | nil => exact ⟨[], rfl, by simp⟩
  | cons a as ih =>
    obtain ⟨⟨first, found, isFirst⟩, later⟩ := List.forall_mem_cons.1 step
    obtain ⟨rest, run, isRest⟩ := ih later
    refine ⟨first :: rest, mapM_cons_eq_ok.2 ⟨first, rest, found, run, rfl⟩, ?_⟩
    rw [List.flatten_cons, List.append_eq_nil_iff, isFirst, isRest, List.forall_mem_cons]

namespace Model

open LinearProgram (Contains)

theorem listIf_eq_nil {p : Bool} {a : α} : listIf p a = [] ↔ ¬ p = true := by
  cases p <;> simp [listIf]

theorem settled_same {a b : Number} (h : a.same b = true) : a.settled.same b = true := by
  obtain ⟨place, first, second⟩ := Number.same_iff.1 h
  exact Number.same_iff.2 ⟨place, (Number.rank?_number_settled a).trans first, second⟩

theorem variableViolations_eq_ok {v : Variable} (exact : v.IsExact) {x : Number} {r : ℚ}
    (value : x.toRat? = some r) :
    ∃ found, variableViolations (0 : Number) v (.number x) = .ok found ∧
      (found = [] ↔ Contains v.effectiveBounds r ∧ (v.isIntegral = true → ∃ k : ℤ, r = k)) := by
  obtain ⟨least, most⟩ := LinearProgram.effectiveBounds_same exact
  have lower := Number.not_lt_iff_isLower value (settled_same least)
  have upper := Number.not_lt_iff_isUpper value (settled_same most)
  obtain ⟨d, distance, apart⟩ := distanceToInt_eq_ok value
  have zero : Value.asNumber (0 : Number) = .ok 0 := rfl
  have own : Value.asNumber (.number x) = .ok x := rfl
  refine ⟨listIf (x.lt v.effectiveBounds.1.settled) (.lowerBound v (.number x) v.effectiveBounds.1)
    ++ listIf (v.effectiveBounds.2.settled.lt x) (.upperBound v (.number x) v.effectiveBounds.2)
    ++ listIf (v.isIntegral && (0 : Number).lt d) (.integrality v (.number x)), ?_, ?_⟩
  · simp only [variableViolations, zero, own, Number.sub_zero, Number.add_zero, inRange, bind,
      Except.bind]
    by_cases integral : v.isIntegral = true
    · simp only [integral, if_true, distance, Bool.true_and]
      rfl
    · simp only [integral, Bool.false_eq_true, if_false, Bool.false_and]
      rfl
  · rw [List.append_eq_nil_iff, List.append_eq_nil_iff, listIf_eq_nil, listIf_eq_nil, listIf_eq_nil,
      lower, upper, Bool.and_eq_true, not_and, apart, not_not]
    exact Iff.rfl

theorem rowViolations_eq_ok {valuation : Valuation} {values : Variable → Number} {c : Constraint}
    (linear : c.lhs.isQuadratic = false)
    (assigned : ∀ t ∈ c.lhs.linearTerms, valuation t.2 = .number (values t.2))
    (exactly : c.IsCheckedExactly values) (index : Nat) :
    ∃ found, rowViolations valuation (0 : Number) index c = .ok found ∧
      (found = [] ↔ c.HoldsAt fun v => (values v).rational) := by
  obtain ⟨holds, checked, isHolds⟩ := Constraint.isSatisfied_eq_ok linear assigned exactly
  obtain ⟨total, evaluated, -, -⟩ :=
    Expression.evaluate_eq_ok linear exactly.lhs.constant assigned exactly.activity
  cases holds with
  | true =>
    refine ⟨[], ?_, iff_of_true rfl (isHolds.1 rfl)⟩
    simp only [rowViolations, checked]
    rfl
  | false =>
    refine ⟨[.row index total c], ?_, iff_of_false (List.cons_ne_nil _ _) fun holdsAt => ?_⟩
    · simp only [rowViolations, checked, evaluated]
      rfl
    · exact Bool.false_ne_true (isHolds.2 holdsAt)

theorem checkFeasibility_eq_ok {m : Model} (linear : m.isQuadratic = false)
    (sound : m.WellFormed) (bounds : ∀ v ∈ m.registry.vars, v.IsExact)
    {values : Variable → Number} (assigned : ∀ v ∈ m.registry.vars,
      m.value v = .number (values v) ∧ (values v).toRat?.isSome = true)
    (exactly : ∀ c ∈ m.constraints, c.IsCheckedExactly values) :
    ∃ f, m.checkFeasibility (0 : Number) = .ok f ∧
      (f.holds = true ↔ m.HoldsAt fun v => (values v).rational) := by
  have set : ∀ v ∈ m.registry.vars, (m.value v).isNull = false := fun v member => by
    rw [(assigned v member).1]
    rfl
  have all : m.registry.vars.filter (fun v => !(m.value v).isNull) = m.registry.vars :=
    List.filter_eq_self.2 fun v member => by rw [set v member, Bool.not_false]
  have none : m.registry.vars.filter (fun v => (m.value v).isNull) = [] :=
    List.filter_eq_nil_iff.2 fun v member => by
      rw [set v member]
      exact Bool.false_ne_true
  -- Both halves of the check go through a list, and all is well if no item has findings.
  have columns : ∃ found, m.registry.vars.mapM
      (fun v => variableViolations (0 : Number) v (m.value v)) = .ok found ∧
      (found.flatten = [] ↔ ∀ v ∈ m.registry.vars, Contains v.effectiveBounds (values v).rational ∧
        (v.isIntegral = true → ∃ k : ℤ, (values v).rational = k)) := by
    refine mapM_flatten_eq_nil fun v member => ?_
    obtain ⟨number, finite⟩ := assigned v member
    obtain ⟨r, value⟩ := Option.isSome_iff_exists.1 finite
    rw [number, Number.rational_of_toRat? value]
    exact variableViolations_eq_ok (bounds v member) value
  have rows : ∃ found, m.constraints.zipIdx.mapM
      (fun i => rowViolations m.value (0 : Number) i.2 i.1) = .ok found ∧
      (found.flatten = [] ↔ ∀ i ∈ m.constraints.zipIdx,
        i.1.HoldsAt fun v => (values v).rational) := by
    refine mapM_flatten_eq_nil fun i member => ?_
    have known := List.fst_mem_of_mem_zipIdx member
    have owned := (sound.constraints _ known).owned.linear
    exact rowViolations_eq_ok (LinearProgram.isQuadratic_lhs linear known)
      (fun t among => (assigned _ (owned t among)).1) (exactly _ known) i.2
  obtain ⟨onColumns, columnsRun, columnsHold⟩ := columns
  obtain ⟨onRows, rowsRun, rowsHold⟩ := rows
  refine ⟨{ violations := onColumns.flatten ++ onRows.flatten, unset := [] }, ?_, ?_⟩
  · simp only [checkFeasibility, all, none]
    rw [columnsRun, ok_bind, rowsRun]
    rfl
  · rw [Feasibility.holds, List.isEmpty_nil, Bool.and_true, List.isEmpty_iff,
      List.append_eq_nil_iff, columnsHold, rowsHold]
    constructor
    · rintro ⟨onColumns, onRows⟩
      exact ⟨fun v member => (onColumns v member).1, fun v member => (onColumns v member).2,
        forall_zipIdx.1 onRows⟩
    · rintro ⟨inBounds, whole, hold⟩
      exact ⟨fun v member => ⟨inBounds v member, whole v member⟩,
        forall_zipIdx.2 hold⟩

/-- Without a tolerance the check of a model's values accepts exactly the points that are feasible
for the model's program. -/
theorem checkFeasibility_iff_feasible {m n : Model} (reachable : m.Reachable) (same : m.Agrees n)
    (linear : ¬ n.HasQuadraticTerm) (finite : n.IsFinite)
    (bounds : ∀ v ∈ n.registry.vars, v.IsExact)
    (default : ∀ v ∈ n.registry.vars, v.isBinary = true → v.hasDefaultBounds = true)
    (values : Variable → Number) (assigned : ∀ v ∈ n.registry.vars,
      n.value v = .number (values v) ∧ (values v).toRat?.isSome = true)
    (exactly : ∀ c ∈ n.constraints, c.IsCheckedExactly values) (engine : String) :
    ∃ p f, LinearProgram.ofModel n engine = .ok p ∧ n.checkFeasibility (0 : Number) = .ok f ∧
      p.columnNames = n.registry.names ∧
      (f.holds = true ↔ p.Feasible (n.registry.vars.map fun v => (values v).rational)) := by
  have sound := reachable.wellFormed.agrees same
  rw [← isQuadratic_iff, Bool.not_eq_true] at linear
  obtain ⟨f, checked, holds⟩ := checkFeasibility_eq_ok linear sound bounds assigned exactly
  have points := LinearProgram.feasible_build_iff sound linear bounds default
    (fun c member => (exactly c member).lhs) (fun c member => (exactly c member).rhs)
    n.objective.isMaximize n.objective.expression.constant fun v => (values v).rational
  exact ⟨_, f, LinearProgram.ofModel_eq_ok sound finite linear engine, checked,
    LinearProgram.Builder.names_columnsOf n _, holds.trans points.symm⟩

namespace Sample

def valued : Model :=
  (model.setValue x (1 : Number)).setValue y (1 : Number)

def row : Constraint where
  lhs := { terms := [.linear 1 x, .linear 3 y] }
  comparison := .le
  rhs := 5

end Sample

theorem sample_checkFeasibility_iff_feasible :
    ∃ p f, LinearProgram.ofModel Sample.valued "scipy" = .ok p ∧
      Sample.valued.checkFeasibility (0 : Number) = .ok f ∧
      p.columnNames = Sample.valued.registry.names ∧ (f.holds = true ↔ p.Feasible [1, 1]) := by
  have same : Sample.model.Agrees Sample.valued := ⟨rfl, rfl, rfl⟩
  have linear : ¬ Sample.valued.HasQuadraticTerm := by decide +kernel
  have finite : Sample.valued.IsFinite := by decide +kernel
  have bounds : ∀ v ∈ Sample.valued.registry.vars, v.IsExact := by decide +kernel
  have default : ∀ v ∈ Sample.valued.registry.vars,
      v.isBinary = true → v.hasDefaultBounds = true := by decide +kernel
  have vars : Sample.valued.registry.vars = [Sample.x, Sample.y] := by decide +kernel
  have rows : Sample.valued.constraints = [Sample.row] := by decide +kernel
  have apart : Sample.y ≠ Sample.x := by decide +kernel
  have assigned : ∀ v ∈ Sample.valued.registry.vars, Sample.valued.value v = .number 1 ∧
      (1 : Number).toRat?.isSome = true := by
    rw [vars, List.forall_mem_cons, List.forall_mem_singleton]
    simp only [Sample.valued, setValue, value, Session.value_assign, apart, if_true, if_false]
    exact ⟨⟨True.intro, rfl⟩, True.intro, rfl⟩
  have exactly : ∀ c ∈ Sample.valued.constraints, c.IsCheckedExactly fun _ => 1 := by
    rw [rows, List.forall_mem_singleton]
    exact ⟨by decide +kernel, by decide +kernel,
      Number.sumsExactly_int [(1, 1), (3, 1)] 0, fun equation => by cases equation⟩
  obtain ⟨p, f, compiled, checked, names, holds⟩ := checkFeasibility_iff_feasible Sample.reachable
    same linear finite bounds default (fun _ => 1) assigned exactly "scipy"
  have point : Sample.valued.registry.vars.map (fun _ => (1 : Number).rational) = [1, 1] := by
    have one : (1 : Number).rational = 1 := Int.cast_one
    simp only [vars, List.map_cons, List.map_nil, one]
  exact ⟨p, f, compiled, checked, names, point ▸ holds⟩

end Model

end LinOpt
