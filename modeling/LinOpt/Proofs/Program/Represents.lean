import LinOpt.Proofs.Program.Duals
import LinOpt.Proofs.Program.Glpk
import LinOpt.Proofs.Program.Objective

namespace LinOpt.LinearProgram

open Builder

structure Represents (p : LinearProgram) (m : Model) : Prop where
  objective : p.objective = p.columnNames.map (entryOf m.objective.expression)
  maximize : p.maximize = m.objective.isMaximize
  isIntegral : p.isIntegral = m.isIntegral
  matrix : p.matrix = m.constraints.map fun c => p.columnNames.map (entryOf c.lhs)
  limited : p.LimitedBy m.constraints
  shape : p.Rectangular

section

variable {m : Model} {g : Variable → Column} {row : Constraint × Nat → Row}
  (named : ∀ v, (g v).name = v.name)
include named

section rows

variable (rows : List Row) (offset : Number)

theorem names_build : (Builder.build ⟨m.registry.vars.map fun v => kindColumn v (priced
      (doubles m.objective.expression) (g v)), rows⟩
    m.objective.isMaximize offset).columnNames = m.registry.names :=
  names_columns (fun v => by simp [priced, named]) _

theorem objective_build (sound : m.WellFormed) (free : ∀ v, (g v).cost = Binary64.zero false) :
    (Builder.build ⟨m.registry.vars.map fun v => kindColumn v (priced
        (doubles m.objective.expression) (g v)), rows⟩ m.objective.isMaximize offset).objective =
      m.registry.names.map (entryOf m.objective.expression) := by
  rw [Registry.names]
  simp only [build, List.map_map]
  refine List.map_congr_left fun v _ => ?_
  simp [priced, named, free, costUnder_doubles sound.canonical]

omit named in
theorem isIntegral_build (unmarked : ∀ v, (g v).isIntegral = false) :
    (Builder.build ⟨m.registry.vars.map fun v => kindColumn v (priced
        (doubles m.objective.expression) (g v)), rows⟩ m.objective.isMaximize offset).isIntegral =
      m.isIntegral := by
  simp only [LinearProgram.isIntegral, build, List.map_map, Model.isIntegral, List.any_map]
  refine congrArg (List.any _) (funext fun v => ?_)
  simp only [Function.comp, isIntegral_kindColumn, priced, unmarked, Bool.or_false]
  cases v.isIntegral <;> rfl

end rows

variable {offset : Number}

theorem represents_build (sound : m.WellFormed) (finite : m.IsFinite)
    (free : ∀ v, (g v).cost = Binary64.zero false) (unmarked : ∀ v, (g v).isIntegral = false)
    (coefficients : ∀ i ∈ m.constraints.zipIdx, ∀ x,
      ((row i).coefficients.get? x).getD (Binary64.zero false) = entryOf i.1.lhs x)
    (limits : ∀ i, ((row i).lower, (row i).upper) = range i.1.comparison i.1.rhs.double) :
    (Builder.build ⟨m.registry.vars.map fun v => kindColumn v (priced
        (doubles m.objective.expression) (g v)), m.constraints.zipIdx.map row⟩
      m.objective.isMaximize offset).Represents m where
  objective := by
    rw [names_build named]
    exact objective_build named _ offset sound free
  maximize := rfl
  isIntegral := isIntegral_build _ offset unmarked
  matrix := by
    have names : Builder.names ⟨m.registry.vars.map fun v => kindColumn v (priced
        (doubles m.objective.expression) (g v)), m.constraints.zipIdx.map row⟩ =
        m.registry.names := names_build named _ offset
    have entries : ∀ i ∈ m.constraints.zipIdx, (m.registry.names.map fun x =>
        ((row i).coefficients.get? x).getD (Binary64.zero false)) =
          m.registry.names.map (entryOf i.1.lhs) :=
      fun i member => List.map_congr_left fun x _ => coefficients i member x
    rw [names_build named, matrix_build, names, List.map_map]
    refine (List.map_congr_left entries).trans ?_
    conv_rhs => rw [← List.zipIdx_map_fst 0 m.constraints, List.map_map]
    rfl
  limited := by
    refine limitedBy_of_limits finite.rhs ?_ (by simp [rowCount, build])
    have zipped : (m.constraints.zipIdx.map row).map (fun r => (r.lower, r.upper)) =
        m.constraints.map fun c => range c.comparison c.rhs.double := by
      conv_rhs => rw [← List.zipIdx_map_fst 0 m.constraints]
      rw [List.map_map, List.map_map]
      exact List.map_congr_left fun i _ => limits i
    rw [← zipped, LinearProgram.limits, rowCount]
    simp only [build, List.zip_map', List.length_map, List.take_of_length_le, le_refl]
  shape := rectangular_build _ _ _

end

variable {m : Model}

theorem priced_kindColumn (costs : List (String × Binary64)) (v : Variable) (c : Column) :
    priced costs (kindColumn v c) = kindColumn v (priced costs c) := by
  unfold kindColumn
  split
  · simp only [priced, binaryColumn]
  · split
    · simp only [priced, integralColumn]
    · rfl

theorem entries_rowOf (sound : m.WellFormed) : ∀ i ∈ m.constraints.zipIdx, ∀ x,
    ((rowOf i).coefficients.get? x).getD (Binary64.zero false) = entryOf i.1.lhs x :=
  fun _ member x => get?_sumByName_doubles
    (sound.constraints _ (List.fst_mem_of_mem_zipIdx member)).canonical x

theorem represents_model (sound : m.WellFormed) (finite : m.IsFinite) (offset : Number) :
    (Builder.build ⟨columnsOf m, m.constraints.zipIdx.map rowOf⟩ m.objective.isMaximize
      offset).Represents m := by
  have columns : columnsOf m = m.registry.vars.map fun v => kindColumn v (priced
      (doubles m.objective.expression)
      { name := v.name, lower := v.lower.double, upper := v.upper.double }) := by
    rw [columnsOf, List.map_map]
    exact List.map_congr_left fun v _ => priced_kindColumn _ v _
  rw [columns]
  exact represents_build (fun _ => rfl) sound finite (fun _ => rfl) (fun _ => rfl)
    (entries_rowOf sound) fun _ => rfl

theorem represents_glpk (sound : m.WellFormed) (finite : m.IsFinite) :
    (ofGlpk (Glpk.requestOf m)).Represents m ∧
      (ofGlpk (Glpk.requestOf m)).columnNames = m.registry.names := by
  rw [Glpk.ofGlpk_requestOf sound]
  exact ⟨represents_build (g := Glpk.limited) (fun _ => rfl) sound finite (fun _ => rfl)
    (fun _ => rfl) (entries_rowOf sound) fun _ => rfl, names_build (fun _ => rfl) _ _⟩

/-- An outcome with a finite point for a number of columns and the rows of some constraints. Of the
marginals, those that are there are one for each inequality, each equation and each column. -/
structure Outcome.GivesPoint (cs : List Constraint) (columns : Nat) (outcome : Outcome)
    (point : List Binary64) : Prop where
  code : outcome.code = 0 ∨ outcome.code = 1
  isPoint : outcome.point = some point
  length : point.length = columns
  finite : ∀ x ∈ point, x.isFinite = true
  upper : ∀ xs, outcome.upperMarginals = some xs → xs.length = cs.countP (!·.isEquation)
  equal : ∀ xs, outcome.equalMarginals = some xs → xs.length = cs.countP (·.isEquation)
  lowerBounds : ∀ xs, outcome.lowerBoundMarginals = some xs → xs.length = columns
  upperBounds : ∀ xs, outcome.upperBoundMarginals = some xs → xs.length = columns

def Outcome.sample : Outcome :=
  { code := 0, message := "", point := some [Number.double 1, Number.double 1] }

theorem Outcome.sample_givesPoint (cs : List Constraint) :
    Outcome.sample.GivesPoint cs 2 [Number.double 1, Number.double 1] where
  code := .inl rfl
  isPoint := rfl
  length := rfl
  finite := by simp [Number.isExact_one.isFinite_double]
  upper := nofun
  equal := nofun
  lowerBounds := nofun
  upperBounds := nofun

theorem sample_vars : Model.Sample.model.registry.vars = [Model.Sample.x, Model.Sample.y] := by
  decide +kernel

theorem sample_objective : Model.Sample.model.objective.expression =
    { constant := 1, terms := [.linear 2 Model.Sample.x, .linear 1 Model.Sample.y] } := by
  decide +kernel

section

variable {f : Variable → ℚ} (first : f Model.Sample.x = 1) (second : f Model.Sample.y = 1)
include first second

theorem sample_rationalAt : Model.Sample.model.objective.expression.rationalAt f = 4 := by
  have sum : (1 : ℚ) + (2 * 1 + 1 * 1) = 4 := by norm_num
  simpa [sample_objective, Expression.rationalAt, Term.vars, Term.coefficient, first, second,
    Number.rational] using sum

theorem sample_isSummedExactly : Model.Sample.model.objective.expression.IsSummedExactly
    [Model.Sample.x, Model.Sample.y] f where
  products := by
    have distinct : (Model.Sample.y == Model.Sample.x) = false ∧
        (Model.Sample.x == Model.Sample.y) = false := by decide
    have products : Model.Sample.model.objective.expression.productsAt
        [Model.Sample.x, Model.Sample.y] f = [(2, 1), (1, 1)] := by
      simp [sample_objective, Expression.productsAt, Expression.coefficientOf,
        Expression.linearTerms, distinct, first, second, Number.rational]
    have whole (k : Int) (exact : (Number.int k).IsExact) : Binary64.IsDouble k := exact.isDouble
    rw [products]
    refine ⟨?_, ?_, ?_, ?_, trivial⟩
    · simpa using whole 2 (by decide +kernel)
    · simpa using whole 2 (by decide +kernel)
    · simpa using whole 1 (by decide +kernel)
    · convert whole 3 (by decide +kernel)
      norm_num
  total := by
    rw [sample_rationalAt first second]
    exact Number.IsExact.isDouble (n := 4) (by decide +kernel)

end
namespace Represents

variable {p : LinearProgram} {outcome : Outcome} {point : List Binary64}

theorem length_zipIdx_filter (cs : List Constraint) (test : Constraint → Bool) :
    (cs.zipIdx.filter fun indexed => test indexed.1).length = cs.countP test := by
  have places : cs.zipIdx.countP (fun indexed => test indexed.1) = cs.countP test := by
    conv_rhs => rw [← List.zipIdx_map_fst 0 cs, List.countP_map]
    rfl
  rw [← places, List.countP_eq_length_filter]

theorem length_upperParts (same : p.Represents m) :
    p.upperParts.length = m.constraints.countP (!·.isEquation) := by
  rw [upperParts_eq same.limited, List.length_map,
    length_zipIdx_filter m.constraints (!·.isEquation)]

theorem length_equationRows (same : p.Represents m) :
    p.equationRows.length = m.constraints.countP (·.isEquation) := by
  rw [equationRows_eq same.limited, List.length_map,
    length_zipIdx_filter m.constraints (·.isEquation)]

/-- Marginals for the constraints of a model are marginals for the rows of its program. -/
theorem fits (same : p.Represents m)
    (gives : outcome.GivesPoint m.constraints p.columnCount point) : outcome.Fits p where
  upper := same.length_upperParts ▸ gives.upper
  equal := same.length_equationRows ▸ gives.equal
  lowerBounds := gives.lowerBounds
  upperBounds := gives.upperBounds

theorem givesPoint (same : p.Represents m) (fits : outcome.Fits p)
    (code : outcome.code = 0 ∨ outcome.code = 1) (isPoint : outcome.point = some point)
    (length : point.length = p.columnCount) (finite : ∀ x ∈ point, x.isFinite = true) :
    outcome.GivesPoint m.constraints p.columnCount point where
  code
  isPoint
  length
  finite
  upper := same.length_upperParts ▸ fits.upper
  equal := same.length_equationRows ▸ fits.equal
  lowerBounds := fits.lowerBounds
  upperBounds := fits.upperBounds

theorem rowDuals (same : p.Represents m)
    (gives : outcome.GivesPoint m.constraints p.columnCount point) (objectiveValue : Number)
    (i : Nat) :
    ((p.solutionAt outcome point objectiveValue).rowDuals >>= fun duals => duals[i]?) =
      if m.isIntegral = false ∧ outcome.code = 0 ∧ HasMarginals m.constraints outcome then
        sensitivity? m.objective.isMaximize m.constraints outcome i
      else none := by
  have complete : p.lacksMarginals outcome = false ↔ HasMarginals m.constraints outcome :=
    lacksMarginals_iff same.limited
  have asked : p.hasDuals outcome = true ↔ m.isIntegral = false ∧ outcome.code = 0 := by
    simp [hasDuals, same.isIntegral]
  have conditions : m.isIntegral = false ∧ outcome.code = 0 ∧ HasMarginals m.constraints outcome ↔
      p.hasDuals outcome = true ∧ p.lacksMarginals outcome = false := by
    rw [asked, complete, and_assoc]
  have duals : (p.solutionAt outcome point objectiveValue).rowDuals =
      if p.hasDuals outcome = true ∧ p.lacksMarginals outcome = false then
        some ((p.marginalSums outcome).map p.directed)
      else none := by
    unfold solutionAt rowDuals?
    cases p.hasDuals outcome <;> cases p.lacksMarginals outcome <;> rfl
  simp only [duals, conditions]
  split
  next answered =>
    exact same.maximize ▸ getElem?_marginalSums same.limited (same.fits gives) answered.2 i
  next => rfl

end Represents

theorem length_rowDuals (p : LinearProgram) (outcome : Outcome) (point : List Binary64)
    (objectiveValue : Number) :
    ∀ duals, (p.solutionAt outcome point objectiveValue).rowDuals = some duals →
      duals.length = p.rowNames.length := by
  intro duals given
  unfold solutionAt rowDuals? at given
  dsimp only at given
  split at given
  · split at given
    · cases given
    · cases given
      rw [List.length_map, marginalSums, length_foldl_addAt, List.length_replicate]
      rfl
  · cases given

theorem length_columnDuals {p : LinearProgram} {outcome : Outcome} (fits : outcome.Fits p)
    (point : List Binary64) (objectiveValue : Number) :
    ∀ duals, (p.solutionAt outcome point objectiveValue).columnDuals = some duals →
      duals.length = p.columnNames.length := by
  intro duals given
  unfold solutionAt at given
  dsimp only at given
  split at given
  · obtain ⟨lower, isLower, given⟩ := Option.bind_eq_some_iff.1 given
    obtain ⟨upper, isUpper, given⟩ := Option.bind_eq_some_iff.1 given
    cases given
    rw [List.length_map, List.length_zipWith, fits.lowerBounds lower isLower,
      fits.upperBounds upper isUpper, Nat.min_self]
    rfl
  · cases given

end LinOpt.LinearProgram
