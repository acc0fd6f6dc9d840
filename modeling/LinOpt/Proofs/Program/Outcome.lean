import LinOpt.Program.Builder
import LinOpt.Program.Solve
import LinOpt.Proofs.Outcome

namespace LinOpt.LinearProgram

/-- Every row has a coefficient for each column, and two limits. -/
structure Rectangular (p : LinearProgram) : Prop where
  objective : p.objective.length = p.columnCount
  matrix : p.matrix.length = p.rowCount
  rows : ∀ row ∈ p.matrix, row.length = p.columnCount
  limits : p.limits.length = p.rowCount

theorem Builder.rectangular_build (b : Builder) (maximize : Bool) (offset : Number) :
    (b.build maximize offset).Rectangular where
  objective := by simp [build, columnCount]
  matrix := by simp [build, rowCount]
  rows := by
    intro row member
    obtain ⟨r, -, rfl⟩ := List.mem_map.1 member
    simp [build, columnCount]
  limits := by simp [limits, build, rowCount]

namespace Outcome

/-- The marginals that are there are one for each part of the question. -/
structure Fits (p : LinearProgram) (outcome : Outcome) : Prop where
  upper : ∀ xs, outcome.upperMarginals = some xs → xs.length = p.upperParts.length
  equal : ∀ xs, outcome.equalMarginals = some xs → xs.length = p.equationRows.length
  lowerBounds : ∀ xs, outcome.lowerBoundMarginals = some xs → xs.length = p.columnCount
  upperBounds : ∀ xs, outcome.upperBoundMarginals = some xs → xs.length = p.columnCount

end Outcome

def lacksMarginals (p : LinearProgram) (outcome : Outcome) : Bool :=
  (!p.upperParts.isEmpty && outcome.upperMarginals.isNone)
    || (!p.equationRows.isEmpty && outcome.equalMarginals.isNone)

/-- The marginals of the parts and of the equations, each with its row and its sign. -/
def rowMarginals (p : LinearProgram) (outcome : Outcome) : List (Nat × Binary64) :=
  (p.upperParts.zip (outcome.upperMarginals.getD [])).map
      (fun (part, x) => (part.row, signed part.negative x))
    ++ p.equationRows.zip (outcome.equalMarginals.getD [])

def marginalSums (p : LinearProgram) (outcome : Outcome) : List Binary64 :=
  (p.rowMarginals outcome).foldl (fun duals (row, x) => addAt row x duals)
    (List.replicate p.rowCount (Binary64.zero false))

def rowDuals? (p : LinearProgram) (outcome : Outcome) : Option (List Binary64) :=
  if p.lacksMarginals outcome then none else some ((p.marginalSums outcome).map p.directed)

def columnDuals? (p : LinearProgram) (outcome : Outcome) : Option (List Binary64) := do
  let lower ← outcome.lowerBoundMarginals
  let upper ← outcome.upperBoundMarginals
  return (List.zipWith Binary64.add lower upper).map p.directed

def hasDuals (p : LinearProgram) (outcome : Outcome) : Bool :=
  !p.isIntegral && outcome.code == 0

def solutionAt (p : LinearProgram) (outcome : Outcome) (point : List Binary64)
    (objectiveValue : Number) : Solution where
  status := statusOfCode outcome.code true
  message := outcome.message
  point := some point
  objectiveValue := some objectiveValue
  rowActivity := some (p.matrix.map fun row => dot row point)
  rowDuals := if p.hasDuals outcome then p.rowDuals? outcome else none
  columnDuals := if p.hasDuals outcome then p.columnDuals? outcome else none

variable {p : LinearProgram} {outcome : Outcome} {point : List Binary64}

theorem length_getD {parts : List α} {given : Option (List Binary64)}
    (fits : ∀ xs, given = some xs → xs.length = parts.length)
    (known : (!parts.isEmpty && given.isNone) = false) :
    (given.getD []).length = parts.length := by
  cases given with
  | none => simp_all
  | some xs => exact fits xs rfl

theorem length_ofParts (fits : outcome.Fits p) (complete : p.lacksMarginals outcome = false) :
    (outcome.upperMarginals.getD []).length = p.upperParts.length ∧
      (outcome.equalMarginals.getD []).length = p.equationRows.length := by
  obtain ⟨uppers, equals⟩ := Bool.or_eq_false_iff.1 complete
  exact ⟨length_getD fits.upper uppers, length_getD fits.equal equals⟩

theorem partDuals_eq_ok (fits : outcome.Fits p) : p.partDuals outcome =
    .ok (if p.lacksMarginals outcome then none else some (p.marginalSums outcome)) := by
  change (if p.lacksMarginals outcome then _ else _) = _
  cases complete : p.lacksMarginals outcome with
  | true => rfl
  | false =>
    obtain ⟨uppers, equals⟩ := length_ofParts fits complete
    simp only [Bool.false_eq_true, if_false, uppers, equals, Nat.lt_irrefl, decide_false,
      Bool.or_self, marginalSums, rowMarginals, List.foldl_append, List.foldl_map]

theorem boundDuals_eq_ok (fits : outcome.Fits p) :
    ∃ duals, boundDuals outcome = .ok duals ∧
      duals.map (·.map p.directed) = p.columnDuals? outcome := by
  unfold boundDuals columnDuals?
  cases lower : outcome.lowerBoundMarginals with
  | none => exact ⟨none, rfl, rfl⟩
  | some xs =>
    cases upper : outcome.upperBoundMarginals with
    | none => exact ⟨none, rfl, rfl⟩
    | some ys =>
      have same := (fits.lowerBounds xs lower).trans (fits.upperBounds ys upper).symm
      exact ⟨_, by simp only [sums, same, if_true]; rfl, rfl⟩

theorem activity_eq_ok (shape : p.Rectangular) (length : point.length = p.columnCount) :
    p.activity point = .ok (p.matrix.map fun row => dot row point) := by
  have each : p.matrix.all (fun row => row.length = point.length) = true := by
    rw [List.all_eq_true]
    exact fun row member => decide_eq_true ((shape.rows row member).trans length.symm)
  rw [activity, if_pos each]

theorem statusOfCode_ne_other (code : Int) (hasPoint : Bool) (text : String) :
    statusOfCode code hasPoint ≠ .other text := by
  unfold statusOfCode
  repeat' split
  all_goals exact Status.noConfusion

theorem statusOfCode_of_point {code : Int} (solved : code = 0 ∨ code = 1) :
    (statusOfCode code true).hasSolution = true ∧
      (statusOfCode code true = .optimal ↔ code = 0) := by
  rcases solved with rfl | rfl <;> decide

theorem interpret_eq_ok (shape : p.Rectangular) (fits : outcome.Fits p)
    (solved : outcome.code = 0 ∨ outcome.code = 1) (isPoint : outcome.point = some point)
    (length : point.length = p.columnCount) {objectiveValue : Number}
    (total : (Number.real (dot p.objective point)).add p.offset = some objectiveValue) :
    p.interpret outcome = .ok (p.solutionAt outcome point objectiveValue) := by
  obtain ⟨hasSolution, best⟩ := statusOfCode_of_point solved
  obtain ⟨duals, columns, columnDuals⟩ := boundDuals_eq_ok fits
  have costs : ¬ point.length ≠ p.objective.length := by
    rw [shape.objective, length]
    exact fun differs => differs rfl
  unfold interpret
  simp only [isPoint, Option.isSome_some, hasSolution, Bool.not_true, Bool.false_eq_true, if_false,
    costs, total, activity_eq_ok shape length, partDuals_eq_ok fits, columns, inRange]
  simp only [bind, Except.bind, pure, Except.pure]
  have decided : (p.isIntegral || statusOfCode outcome.code true != .optimal) =
      !p.hasDuals outcome := by
    have same : (statusOfCode outcome.code true == .optimal) = (outcome.code == 0) :=
      Bool.eq_iff_iff.2 (by simpa using best)
    simp only [hasDuals, bne, same, Bool.not_and, Bool.not_not]
  have rows : (if p.lacksMarginals outcome then none else some (p.marginalSums outcome)).map
      (·.map p.directed) = p.rowDuals? outcome := by
    unfold rowDuals?
    split <;> rfl
  rw [decided, columnDuals, rows, solutionAt]
  cases p.hasDuals outcome <;> rfl

def bareSolution (outcome : Outcome) : Solution where
  status := statusOfCode outcome.code outcome.point.isSome
  message := outcome.message

theorem interpret_bare
    (bare : (statusOfCode outcome.code outcome.point.isSome).hasSolution = false) :
    p.interpret outcome = .ok (bareSolution outcome) := by
  unfold interpret bareSolution
  cases isPoint : outcome.point with
  | none => rfl
  | some point =>
    rw [isPoint] at bare
    simp only [bare, Bool.not_false, if_true]
    rfl

theorem part_row_lt {p : LinearProgram} : ∀ part ∈ p.upperParts, part.row < p.limits.length := by
  intro part member
  obtain ⟨⟨limits, row⟩, listed, among⟩ := List.mem_flatMap.1 member
  have bound := (List.mem_zipIdx listed).2.1
  rw [Nat.zero_add] at bound
  have same : part.row = row := by
    unfold partsOf at among
    dsimp only at among
    split at among
    · exact absurd among List.not_mem_nil
    · rcases List.mem_append.1 among with upper | lower
      · obtain ⟨-, same⟩ := List.mem_ite_nil_left.1 upper
        exact congrArg Part.row (List.mem_singleton.1 same)
      · obtain ⟨-, same⟩ := List.mem_ite_nil_left.1 lower
        exact congrArg Part.row (List.mem_singleton.1 same)
  exact same ▸ bound

theorem equation_lt {p : LinearProgram} : ∀ row ∈ p.equationRows, row < p.limits.length := by
  intro row member
  obtain ⟨⟨limits, place⟩, listed, among⟩ := List.mem_filterMap.1 member
  have bound := (List.mem_zipIdx listed).2.1
  rw [Nat.zero_add] at bound
  obtain ⟨-, same⟩ := Option.ite_none_right_eq_some.1 among
  exact Option.some.inj same ▸ bound

theorem Rectangular.hasWholeRows (shape : p.Rectangular) : p.hasWholeRows = true := by
  have rows : ∀ row ∈ p.upperParts.map Part.row ++ p.equationRows, row < p.matrix.length := by
    intro row member
    rw [shape.matrix, ← shape.limits]
    rcases List.mem_append.1 member with member | member
    · obtain ⟨part, among, rfl⟩ := List.mem_map.1 member
      exact part_row_lt part among
    · exact equation_lt row member
  simp only [LinearProgram.hasWholeRows, shape.limits, decide_true, Bool.true_and, List.all_eq_true,
    decide_eq_true_eq]
  exact rows

section solve

variable {p : LinearProgram} {outcome : Outcome} {solver : Query → Except Error Outcome}
  {settings : Settings} (shape : p.Rectangular) (columns : p.columnCount ≠ 0)
  (answers : solver (p.query settings) = .ok outcome)
include shape columns answers

theorem solve_eq_interpret : p.solve solver settings = p.interpret outcome := by
  have asked : p.query? settings = .ok (some (p.query settings)) := by
    simp only [query?, columns, if_false, shape.hasWholeRows, Bool.not_true, Bool.and_false,
      Bool.false_eq_true]
  simp only [solve, asked, answers, bind, Except.bind]

theorem solve_eq_ok (fits : outcome.Fits p) (solved : outcome.code = 0 ∨ outcome.code = 1)
    {point : List Binary64} (isPoint : outcome.point = some point)
    (length : point.length = p.columnCount) {objectiveValue : Number}
    (total : (Number.real (dot p.objective point)).add p.offset = some objectiveValue) :
    p.solve solver settings = .ok (p.solutionAt outcome point objectiveValue) := by
  rw [solve_eq_interpret shape columns answers]
  exact interpret_eq_ok shape fits solved isPoint length total

theorem solve_bare
    (bare : (statusOfCode outcome.code outcome.point.isSome).hasSolution = false) :
    p.solve solver settings = .ok (bareSolution outcome) := by
  rw [solve_eq_interpret shape columns answers]
  exact interpret_bare bare

end solve

end LinOpt.LinearProgram
