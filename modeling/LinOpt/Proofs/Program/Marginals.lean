import LinOpt.Proofs.Program.Objective
import LinOpt.Proofs.Program.Parts
import Mathlib.Algebra.BigOperators.Ring.List

namespace LinOpt

namespace Binary64

theorem rational_neg (x : Binary64) : x.neg.rational = -x.rational := by
  cases x with
  | finite negative quanta short bound =>
    have value : (finite negative quanta short bound).toRat? = some _ := rfl
    rw [rational_eq (toRat?_neg value), rational_eq value]
  | _ => exact neg_zero.symm

/-- Nothing is rounded when finite numbers are added to a total one after the other. -/
inductive AddExactly : ℚ → List Binary64 → Prop
  | nil (total : ℚ) : AddExactly total []
  | cons {total : ℚ} {x : Binary64} {xs : List Binary64} (finite : x.isFinite = true)
    (double : IsDouble (total + x.rational)) (rest : AddExactly (total + x.rational) xs) :
    AddExactly total (x :: xs)

theorem AddExactly.toRat?_foldl {xs : List Binary64} {total : ℚ} (exact : AddExactly total xs)
    {start : Binary64} (value : start.toRat? = some total) :
    (xs.foldl add start).toRat? = some (total + (xs.map rational).sum) := by
  induction exact generalizing start with
  | nil total => simpa using value
  | cons finite double _ ih =>
    rw [List.foldl_cons, List.map_cons, List.sum_cons, ← add_assoc]
    exact ih (toRat?_add value (toRat?_eq finite) double)

end Binary64

open Binary64 (rational AddExactly)

namespace LinearProgram

variable {p : LinearProgram} {outcome : Outcome}

/-- The marginals that an outcome has for the parts of a row, with the signs of the parts. -/
def marginalsOf (p : LinearProgram) (outcome : Outcome) (row : Nat) : List Binary64 :=
  ((p.rowMarginals outcome).filter (·.1 == row)).map Prod.snd

def direction (p : LinearProgram) : ℚ :=
  if p.maximize then -1 else 1

/-- The dual of a row as it is without rounding. -/
def exactDual (p : LinearProgram) (outcome : Outcome) (row : Nat) : ℚ :=
  p.direction * ((p.marginalsOf outcome row).map rational).sum

def exactDuals (p : LinearProgram) (outcome : Outcome) : List ℚ :=
  (List.range p.rowCount).map (p.exactDual outcome)

theorem rational_directed (p : LinearProgram) (x : Binary64) :
    (p.directed x).rational = p.direction * x.rational := by
  unfold directed direction
  cases p.maximize with
  | false => simp
  | true => simp [Binary64.rational_neg]

theorem rational_signed (negative : Bool) (x : Binary64) :
    (signed negative x).rational = (if negative then -1 else 1) * x.rational := by
  cases negative with
  | false => simp [signed]
  | true => simp [signed, Binary64.rational_neg]

theorem marginalSums_eq (p : LinearProgram) (outcome : Outcome) :
    p.marginalSums outcome = (List.range p.rowCount).map fun row =>
      (p.marginalsOf outcome row).foldl Binary64.add (Binary64.zero false) := by
  apply List.ext_getElem?
  intro row
  rw [marginalSums, getElem?_foldl_addAt, List.getElem?_map]
  by_cases inside : row < p.rowCount
  · simp [inside, marginalsOf]
  · simp [inside]

theorem rational_directed_sum {row : Nat} (exact : AddExactly 0 (p.marginalsOf outcome row)) :
    (p.directed ((p.marginalsOf outcome row).foldl Binary64.add (Binary64.zero false))).rational =
      p.exactDual outcome row := by
  have sum := exact.toRat?_foldl Binary64.toRat?_zero
  rw [rational_directed, Binary64.rational_eq sum, zero_add, exactDual]

def entryAt (row : List Binary64) (column : Nat) : ℚ :=
  (row[column]?.map rational).getD 0

/-- A column of the sum of rows, each taken as often as its factor says. -/
def combination (factors : List ℚ) (rows : List (List Binary64)) (column : Nat) : ℚ :=
  (List.zipWith (fun factor row => factor * entryAt row column) factors rows).sum

theorem entryAt_signed (negative : Bool) (row : List Binary64) (column : Nat) :
    entryAt (row.map (signed negative)) column =
      (if negative then -1 else 1) * entryAt row column := by
  unfold entryAt
  rw [List.getElem?_map, Option.map_map]
  cases row[column]? with
  | none => simp
  | some x => exact rational_signed negative x

theorem sum_by_key {entries : List (Nat × ℚ)} {count : Nat} (below : ∀ e ∈ entries, e.1 < count)
    (f : Nat → ℚ) :
    ((List.range count).map fun i => ((entries.filter (·.1 == i)).map Prod.snd).sum * f i).sum =
      (entries.map fun e => e.2 * f e.1).sum := by
  induction entries with
  | nil => simp
  | cons e entries ih =>
    obtain ⟨first, below⟩ := List.forall_mem_cons.1 below
    -- Of all the sums only that for its own key gains something from the first entry.
    have step (i : Nat) : (((e :: entries).filter (·.1 == i)).map Prod.snd).sum * f i =
        (if e.1 = i then e.2 else 0) * f i +
          ((entries.filter (·.1 == i)).map Prod.snd).sum * f i := by
      by_cases here : e.1 = i
      · simp [here, add_mul]
      · simp [here]
    have single := Expression.sum_ite_eq List.nodup_range (List.mem_range.2 first) e.2 f
    simp only [step]
    rw [List.sum_map_add, single, ih below, List.map_cons, List.sum_cons]

theorem combination_map (rowOf : α → List Binary64) (as : List α) (xs : List Binary64)
    (column : Nat) :
    combination (xs.map rational) (as.map rowOf) column =
      ((as.zip xs).map fun e => e.2.rational * entryAt (rowOf e.1) column).sum := by
  unfold combination
  induction as generalizing xs with
  | nil => simp
  | cons a as ih =>
    cases xs with
    | nil => simp
    | cons x xs =>
      rw [List.map_cons, List.map_cons, List.zipWith_cons_cons, List.sum_cons, ih]
      rfl

theorem row_lt (shape : p.Rectangular) : ∀ e ∈ p.rowMarginals outcome, e.1 < p.rowCount := by
  rw [← shape.limits]
  intro e member
  rcases List.mem_append.1 member with upper | equation
  · obtain ⟨⟨part, x⟩, among, rfl⟩ := List.mem_map.1 upper
    exact part_row_lt part (List.of_mem_zip among).1
  · exact equation_lt e.1 (List.of_mem_zip equation).1

theorem matrix_eq (shape : p.Rectangular) : p.matrix = (List.range p.rowCount).map p.rowAt := by
  apply List.ext_getElem?
  intro i
  rw [List.getElem?_map]
  by_cases inside : i < p.rowCount
  · have row : i < p.matrix.length := shape.matrix ▸ inside
    simp [inside, row, rowAt]
  · have beyond : p.matrix.length ≤ i := shape.matrix ▸ Nat.le_of_not_lt inside
    simp [inside, beyond]

theorem combination_parts (p : LinearProgram) (outcome : Outcome) (column : Nat) :
    combination ((outcome.upperMarginals.getD []).map rational) (p.upperParts.map p.partRow) column +
        combination ((outcome.equalMarginals.getD []).map rational) (p.equationRows.map p.rowAt)
          column =
      ((p.rowMarginals outcome).map fun e => e.2.rational * entryAt (p.rowAt e.1) column).sum := by
  have part (e : Part × Binary64) : e.2.rational * entryAt (p.partRow e.1) column =
      (signed e.1.negative e.2).rational * entryAt (p.rowAt e.1.row) column := by
    rw [partRow, entryAt_signed, rational_signed, mul_left_comm, mul_assoc]
  rw [combination_map, combination_map, rowMarginals, List.map_append, List.sum_append,
    List.map_map]
  simp only [part]
  rfl

theorem combination_exactDuals (shape : p.Rectangular) (outcome : Outcome) (column : Nat) :
    combination (p.exactDuals outcome) p.matrix column =
      p.direction *
        (combination ((outcome.upperMarginals.getD []).map rational) (p.upperParts.map p.partRow)
            column +
          combination ((outcome.equalMarginals.getD []).map rational) (p.equationRows.map p.rowAt)
            column) := by
  let entries := (p.rowMarginals outcome).map fun e => (e.1, e.2.rational)
  have below : ∀ e ∈ entries, e.1 < p.rowCount := by
    intro e member
    obtain ⟨own, among, rfl⟩ := List.mem_map.1 member
    exact row_lt shape own among
  have dual (i : Nat) : p.exactDual outcome i * entryAt (p.rowAt i) column = p.direction *
      (((entries.filter (·.1 == i)).map Prod.snd).sum * entryAt (p.rowAt i) column) := by
    have own : (p.marginalsOf outcome i).map rational =
        (entries.filter (·.1 == i)).map Prod.snd := by
      rw [marginalsOf, List.filter_map, List.map_map, List.map_map]
      rfl
    rw [exactDual, own, mul_assoc]
  have all : (entries.map fun e => e.2 * entryAt (p.rowAt e.1) column) =
      (p.rowMarginals outcome).map fun e => e.2.rational * entryAt (p.rowAt e.1) column := by
    rw [List.map_map]
    rfl
  -- The sum over the rows is regrouped by marginals, each of which belongs to one row.
  calc combination (p.exactDuals outcome) p.matrix column
      = ((List.range p.rowCount).map fun i =>
          p.exactDual outcome i * entryAt (p.rowAt i) column).sum := by
        rw [combination, exactDuals, matrix_eq shape, List.zipWith_map, List.zipWith_self]
    _ = p.direction * ((List.range p.rowCount).map fun i =>
          ((entries.filter (·.1 == i)).map Prod.snd).sum * entryAt (p.rowAt i) column).sum := by
        simp only [dual]
        rw [List.sum_map_mul_left]
    _ = _ := by rw [sum_by_key below, all, combination_parts]

/-- The outcome of a run that has come to its end, with a point and all marginals that rows need. -/
structure Outcome.IsComplete (p : LinearProgram) (outcome : Outcome) : Prop where
  code : outcome.code = 0
  point : ∃ x, outcome.point = some x ∧ x.length = p.columnCount
  fits : outcome.Fits p
  marginals : p.lacksMarginals outcome = false

/-- The duals of the rows: sums of the marginals of each row's own parts. Without rounding, the rows
that they are about add up to the parts that the marginals are about. -/
structure RecoversDuals (p : LinearProgram) (outcome : Outcome)
    (upperRows equalRows : List (List Binary64)) (duals : List Binary64) : Prop where
  sums : duals = (List.range p.rowCount).map fun row =>
    p.directed ((p.marginalsOf outcome row).foldl Binary64.add (Binary64.zero false))
  combination : ∀ column, combination (p.exactDuals outcome) p.matrix column =
    p.direction * (combination ((outcome.upperMarginals.getD []).map rational) upperRows column +
      combination ((outcome.equalMarginals.getD []).map rational) equalRows column)
  exact : (∀ row < p.rowCount, AddExactly 0 (p.marginalsOf outcome row)) →
    duals.map rational = p.exactDuals outcome

theorem solve_duals (shape : p.Rectangular) (columns : p.columnCount ≠ 0)
    (continuous : p.isIntegral = false) (offset : p.offset.toBinary64? ≠ none) {settings : Settings}
    {solver : Query → Except Error Outcome} (answers : solver (p.query settings) = .ok outcome)
    (complete : outcome.IsComplete p) :
    ∃ solution duals, p.solve solver settings = .ok solution ∧ solution.rowDuals = some duals ∧
      RecoversDuals p outcome (p.upperParts.map p.partRow) (p.equationRows.map p.rowAt) duals := by
  obtain ⟨x, isPoint, length⟩ := complete.point
  have total : ∃ value, (Number.real (dot p.objective x)).add p.offset = some value := by
    rw [← Option.isSome_iff_exists, Option.isSome_iff_ne_none]
    exact fun none => offset (Number.real_add_eq_none.1 none)
  obtain ⟨value, total⟩ := total
  have solved := solve_eq_ok shape columns answers complete.fits (.inl complete.code) isPoint length
    total
  refine ⟨_, (p.marginalSums outcome).map p.directed, solved, ?_, ?_⟩
  · have asked : p.hasDuals outcome = true := by
      rw [hasDuals, continuous, complete.code]
      rfl
    rw [solutionAt, asked, if_pos rfl, rowDuals?, complete.marginals]
    rfl
  · refine ⟨by rw [marginalSums_eq, List.map_map]; rfl, combination_exactDuals shape outcome, ?_⟩
    intro exact
    rw [marginalSums_eq, List.map_map, List.map_map, exactDuals]
    apply List.map_congr_left
    intro row member
    exact rational_directed_sum (exact row (List.mem_range.1 member))

theorem query_eq (continuous : p.isIntegral = false) (settings : Settings) :
    p.query settings = .linear (p.objective.map p.directed) (p.upperParts.map p.partRow)
      (p.upperParts.map p.partLimit) (p.equationRows.map p.rowAt)
      (p.equationRows.map fun row => (p.limitsAt row).2) ((p.lower.zip p.upper).map boundPair)
      settings.linearOptions := by
  rw [query, continuous]
  rfl

/-- A program without whole-number columns is split into parts that allow the same points, and the
duals that come back are those of its rows. -/
theorem split_keeps_points_and_duals (shape : p.Rectangular) (columns : p.columnCount ≠ 0)
    (continuous : p.isIntegral = false) (limited : p.IsLimited)
    (finite : ∀ row ∈ p.matrix, ∀ a ∈ row, a.isFinite = true)
    (offset : p.offset.toBinary64? ≠ none) (settings : Settings) :
    ∃ costs upperRows upperLimits equalRows equalLimits bounds options,
      p.query? settings = .ok (some
        (.linear costs upperRows upperLimits equalRows equalLimits bounds options)) ∧
      (∀ point, point.length = p.columnCount →
        (Allowed upperRows upperLimits equalRows equalLimits bounds point ↔ p.Satisfies point)) ∧
      ∀ outcome solver,
        solver (.linear costs upperRows upperLimits equalRows equalLimits bounds options) =
          .ok outcome → outcome.IsComplete p →
        ∃ solution duals, p.solve solver settings = .ok solution ∧
          solution.rowDuals = some duals ∧ RecoversDuals p outcome upperRows equalRows duals := by
  have asked : p.query? settings = .ok (some (p.query settings)) := by
    simp only [query?, columns, if_false, shape.hasWholeRows, Bool.not_true, Bool.and_false,
      Bool.false_eq_true]
  have query := query_eq continuous settings
  refine ⟨_, _, _, _, _, _, _, query ▸ asked, ?_, ?_⟩
  · exact fun point length => allowed_iff_satisfies shape limited finite length
  · intro outcome solver answers complete
    rw [← query] at answers
    exact solve_duals shape columns continuous offset answers complete

namespace Sample

def split : LinearProgram where
  columnNames := ["x", "y"]
  objective := [.ofInt 1, .ofInt 2]
  maximize := true
  lower := [.ofInt 0, .infinite true]
  upper := [.infinite false, .ofInt 3]
  integrality := [0, 0]
  rowNames := ["r0", "r1", "r2", "r3", "r4"]
  matrix := [[.ofInt 1, .ofInt 1], [.ofInt 1, .ofInt (-1)], [.ofInt 2, .ofInt 0],
    [.ofInt 0, .ofInt 1], [.ofInt 1, .ofInt 2]]
  rowLower := [.ofInt 1, .ofInt 0, .ofInt 2, .infinite true, .infinite true]
  rowUpper := [.ofInt 4, .infinite false, .ofInt 2, .infinite false, .ofInt 5]
  offset := 0

def marginals : Outcome where
  code := 0
  message := ""
  point := some [.ofInt 1, .ofInt 1]
  upperMarginals := some [.ofInt (-1), .ofInt (-4), .ofInt (-2), .ofInt (-3)]
  equalMarginals := some [.ofInt 5]

theorem marginals_complete : marginals.IsComplete split where
  code := rfl
  point := ⟨[.ofInt 1, .ofInt 1], rfl, by decide +kernel⟩
  fits := by
    constructor <;> intro xs given <;> cases given
    · decide +kernel
    · decide +kernel
  marginals := by decide +kernel

theorem marginals_addExactly :
    ∀ row < split.rowCount, AddExactly 0 (split.marginalsOf marginals row) := by
  have rows : (List.range split.rowCount).map (split.marginalsOf marginals) =
      [[.ofInt (-1), .ofInt 4], [.ofInt 2], [.ofInt 5], [], [.ofInt (-3)]] := by decide +kernel
  have whole (k : Int) (exact : (Number.int k).IsExact) :
      (Binary64.ofInt k).isFinite = true ∧ (Binary64.ofInt k).rational = k ∧
        Binary64.IsDouble (k : ℚ) := by
    have value := exact.toRat?_double
    rw [Number.double_int exact.isFinite] at value
    exact ⟨Binary64.isFinite_of_toRat? value, Binary64.rational_eq value, _, value⟩
  have single (k : Int) (exact : (Number.int k).IsExact) : AddExactly 0 [Binary64.ofInt k] := by
    obtain ⟨finite, value, double⟩ := whole k exact
    refine .cons finite ?_ (.nil _)
    rwa [value, zero_add]
  have double : AddExactly 0 [Binary64.ofInt (-1), Binary64.ofInt 4] := by
    obtain ⟨finite, value, isDouble⟩ := whole (-1) (by decide +kernel)
    obtain ⟨otherFinite, other, -⟩ := whole 4 (by decide +kernel)
    obtain ⟨-, -, sum⟩ := whole 3 (by decide +kernel)
    refine .cons finite ?_ (.cons otherFinite ?_ (.nil _))
    · rwa [value, zero_add]
    · rw [value, other, zero_add]
      convert sum using 1
      norm_num
  have all : ∀ xs ∈ (List.range split.rowCount).map (split.marginalsOf marginals),
      AddExactly 0 xs := by
    rw [rows]
    simp only [List.forall_mem_cons]
    exact ⟨double, single 2 (by decide +kernel), single 5 (by decide +kernel), .nil 0,
      single (-3) (by decide +kernel), fun _ member => absurd member List.not_mem_nil⟩
  simpa only [List.forall_mem_map, List.mem_range] using all

theorem split_isLimited : split.IsLimited := by
  constructor <;> decide +kernel

end Sample

theorem sample_split_keeps_points_and_duals :
    ∃ solution duals, Sample.split.solve (fun _ => .ok Sample.marginals) {} = .ok solution ∧
      solution.rowDuals = some duals ∧
      duals.map rational = Sample.split.exactDuals Sample.marginals := by
  have shape : Sample.split.Rectangular := by
    constructor <;> decide +kernel
  obtain ⟨costs, upperRows, upperLimits, equalRows, equalLimits, bounds, options, -, -, solves⟩ :=
    split_keeps_points_and_duals shape (by decide) (by decide) Sample.split_isLimited
      (by decide +kernel) (by decide +kernel) {}
  obtain ⟨solution, duals, solved, rows, recovers⟩ :=
    solves Sample.marginals (fun _ => .ok Sample.marginals) rfl Sample.marginals_complete
  exact ⟨solution, duals, solved, rows, recovers.exact Sample.marginals_addExactly⟩

end LinearProgram

end LinOpt
