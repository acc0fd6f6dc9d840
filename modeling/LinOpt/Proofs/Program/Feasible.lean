import LinOpt.Proofs.Expression.Evaluation
import LinOpt.Proofs.Program.Bounds
import LinOpt.Proofs.Program.Represents

namespace LinOpt

namespace LinearProgram

/-- A point that keeps all bounds and rows, and is whole where a column has to be. -/
structure Feasible (p : LinearProgram) (point : List ℚ) : Prop where
  satisfies : p.Satisfies point
  whole : ∀ c ∈ p.integrality.zip point, c.1 ≠ 0 → ∃ k : ℤ, c.2 = k

end LinearProgram

namespace Model

/-- A point that keeps the effective bounds and the rows of a model, and is whole where a variable
has to be. -/
structure HoldsAt (m : Model) (point : Variable → ℚ) : Prop where
  bounds : ∀ v ∈ m.registry.vars, LinearProgram.Contains v.effectiveBounds (point v)
  whole : ∀ v ∈ m.registry.vars, v.isIntegral = true → ∃ k : ℤ, point v = k
  rows : ∀ c ∈ m.constraints, c.HoldsAt point

end Model

namespace Declaration

theorem leavesUnit_of_default {d : Declaration}
    (h : d.isBinary = true → d.hasDefaultBounds = true) : d.LeavesUnit := by
  intro binary
  obtain ⟨lower, upper⟩ := Bool.and_eq_true_iff.1 (h binary)
  refine ⟨Number.not_lt_of_same (Number.same_symm lower), fun below => ?_⟩
  obtain ⟨place, isUpper, isInfinite⟩ := Number.same_iff.1 upper
  cases isInfinite
  have order := (Number.lt_iff isUpper (Number.rank?_int 1)).1 below
  revert order
  decide

end Declaration

theorem forall_zipIdx {cs : List α} {P : α → Prop} :
    (∀ i ∈ cs.zipIdx, P i.1) ↔ ∀ c ∈ cs, P c := by
  rw [← List.forall_mem_map (f := Prod.fst), List.zipIdx_map_fst]

namespace LinearProgram

open Builder

theorem activity?_map {vs : List α} {entry : α → Binary64} {a point : α → ℚ}
    (values : ∀ v ∈ vs, (entry v).toRat? = some (a v)) :
    activity? (vs.map entry) (vs.map point) = some (vs.map fun v => a v * point v).sum := by
  induction vs with
  | nil => rfl
  | cons v vs ih =>
    obtain ⟨first, rest⟩ := List.forall_mem_cons.1 values
    simp only [List.map_cons, List.sum_cons, activity?, first, ih rest, Option.bind_eq_bind,
      Option.bind_some, Option.pure_def]

variable {m : Model} {point : Variable → ℚ}

theorem isQuadratic_lhs (linear : m.isQuadratic = false) {c : Constraint}
    (member : c ∈ m.constraints) : c.lhs.isQuadratic = false := by
  obtain ⟨-, rows⟩ := Bool.or_eq_false_iff.1 linear
  exact Bool.eq_false_iff.2 (List.any_eq_false.1 rows c member)

theorem rowHolds_iff (sound : m.WellFormed) (linear : m.isQuadratic = false)
    {i : Constraint × Nat} (member : i ∈ m.constraints.zipIdx) (lhs : i.1.lhs.IsExact)
    (rhs : i.1.rhs.IsExact) :
    RowHolds (rowOf i).lower (rowOf i).upper ((rowOf i).at m.registry.names)
        (m.registry.vars.map point) ↔ i.1.HoldsAt point := by
  have known := List.fst_mem_of_mem_zipIdx member
  have row := sound.constraints i.1 known
  -- The row adds up to what its expression is worth, which has no constant.
  have total : activity? ((rowOf i).at m.registry.names) (m.registry.vars.map point) =
      some (i.1.lhs.rationalAt point) := by
    have nodup : (m.registry.vars.map (·.name)).Nodup := sound.registry.nodup
    have entries : ∀ v ∈ m.registry.vars, ((((rowOf i).coefficients.get? v.name).getD
        (Binary64.zero false)).toRat? = some (i.1.lhs.coefficientOf v)) := fun v among => by
      rw [entries_rowOf sound i member]
      exact toRat?_entryOf nodup row.owned.linear row.canonical lhs among
    have value := i.1.lhs.rationalAt_eq (List.Nodup.of_map _ nodup) row.owned.linear
      (isQuadratic_lhs linear known) point
    have nothing : i.1.lhs.constant.rational = 0 := by
      rw [row.constant]
      exact Int.cast_zero
    rw [value, nothing, zero_add, Row.at, Registry.names, List.map_map]
    exact activity?_map entries
  have limit := rhs.toRat?_double
  rw [RowHolds, total]
  simp only [Option.some.injEq, exists_eq_left']
  unfold rowOf Constraint.HoldsAt Within
  cases i.1.comparison with
  | le =>
    rw [← Binary64.isUpper_iff_of_toRat? limit]
    exact and_iff_right rfl
  | ge =>
    rw [← Binary64.isLower_iff_of_toRat? limit]
    exact and_iff_left rfl
  | eq =>
    simp only [range, Binary64.isLower_iff_of_toRat? limit, Binary64.isUpper_iff_of_toRat? limit]
    rw [← le_antisymm_iff, eq_comm]

theorem column_contains_iff {v : Variable} (exact : v.IsExact)
    (default : v.isBinary = true → v.hasDefaultBounds = true) {y : ℚ} :
    Within (columnOf v).lower (columnOf v).upper y ↔ Contains v.effectiveBounds y := by
  rw [← contains_iff (lower_columnOf_same exact) (upper_columnOf_same exact)]
  exact (contains_effectiveBounds_iff exact).2 (Declaration.leavesUnit_of_default default) y

theorem feasible_build_iff (sound : m.WellFormed) (linear : m.isQuadratic = false)
    (bounds : ∀ v ∈ m.registry.vars, v.IsExact)
    (default : ∀ v ∈ m.registry.vars, v.isBinary = true → v.hasDefaultBounds = true)
    (lhs : ∀ c ∈ m.constraints, c.lhs.IsExact) (rhs : ∀ c ∈ m.constraints, c.rhs.IsExact)
    (maximize : Bool) (offset : Number) (point : Variable → ℚ) :
    (Builder.build ⟨columnsOf m, m.constraints.zipIdx.map rowOf⟩ maximize offset).Feasible
      (m.registry.vars.map point) ↔ m.HoldsAt point := by
  have columns : (∀ c ∈ (columnsOf m).zip (m.registry.vars.map point),
      Within c.1.lower c.1.upper c.2) ↔
      ∀ v ∈ m.registry.vars, Contains v.effectiveBounds (point v) := by
    rw [columnsOf, List.map_map, List.zip_map', List.forall_mem_map]
    exact forall₂_congr fun v member => column_contains_iff (bounds v member) (default v member)
  have rows : (∀ row ∈ m.constraints.zipIdx.map rowOf, RowHolds row.lower row.upper
      (row.at m.registry.names) (m.registry.vars.map point)) ↔
      ∀ c ∈ m.constraints, c.HoldsAt point := by
    rw [List.forall_mem_map]
    refine Iff.trans (forall₂_congr fun i member => ?_)
      (forall_zipIdx (P := fun c : Constraint => c.HoldsAt point))
    have known := List.fst_mem_of_mem_zipIdx member
    exact rowHolds_iff sound linear member (lhs _ known) (rhs _ known)
  have flags : (∀ c ∈ (Builder.build ⟨columnsOf m, m.constraints.zipIdx.map rowOf⟩ maximize
      offset).integrality.zip (m.registry.vars.map point), c.1 ≠ 0 → ∃ k : ℤ, c.2 = k) ↔
      ∀ v ∈ m.registry.vars, v.isIntegral = true → ∃ k : ℤ, point v = k := by
    simp only [build, columnsOf, List.map_map, List.zip_map', List.forall_mem_map]
    refine forall₂_congr fun v _ => imp_congr_left ?_
    simp [priced, columnOf, isIntegral_kindColumn]
  have length : (m.registry.vars.map point).length = (columnsOf m).length := by
    simp only [columnsOf, List.length_map]
  constructor
  · rintro ⟨satisfies, whole⟩
    obtain ⟨-, inBounds, hold⟩ := satisfies_build.1 satisfies
    rw [names_columnsOf] at hold
    exact ⟨columns.1 inBounds, flags.1 whole, rows.1 hold⟩
  · rintro ⟨inBounds, whole, hold⟩
    refine ⟨satisfies_build.2 ⟨length, columns.2 inBounds, ?_⟩, flags.2 whole⟩
    rw [names_columnsOf]
    exact rows.2 hold

end LinearProgram

end LinOpt
