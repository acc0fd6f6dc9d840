import LinOpt.Proofs.Number.Order
import LinOpt.Proofs.Program.Duals
import LinOpt.Proofs.Program.Solution

namespace LinOpt

namespace LinearProgram

/-- The limits are numbers, and none of them is the infinity that nothing keeps. -/
structure IsLimited (p : LinearProgram) : Prop where
  lower : ∀ x ∈ p.lower, x ≠ .nan ∧ x ≠ .infinite false
  upper : ∀ x ∈ p.upper, x ≠ .nan ∧ x ≠ .infinite true
  rowLower : ∀ x ∈ p.rowLower, x ≠ .nan ∧ x ≠ .infinite false
  rowUpper : ∀ x ∈ p.rowUpper, x ≠ .nan ∧ x ≠ .infinite true

def Below (row : List Binary64) (limit : Binary64) (point : List ℚ) : Prop :=
  ∃ total, activity? row point = some total ∧ limit.IsUpper total

def Meets (row : List Binary64) (limit : Binary64) (point : List ℚ) : Prop :=
  ∃ total, activity? row point = some total ∧ limit.toRat? = some total

def KeepsPair (pair : Option Binary64 × Option Binary64) (y : ℚ) : Prop :=
  (∀ lower ∈ pair.1, lower.IsLower y) ∧ ∀ upper ∈ pair.2, upper.IsUpper y

/-- A point keeps the inequalities, equations and bounds that a solver is given. -/
structure Allowed (upperRows : List (List Binary64)) (upperLimits : List Binary64)
    (equalRows : List (List Binary64)) (equalLimits : List Binary64)
    (bounds : List (Option Binary64 × Option Binary64)) (point : List ℚ) : Prop where
  inequalities : ∀ r ∈ upperRows.zip upperLimits, Below r.1 r.2 point
  equations : ∀ r ∈ equalRows.zip equalLimits, Meets r.1 r.2 point
  bounds : ∀ c ∈ bounds.zip point, KeepsPair c.1 c.2

section row

variable {row : List Binary64} {point : List ℚ} {lower upper : Binary64} {total y : ℚ}

theorem activity?_finite (finite : ∀ a ∈ row, a.isFinite = true) (point : List ℚ) :
    ∃ total, activity? row point = some total := by
  induction row generalizing point with
  | nil => exact ⟨0, rfl⟩
  | cons a row ih =>
    cases point with
    | nil => exact ⟨0, rfl⟩
    | cons y point =>
      obtain ⟨first, finite⟩ := List.forall_mem_cons.1 finite
      obtain ⟨rest, value⟩ := ih finite point
      exact ⟨a.rational * y + rest, by rw [activity?, Binary64.toRat?_eq first, value]; rfl⟩

theorem activity?_neg (value : activity? row point = some total) :
    activity? (row.map Binary64.neg) point = some (-total) := by
  induction row generalizing point total with
  | nil =>
    cases value
    simp [activity?]
  | cons a row ih =>
    cases point with
    | nil =>
      cases value
      simp [activity?]
    | cons y point =>
      obtain ⟨r, first, value⟩ := Option.bind_eq_some_iff.1 value
      obtain ⟨rest, others, value⟩ := Option.bind_eq_some_iff.1 value
      cases value
      rw [List.map_cons, activity?, Binary64.toRat?_neg first, ih others]
      show some (-r * y + -rest) = some (-(r * y + rest))
      rw [neg_add, neg_mul]

theorem isUpper_neg (x : Binary64) : x.neg.IsUpper (-y) ↔ x.IsLower y := by
  cases x with
  | nan => exact Iff.rfl
  | infinite negative => cases negative <;> simp [Binary64.neg, Binary64.IsUpper, Binary64.IsLower]
  | finite negative quanta short bound =>
    have value : (Binary64.finite negative quanta short bound).toRat? = some _ := rfl
    rw [Binary64.isUpper_iff_of_toRat? (Binary64.toRat?_neg value),
      Binary64.isLower_iff_of_toRat? value, neg_le_neg_iff]

theorem isLower_iff_of_finite (limit : lower ≠ .nan ∧ lower ≠ .infinite false) :
    (lower.isInfinite = false → lower.IsLower y) ↔ lower.IsLower y := by
  constructor
  · intro limited
    cases lower with
    | infinite negative =>
      cases negative with
      | false => exact absurd rfl limit.2
      | true => rfl
    | _ => exact limited rfl
  · exact fun h _ => h

theorem isUpper_iff_of_finite (limit : upper ≠ .nan ∧ upper ≠ .infinite true) :
    (upper.isInfinite = false → upper.IsUpper y) ↔ upper.IsUpper y := by
  constructor
  · intro limited
    cases upper with
    | infinite negative =>
      cases negative with
      | false => rfl
      | true => exact absurd rfl limit.2
    | _ => exact limited rfl
  · exact fun h _ => h

theorem within_iff_meets (number : lower ≠ .nan ∧ lower ≠ .infinite false)
    (other : upper ≠ .nan ∧ upper ≠ .infinite true)
    (equal : isEquation (lower, upper) = true) :
    Within lower upper total ↔ upper.toRat? = some total := by
  obtain ⟨place, first, second⟩ := Number.same_iff.1 equal
  rw [Within, Binary64.isLower_congr equal]
  cases upper with
  | nan => exact absurd rfl other.1
  | infinite negative =>
    -- Limits that are equal and infinite would both be plus infinity, which no lower limit is.
    cases negative with
    | true => exact absurd rfl other.2
    | false =>
      cases lower with
      | nan => exact absurd rfl number.1
      | infinite negative =>
        cases negative with
        | true =>
          rw [← first] at second
          cases second
        | false => exact absurd rfl number.2
      | finite negative quanta short bound =>
        rw [← first] at second
        cases second
  | finite negative quanta short bound =>
    have value : (Binary64.finite negative quanta short bound).toRat? = some _ := rfl
    rw [Binary64.isLower_iff_of_toRat? value, Binary64.isUpper_iff_of_toRat? value,
      ← le_antisymm_iff, value, Option.some.injEq]

theorem rowHolds_iff_parts (finite : ∀ a ∈ row, a.isFinite = true)
    (least : lower ≠ .nan ∧ lower ≠ .infinite false)
    (greatest : upper ≠ .nan ∧ upper ≠ .infinite true) :
    RowHolds lower upper row point ↔
      (∀ negative ∈ sidesOf (lower, upper),
        Below (row.map (signed negative)) (if negative then lower.neg else upper) point) ∧
      (isEquation (lower, upper) = true → Meets row upper point) := by
  obtain ⟨total, value⟩ := activity?_finite finite point
  have holds : RowHolds lower upper row point ↔ Within lower upper total := by
    simp [RowHolds, value]
  have meets : Meets row upper point ↔ upper.toRat? = some total := by
    simp [Meets, value]
  have above : Below (row.map (signed false)) upper point ↔ upper.IsUpper total := by
    have plain : row.map (signed false) = row := List.map_id row
    simp [Below, plain, value]
  have below : Below (row.map (signed true)) lower.neg point ↔ lower.IsLower total := by
    have turned : activity? (row.map (signed true)) point = some (-total) := activity?_neg value
    simp [Below, turned, isUpper_neg]
  rw [holds, meets]
  by_cases equal : isEquation (lower, upper) = true
  · rw [within_iff_meets least greatest equal, sidesOf, if_pos equal]
    simp [equal]
  · rw [Within, ← isUpper_iff_of_finite greatest, ← isLower_iff_of_finite least, sidesOf,
      if_neg equal]
    cases upper.isInfinite <;> cases lower.isInfinite <;> simp [equal, above, below, and_comm]

theorem keepsPair_iff (least : lower ≠ .nan ∧ lower ≠ .infinite false)
    (greatest : upper ≠ .nan ∧ upper ≠ .infinite true) :
    KeepsPair (boundPair (lower, upper)) y ↔ Within lower upper y := by
  rw [Within, ← isUpper_iff_of_finite greatest, ← isLower_iff_of_finite least, KeepsPair, boundPair]
  cases upper.isInfinite <;> cases lower.isInfinite <;> simp

end row

variable {p : LinearProgram} {point : List ℚ}

theorem limitsAt_eq {indexed : (Binary64 × Binary64) × Nat} (listed : indexed ∈ p.limits.zipIdx) :
    p.limitsAt indexed.2 = indexed.1 := by
  rw [limitsAt, List.getD_eq_getElem?_getD, List.mem_zipIdx_iff_getElem?.1 listed, Option.getD_some]

theorem forall_upperParts {P : Part → Prop} : (∀ part ∈ p.upperParts, P part) ↔
    ∀ indexed ∈ p.limits.zipIdx, ∀ negative ∈ sidesOf indexed.1, P ⟨indexed.2, negative⟩ := by
  rw [upperParts, List.forall_mem_flatMap]
  apply forall₂_congr
  intro indexed _
  rw [partsOf_eq indexed.1 indexed.2, List.forall_mem_map]

theorem forall_equationRows {P : Nat → Prop} : (∀ row ∈ p.equationRows, P row) ↔
    ∀ indexed ∈ p.limits.zipIdx, isEquation indexed.1 = true → P indexed.2 := by
  simp only [equationRows, List.mem_filterMap]
  constructor
  · intro all indexed listed equal
    exact all indexed.2 ⟨indexed, listed, if_pos equal⟩
  · rintro all row ⟨indexed, listed, same⟩
    obtain ⟨equal, same⟩ := Option.ite_none_right_eq_some.1 same
    exact Option.some.inj same ▸ all indexed listed equal

theorem forall_rows (shape : p.Rectangular) :
    (∀ r ∈ p.matrix.zip (p.rowLower.zip p.rowUpper), RowHolds r.2.1 r.2.2 r.1 point) ↔
      ∀ indexed ∈ p.limits.zipIdx,
        RowHolds indexed.1.1 indexed.1.2 (p.rowAt indexed.2) point := by
  have place {i : Nat} (inside : i < p.rowCount) :
      p.limits[i]? = (p.rowLower.zip p.rowUpper)[i]? := List.getElem?_take_of_lt inside
  constructor
  · intro hold indexed listed
    have here := List.mem_zipIdx_iff_getElem?.1 listed
    have inside : indexed.2 < p.rowCount := by
      rw [← shape.limits]
      exact (List.getElem?_eq_some_iff.1 here).1
    have row : p.matrix[indexed.2]? = some (p.rowAt indexed.2) := by
      rw [rowAt, List.getD_eq_getElem?_getD, List.getElem?_eq_getElem (shape.matrix ▸ inside),
        Option.getD_some]
    rw [place inside] at here
    exact hold (p.rowAt indexed.2, indexed.1)
      (List.mem_of_getElem? (List.getElem?_zip_eq_some.2 ⟨row, here⟩))
  · intro hold r member
    obtain ⟨i, here⟩ := List.mem_iff_getElem?.1 member
    obtain ⟨row, limits⟩ := List.getElem?_zip_eq_some.1 here
    have inside : i < p.rowCount := by
      rw [← shape.matrix]
      exact (List.getElem?_eq_some_iff.1 row).1
    have listed : (r.2, i) ∈ p.limits.zipIdx := by
      rw [List.mk_mem_zipIdx_iff_getElem?, place inside]
      exact limits
    have same : p.rowAt i = r.1 := by
      rw [rowAt, List.getD_eq_getElem?_getD, row, Option.getD_some]
    exact same ▸ hold (r.2, i) listed

theorem rowAt_finite (finite : ∀ row ∈ p.matrix, ∀ a ∈ row, a.isFinite = true) (i : Nat) :
    ∀ a ∈ p.rowAt i, a.isFinite = true := by
  rw [rowAt, List.getD_eq_getElem?_getD]
  cases here : p.matrix[i]? with
  | none => exact fun _ member => absurd member List.not_mem_nil
  | some row => exact finite row (List.mem_of_getElem? here)

theorem IsLimited.of_mem (limited : p.IsLimited) {limits : Binary64 × Binary64}
    (member : limits ∈ p.limits) : (limits.1 ≠ .nan ∧ limits.1 ≠ .infinite false) ∧
      (limits.2 ≠ .nan ∧ limits.2 ≠ .infinite true) := by
  obtain ⟨lower, upper⟩ := List.of_mem_zip (List.mem_of_mem_take member)
  exact ⟨limited.rowLower _ lower, limited.rowUpper _ upper⟩

/-- Split into parts, a program allows the points that it allows itself. -/
theorem allowed_iff_satisfies (shape : p.Rectangular) (limited : p.IsLimited)
    (finite : ∀ row ∈ p.matrix, ∀ a ∈ row, a.isFinite = true)
    (length : point.length = p.columnCount) :
    Allowed (p.upperParts.map p.partRow) (p.upperParts.map p.partLimit)
      (p.equationRows.map p.rowAt) (p.equationRows.map fun row => (p.limitsAt row).2)
      ((p.lower.zip p.upper).map boundPair) point ↔ p.Satisfies point := by
  have inequalities : (∀ r ∈ (p.upperParts.map p.partRow).zip (p.upperParts.map p.partLimit),
      Below r.1 r.2 point) ↔ ∀ part ∈ p.upperParts, Below (p.partRow part) (p.partLimit part) point := by
    rw [List.zip_map', List.forall_mem_map]
  have equations : (∀ r ∈ (p.equationRows.map p.rowAt).zip
      (p.equationRows.map fun row => (p.limitsAt row).2), Meets r.1 r.2 point) ↔
      ∀ row ∈ p.equationRows, Meets (p.rowAt row) (p.limitsAt row).2 point := by
    rw [List.zip_map', List.forall_mem_map]
  have bounds : (∀ c ∈ ((p.lower.zip p.upper).map boundPair).zip point, KeepsPair c.1 c.2) ↔
      ∀ c ∈ (p.lower.zip p.upper).zip point, Within c.1.1 c.1.2 c.2 := by
    rw [List.zip_map_left, List.forall_mem_map]
    apply forall₂_congr
    intro c member
    obtain ⟨lower, upper⟩ := List.of_mem_zip (List.of_mem_zip member).1
    exact keepsPair_iff (limited.lower _ lower) (limited.upper _ upper)
  have rows : ((∀ part ∈ p.upperParts, Below (p.partRow part) (p.partLimit part) point) ∧
      ∀ row ∈ p.equationRows, Meets (p.rowAt row) (p.limitsAt row).2 point) ↔
      ∀ r ∈ p.matrix.zip (p.rowLower.zip p.rowUpper), RowHolds r.2.1 r.2.2 r.1 point := by
    rw [forall_upperParts, forall_equationRows, forall_rows shape, ← forall₂_and]
    apply forall₂_congr
    intro indexed listed
    obtain ⟨least, greatest⟩ := limited.of_mem (List.fst_mem_of_mem_zipIdx listed)
    rw [rowHolds_iff_parts (rowAt_finite finite indexed.2) least greatest]
    simp only [partRow, partLimit, limitsAt_eq listed]
  constructor
  · rintro ⟨upper, equal, pairs⟩
    exact ⟨length, bounds.1 pairs, rows.1 ⟨inequalities.1 upper, equations.1 equal⟩⟩
  · rintro ⟨-, within, hold⟩
    obtain ⟨upper, equal⟩ := rows.2 hold
    exact ⟨inequalities.2 upper, equations.2 equal, bounds.2 within⟩

end LinearProgram

end LinOpt
