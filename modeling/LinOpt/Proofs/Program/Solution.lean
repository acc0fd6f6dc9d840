import LinOpt.Proofs.Number.Rational
import LinOpt.Proofs.Program.Builder

namespace LinOpt

namespace LinearProgram

def Within (lower upper : Binary64) (r : ℚ) : Prop :=
  lower.IsLower r ∧ upper.IsUpper r

def activity? : List Binary64 → List ℚ → Option ℚ
  | a :: row, y :: point => do return (← a.toRat?) * y + (← activity? row point)
  | _, _ => some 0

def RowHolds (lower upper : Binary64) (row : List Binary64) (point : List ℚ) : Prop :=
  ∃ total, activity? row point = some total ∧ Within lower upper total

structure Satisfies (p : LinearProgram) (point : List ℚ) : Prop where
  length : point.length = p.columnCount
  bounds : ∀ c ∈ (p.lower.zip p.upper).zip point, Within c.1.1 c.1.2 c.2
  rows : ∀ r ∈ p.matrix.zip (p.rowLower.zip p.rowUpper), RowHolds r.2.1 r.2.2 r.1 point

theorem activity?_zeros {row : List Binary64} (zeros : ∀ a ∈ row, a.toRat? = some 0)
    (point : List ℚ) : activity? row point = some 0 := by
  induction row generalizing point with
  | nil => rfl
  | cons a row ih =>
    cases point with
    | nil => rfl
    | cons y point =>
      have rest := ih (fun b member => zeros b (List.mem_cons_of_mem a member)) point
      simp [activity?, zeros a List.mem_cons_self, rest]

theorem activity?_single {names : List String} (nodup : names.Nodup) {f : String → Binary64}
    {point : List ℚ} {x : String} {y : ℚ} (here : (x, y) ∈ names.zip point)
    (one : (f x).toRat? = some 1) (others : ∀ z ∈ names, z ≠ x → (f z).toRat? = some 0) :
    activity? (names.map f) point = some y := by
  induction names generalizing point with
  | nil => cases here
  | cons z names ih =>
    obtain ⟨alone, nodup⟩ := List.nodup_cons.1 nodup
    cases point with
    | nil => cases here
    | cons w point =>
      rcases List.mem_cons.1 here with first | later
      · cases first
        have rest : activity? (names.map f) point = some 0 := by
          refine activity?_zeros (fun a member => ?_) point
          obtain ⟨u, among, rfl⟩ := List.mem_map.1 member
          exact others u (List.mem_cons_of_mem _ among) fun same => alone (same ▸ among)
        simp [activity?, one, rest]
      · have differs : z ≠ x := fun same => alone (same ▸ (List.of_mem_zip later).1)
        have rest := ih nodup later fun u among => others u (List.mem_cons_of_mem z among)
        simp [activity?, others z List.mem_cons_self differs, rest]

namespace Builder

def Row.at (row : Row) (names : List String) : List Binary64 :=
  names.map fun x => (row.coefficients.get? x).getD (Binary64.zero false)

theorem satisfies_build {b : Builder} {maximize : Bool} {offset : Number} {point : List ℚ} :
    (b.build maximize offset).Satisfies point ↔ point.length = b.columns.length ∧
      (∀ c ∈ b.columns.zip point, Within c.1.lower c.1.upper c.2) ∧
      ∀ row ∈ b.rows, RowHolds row.lower row.upper (row.at b.names) point := by
  have count : (b.build maximize offset).columnCount = b.columns.length := by
    simp [columnCount, build]
  have limits : (b.build maximize offset).lower.zip (b.build maximize offset).upper =
      b.columns.map fun c => (c.lower, c.upper) := List.zip_map' ..
  have columns : (∀ c ∈ ((b.build maximize offset).lower.zip (b.build maximize offset).upper).zip
      point, Within c.1.1 c.1.2 c.2) ↔
      ∀ c ∈ b.columns.zip point, Within c.1.lower c.1.upper c.2 := by
    rw [limits, List.zip_map_left, List.forall_mem_map]
    exact Iff.rfl
  have ranges : (b.build maximize offset).rowLower.zip (b.build maximize offset).rowUpper =
      b.rows.map fun row => (row.lower, row.upper) := List.zip_map' ..
  have rows : (∀ r ∈ (b.build maximize offset).matrix.zip ((b.build maximize offset).rowLower.zip
      (b.build maximize offset).rowUpper), RowHolds r.2.1 r.2.2 r.1 point) ↔
      ∀ row ∈ b.rows, RowHolds row.lower row.upper (row.at b.names) point := by
    rw [matrix_build, ranges, List.zip_map', List.forall_mem_map]
    exact Iff.rfl
  constructor
  · rintro ⟨length, inBounds, hold⟩
    exact ⟨length.trans count, columns.1 inBounds, rows.1 hold⟩
  · rintro ⟨length, inBounds, hold⟩
    exact ⟨length.trans count.symm, columns.2 inBounds, rows.2 hold⟩

end Builder

end LinearProgram

end LinOpt
