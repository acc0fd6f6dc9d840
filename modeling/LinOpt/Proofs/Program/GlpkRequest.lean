import LinOpt.Engine.Reference
import LinOpt.Proofs.Program.Columns
import LinOpt.Proofs.Schema.Requests

namespace LinOpt.Glpk

open LinearProgram LinearProgram.Builder

def limitsByCode (code : Int) (lower upper : Binary64) : Binary64 × Binary64 :=
  if code = 1 then (.infinite true, .infinite false)
  else if code = 2 then (lower, .infinite false)
  else if code = 3 then (.infinite true, upper)
  else if code = 5 then (lower, lower)
  else (lower, upper)

theorem Limits.range_eq (l : Limits) : l.range = limitsByCode l.type.code l.lower l.upper := by
  unfold range
  cases l.type <;> rfl

def coefficientsOf (entries : List Entry) (x : String) : List Binary64 :=
  (entries.filter (·.name == x)).map (·.coefficient)

def pairs (entries : List Entry) : List (String × Binary64) :=
  entries.map fun e => (e.name, e.coefficient)

theorem under_pairs (entries : List Entry) (x : String) :
    under (pairs entries) x = coefficientsOf entries x := by
  rw [under, pairs, List.filter_map, List.map_map]
  rfl

namespace Request

def mentioned (r : Request) : List String :=
  r.columns.map (·.name) ++ r.objective.entries.map (·.name) ++
    r.rows.flatMap (fun row => row.entries.map (·.name)) ++ r.generals ++ r.binaries

/-- The bounds that the last record for a name gives it. Without a record it is not negative. -/
def boundsOf (r : Request) (x : String) : Binary64 × Binary64 :=
  match (r.columns.filter (·.name == x)).getLast? with
  | some c => limitsByCode c.limits.type.code c.limits.lower c.limits.upper
  | none => (Binary64.zero false, .infinite false)

/-- The program that a request describes. Its columns are the names in the order of first mention,
and what is given several times for one of them is added up. -/
structure Describes (r : Request) (p : LinearProgram) : Prop where
  columnNames : p.columnNames = r.mentioned.eraseDups
  objective : List.Forall₂ (fun x cost => cost.IsSum (coefficientsOf r.objective.entries x))
    p.columnNames p.objective
  rowNames : p.rowNames = r.rows.map (·.name)
  matrix : List.Forall₂ (fun row coefficients => List.Forall₂
      (fun x coefficient => coefficient.IsSum (coefficientsOf row.entries x))
      p.columnNames coefficients) r.rows p.matrix
  rowLower : p.rowLower = r.rows.map fun row =>
    (limitsByCode row.limits.type.code row.limits.lower row.limits.upper).1
  rowUpper : p.rowUpper = r.rows.map fun row =>
    (limitsByCode row.limits.type.code row.limits.lower row.limits.upper).2
  lower : p.lower = p.columnNames.map fun x =>
    if x ∈ r.binaries then larger (r.boundsOf x).1 (Binary64.zero false) else (r.boundsOf x).1
  upper : p.upper = p.columnNames.map fun x =>
    if x ∈ r.binaries then smaller (r.boundsOf x).2 (Binary64.ofInt 1) else (r.boundsOf x).2
  integrality : p.integrality = p.columnNames.map fun x =>
    if x ∈ r.generals ∨ x ∈ r.binaries then 1 else 0
  maximize : p.maximize = true ↔ r.objective.direction = 2
  offset : p.offset = .real (Binary64.zero false)

end Request

def builderOf (r : Request) : Builder :=
  let b : Builder := r.columns.foldl addGlpkColumn {}
  let b := r.objective.entries.foldl (fun b e => b.addCost e.name e.coefficient) b
  let b := r.rows.foldl addGlpkRow b
  r.binaries.foldl markBinary (r.generals.foldl markIntegral b)

theorem names_addGlpkRow {b : Builder} {mentioned : List String} (row : Row)
    (start : b.names = mentioned.eraseDups) :
    (addGlpkRow b row).names = (mentioned ++ row.entries.map (·.name)).eraseDups := by
  have names : (sumByName (pairs row.entries)).map Prod.fst =
      (row.entries.map (·.name)).eraseDups := by
    have names := names_sumByName_eq (pairs row.entries)
    rw [pairs, Entries.names, List.map_map] at names
    exact names
  have added := names_addRow row.name (sumByName (pairs row.entries)) row.limits.range.1
    row.limits.range.2 start
  rwa [names, append_eraseDups] at added

theorem names_builderOf (r : Request) : (builderOf r).names = r.mentioned.eraseDups := by
  have empty : names {} = [].eraseDups := rfl
  have bounded := names_setBounds Column.name (·.limits.range) r.columns empty
  have costly := names_addCosts Entry.name Entry.coefficient r.objective.entries bounded
  have limited := foldl_eraseDups names _ (fun _ _ row => names_addGlpkRow row) r.rows costly
  exact names_marks r.generals r.binaries limited

theorem rows_builderOf (r : Request) : (builderOf r).rows = r.rows.map fun row =>
    ⟨row.name, sumByName (sumByName (pairs row.entries)), row.limits.range.1,
      row.limits.range.2⟩ := by
  have bounded : (r.columns.foldl addGlpkColumn {}).rows = [] :=
    rows_setBounds Column.name (·.limits.range) {} r.columns
  have limited (b : Builder) : (r.rows.foldl addGlpkRow b).rows = b.rows ++ r.rows.map fun row =>
      ⟨row.name, sumByName (sumByName (pairs row.entries)), row.limits.range.1,
        row.limits.range.2⟩ :=
    rows_addRows Row.name (fun row => sumByName (pairs row.entries)) (·.limits.range.1)
      (·.limits.range.2) r.rows
  rw [builderOf, rows_marks, limited, rows_addCosts Entry.name Entry.coefficient, bounded,
    List.nil_append]

def Request.column (r : Request) (x : String) : LinearProgram.Builder.Column where
  name := x
  lower := (r.boundsOf x).1
  upper := (r.boundsOf x).2
  cost := Binary64.total (coefficientsOf r.objective.entries x)

theorem columnAt_builderOf (r : Request) (x : String) :
    (builderOf r).columnAt x = marked r.generals r.binaries x (r.column x) := by
  have bounded : (r.columns.foldl addGlpkColumn {}).columnAt x =
      { name := x, lower := (r.boundsOf x).1, upper := (r.boundsOf x).2 } := by
    have last : (r.columns.foldl addGlpkColumn {}).columnAt x = _ :=
      columnAt_setBounds Column.name (·.limits.range) {} r.columns x
    rw [last, Request.boundsOf]
    cases (r.columns.filter (·.name == x)).getLast? with
    | none => rfl
    | some c =>
      simp only [Limits.range_eq]
      rfl
  have limited (b : Builder) : (r.rows.foldl addGlpkRow b).columnAt x = b.columnAt x :=
    columnAt_addRows Row.name (fun row => sumByName (pairs row.entries)) (·.limits.range.1)
      (·.limits.range.2) r.rows x
  rw [builderOf, columnAt_marks, limited, columnAt_addCosts Entry.name Entry.coefficient, bounded]
  rfl

theorem map_columns_builderOf (r : Request) {α : Type} (g : LinearProgram.Builder.Column → α) :
    (builderOf r).columns.map g =
      (builderOf r).names.map fun x => g (marked r.generals r.binaries x (r.column x)) :=
  map_columns (names_builderOf r ▸ nodup_eraseDups _) (columnAt_builderOf r) g

theorem map_rows_builderOf (r : Request) {α : Type} (g : LinearProgram.Builder.Row → α) :
    (builderOf r).rows.map g = r.rows.map fun row =>
      g ⟨row.name, sumByName (sumByName (pairs row.entries)), row.limits.range.1,
        row.limits.range.2⟩ := by
  rw [rows_builderOf, List.map_map]
  rfl

theorem describes_ofGlpk (r : Request) : r.Describes (ofGlpk r) where
  columnNames := names_builderOf r
  objective := by
    show List.Forall₂ _ (builderOf r).names ((builderOf r).columns.map (·.cost))
    rw [map_columns_builderOf, List.forall₂_map_right_iff]
    refine List.forall₂_same.2 fun x _ => ?_
    rw [cost_marked]
    exact Binary64.isSum_total _
  rowNames := map_rows_builderOf r (·.name)
  matrix := by
    show List.Forall₂ _ r.rows ((builderOf r).build _ _).matrix
    rw [matrix_build, map_rows_builderOf, List.forall₂_map_right_iff]
    refine List.forall₂_same.2 fun row _ => ?_
    refine List.forall₂_map_right_iff.2 (List.forall₂_same.2 fun x _ => ?_)
    rw [getD_sumByName, total_under_sumByName, under_pairs]
    exact Binary64.isSum_total _
  rowLower := by
    have rows := map_rows_builderOf r (·.lower)
    simp only [Limits.range_eq] at rows
    exact rows
  rowUpper := by
    have rows := map_rows_builderOf r (·.upper)
    simp only [Limits.range_eq] at rows
    exact rows
  lower := by
    have columns := map_columns_builderOf r (·.lower)
    simp only [lower_marked] at columns
    exact columns
  upper := by
    have columns := map_columns_builderOf r (·.upper)
    simp only [upper_marked] at columns
    exact columns
  integrality := by
    have columns := map_columns_builderOf r fun c => if c.isIntegral then (1 : Int) else 0
    simp only [isIntegral_marked, Request.column, Bool.false_eq_true, or_false] at columns
    exact columns
  maximize := beq_iff_eq
  offset := rfl

/-- Whatever the request names where and how often, a GLPK request that is understood is read as the
program that it describes. -/
theorem glpk_request_describes_program {value : Value} {r : Request}
    (understood : Request.read value = .ok r) :
    ∃ p, Engine.readProgram .glpk value = .ok p ∧ r.Describes p ∧ p.Sized := by
  refine ⟨ofGlpk r, ?_, describes_ofGlpk r, sized_build _ _ _⟩
  simp only [Engine.readProgram, understood]
  rfl

def crowded : Request where
  objective := { direction := 2, entries := [⟨"x", Binary64.ofInt 1⟩, ⟨"z", Binary64.ofInt 2⟩,
    ⟨"x", Binary64.ofInt 3⟩] }
  rows := [⟨"r", [⟨"y", Binary64.ofInt 1⟩, ⟨"y", Binary64.ofInt 1⟩],
      ⟨.upper, Binary64.ofInt 5, Binary64.zero false⟩⟩,
    ⟨"s", [⟨"w", Binary64.ofInt 1⟩], ⟨.fixed, Binary64.ofInt 2, Binary64.ofInt 1⟩⟩]
  columns := [⟨"y", ⟨.free, Binary64.zero false, Binary64.zero false⟩⟩,
    ⟨"x", ⟨.double, Binary64.ofInt 3, Binary64.ofInt (-1)⟩⟩,
    ⟨"x", ⟨.lower, Binary64.zero false, Binary64.ofInt (-2)⟩⟩]
  binaries := ["x", "v"]
  generals := ["z", "u"]

theorem crowded_describes_program :
    ∃ p, Engine.readProgram .glpk crowded.toValue = .ok p ∧ crowded.Describes p ∧ p.Sized ∧
      p.columnNames = ["y", "x", "z", "w", "u", "v"] := by
  obtain ⟨p, read, describes, sized⟩ :=
    glpk_request_describes_program (Request.read_toValue crowded)
  have names : crowded.mentioned.eraseDups = ["y", "x", "z", "w", "u", "v"] := by decide +kernel
  have columnNames := describes.columnNames
  rw [names] at columnNames
  exact ⟨p, read, describes, sized, columnNames⟩

end LinOpt.Glpk
