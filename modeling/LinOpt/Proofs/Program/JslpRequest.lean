import LinOpt.Engine.Reference
import LinOpt.Proofs.Program.Columns
import LinOpt.Proofs.Schema.Keys

namespace LinOpt.Jslp

open Schema LinearProgram LinearProgram.Builder

namespace Request

def coefficient? (r : Request) (x key : String) : Option Binary64 :=
  (r.vars.get? x).bind fun coefficients => Entries.get? coefficients key

def coefficient (r : Request) (x key : String) : Binary64 :=
  (r.coefficient? x key).getD (Binary64.zero false)

def lateNames (r : Request) : List String :=
  ((flagged r.ints ++ flagged r.binaries).filter (!r.vars.names.elem ·)).eraseDups

def isFree (r : Request) (x : String) : Prop :=
  x ∈ r.vars.names ∧ (r.unrestricted.get? x).getD 0 ≠ 0

instance (r : Request) (x : String) : Decidable (r.isFree x) :=
  inferInstanceAs (Decidable (_ ∧ _))

/-- The program that a request describes. The columns are the variables and after them what else is
marked, the rows are the constraints. A coefficient is what the variable has under the name of the
objective or of the row, added to zero; but a row that has the name of the objective is empty. -/
structure Describes (r : Request) (p : LinearProgram) : Prop where
  columnNames : p.columnNames = r.vars.names ++ r.lateNames
  objective : p.objective = p.columnNames.map fun x => (r.coefficient x r.objective).settled
  rowNames : p.rowNames = r.constraints.names
  matrix : p.matrix = p.rowNames.map fun row => p.columnNames.map fun x =>
    if row = r.objective then Binary64.zero false else (r.coefficient x row).settled
  rowLower : p.rowLower = r.constraints.map fun row =>
    (row.2.get? "equal").getD ((row.2.get? "min").getD (.infinite true))
  rowUpper : p.rowUpper = r.constraints.map fun row =>
    (row.2.get? "equal").getD ((row.2.get? "max").getD (.infinite false))
  lower : p.lower = p.columnNames.map fun x =>
    if x ∉ flagged r.binaries ∧ r.isFree x then .infinite true else Binary64.zero false
  upper : p.upper = p.columnNames.map fun x =>
    if x ∈ flagged r.binaries then Binary64.ofInt 1 else .infinite false
  integrality : p.integrality = p.columnNames.map fun x =>
    if x ∈ flagged r.ints ∨ x ∈ flagged r.binaries then 1 else 0
  maximize : p.maximize = r.maximize
  offset : p.offset = .real (Binary64.zero false)

/-- Two requests that differ in no more than their options and coefficients under keys that name
neither the objective nor a row. -/
structure Alike (r s : Request) : Prop where
  objective : s.objective = r.objective
  maximize : s.maximize = r.maximize
  constraints : s.constraints = r.constraints
  ints : s.ints = r.ints
  binaries : s.binaries = r.binaries
  unrestricted : s.unrestricted = r.unrestricted
  names : s.vars.names = r.vars.names
  coefficients : ∀ x key, key = r.objective ∨ key ∈ r.constraints.names →
    s.coefficient? x key = r.coefficient? x key

end Request

def entriesUnder (r : Request) (key : String) : List (String × Binary64) :=
  r.vars.filterMap fun v => (v.2.get? key).map fun c => (v.1, c)

theorem jslpCoefficients_eq (r : Request) (row : String) :
    jslpCoefficients r row = if row = r.objective then [] else entriesUnder r row :=
  rfl

theorem names_entriesUnder (r : Request) (key : String) :
    ((entriesUnder r key).map Prod.fst).Sublist r.vars.names := by
  unfold entriesUnder Entries.names
  induction r.vars with
  | nil => exact List.Sublist.refl _
  | cons v vars ih =>
    cases here : v.2.get? key with
    | none => simpa [here] using ih.cons v.1
    | some c => simpa [here] using ih.cons_cons v.1

variable {r : Request}

theorem get?_entriesUnder (nodup : r.vars.names.Nodup) (x key : String) :
    Entries.get? (entriesUnder r key) x = r.coefficient? x key := by
  unfold Request.coefficient?
  cases found : r.vars.get? x with
  | some coefficients =>
    have member : (x, coefficients) ∈ r.vars := Entries.mem_of_get? found
    exact Entries.get?_indexed_some nodup (fun v => v.2.get? key) member
  | none =>
    refine Entries.get?_eq_none.2 fun member => Entries.get?_eq_none.1 found ?_
    exact (names_entriesUnder r key).subset member

theorem total_entriesUnder (nodup : r.vars.names.Nodup) (x key : String) :
    Binary64.total (under (entriesUnder r key) x) = (r.coefficient x key).settled := by
  rw [under_of_nodup (nodup.sublist (names_entriesUnder r key)), get?_entriesUnder nodup,
    Binary64.total_toList]
  rfl

theorem total_jslpCoefficients (nodup : r.vars.names.Nodup) (x row : String) :
    Binary64.total (under (jslpCoefficients r row) x) =
      if row = r.objective then Binary64.zero false else (r.coefficient x row).settled := by
  rw [jslpCoefficients_eq]
  split
  · rfl
  · exact total_entriesUnder nodup x row

def builderOf (r : Request) : Builder :=
  let b : Builder := r.vars.foldl
    (fun b v => b.setBounds v.1 (jslpLower r v.1) (.infinite false)) {}
  let b := (entriesUnder r r.objective).foldl (fun b e => b.addCost e.1 e.2) b
  let b := r.constraints.foldl (fun b row =>
    b.addRow row.1 (jslpCoefficients r row.1) (jslpRange row.2).1 (jslpRange row.2).2) b
  (flagged r.binaries).foldl markBinary ((flagged r.ints).foldl markIntegral b)

theorem ofJslp_eq (r : Request) :
    ofJslp r = (builderOf r).build r.maximize (.real (Binary64.zero false)) := by
  have costs (b : Builder) : (entriesUnder r r.objective).foldl (fun b e => b.addCost e.1 e.2) b =
      r.vars.foldl (fun b v => ((Entries.get? v.2 r.objective).map (b.addCost v.1)).getD b) b := by
    rw [entriesUnder, List.foldl_filterMap]
    congr 1
    funext b v
    cases v.2.get? r.objective <;> rfl
  rw [builderOf, costs]
  rfl

theorem mem_names_jslpCoefficients {row x : String}
    (member : x ∈ (jslpCoefficients r row).map Prod.fst) : x ∈ r.vars.names := by
  rw [jslpCoefficients_eq] at member
  split at member
  · cases member
  · exact (names_entriesUnder r row).subset member

theorem names_builderOf (r : Request) :
    (builderOf r).names = (r.vars.names ++ flagged r.ints ++ flagged r.binaries).eraseDups := by
  have empty : names {} = [].eraseDups := rfl
  have bounded : _ = r.vars.names.eraseDups :=
    names_setBounds Prod.fst (fun v => (jslpLower r v.1, .infinite false)) r.vars empty
  -- Neither costs nor rows bring a name that no variable has.
  have costly := names_addCosts Prod.fst Prod.snd (entriesUnder r r.objective) bounded
  rw [eraseDups_append_of_subset fun _ member => (names_entriesUnder r _).subset member] at costly
  have limited := foldl_eraseDups names _ (fun _ _ row => names_addRow row.1
    (jslpCoefficients r row.1) (jslpRange row.2).1 (jslpRange row.2).2) r.constraints costly
  have known : ∀ x ∈ r.constraints.flatMap (fun row => (jslpCoefficients r row.1).map Prod.fst),
      x ∈ r.vars.names := by
    intro x member
    obtain ⟨row, -, named⟩ := List.mem_flatMap.1 member
    exact mem_names_jslpCoefficients named
  rw [eraseDups_append_of_subset known] at limited
  exact names_marks (flagged r.ints) (flagged r.binaries) limited

theorem rows_builderOf (r : Request) : (builderOf r).rows = r.constraints.map fun row =>
    ⟨row.1, sumByName (jslpCoefficients r row.1), (jslpRange row.2).1, (jslpRange row.2).2⟩ := by
  have bounded : (r.vars.foldl (fun (b : Builder) v =>
      b.setBounds v.1 (jslpLower r v.1) (.infinite false)) {}).rows = [] :=
    rows_setBounds Prod.fst (fun v => (jslpLower r v.1, .infinite false)) {} r.vars
  have limited (b : Builder) : (r.constraints.foldl (fun b row =>
      b.addRow row.1 (jslpCoefficients r row.1) (jslpRange row.2).1 (jslpRange row.2).2) b).rows =
      b.rows ++ r.constraints.map fun row => ⟨row.1, sumByName (jslpCoefficients r row.1),
        (jslpRange row.2).1, (jslpRange row.2).2⟩ :=
    rows_addRows Prod.fst (fun row => jslpCoefficients r row.1) (fun row => (jslpRange row.2).1)
      (fun row => (jslpRange row.2).2) r.constraints
  rw [builderOf, rows_marks, limited, rows_addCosts Prod.fst Prod.snd, bounded, List.nil_append]

def Request.column (r : Request) (x : String) : Column where
  name := x
  lower := if r.isFree x then .infinite true else Binary64.zero false
  cost := (r.coefficient x r.objective).settled

theorem columnAt_bounded (r : Request) (x : String) :
    (r.vars.foldl (fun (b : Builder) v => b.setBounds v.1 (jslpLower r v.1) (.infinite false))
      {}).columnAt x =
      { name := x, lower := if r.isFree x then .infinite true else Binary64.zero false } := by
  have bounds : (r.vars.foldl (fun (b : Builder) v =>
      b.setBounds v.1 (jslpLower r v.1) (.infinite false)) {}).columnAt x = _ :=
    columnAt_setBounds Prod.fst (fun v => (jslpLower r v.1, .infinite false)) {} r.vars x
  rw [bounds]
  cases last : (r.vars.filter (·.1 == x)).getLast? with
  | none =>
    have absent : x ∉ r.vars.names := by
      intro member
      obtain ⟨v, among, named⟩ := List.mem_map.1 member
      have nothing := List.filter_eq_nil_iff.1 (List.getLast?_eq_none_iff.1 last) v among
      exact nothing (beq_iff_eq.2 named)
    simp only [Request.isFree, absent, false_and, if_false]
    rfl
  | some v =>
    obtain ⟨member, named⟩ := List.mem_filter.1 (List.mem_of_getLast? last)
    obtain rfl : v.1 = x := beq_iff_eq.1 named
    have known : v.1 ∈ r.vars.names := List.mem_map_of_mem member
    simp only [Request.isFree, known, true_and, jslpLower, bne_iff_ne]
    rfl

theorem columnAt_builderOf (nodup : r.vars.names.Nodup) (x : String) :
    (builderOf r).columnAt x = marked (flagged r.ints) (flagged r.binaries) x (r.column x) := by
  have limited (b : Builder) : (r.constraints.foldl (fun b row =>
      b.addRow row.1 (jslpCoefficients r row.1) (jslpRange row.2).1 (jslpRange row.2).2)
      b).columnAt x = b.columnAt x :=
    columnAt_addRows Prod.fst (fun row => jslpCoefficients r row.1)
      (fun row => (jslpRange row.2).1) (fun row => (jslpRange row.2).2) r.constraints x
  have cost : ((entriesUnder r r.objective).filter (·.1 == x) |>.map Prod.snd).foldl Binary64.add
      (Binary64.zero false) = (r.coefficient x r.objective).settled :=
    total_entriesUnder nodup x r.objective
  rw [builderOf, columnAt_marks, limited, columnAt_addCosts Prod.fst Prod.snd,
    columnAt_bounded, cost]
  rfl

theorem smaller_infinite_one : smaller (.infinite false) (Binary64.ofInt 1) = Binary64.ofInt 1 := by
  decide +kernel

theorem larger_lower_zero (r : Request) (x : String) :
    larger (if r.isFree x then .infinite true else Binary64.zero false) (Binary64.zero false) =
      Binary64.zero false := by
  split
  · decide +kernel
  · exact ite_self _

theorem columnNames_eq (nodup : r.vars.names.Nodup) :
    (r.vars.names ++ flagged r.ints ++ flagged r.binaries).eraseDups =
      r.vars.names ++ r.lateNames := by
  rw [List.append_assoc, List.eraseDups_append, eraseDups_of_nodup nodup]
  rfl

theorem map_columns_builderOf (nodup : r.vars.names.Nodup) {α : Type} (g : Column → α) :
    (builderOf r).columns.map g = (builderOf r).names.map fun x =>
      g (marked (flagged r.ints) (flagged r.binaries) x (r.column x)) :=
  map_columns (names_builderOf r ▸ nodup_eraseDups _) (columnAt_builderOf nodup) g

theorem map_rows_builderOf (r : Request) {α : Type} (g : Row → α) :
    (builderOf r).rows.map g = r.constraints.map fun row => g ⟨row.1,
      sumByName (jslpCoefficients r row.1), (jslpRange row.2).1, (jslpRange row.2).2⟩ := by
  rw [rows_builderOf, List.map_map]
  rfl

theorem jslpRange_eq (limits : Entries Binary64) : jslpRange limits =
    ((limits.get? "equal").getD ((limits.get? "min").getD (.infinite true)),
      (limits.get? "equal").getD ((limits.get? "max").getD (.infinite false))) := by
  unfold jslpRange
  cases limits.get? "equal" <;> rfl

theorem describes_ofJslp (nodup : r.vars.names.Nodup) : r.Describes (ofJslp r) := by
  rw [ofJslp_eq]
  exact {
    columnNames := by
      have names := names_builderOf r
      rw [columnNames_eq nodup] at names
      exact names
    objective := by
      have columns := map_columns_builderOf nodup (·.cost)
      simp only [cost_marked] at columns
      exact columns
    rowNames := map_rows_builderOf r (·.name)
    matrix := by
      show _ = ((builderOf r).rows.map (·.name)).map _
      rw [matrix_build, map_rows_builderOf, map_rows_builderOf, List.map_map]
      refine List.map_congr_left fun row _ => List.map_congr_left fun x _ => ?_
      rw [getD_sumByName, total_jslpCoefficients nodup]
    rowLower := by
      have rows := map_rows_builderOf r (·.lower)
      simp only [jslpRange_eq] at rows
      exact rows
    rowUpper := by
      have rows := map_rows_builderOf r (·.upper)
      simp only [jslpRange_eq] at rows
      exact rows
    lower := by
      show (builderOf r).columns.map (·.lower) = (builderOf r).names.map _
      rw [map_columns_builderOf nodup]
      refine List.map_congr_left fun x _ => ?_
      rw [lower_marked, Request.column, larger_lower_zero]
      by_cases binary : x ∈ flagged r.binaries <;> simp [binary]
    upper := by
      have columns := map_columns_builderOf nodup (·.upper)
      simp only [upper_marked, Request.column, smaller_infinite_one] at columns
      exact columns
    integrality := by
      have columns := map_columns_builderOf nodup fun c => if c.isIntegral then (1 : Int) else 0
      simp only [isIntegral_marked, Request.column, Bool.false_eq_true, or_false] at columns
      exact columns
    maximize := rfl
    offset := rfl }

theorem Request.Describes.unique {s : Request} {p q : LinearProgram} (first : r.Describes p)
    (second : s.Describes q) (alike : r.Alike s) : q = p := by
  -- Keys without a meaning are never looked up, so that they make no difference.
  have coefficient {key : String} (meant : key = r.objective ∨ key ∈ r.constraints.names)
      (x : String) : s.coefficient x key = r.coefficient x key :=
    congrArg (Option.getD · _) (alike.coefficients x key meant)
  have late : s.lateNames = r.lateNames := by
    unfold Request.lateNames
    rw [alike.names, alike.ints, alike.binaries]
  have free (x : String) : s.isFree x ↔ r.isFree x := by
    unfold Request.isFree
    rw [alike.names, alike.unrestricted]
  have columnNames : q.columnNames = p.columnNames := by
    rw [second.columnNames, first.columnNames, alike.names, late]
  have rowNames : q.rowNames = p.rowNames := by
    rw [second.rowNames, first.rowNames, alike.constraints]
  have objective : q.objective = p.objective := by
    rw [second.objective, first.objective, columnNames, alike.objective]
    simp only [coefficient (.inl rfl)]
  have matrix : q.matrix = p.matrix := by
    rw [second.matrix, first.matrix, columnNames, rowNames, alike.objective]
    refine List.map_congr_left fun row member => ?_
    simp only [coefficient (.inr (first.rowNames ▸ member))]
  have rowLower : q.rowLower = p.rowLower := by
    rw [second.rowLower, first.rowLower, alike.constraints]
  have rowUpper : q.rowUpper = p.rowUpper := by
    rw [second.rowUpper, first.rowUpper, alike.constraints]
  have lower : q.lower = p.lower := by
    rw [second.lower, first.lower, columnNames, alike.binaries]
    simp only [free]
  have upper : q.upper = p.upper := by
    rw [second.upper, first.upper, columnNames, alike.binaries]
  have integrality : q.integrality = p.integrality := by
    rw [second.integrality, first.integrality, columnNames, alike.ints, alike.binaries]
  have maximize : q.maximize = p.maximize := by
    rw [second.maximize, first.maximize, alike.maximize]
  have offset : q.offset = p.offset := second.offset.trans first.offset.symm
  cases p
  cases q
  simp only [LinearProgram.mk.injEq]
  exact ⟨columnNames, objective, maximize, lower, upper, integrality, rowNames, matrix, rowLower,
    rowUpper, offset⟩

theorem Request.nodup_vars {value : Value} (proper : value.hasDistinctKeys = true)
    (understood : Request.read value = .ok r) : r.vars.names.Nodup := by
  obtain ⟨entries, isMap, fields⟩ := bind_eq_ok.1 understood
  obtain rfl := readRecord_eq_ok.1 isMap
  obtain ⟨parts, isParts, rfl⟩ := map_eq_ok.1 fields
  have vars := (both_eq_ok.1 (both_eq_ok.1 (both_eq_ok.1 (both_eq_ok.1 isParts).2).2).2).1
  exact nodup_of_defaulted proper vars

/-- Whatever its variables, rows and objective are called, a jsLPSolver request that is understood
is read as the program that it describes, and coefficients under other keys have no effect. -/
theorem jslp_request_describes_program {value : Value} (proper : value.hasDistinctKeys = true)
    (understood : Request.read value = .ok r) :
    ∃ p, Engine.readProgram .jslp value = .ok p ∧ r.Describes p ∧ p.Sized ∧
      ∀ other s, other.hasDistinctKeys = true → Request.read other = .ok s → r.Alike s →
        Engine.readProgram .jslp other = .ok p := by
  have reads {value : Value} {r : Request} (understood : Request.read value = .ok r) :
      Engine.readProgram .jslp value = .ok (ofJslp r) := by
    simp only [Engine.readProgram, understood]
    rfl
  have describes := describes_ofJslp (Request.nodup_vars proper understood)
  refine ⟨ofJslp r, reads understood, describes, ?_, ?_⟩
  · rw [ofJslp_eq]
    exact sized_build _ _ _
  · intro other s otherProper otherUnderstood alike
    have otherDescribes := describes_ofJslp (Request.nodup_vars otherProper otherUnderstood)
    rw [reads otherUnderstood, describes.unique otherDescribes alike]

def crossed : Request where
  objective := "profit"
  maximize := true
  constraints := [("profit", [("max", Binary64.ofInt 10)]), ("x", [("equal", Binary64.ofInt 3)])]
  vars := [("x", [("profit", Binary64.ofInt 2), ("x", Binary64.ofInt 1), ("y", Binary64.ofInt 5)]),
    ("profit", [("x", Binary64.ofInt 4)])]
  ints := [("z", 1), ("profit", 0)]
  binaries := [("x", 1), ("z", 1)]
  unrestricted := [("profit", 1)]
  options := []

def trimmed : Request :=
  { crossed with
    vars := [("x", [("profit", Binary64.ofInt 2), ("x", Binary64.ofInt 1)]),
      ("profit", [("x", Binary64.ofInt 4)])] }

theorem crossed_alike_trimmed : crossed.Alike trimmed := by
  refine ⟨rfl, rfl, rfl, rfl, rfl, rfl, rfl, fun x key meant => ?_⟩
  have notOther : "y" ≠ key := by
    rintro rfl
    simp [crossed, Entries.names] at meant
  simp only [Request.coefficient?, trimmed, crossed, Entries.get?_cons]
  split <;> simp [Entries.get?_cons, notOther]

theorem crossed_describes_program :
    ∃ p, Engine.readProgram .jslp crossed.toValue = .ok p ∧ crossed.Describes p ∧
      p.columnNames = ["x", "profit", "z"] ∧ Engine.readProgram .jslp trimmed.toValue = .ok p := by
  have proper : crossed.toValue.hasDistinctKeys = true := by decide +kernel
  have properToo : trimmed.toValue.hasDistinctKeys = true := by decide +kernel
  obtain ⟨p, read, describes, -, others⟩ :=
    jslp_request_describes_program proper (Request.read_toValue crossed)
  exact ⟨p, read, describes, describes.columnNames.trans (by decide +kernel),
    others _ _ properToo (Request.read_toValue trimmed) crossed_alike_trimmed⟩

/-- A row that has the name of the objective stays empty, although variables have coefficients under
that name. -/
theorem row_named_like_objective_is_empty :
    ∃ p, Engine.readProgram .jslp crossed.toValue = .ok p ∧
      p.matrix ≠ p.rowNames.map fun row => p.columnNames.map fun x =>
        (crossed.coefficient x row).settled := by
  refine ⟨ofJslp crossed, ?_, ?_⟩
  · simp only [Engine.readProgram, Request.read_toValue]
    rfl
  · decide +kernel

end LinOpt.Jslp
