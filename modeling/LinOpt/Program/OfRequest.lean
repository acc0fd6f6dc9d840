import LinOpt.Program.Builder
import LinOpt.Schema.Glpk
import LinOpt.Schema.Jslp

namespace LinOpt.LinearProgram

open Builder

namespace Builder

def addGlpkColumn (b : Builder) (c : Glpk.Column) : Builder :=
  b.setBounds c.name c.limits.range.1 c.limits.range.2

/-- The coefficients of a row of the request are added up by name before they enter the program. -/
def addGlpkRow (b : Builder) (r : Glpk.Row) : Builder :=
  b.addRow r.name (sumByName (r.entries.map fun e => (e.name, e.coefficient)))
    r.limits.range.1 r.limits.range.2

end Builder

def ofGlpk (r : Glpk.Request) : LinearProgram :=
  let b : Builder := r.columns.foldl addGlpkColumn {}
  let b := r.objective.entries.foldl (fun b e => b.addCost e.name e.coefficient) b
  let b := r.rows.foldl addGlpkRow b
  let b := r.generals.foldl markIntegral b
  let b := r.binaries.foldl markBinary b
  b.build (r.objective.direction == Glpk.Objective.maximize) (.real (Binary64.zero false))

/-- The limits of a row: one value for both sides, or each side for itself. -/
def jslpRange (limits : Entries Binary64) : Binary64 × Binary64 :=
  match limits.get? "equal" with
  | some value => (value, value)
  | none => ((limits.get? "min").getD (.infinite true), (limits.get? "max").getD (.infinite false))

/-- What the variables have under the name of a row. A name that means the objective means no row.
-/
def jslpCoefficients (r : Jslp.Request) (row : String) : List (String × Binary64) :=
  if row = r.objective then []
  else r.vars.filterMap fun (name, coefficients) =>
    (coefficients.get? row).map fun c => (name, c)

def jslpLower (r : Jslp.Request) (name : String) : Binary64 :=
  if ((r.unrestricted.get? name).getD 0) != 0 then .infinite true else Binary64.zero false

def flagged (flags : Entries Int) : List String :=
  flags.filterMap fun (name, flag) => if flag = 0 then none else some name

def ofJslp (r : Jslp.Request) : LinearProgram :=
  let b : Builder := r.vars.foldl
    (fun b (name, _) => b.setBounds name (jslpLower r name) (.infinite false)) {}
  let b := r.vars.foldl (fun b (name, coefficients) =>
    ((coefficients.get? r.objective).map (b.addCost name)).getD b) b
  let b := r.constraints.foldl (fun b (row, limits) =>
    b.addRow row (jslpCoefficients r row) (jslpRange limits).1 (jslpRange limits).2) b
  let b := (flagged r.ints).foldl markIntegral b
  let b := (flagged r.binaries).foldl markBinary b
  b.build r.maximize (.real (Binary64.zero false))

end LinOpt.LinearProgram
