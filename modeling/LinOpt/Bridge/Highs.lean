import LinOpt.Bridge.Basic
import LinOpt.Schema.Highs

namespace LinOpt.Highs

def decodeColumn (m : Model) (found : Session × SolveResult) (entry : String × Column) :
    Session × SolveResult :=
  let (session, result) := found
  let (name, column) := entry
  match m.registry.get? name with
  | some v =>
    let value := Value.ofOption .real column.primal
    (session.assign v value, { result with values := result.values.put name value })
  | none => (session, { result with diagnostics := result.diagnostics ++ [.column name] })

def decodeRow (m : Model) (found : Session × SolveResult) (indexed : Row × Nat) :
    Session × SolveResult :=
  let (session, result) := found
  let (row, index) := indexed
  if index < m.constraints.length then
    (session.assignRow index { primal := row.primal, dual := row.dual }, result)
  else
    let unmatched := (row.name.map Unmatched.row).getD (.unnamedRow index)
    (session, { result with diagnostics := result.diagnostics ++ [unmatched] })

def decode (m : Model) (response : Response) (found : Session × SolveResult) :
    Session × SolveResult :=
  response.rows.zipIdx.foldl (decodeRow m) (response.columns.foldl (decodeColumn m) found)

end LinOpt.Highs
