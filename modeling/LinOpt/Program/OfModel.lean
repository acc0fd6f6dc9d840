import LinOpt.Model.Basic
import LinOpt.Program.Builder

namespace LinOpt.LinearProgram

open Builder

namespace Builder

def addVariable (b : Builder) (v : Variable) : Except Error Builder := do
  let b := b.setBounds v.name (← inRange v.lower.toBinary64?) (← inRange v.upper.toBinary64?)
  return if v.isBinary then b.markBinary v.name
    else if v.isIntegral then b.markIntegral v.name else b

def coefficients (e : Expression) : Except Error (List (String × Binary64)) :=
  e.linearTerms.mapM fun (c, v) => do return (v.name, ← inRange c.toBinary64?)

def range (comparison : Comparison) (rhs : Binary64) : Binary64 × Binary64 :=
  match comparison with
  | .le => (.infinite true, rhs)
  | .ge => (rhs, .infinite false)
  | .eq => (rhs, rhs)

def addConstraint (b : Builder) (indexed : Constraint × Nat) : Except Error Builder := do
  let (c, index) := indexed
  let terms ← coefficients c.lhs
  let (lower, upper) := range c.comparison (← inRange c.rhs.toBinary64?)
  return b.addRow ("c" ++ toString (index + 1)) terms lower upper

end Builder

/-- `engine` is named in the error if the model has quadratic terms. -/
def ofModel (m : Model) (engine : String) : Except Error LinearProgram := do
  if m.isQuadratic then throw (.quadraticUnsupported engine)
  let b ← m.registry.vars.foldlM addVariable {}
  let costs ← coefficients m.objective.expression
  let b := costs.foldl (fun b (name, c) => b.addCost name c) b
  let b ← m.constraints.zipIdx.foldlM addConstraint b
  return b.build m.objective.isMaximize m.objective.expression.constant

end LinOpt.LinearProgram
