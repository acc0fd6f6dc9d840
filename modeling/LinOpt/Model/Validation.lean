import LinOpt.LpText.Name
import LinOpt.Model.Basic

namespace LinOpt.Model

def numberText (n : Number) : Except Error String :=
  match n.text? with
  | some text => .ok text
  | none => .error .wrongValue

def crossedBounds (v : Variable) : Except Error (List String) :=
  if v.upper.lt v.lower then do
    return ["Variable " ++ v.name ++ ": lower bound (" ++ (← numberText v.lower)
      ++ ") > upper bound (" ++ (← numberText v.upper) ++ ")"]
  else .ok []

def isFractional (bound : Number) : Except Error Bool := do
  let x ← inRange bound.toBinary64?
  return !x.isInfinite && !x.isIntegral

def fractionalBound (v : Variable) (side : String) (bound : Number) :
    Except Error (List String) := do
  if ← isFractional bound then
    return ["Variable " ++ v.name ++ ": non-integral " ++ side ++ " bound ("
      ++ (← numberText bound) ++ ") on an integer variable"]
  else return []

def boundWarnings (v : Variable) : Except Error (List String) :=
  if v.isBinary && !v.hasDefaultBounds then do
    return ["Variable " ++ v.name ++ ": binary variable bounds [" ++ (← numberText v.lower) ++ ", "
      ++ (← numberText v.upper) ++ "] are ignored (solved within [0, 1])"]
  else if v.isIntegral then do
    return (← fractionalBound v "lower" v.lower) ++ (← fractionalBound v "upper" v.upper)
  else .ok []

def nameWarnings (v : Variable) : List String :=
  if LpText.isSafeName v.name then []
  else ["Variable " ++ Text.quoted v.name
    ++ ": name cannot be written to LP text (LP output and the HiGHS schema reject it)"]

/-- The errors of a variable, and the warnings. -/
def variableFindings (v : Variable) : Except Error (List String × List String) := do
  let errors ← crossedBounds v
  return (errors, (← boundWarnings v) ++ nameWarnings v)

def failsWhenEmpty (c : Constraint) : Bool :=
  match c.comparison with
  | .le => c.rhs.lt 0
  | .ge => (0 : Number).lt c.rhs
  | .eq => !c.rhs.same 0

def rowErrors (index : Nat) (c : Constraint) : Except Error (List String) :=
  if c.lhs.terms.isEmpty && failsWhenEmpty c then do
    return ["Constraint " ++ toString index ++ ": 0 " ++ c.comparison.text ++ " "
      ++ (← numberText c.rhs) ++ " can never be satisfied"]
  else .ok []

def expressions (m : Model) : List Expression :=
  m.objective.expression :: m.constraints.map (·.lhs)

def unusedNames (m : Model) : List String :=
  let used := m.expressions.flatMap fun e => e.vars.map (·.name)
  m.registry.names.filter fun name => !used.contains name

def unusedWarnings (m : Model) : List String :=
  if m.unusedNames.isEmpty then [] else ["Unused variables: " ++ ", ".intercalate m.unusedNames]

def quadraticWarnings (m : Model) : List String :=
  if m.isQuadratic then ["Model has quadratic terms: only the HiGHS bridge can encode it"] else []

structure Report where
  errors : List String
  warnings : List String
  variableCount : Nat
  integralCount : Nat
  constraintCount : Nat
  sense : Sense
  isQuadratic : Bool
  deriving DecidableEq

def Report.isValid (r : Report) : Bool :=
  r.errors.isEmpty

def validate (m : Model) : Except Error Report := do
  let findings ← m.registry.vars.mapM variableFindings
  let rows ← m.constraints.zipIdx.mapM fun (c, i) => rowErrors i c
  return {
    errors := findings.flatMap Prod.fst ++ rows.flatten
    warnings := findings.flatMap Prod.snd ++ m.unusedWarnings ++ m.quadraticWarnings
    variableCount := m.registry.vars.length
    integralCount := m.registry.vars.countP (·.isIntegral)
    constraintCount := m.constraints.length
    sense := m.objective.sense
    isQuadratic := m.isQuadratic }

def Report.toValue (r : Report) : Value :=
  .record [
    ("valid", .bool r.isValid),
    ("errors", .list (r.errors.map .text)),
    ("warnings", .list (r.warnings.map .text)),
    ("summary", .record [
      ("n_variables", .int r.variableCount),
      ("n_integer", .int r.integralCount),
      ("n_constraints", .int r.constraintCount),
      ("sense", .text r.sense.text),
      ("quadratic", .bool r.isQuadratic)])]

end LinOpt.Model
