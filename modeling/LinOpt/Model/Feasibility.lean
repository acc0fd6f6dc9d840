import LinOpt.Model.Basic

namespace LinOpt.Model

inductive Violation
  | lowerBound (v : Variable) (value : Value) (bound : Number)
  | upperBound (v : Variable) (value : Value) (bound : Number)
  | integrality (v : Variable) (value : Value)
  | row (index : Nat) (activity : Number) (c : Constraint)

def Violation.toValue : Violation → Value
  | lowerBound v value bound => .record [
    ("variable", .text v.name), ("type", .text "lower_bound"), ("value", value), ("bound", bound)]
  | upperBound v value bound => .record [
    ("variable", .text v.name), ("type", .text "upper_bound"), ("value", value), ("bound", bound)]
  | integrality v value => .record [
    ("variable", .text v.name), ("type", .text "integrality"), ("value", value)]
  | row index activity c => .record [
    ("constraint", .int index), ("type", .text "row"), ("value", activity),
    ("comparison", .text c.comparison.text), ("bound", c.rhs)]

structure Feasibility where
  violations : List Violation
  unset : List String

def Feasibility.holds (f : Feasibility) : Bool :=
  f.violations.isEmpty && f.unset.isEmpty

def Feasibility.toValue (f : Feasibility) : Value :=
  .record [
    ("feasible", .bool f.holds),
    ("violations", .list (f.violations.map Violation.toValue)),
    ("n_violations", .int f.violations.length),
    ("unset_variables", .list (f.unset.map .text))]

def listIf (p : Bool) (a : α) : List α :=
  if p then [a] else []

def distanceToInt : Number → Except Error Number
  | .int _ => .ok 0
  | .real .nan => .error .wrongValue
  | .real x => do
    let nearest ← inRange x.round?
    return (← inRange ((Number.real x).sub (.int nearest))).abs
  | .ratio q =>
    let nearest := Binary64.signed (decide (q.num < 0)) (roundHalfEven q.num.natAbs q.den)
    .ok (Number.ratio (q - nearest)).abs

def variableViolations (tolerance : Value) (v : Variable) (value : Value) :
    Except Error (List Violation) := do
  let (lower, upper) := v.effectiveBounds
  let tolerance ← tolerance.asNumber
  let least ← inRange (lower.sub tolerance)
  let x ← value.asNumber
  let greatest ← inRange (upper.add tolerance)
  let fractional ← if v.isIntegral then tolerance.lt <$> distanceToInt x else pure false
  return listIf (x.lt least) (.lowerBound v value lower)
    ++ listIf (greatest.lt x) (.upperBound v value upper)
    ++ listIf fractional (.integrality v value)

def rowViolations (values : Valuation) (tolerance : Value) (index : Nat) (c : Constraint) :
    Except Error (List Violation) := do
  if (← c.isSatisfied values tolerance) != some false then return []
  let some activity ← c.lhs.evaluate values | return []
  return [.row index activity c]

/-- The tolerance has to be a number where it is needed, that is if any variable has a value or any
row is complete. -/
def checkFeasibility (m : Model) (tolerance : Value) : Except Error Feasibility := do
  let vars := m.registry.vars
  let valued := vars.filter fun v => !(m.value v).isNull
  let onVariables ← valued.mapM fun v => variableViolations tolerance v (m.value v)
  let onRows ← m.constraints.zipIdx.mapM fun (c, i) => rowViolations m.value tolerance i c
  return {
    violations := onVariables.flatten ++ onRows.flatten
    unset := (vars.filter fun v => (m.value v).isNull).map (·.name) }

end LinOpt.Model
