import LinOpt.Expression.Canonical
import LinOpt.Expression.Evaluation

namespace LinOpt

inductive Comparison
  | le
  | eq
  | ge
  deriving DecidableEq

namespace Comparison

def all : List Comparison := [le, eq, ge]

def text : Comparison → String
  | le => "<="
  | eq => "="
  | ge => ">="

/-- A doubled equals sign is one, too. -/
def ofText? (s : String) : Option Comparison :=
  if s == "==" then some eq else all.find? (·.text == s)

def read : Value → Except Error Comparison
  | .text s => match ofText? s with
    | some comparison => .ok comparison
    | none => .error (.invalidComparison (.text s))
  | given => .error (.invalidComparison given)

end Comparison

structure Constraint where
  lhs : Expression
  comparison : Comparison
  rhs : Number
  deriving DecidableEq

namespace Constraint

/-- All terms go to the left and all constants to the right; a constant of zero leaves the whole
number 0 there. -/
def ofSides (left : Expression) (comparison : Comparison) (right : Expression) :
    Option Constraint := do
  let whole ← Expression.ofItems (left.items ++ right.negated)
  let rhs := if whole.constant.isZero then 0 else whole.constant.neg
  return { lhs := { whole with constant := 0 }, comparison, rhs }

/-- The right side is a number or, like the left one, a list of items. -/
def build (registry : Option Registry) (lhs comparison rhs : Value) : Except Error Constraint := do
  let comparison ← Comparison.read comparison
  let left ← Expression.canonicalize registry lhs
  let right ← match rhs with
    | .number n => Expression.canonicalize registry (.list [.number n])
    | _ => Expression.canonicalize registry rhs
  inRange (ofSides left comparison right)

/-- Whether the row holds within the tolerance, or nothing if a variable in it is unset. -/
def isSatisfied (values : Valuation) (tolerance : Value) (c : Constraint) :
    Except Error (Option Bool) := do
  let some activity ← c.lhs.evaluate values | return none
  match c.comparison with
  | .le => return activity.le (← inRange (c.rhs.add (← tolerance.asNumber)))
  | .ge => return (← inRange (c.rhs.sub (← tolerance.asNumber))).le activity
  | .eq =>
    let difference ← inRange (activity.sub c.rhs)
    return difference.abs.le (← tolerance.asNumber)

def render (c : Constraint) : Option String := do
  return "Constr(" ++ (← c.lhs.render) ++ " " ++ c.comparison.text ++ " " ++ (← c.rhs.shown?) ++ ")"

end Constraint

end LinOpt
