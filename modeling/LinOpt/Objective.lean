import LinOpt.Expression.Canonical

namespace LinOpt

inductive Sense
  | maximize
  | minimize
  deriving DecidableEq

namespace Sense

def text : Sense → String
  | maximize => "MAXIMIZE"
  | minimize => "MINIMIZE"

def read (given : Value) : Except Error Sense :=
  match given with
  | .text s => match [maximize, minimize].find? (·.text == Text.basicUpper s) with
    | some sense => .ok sense
    | none => .error (.invalidSense given)
  | _ => .error (.invalidSense given)

end Sense

structure Objective where
  expression : Expression := {}
  sense : Sense := .maximize
  deriving DecidableEq

namespace Objective

def isMaximize (o : Objective) : Bool :=
  o.sense == .maximize

def build (registry : Registry) (expression sense : Value) : Except Error Objective := do
  let sense ← Sense.read sense
  return { expression := ← Expression.canonicalize (some registry) expression, sense }

end Objective

end LinOpt
