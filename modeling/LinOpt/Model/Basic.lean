import LinOpt.Constraint
import LinOpt.Model.Session
import LinOpt.Objective

namespace LinOpt

structure Model where
  registry : Registry
  constraints : List Constraint := []
  objective : Objective := {}
  session : Session := {}

namespace Model

/-- A model without anything; `owner` tells its variables from those of other models. -/
def empty (owner : Nat) : Model :=
  { registry := { owner } }

def value (m : Model) : Valuation :=
  m.session.value

/-- The values of the model's variables, and of others as they are elsewhere. -/
def valueOr (m : Model) (elsewhere : Valuation) : Valuation := fun v =>
  if m.registry.owns v then m.value v else elsewhere v

/-- The error that a call raises which meets this one. -/
def raised (m : Model) (elsewhere : Valuation) (e : Error) : Error :=
  e.shownBy (m.valueOr elsewhere).shown

def addVar (m : Model) (spec : Spec) (elsewhere : Valuation) : Model × Except Error Variable :=
  let (registry, added) := m.registry.add spec
  let n : Model := { m with registry }
  (n, added.mapError (n.raised elsewhere))

def addVars (m : Model) (names lower upper kind : Value) (elsewhere : Valuation) :
    Model × Except Error (List Variable) :=
  let (registry, added) := m.registry.addMany names lower upper kind
  let n : Model := { m with registry }
  (n, added.mapError (n.raised elsewhere))

def parseExpression (m : Model) (given : Value) (elsewhere : Valuation) :
    Except Error Expression :=
  (Expression.canonicalize (some m.registry) given).mapError (m.raised elsewhere)

def setObjective (m : Model) (expression sense : Value) (elsewhere : Valuation) :
    Except Error Model := do
  let built := Objective.build m.registry expression sense
  return { m with objective := ← built.mapError (m.raised elsewhere) }

def addConstraint (m : Model) (lhs comparison rhs : Value) (elsewhere : Valuation) :
    Except Error (Model × Constraint) := do
  let built := Constraint.build (some m.registry) lhs comparison rhs
  let c ← built.mapError (m.raised elsewhere)
  return ({ m with constraints := m.constraints ++ [c] }, c)

def reset (m : Model) : Model :=
  { m with session := {} }

def clear (m : Model) : Model :=
  { registry := m.registry.clear }

def setValue (m : Model) (v : Variable) (value : Value) : Model :=
  { m with session := m.session.assign v value }

def isQuadratic (m : Model) : Bool :=
  m.objective.expression.isQuadratic || m.constraints.any (·.lhs.isQuadratic)

def isIntegral (m : Model) : Bool :=
  m.registry.vars.any (·.isIntegral)

def render (m : Model) : String :=
  "Model(variables=" ++ toString m.registry.vars.length ++ ", constraints="
    ++ toString m.constraints.length ++ ", sense=" ++ m.objective.sense.text ++ ")"

end Model

end LinOpt
