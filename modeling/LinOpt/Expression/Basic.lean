import LinOpt.Variable.Basic

namespace LinOpt

inductive Term
  | linear (coefficient : Number) (v : Variable)
  | quadratic (coefficient : Number) (v w : Variable)
  deriving DecidableEq

namespace Term

/-- What a term is about: a name, or two names. -/
inductive Key
  | single (x : String)
  | pair (x y : String)
  deriving DecidableEq

def coefficient : Term → Number
  | linear c _ | quadratic c _ _ => c

def withCoefficient (c : Number) : Term → Term
  | linear _ v => linear c v
  | quadratic _ v w => quadratic c v w

def vars : Term → List Variable
  | linear _ v => [v]
  | quadratic _ v w => [v, w]

def key : Term → Key
  | linear _ v => .single v.name
  | quadratic _ v w => .pair v.name w.name

def isQuadratic : Term → Bool
  | linear .. => false
  | quadratic .. => true

def neg (t : Term) : Term :=
  t.withCoefficient t.coefficient.neg

def render (t : Term) : Option String := do
  return (← t.coefficient.shown?) ++ " " ++ " * ".intercalate (t.vars.map (·.name))

end Term

/-- A product of two variables, the one with the smaller name in front. -/
def Term.product (c : Number) (v w : Variable) : Term :=
  if w.name < v.name then .quadratic c w v else .quadratic c v w

structure Expression where
  constant : Number := 0
  terms : List Term := []
  deriving DecidableEq

namespace Expression

def linearTerms (e : Expression) : List (Number × Variable) :=
  e.terms.filterMap fun
    | .linear c v => some (c, v)
    | .quadratic .. => none

def quadraticTerms (e : Expression) : List (Number × Variable × Variable) :=
  e.terms.filterMap fun
    | .linear .. => none
    | .quadratic c v w => some (c, v, w)

def isQuadratic (e : Expression) : Bool :=
  e.terms.any Term.isQuadratic

/-- The first variable of each name that occurs. -/
def vars (e : Expression) : List Variable :=
  (e.terms.flatMap Term.vars).foldl (fun seen v =>
    if seen.any (·.name == v.name) then seen else seen ++ [v]) []

def render (e : Expression) : Option String := do
  let parts := (← e.constant.shown?) :: (← e.terms.mapM Term.render)
  return "Expression(" ++ " + ".intercalate parts ++ ")"

end Expression

end LinOpt
