import LinOpt.Constraint
import LinOpt.Objective

namespace LinOpt.LpText

inductive Summand
  | constant (c : Binary64)
  | linear (c : Binary64) (x : String)
  | quadratic (c : Binary64) (x y : String)
  deriving DecidableEq

namespace Summand

def coefficient : Summand → Binary64
  | constant c | linear c _ | quadratic c _ _ => c

def names : Summand → List String
  | constant _ => []
  | linear _ x => [x]
  | quadratic _ x y => [x, y]

def mapCoefficient (f : Binary64 → Binary64) : Summand → Summand
  | constant c => constant (f c)
  | linear c x => linear (f c) x
  | quadratic c x y => quadratic (f c) x y

def signed (negative : Bool) (s : Summand) : Summand :=
  if negative then s.mapCoefficient Binary64.neg else s

end Summand

structure ObjectiveLine where
  sense : Sense
  label : Option String
  summands : List Summand
  deriving DecidableEq

structure Row where
  label : Option String
  summands : List Summand
  comparison : Comparison
  rhs : Binary64
  deriving DecidableEq

structure BoundEntry where
  name : String
  lower : Option Binary64 := none
  upper : Option Binary64 := none
  deriving DecidableEq

inductive Section
  | bounds (entries : List BoundEntry)
  | general (names : List String)
  | binary (names : List String)
  deriving DecidableEq

structure Document where
  objective : ObjectiveLine
  rows : List Row := []
  bounds : List BoundEntry := []
  general : List String := []
  binary : List String := []
  deriving DecidableEq

/-- Sections of one sort count as one. -/
def Document.addSection (d : Document) : Section → Document
  | .bounds entries => { d with bounds := d.bounds ++ entries }
  | .general names => { d with general := d.general ++ names }
  | .binary names => { d with binary := d.binary ++ names }

end LinOpt.LpText
