import LinOpt.Number.Basic
import LinOpt.Text.LetterCase

namespace LinOpt

inductive Kind
  | continuous
  | binary
  | integer
  deriving DecidableEq

namespace Kind

def all : List Kind := [continuous, binary, integer]

def text : Kind → String
  | continuous => "CONTINUOUS"
  | binary => "BINARY"
  | integer => "INTEGER"

/-- Letter case does not matter. -/
def ofText? (s : String) : Option Kind :=
  all.find? (·.text == Text.basicUpper s)

def isIntegral (kind : Kind) : Bool :=
  kind != continuous

end Kind

structure Declaration where
  name : String
  lower : Number := 0
  upper : Number := .infinity
  kind : Kind := .continuous
  deriving DecidableEq

structure Variable.Id where
  owner : Nat
  serial : Nat
  deriving DecidableEq

/-- A declaration and the mark that its owner, a registry, gave it and gives to no other. -/
structure Variable extends Declaration where
  id : Variable.Id
  deriving DecidableEq

namespace Declaration

def isBinary (d : Declaration) : Bool :=
  d.kind == .binary

def isIntegral (d : Declaration) : Bool :=
  d.kind.isIntegral

def hasDefaultBounds (d : Declaration) : Bool :=
  d.lower.same 0 && d.upper.same .infinity

/-- A binary variable is solved from 0 to 1, whatever its declared bounds are. -/
def effectiveBounds (d : Declaration) : Number × Number :=
  if d.isBinary then (0, 1) else (d.lower, d.upper)

/-- The line that tells of a registration, unless a number in it has too many digits. -/
def notice (d : Declaration) : Option String := do
  return "Registered variable " ++ d.name ++ " (" ++ d.kind.text ++ ", [" ++ (← d.lower.text?)
    ++ ", " ++ (← d.upper.text?) ++ "])"

end Declaration

end LinOpt
