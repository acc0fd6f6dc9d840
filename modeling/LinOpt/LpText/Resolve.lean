import LinOpt.LpText.Grammar
import LinOpt.Model.Basic

namespace LinOpt.LpText

/-- The entries of one variable in one; of two that set a side the later one counts. -/
def BoundEntry.merge (first later : BoundEntry) : BoundEntry :=
  { name := first.name
    lower := later.lower <|> first.lower
    upper := later.upper <|> first.upper }

def addBound (entry : BoundEntry) : List BoundEntry → List BoundEntry
  | [] => [entry]
  | e :: entries =>
    if e.name = entry.name then e.merge entry :: entries else e :: addBound entry entries

def mergeBounds (entries : List BoundEntry) : List BoundEntry :=
  entries.foldl (fun merged entry => addBound entry merged) []

def BoundEntry.spec (entry : BoundEntry) : Spec :=
  { name := .text entry.name
    lower := (entry.lower.map Number.real).getD 0
    upper := (entry.upper.map Number.real).getD Number.infinity }

def register (r : Registry) (spec : Spec) : Except Error Registry :=
  let (s, added) := r.add spec
  added.map fun _ => s

def declareBound (r : Registry) (entry : BoundEntry) : Except Error Registry :=
  register r entry.spec

/-- Gives a variable a kind, and registers it first if that has not been done. -/
def declareKind (kind : Kind) (r : Registry) (name : String) : Except Error Registry :=
  if r.contains name then .ok (r.setKind name kind)
  else register r { name := .text name, kind := .text kind.text }

def declareName (r : Registry) (name : String) : Except Error Registry :=
  if r.contains name then .ok r else register r { name := .text name }

def Summand.resolve (r : Registry) : Summand → Except Error Item
  | .constant c => .ok (.number (.real c))
  | .linear c x => do return .term (.linear (.real c) (← find x))
  | .quadratic c x y => do
    let v ← find x
    return .term (.product (.real c) v (← find y))
where
  find (x : String) : Except Error Variable :=
    match r.get? x with
    | some v => .ok v
    | none => .error .missingEntry

def resolveSum (r : Registry) (summands : List Summand) : Except Error Expression := do
  inRange (Expression.ofItems (← summands.mapM (·.resolve r)))

def Row.resolve (r : Registry) (row : Row) : Except Error Constraint := do
  let left ← resolveSum r row.summands
  let right ← resolveSum r [.constant row.rhs]
  inRange (Constraint.ofSides left row.comparison right)

namespace Document

def usedNames (d : Document) : List String :=
  (d.objective.summands ++ d.rows.flatMap Row.summands).flatMap Summand.names

def declare (d : Document) (r : Registry) : Except Error Registry := do
  let r ← (mergeBounds d.bounds).foldlM declareBound r
  let r ← d.binary.foldlM (declareKind .binary) r
  let r ← d.general.foldlM (declareKind .integer) r
  d.usedNames.foldlM declareName r

def ofText (text : String) : Except Error Document := do
  let d ← (read text).mapError .malformedText
  if hasNewDigit text then throw .unreadableNumeral
  return d

def resolve (d : Document) (r : Registry) : Except Error Model := do
  let registry ← d.declare r
  let expression ← resolveSum registry d.objective.summands
  let constraints ← d.rows.mapM (Row.resolve registry)
  return { registry, constraints, objective := { expression, sense := d.objective.sense } }

end Document

end LinOpt.LpText

namespace LinOpt.Model

def readLp (m : Model) (text : String) : Except Error Model := do
  (← LpText.Document.ofText text).resolve m.registry.clear

end LinOpt.Model
