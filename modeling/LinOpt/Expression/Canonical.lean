import LinOpt.Expression.Basic
import LinOpt.Variable.Registry

namespace LinOpt

inductive Item
  | number (n : Number)
  | term (t : Term)

namespace Item

/-- A variable, which has to belong to the registry if there is one. -/
def readVariable (registry : Option Registry) (item : Value) : Value → Except Error Variable
  | .var v =>
    if registry.all (·.owns v) then .ok v else .error (.invalidTerm (.foreign item v.name))
  | part => .error (.invalidTerm (.notVariable item part))

def readCoefficient (item : Value) : Value → Except Error Number
  | .number n => .ok n
  | _ => .error (.invalidTerm (.coefficient item))

def readParts (registry : Option Registry) (item : Value) : List Value → Except Error Item
  | [c, v] => do
    let c ← readCoefficient item c
    return .term (.linear c (← readVariable registry item v))
  | [c, v, w] => do
    let c ← readCoefficient item c
    let v ← readVariable registry item v
    return .term (.product c v (← readVariable registry item w))
  | _ => .error (.invalidTerm (.shape item))

def read (registry : Option Registry) : Value → Except Error Item
  | .number n => .ok (.number n)
  | .var v => do return .term (.linear 1 (← readVariable registry (.var v) (.var v)))
  | .list parts => readParts registry (.list parts) parts
  | .tuple parts => readParts registry (.tuple parts) parts
  | item => .error (.invalidTerm (.shape item))

def toValue : Item → Value
  | number n => .number n
  | term t => .tuple (.number t.coefficient :: t.vars.map .var)

end Item

namespace Expression

/-- Adds a term to the one that is about the same, or else as the last one. -/
def addTerm (t : Term) : List Term → Option (List Term)
  | [] => some [t]
  | s :: terms =>
    if s.key = t.key then do
      return s.withCoefficient (← s.coefficient.add t.coefficient) :: terms
    else do return s :: (← addTerm t terms)

def addItem (e : Expression) : Item → Option Expression
  | .number n => do return { e with constant := ← e.constant.add n }
  | .term t => do return { e with terms := ← addTerm t e.terms }

def dropZeros (e : Expression) : Expression :=
  { e with terms := e.terms.filter fun t => !t.coefficient.isZero }

def ofItems (items : List Item) : Option Expression :=
  dropZeros <$> items.foldlM addItem {}

/-- The sum of items as callers write them, each of which is read just before it is added. -/
def canonicalize (registry : Option Registry) (given : Value) : Except Error Expression :=
  match given with
  | .list items | .tuple items => sum items
  | .map entries => sum (entries.map Prod.fst)
  | _ => .error (.invalidTerm (.notItems given))
where
  sum (items : List Value) : Except Error Expression := do
    return dropZeros (← items.foldlM readItem {})
  readItem (e : Expression) (item : Value) : Except Error Expression := do
    inRange (e.addItem (← Item.read registry item))

def items (e : Expression) : List Item :=
  .number e.constant :: e.terms.map .term

def toValue (e : Expression) : Value :=
  .list (e.items.map Item.toValue)

def negated (e : Expression) : List Item :=
  .number e.constant.neg :: e.terms.map fun t => .term t.neg

end Expression

end LinOpt
