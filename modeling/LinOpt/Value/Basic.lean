import LinOpt.Variable.Basic

namespace LinOpt

/-- The entries of a map are in the order in which they were first made. -/
inductive Value
  | null
  | bool (b : Bool)
  | number (n : Number)
  | text (s : String)
  | list (items : List Value)
  | tuple (items : List Value)
  | map (entries : List (Value × Value))
  | var (v : Variable)

namespace Value

instance : Inhabited Value := ⟨null⟩

instance : Coe Number Value := ⟨number⟩

def int (n : Int) : Value := .number (.int n)

def real (x : Binary64) : Value := .number (.real x)

def record (fields : List (String × Value)) : Value :=
  .map (fields.map fun (name, value) => (.text name, value))

def sort : Value → String
  | null => "NoneType"
  | bool _ => "bool"
  | number (.int _) => "int"
  | number (.real _) => "float"
  | number (.ratio _) => "Fraction"
  | text _ => "str"
  | list _ => "list"
  | tuple _ => "tuple"
  | map _ => "dict"
  | var _ => "Var"

def isNull : Value → Bool
  | null => true
  | _ => false

def isTruthy : Value → Bool
  | null => false
  | bool b => b
  | number n => !n.isZero
  | text s => !s.isEmpty
  | list items | tuple items => !items.isEmpty
  | map entries => !entries.isEmpty
  | var _ => true

/-- The number in a value; truth values count as 0 and 1 in arithmetic. -/
def toNumber? : Value → Option Number
  | number n => some n
  | bool b => some (.int (if b then 1 else 0))
  | _ => none

/-- What going through a value gives: the items of a collection, the keys of a map, the characters
of a text. -/
def items? : Value → Option (List Value)
  | list items | tuple items => some items
  | map entries => some (entries.map Prod.fst)
  | text s => some (s.toList.map fun c => text (String.singleton c))
  | _ => none

def ofOption (f : α → Value) : Option α → Value
  | some a => f a
  | none => null

end Value

abbrev Valuation := Variable → Value

end LinOpt
