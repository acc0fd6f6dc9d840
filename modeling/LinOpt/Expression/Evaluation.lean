import LinOpt.Error
import LinOpt.Expression.Basic

namespace LinOpt

/-- A number, or something repeated, of which only the length matters. -/
inductive Product
  | number (n : Number)
  | text (length : Nat)
  | collection (length : Nat)
  deriving DecidableEq

namespace Product

def ofValue : Value → Except Error Product
  | .text s => .ok (.text s.length)
  | .list items | .tuple items => .ok (.collection items.length)
  | value => .number <$> value.asNumber

/-- There is no room for anything longer. -/
def greatestLength : Nat := 0x10000000000

/-- How long something is when it has been repeated. Texts have a limit of 63 bits, too. -/
def repeatedLength (n : Int) (length : Nat) (isText : Bool) : Except Error Nat :=
  let total := n.toNat * length
  if !isWord n || (isText && !isWord total) then .error .overflow
  else if greatestLength < total then .error .outOfMemory
  else .ok total

def times : Product → Product → Except Error Product
  | number a, number b => number <$> inRange (a.mul b)
  | number (.int n), text length | text length, number (.int n) =>
    text <$> repeatedLength n length true
  | number (.int n), collection length | collection length, number (.int n) =>
    collection <$> repeatedLength n length false
  | _, _ => .error .wrongSort

end Product

namespace Expression

/-- A product of values, or nothing as soon as one of them is unset. -/
def multiply (factor : Product) : List Value → Except Error (Option Product)
  | [] => .ok (some factor)
  | value :: values =>
    if value.isNull then .ok none
    else do multiply (← factor.times (← Product.ofValue value)) values

def evaluateTerms (values : Valuation) (total : Number) : List Term → Except Error (Option Number)
  | [] => .ok (some total)
  | t :: terms => do
    match ← multiply (.number t.coefficient) (t.vars.map values) with
    | none => return none
    | some (.number product) => evaluateTerms values (← inRange (total.add product)) terms
    | some _ => throw .wrongSort

def evaluate (values : Valuation) (e : Expression) : Except Error (Option Number) :=
  evaluateTerms values e.constant e.terms

end Expression

end LinOpt
