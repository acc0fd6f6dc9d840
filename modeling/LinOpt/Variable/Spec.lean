import LinOpt.Error
import LinOpt.Text.Blank

namespace LinOpt

structure Spec where
  name : Value
  lower : Value := (0 : Number)
  upper : Value := Number.infinity
  kind : Value := .text Kind.continuous.text

namespace Spec

def readName : Value → Except Error String
  | .text s => if s.isEmpty then .error (.invalidVariable (.name (.text s))) else .ok s
  | given => .error (.invalidVariable (.name given))

def readKind (given : Value) : Except Error Kind :=
  match given with
  | .text s => match Kind.ofText? s with
    | some kind => .ok kind
    | none => .error (.invalidVariable (.kind given))
  | _ => .error (.invalidVariable (.kind given))

/-- A bound is a number, but neither NaN nor the infinity of the other side, or a word for its own
infinity, whatever its case and the space around it. -/
def readBound (fault : Value → SpecFault) (words : List String) (own other : Number)
    (given : Value) : Except Error Number :=
  match given with
  | .text s =>
    if words.contains (Text.lower (String.ofList (Text.strip Text.isMargin s.toList))) then .ok own
    else .error (.invalidVariable (fault given))
  | .number n => do
    let x ← inRange n.toBinary64?
    if x.isNaN || n.same other then .error (.invalidVariable (fault given))
    else .ok (if x.isInfinite then own else n)
  | _ => .error (.invalidVariable (fault given))

def readLower : Value → Except Error Number :=
  readBound .lowerBound ["-infinity", "-inf"] .negativeInfinity .infinity

def readUpper : Value → Except Error Number :=
  readBound .upperBound ["+infinity", "+inf", "infinity", "inf"] .infinity .negativeInfinity

/-- The first of name, kind, lower and upper bound that is wrong decides the error. -/
def check (spec : Spec) : Except Error Declaration := do
  let name ← readName spec.name
  let kind ← readKind spec.kind
  let lower ← readLower spec.lower
  let upper ← readUpper spec.upper
  return { name, lower, upper, kind }

end Spec

end LinOpt
