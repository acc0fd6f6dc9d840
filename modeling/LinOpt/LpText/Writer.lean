import LinOpt.LpText.Name
import LinOpt.Model.Basic

namespace LinOpt.LpText

/-- Whole values have no point, and infinities always have a sign. -/
def formatNumber : Number → Except Error String
  | .int n => do
    let _ ← inRange (Number.int n).toBinary64?
    return toString n
  | .real (.infinite negative) => .ok (if negative then "-inf" else "+inf")
  | .real x =>
    if x.isIntegral then .ok (toString (x.round?.getD 0)) else .ok x.text
  | .ratio q => do
    let x ← inRange (Number.ratio q).toBinary64?
    return if x.isIntegral then toString (q.num.tdiv q.den) else x.text

def formatTerm : Term → Except Error String
  | .linear c v => do return (← formatNumber c) ++ " " ++ v.name
  | .quadratic c v w => do
    let doubled ← formatNumber (← inRange ((2 : Number).mul c))
    return "[ " ++ doubled ++ " " ++ v.name ++ " * " ++ w.name ++ " ]/2"

def mergeSigns : List Char → List Char
  | '+' :: ' ' :: '-' :: rest => '-' :: ' ' :: mergeSigns rest
  | c :: rest => c :: mergeSigns rest
  | [] => []

def joinTerms (parts : List String) : String :=
  String.ofList (mergeSigns (" + ".intercalate parts).toList)

def formatExpression (e : Expression) (withConstant : Bool := true) : Except Error String := do
  let constants := if withConstant && !e.constant.isZero then [e.constant] else []
  return joinTerms ((← constants.mapM formatNumber) ++ (← e.terms.mapM formatTerm))

def objectiveLine (e : Expression) : Except Error String := do
  let text ← formatExpression e
  return if text.isEmpty then "obj:" else "obj: " ++ text

def rowLine (index : Nat) (c : Constraint) : Except Error String := do
  let lhs ← formatExpression c.lhs false
  let rhs ← formatNumber c.rhs
  return " c" ++ toString (index + 1) ++ ": " ++ (if lhs.isEmpty then "" else lhs ++ " ")
    ++ c.comparison.text ++ " " ++ rhs

def boundLine (v : Variable) : Except Error String := do
  return " " ++ (← formatNumber v.lower) ++ " <= " ++ v.name ++ " <= " ++ (← formatNumber v.upper)

def sectionLines (heading : String) (lines : List String) : List String :=
  if lines.isEmpty then [] else heading :: lines

def kindLines (m : Model) (kind : Kind) : List String :=
  (m.registry.vars.filter (·.kind == kind)).map (" " ++ ·.name)

def checkName (v : Variable) : Except Error Unit :=
  if isSafeName v.name then .ok () else .error (.invalidVariable (.unwritableName v.name))

def lines (m : Model) : Except Error (List String) := do
  m.registry.vars.forM checkName
  let objective ← objectiveLine m.objective.expression
  let rows ← m.constraints.zipIdx.mapM fun (c, i) => rowLine i c
  let bounds ← (m.registry.vars.filter (!·.hasDefaultBounds)).mapM boundLine
  return [if m.objective.isMaximize then "Maximize" else "Minimize", objective, "Subject To"]
    ++ rows ++ sectionLines "Bounds" bounds ++ sectionLines "General" (kindLines m .integer)
    ++ sectionLines "Binary" (kindLines m .binary) ++ ["End"]

end LinOpt.LpText

namespace LinOpt.Model

def toLp (m : Model) : Except Error String := do
  return String.join ((← LpText.lines m).map (· ++ "\n"))

end LinOpt.Model
