import LinOpt.Error
import LinOpt.Model.Session
import LinOpt.Program.Basic
import LinOpt.Program.Settings

namespace LinOpt.LinearProgram

/-- One side of a row, or the side on which the signs have to be changed. -/
structure Part where
  row : Nat
  negative : Bool
  deriving DecidableEq

/-- What a solver is asked: to make `costs` small. -/
inductive Query
  | linear (costs : List Binary64) (upperRows : List (List Binary64)) (upperLimits : List Binary64)
      (equalRows : List (List Binary64)) (equalLimits : List Binary64)
      (bounds : List (Option Binary64 × Option Binary64)) (options : Value)
  | integer (costs : List Binary64) (integrality : List Int) (lower upper : List Binary64)
      (rows : Option (List (List Binary64) × List Binary64 × List Binary64)) (options : Value)

/-- What a solver answers. Each list of marginals may be missing. -/
structure Outcome where
  code : Int
  message : String
  point : Option (List Binary64) := none
  upperMarginals : Option (List Binary64) := none
  equalMarginals : Option (List Binary64) := none
  lowerBoundMarginals : Option (List Binary64) := none
  upperBoundMarginals : Option (List Binary64) := none

structure Solution where
  status : Status
  point : Option (List Binary64) := none
  objectiveValue : Option Number := none
  rowActivity : Option (List Binary64) := none
  rowDuals : Option (List Binary64) := none
  columnDuals : Option (List Binary64) := none
  message : String := ""

def Solution.hasPoint (s : Solution) : Bool :=
  s.point.isSome && s.status.hasSolution

/-- A code for having stopped early means that a point, if there is one, need not be the best. -/
def statusOfCode (code : Int) (hasPoint : Bool) : Status :=
  if code = 0 then .optimal
  else if code = 2 then .infeasible
  else if code = 3 then .unbounded
  else if code = 1 && hasPoint then .feasible
  else .undefined

def directed (p : LinearProgram) (x : Binary64) : Binary64 :=
  if p.maximize then x.neg else x

def signed (negative : Bool) (x : Binary64) : Binary64 :=
  if negative then x.neg else x

def limits (p : LinearProgram) : List (Binary64 × Binary64) :=
  (p.rowLower.zip p.rowUpper).take p.rowCount

def isEquation (limits : Binary64 × Binary64) : Bool :=
  (Number.real limits.1).same (.real limits.2)

/-- The sides of a row that limit anything, the upper one first. -/
def partsOf (indexed : (Binary64 × Binary64) × Nat) : List Part :=
  let (limits, row) := indexed
  if isEquation limits then []
  else (if limits.2.isInfinite then [] else [⟨row, false⟩])
    ++ (if limits.1.isInfinite then [] else [⟨row, true⟩])

def upperParts (p : LinearProgram) : List Part :=
  p.limits.zipIdx.flatMap partsOf

def equationRows (p : LinearProgram) : List Nat :=
  p.limits.zipIdx.filterMap fun (limits, row) => if isEquation limits then some row else none

def rowAt (p : LinearProgram) (row : Nat) : List Binary64 :=
  p.matrix.getD row []

def limitsAt (p : LinearProgram) (row : Nat) : Binary64 × Binary64 :=
  p.limits.getD row (.nan, .nan)

def partRow (p : LinearProgram) (part : Part) : List Binary64 :=
  (p.rowAt part.row).map (signed part.negative)

def partLimit (p : LinearProgram) (part : Part) : Binary64 :=
  let (lower, upper) := p.limitsAt part.row
  if part.negative then lower.neg else upper

def boundPair (bounds : Binary64 × Binary64) : Option Binary64 × Option Binary64 :=
  (if bounds.1.isInfinite then none else some bounds.1,
    if bounds.2.isInfinite then none else some bounds.2)

def query (p : LinearProgram) (settings : Settings) : Query :=
  let costs := p.objective.map p.directed
  if p.isIntegral then
    .integer costs p.integrality p.lower p.upper
      (if p.rowCount = 0 then none else some (p.matrix, p.rowLower, p.rowUpper))
      settings.integerOptions
  else
    .linear costs (p.upperParts.map p.partRow) (p.upperParts.map p.partLimit)
      (p.equationRows.map p.rowAt) (p.equationRows.map fun row => (p.limitsAt row).2)
      ((p.lower.zip p.upper).map boundPair) settings.linearOptions

def addAt (row : Nat) (x : Binary64) (duals : List Binary64) : List Binary64 :=
  duals.modify row (·.add x)

/-- The marginals of a row's parts, added up with their signs, if those that are needed are there.
None of them may be missing from their lists. -/
def partDuals (p : LinearProgram) (outcome : Outcome) : Except Error (Option (List Binary64)) :=
  let parts := p.upperParts
  let equations := p.equationRows
  if (!parts.isEmpty && outcome.upperMarginals.isNone)
      || (!equations.isEmpty && outcome.equalMarginals.isNone) then .ok none
  else
    let ofParts := outcome.upperMarginals.getD []
    let ofEquations := outcome.equalMarginals.getD []
    if ofParts.length < parts.length || ofEquations.length < equations.length then
      .error .missingItem
    else
      let duals := (parts.zip ofParts).foldl
        (fun duals (part, x) => addAt part.row (signed part.negative x) duals)
        (List.replicate p.rowCount (Binary64.zero false))
      .ok (some ((equations.zip ofEquations).foldl (fun duals (row, x) => addAt row x duals) duals))

/-- Sums of two lists of one length; a single number is added to each of the other list. -/
def sums (xs ys : List Binary64) : Except Error (List Binary64) :=
  if xs.length = ys.length then .ok (List.zipWith Binary64.add xs ys)
  else match xs, ys with
    | [x], ys => .ok (ys.map (Binary64.add x))
    | xs, [y] => .ok (xs.map (·.add y))
    | _, _ => .error .wrongValue

def boundDuals (outcome : Outcome) : Except Error (Option (List Binary64)) :=
  match outcome.lowerBoundMarginals, outcome.upperBoundMarginals with
  | some lower, some upper => some <$> sums lower upper
  | _, _ => .ok none

def activity (p : LinearProgram) (point : List Binary64) : Except Error (List Binary64) :=
  if p.matrix.all fun row => row.length = point.length then
    .ok (p.matrix.map fun row => dot row point)
  else .error .wrongValue

/-- What an outcome means for the program. Duals are those of the program's own objective, and there
are none for whole-number columns or a point that need not be the best. -/
def interpret (p : LinearProgram) (outcome : Outcome) : Except Error Solution := do
  let status := statusOfCode outcome.code outcome.point.isSome
  let bare : Solution := { status, message := outcome.message }
  let some point := outcome.point | return bare
  if !status.hasSolution then return bare
  if point.length ≠ p.objective.length then throw .wrongValue
  let objectiveValue ← inRange ((Number.real (dot p.objective point)).add p.offset)
  let solved := { bare with
    point := some point
    objectiveValue := some objectiveValue
    rowActivity := some (← p.activity point) }
  if p.isIntegral || status != .optimal then return solved
  let rowDuals ← p.partDuals outcome
  let columnDuals ← boundDuals outcome
  return { solved with
    rowDuals := rowDuals.map (·.map p.directed)
    columnDuals := columnDuals.map (·.map p.directed) }

def emptyTolerance : Number :=
  .real (Binary64.ofDecimal false ⟨1, -9⟩)

def solveEmpty (p : LinearProgram) : Solution :=
  let feasible := p.rowLower.all (fun x => (Number.real x).le emptyTolerance)
    && p.rowUpper.all (fun x => emptyTolerance.neg.le (.real x))
  if !feasible then { status := .infeasible, message := "rows without columns are violated" }
  else
    let zeros := List.replicate p.rowCount (Binary64.zero false)
    { status := .optimal
      point := some []
      objectiveValue := some p.offset
      rowActivity := some zeros
      rowDuals := if p.isIntegral then none else some zeros
      columnDuals := if p.isIntegral then none else some []
      message := "no columns" }

def hasWholeRows (p : LinearProgram) : Bool :=
  p.rowCount = p.limits.length
    && (p.upperParts.map Part.row ++ p.equationRows).all (· < p.matrix.length)

/-- The question that solving a program puts, if it has columns. Rows are only split if they are
whole. -/
def query? (p : LinearProgram) (settings : Settings) : Except Error (Option Query) :=
  if p.columnCount = 0 then .ok none
  else if !p.isIntegral && !p.hasWholeRows then .error .missingItem
  else .ok (some (p.query settings))

/-- Solves a program with a solver that is given as what it answers to each question. -/
def solve (p : LinearProgram) (solver : Query → Except Error Outcome) (settings : Settings) :
    Except Error Solution := do
  match ← p.query? settings with
  | none => return p.solveEmpty
  | some query => p.interpret (← solver query)

end LinOpt.LinearProgram
