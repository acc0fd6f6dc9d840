import LinOpt.Value.Basic

namespace LinOpt

inductive Status
  | optimal
  | feasible
  | infeasible
  | unbounded
  | undefined
  /-- A word of the solver's own. -/
  | other (text : String)
  deriving DecidableEq

namespace Status

def all : List Status := [optimal, feasible, infeasible, unbounded, undefined]

def text : Status → String
  | optimal => "Optimal"
  | feasible => "Feasible"
  | infeasible => "Infeasible"
  | unbounded => "Unbounded"
  | undefined => "Undefined"
  | other text => text

def ofText (s : String) : Status :=
  (all.find? (·.text == s)).getD (other s)

def hasSolution (status : Status) : Bool :=
  status == optimal || status == feasible

end Status

inductive Unmatched
  | column (name : String)
  | row (name : String)
  | unnamedRow (index : Nat)
  deriving DecidableEq

namespace Unmatched

def kind : Unmatched → String
  | column _ => "variable"
  | row _ | unnamedRow _ => "row"

def name : Unmatched → String
  | column name | row name => name
  | unnamedRow index => toString index

def rowMessage (name : String) : String :=
  "Row " ++ name ++ " from the solution does not correspond to any model constraint."

def message : Unmatched → String
  | column name => "Variable " ++ name ++ " from the solution was not found in the model."
  | row name => rowMessage name
  | unnamedRow _ => rowMessage "None"

end Unmatched

structure RowResult where
  primal : Option Binary64 := none
  dual : Option Binary64 := none
  deriving DecidableEq

structure Session where
  status : Option Status := none
  objectiveValue : Option Binary64 := none
  response : Value := .null
  diagnostics : List Unmatched := []
  values : List (Variable × Value) := []
  /-- By position among the constraints; where there is none, nothing is known. -/
  rows : List (Nat × RowResult) := []

namespace Session

def value (s : Session) : Valuation := fun v =>
  ((s.values.find? (·.1 == v)).map Prod.snd).getD .null

def assign (s : Session) (v : Variable) (value : Value) : Session :=
  { s with values := (v, value) :: s.values }

def row (s : Session) (index : Nat) : RowResult :=
  ((s.rows.find? (·.1 == index)).map Prod.snd).getD {}

def assignRow (s : Session) (index : Nat) (result : RowResult) : Session :=
  { s with rows := (index, result) :: s.rows }

theorem value_assign (s : Session) (v : Variable) (x : Value) (w : Variable) :
    (s.assign v x).value w = if v = w then x else s.value w := by
  by_cases same : v = w <;> simp [assign, value, same]

theorem row_assignRow (s : Session) (i : Nat) (result : RowResult) (j : Nat) :
    (s.assignRow i result).row j = if i = j then result else s.row j := by
  by_cases same : i = j <;> simp [assignRow, row, same]

end Session

end LinOpt
