import LinOpt.Bridge.Basic
import LinOpt.Program.Settings
import LinOpt.Schema.Jslp
import LinOpt.Value.Plain

namespace LinOpt.Jslp

open Schema Reading

def rowName (index : Nat) : String :=
  "c" ++ toString index

def lowerRow (name : String) : String := name ++ "_lb"

def upperRow (name : String) : String := name ++ "_ub"

def limitKey : Comparison → String
  | .le => "max"
  | .ge => "min"
  | .eq => "equal"

/-- A request in the making, with the numbers of the model. -/
structure Draft where
  constraints : Entries (Entries Number) := []
  vars : Entries (Entries Number) := []

namespace Draft

def limit (d : Draft) (row key : String) (n : Number) : Draft :=
  { d with constraints := d.constraints.put row [(key, n)] }

def enter (d : Draft) (name key : String) (n : Number) : Draft :=
  { d with vars := d.vars.put name (((d.vars.get? name).getD []).put key n) }

def addVariable (d : Draft) (v : Variable) : Except Error Draft := do
  let low ← if v.lower.same 0 then pure (Binary64.zero false) else inRange v.lower.toBinary64?
  let high ← inRange v.upper.toBinary64?
  let d := { d with vars := d.vars.put v.name [] }
  let d := if v.lower.same 0 || low.isInfinite then d
    else (d.limit (lowerRow v.name) "min" v.lower).enter v.name (lowerRow v.name) 1
  return if high.isInfinite then d
    else (d.limit (upperRow v.name) "max" v.upper).enter v.name (upperRow v.name) 1

def addCost (d : Draft) (term : Number × Variable) : Draft :=
  d.enter term.2.name "objective" term.1

def addCoefficient (row : String) (d : Draft) (term : Number × Variable) : Except Error Draft := do
  let (c, v) := term
  let entered := (((d.vars.get? v.name).getD []).get? row).getD 0
  return d.enter v.name row (← inRange (entered.add c))

def addConstraint (d : Draft) (indexed : Constraint × Nat) : Except Error Draft := do
  let (c, index) := indexed
  let row := rowName index
  c.lhs.linearTerms.foldlM (addCoefficient row) (d.limit row (limitKey c.comparison) c.rhs)

end Draft

def ones (names : List String) : Entries Int :=
  names.map (·, 1)

def readNumbers (entries : Entries (Entries Number)) : Reading (Entries (Entries Binary64)) :=
  all (entries.map fun (name, numbers) =>
    ((all (numbers.map fun (key, n) =>
      ((readFloat n).under (.field key)).map fun x => (key, x))).under (.field name)).map
        fun xs => (name, xs))

def namesWhere (m : Model) (p : Variable → Bool) : List String :=
  (m.registry.vars.filter p).map (·.name)

def plainOptions (values : Valuation) (options : Entries Value) : Except Error (Entries Value) :=
  match Value.plainEntries? values options with
  | some plain => .ok plain
  | none => .error .wrongSort

/-- `values` are those of variables in the options. -/
def encode (b : Bridge) (m : Model) (options : Value) (values : Valuation) :
    Except Error Request := do
  b.checkSupported m
  let d ← m.registry.vars.foldlM Draft.addVariable {}
  let d := m.objective.expression.linearTerms.foldl Draft.addCost d
  let d ← m.constraints.zipIdx.foldlM Draft.addConstraint d
  let options ← Settings.readOptions options
  -- The fields are checked together, so that all issues are reported at once.
  let (constraints, vars, options) ← checked (
    ((readNumbers d.constraints).under (.field "constraints")).both
      (((readNumbers d.vars).under (.field "variables")).both
        ((readEntries .ok (.map options)).under (.field "options"))))
  return {
    maximize := m.objective.isMaximize
    constraints, vars
    ints := ones (namesWhere m (·.kind == .integer))
    binaries := ones (namesWhere m (·.isBinary))
    unrestricted := ones (namesWhere m fun v => v.lower.lt 0)
    options := ← plainOptions values options }

/-- A variable that the response leaves out is zero. -/
def decodeVariable (response : Response) (found : Session × SolveResult) (v : Variable) :
    Session × SolveResult :=
  let (session, result) := found
  let value := (response.values.get? v.name).getD (.int 0)
  (session.assign v value, { result with values := result.values.put v.name value })

def unknownColumns (m : Model) (response : Response) : List Unmatched :=
  (response.values.names.filter fun name => !m.registry.contains name).map .column

def decode (m : Model) (response : Response) (found : Session × SolveResult) :
    Session × SolveResult :=
  let (session, result) := m.registry.vars.foldl (decodeVariable response) found
  (session, { result with diagnostics := result.diagnostics ++ unknownColumns m response })

end LinOpt.Jslp
