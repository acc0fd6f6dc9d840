import LinOpt.LpText.Resolve
import LinOpt.Model.Solve
import LinOpt.Program.OfModel
import LinOpt.Program.OfRequest
import LinOpt.Program.Solve
import LinOpt.Value.Order

namespace LinOpt.Engine

open LinearProgram

def referenceFormat (values : Valuation) (kind : Value) : Except Error Format :=
  if kind.isKey then formatOf values kind else .error .wrongSort

def referenceName (format : Format) : String :=
  "scipy-" ++ format.kind

def readText (request : Value) : Except Error Model :=
  match request with
  | .text text => (Model.empty 0).readLp text
  | _ => .error .wrongSort

def readProgram (format : Format) (request : Value) : Except Error LinearProgram :=
  match format with
  | .glpk => ofGlpk <$> checked (Glpk.Request.read request)
  | .highs => do ofModel (← readText request) (referenceName .highs)
  | .jslp => ofJslp <$> checked (Jslp.Request.read request)

def embeddedOptions : Value → Value
  | .map entries => (Schema.findField entries "options").getD .null
  | _ => .null

/-- The options of a run. Those in a jsLPSolver request count if there are no others. -/
def runOptions (format : Format) (request options : Value) : Value :=
  if format = .jslp && !options.isTruthy then embeddedOptions request else options

def requestName : Value → Value
  | .map entries => (Schema.findField entries "name").getD (.text "LP")
  | _ => .text "LP"

/-- Numbers under names; of two under one name the later one counts. -/
def numbers (names : List String) (xs : List Binary64) : Value :=
  .record (Entries.ofList ((names.zip xs).map fun (name, x) => (name, .real x)))

def glpkAnswer (p : LinearProgram) (s : Solution) (name : Value) : Value :=
  let solved := if s.hasPoint then
      [("z", .ofOption .number s.objectiveValue), ("vars", numbers p.columnNames (s.point.getD []))]
        ++ s.rowDuals.toList.map fun duals => ("dual", numbers p.rowNames duals)
    else [("z", .real (Binary64.zero false)), ("vars", .map [])]
  .record [("name", name), ("time", .real (Binary64.zero false)),
    ("result", .record (("status", .int (Glpk.statusCode s.status)) :: solved))]

def highsStatus : Status → String
  | .undefined => "Unknown"
  | status => status.text

def highsRecord (duals : Option (List Binary64)) (indexed : (String × Binary64) × Nat) :
    Except Error Value := do
  let ((name, x), index) := indexed
  let dual ← match duals.map fun duals => duals[index]? with
    | none => pure []
    | some none => throw .missingItem
    | some (some dual) => pure [("Dual", Value.real dual)]
  return .record ([("Index", .int index), ("Name", .text name), ("Primal", .real x)] ++ dual)

def highsRecords (names : List String) (xs : List Binary64) (duals : Option (List Binary64)) :
    Except Error (List Value) :=
  (names.zip xs).zipIdx.mapM (highsRecord duals)

def highsAnswer (p : LinearProgram) (s : Solution) : Except Error Value := do
  let solved ← if s.hasPoint then do
      let columns ← highsRecords p.columnNames (s.point.getD []) s.columnDuals
      let rows ← highsRecords p.rowNames (s.rowActivity.getD []) s.rowDuals
      pure [("ObjectiveValue", Value.ofOption .number s.objectiveValue),
        ("Columns", .record (Entries.ofList (p.columnNames.zip columns))), ("Rows", .list rows)]
    else pure []
  return .record (("Status", .text (highsStatus s.status)) :: solved)

/-- A variable at zero is left out, and one that has the name of a flag takes its place. -/
def jslpAnswer (p : LinearProgram) (s : Solution) : Value :=
  match s.status with
  | .infeasible =>
    .record [("feasible", .bool false), ("result", .int 0), ("bounded", .bool true)]
  | .unbounded =>
    .record [("feasible", .bool true), ("result", .real (.infinite !p.maximize)),
      ("bounded", .bool false)]
  | _ =>
    if !s.hasPoint then .record [("feasible", .null), ("result", .int 0)]
    else
      let flags : Entries Value := [("feasible", .bool true),
        ("result", .ofOption .number s.objectiveValue), ("bounded", .bool true),
        ("isIntegral", .bool p.isIntegral)]
      .record ((p.columnNames.zip (s.point.getD [])).foldl (fun entries (name, x) =>
        if (Number.real x).isZero then entries else Entries.put name (.real x) entries) flags)

def answerIn (format : Format) (request : Value) (p : LinearProgram) (s : Solution) :
    Except Error Value :=
  match format with
  | .glpk => .ok (glpkAnswer p s (requestName request))
  | .highs => highsAnswer p s
  | .jslp => .ok (jslpAnswer p s)

def readRun (format : Format) (request options : Value) :
    Except Error (LinearProgram × Settings) := do
  let p ← readProgram format request
  return (p, ← Settings.ofOptions (runOptions format request options))

def referenceAnswer (format : Format) (solver : Query → Except Error Outcome)
    (request options : Value) : Except Error Value := do
  let (p, settings) ← readRun format request options
  answerIn format request p (← p.solve solver settings)

/-- The engine of a format, with a solver given as what it answers to each question. -/
def reference (format : Format) (solver : Query → Except Error Outcome) : Engine :=
  { kind := .text format.kind, answer := referenceAnswer format solver }

def question? (format : Format) (request options : Value) : Option Query :=
  match readRun format request options with
  | .ok (p, settings) => (p.query? settings).toOption.join
  | .error _ => none

def referenceInfo (format : Format) : Value :=
  .record [("name", .text (referenceName format)), ("kind", .text format.kind),
    ("methods", .list [.text "linprog (highs)", .text "milp"]),
    ("duals", .text "continuous models only")]

end LinOpt.Engine
