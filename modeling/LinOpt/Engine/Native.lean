import LinOpt.Model.Solve
import LinOpt.Value.Order

namespace LinOpt.Engine

inductive Command
  | setOption (key value : Value)
  | readModel (text : String)
  | run

def optionNames : Entries String :=
  [("tmlim", "time_limit"), ("mipgap", "mip_rel_gap"), ("presol", "presolve"),
    ("disp", "log_to_console")]

def optionKey : Value → Value
  | .text s => .text ((optionNames.get? s).getD s)
  | key => key

def optionValue (key : String) : Value → Value
  | .bool b => if key == "presolve" then .text (if b then "on" else "off") else .bool b
  | value => value

/-- To show its progress, the solver also has to be allowed any output. -/
def optionCommands (option : Value × Value) : List Command :=
  match optionKey option.1 with
  | .text key =>
    let value := optionValue key option.2
    let output := Command.setOption (.text "output_flag") (.bool value.isTruthy)
    (if key == "log_to_console" then [output] else []) ++ [.setOption (.text key) value]
  | key => [.setOption key option.2]

def optionEntries (options : Value) : Except Error (List (Value × Value)) :=
  if !options.isTruthy then .ok []
  else match options with
    | .map entries => .ok entries
    | _ => .error .noEntries

def requestText : Value → Except Error String
  | .text text => .ok text
  | _ => .error .wrongSort

def silence : Command :=
  .setOption (.text "output_flag") (.bool false)

/-- What the solver is told, up to the first thing that is wrong, and whether something is. -/
def nativeCommands (request options : Value) : List Command × Except Error Unit :=
  match optionEntries options with
  | .error e => ([silence], .error e)
  | .ok entries =>
    let setup := silence :: entries.flatMap optionCommands
    match requestText request with
    | .error e => (setup, .error e)
    | .ok text => (setup ++ [.readModel text, .run], .ok ())

structure NativeSolution where
  status : Value
  hasValues : Bool
  hasDuals : Bool
  objective : Value
  columnNames : Value
  rowNames : Value
  columnValues : Value
  columnDuals : Value
  rowValues : Value
  rowDuals : Value

/-- What is at a place of a collection, under a whole number in a map, or in a text. -/
def itemAt (place : Nat) : Value → Except Error Value
  | .map entries => match Value.findEntry? (.int place) entries with
    | some value => .ok value
    | none => .error .missingEntry
  | value => match value.items? with
    | none => .error .wrongSort
    | some items => match items[place]? with
      | some item => .ok item
      | none => .error .missingItem

def namesIn (names : Value) : Except Error (List Value) :=
  match names.items? with
  | some names => .ok names
  | none => .error .wrongSort

namespace NativeSolution

def recordOf (s : NativeSolution) (values duals : Value) (indexed : Value × Nat) :
    Except Error Value := do
  let (name, place) := indexed
  let value ← itemAt place values
  let dual ← if s.hasDuals then do pure [("Dual", ← itemAt place duals)] else pure []
  return .record ([("Index", .int place), ("Name", name), ("Primal", value)] ++ dual)

/-- Columns are found by their names; of two with one name the later one counts. -/
def columns (s : NativeSolution) : Except Error Value := do
  return .map (← (← namesIn s.columnNames).zipIdx.foldlM (fun entries indexed => do
    let record ← s.recordOf s.columnValues s.columnDuals indexed
    if indexed.1.isKey then return Value.putEntry indexed.1 record entries
    else throw Error.wrongSort) [])

def rows (s : NativeSolution) : Except Error Value := do
  return .list (← (← namesIn s.rowNames).zipIdx.mapM (s.recordOf s.rowValues s.rowDuals))

def toResponse (s : NativeSolution) : Except Error Value := do
  let solved ← if s.hasValues then do
      pure [("ObjectiveValue", s.objective), ("Columns", ← s.columns), ("Rows", ← s.rows)]
    else pure []
  return .record (("Status", s.status) :: solved)

end NativeSolution

def nativeAnswer (solver : List Command → Except Error NativeSolution) (request options : Value) :
    Except Error Value :=
  match nativeCommands request options with
  | (_, .error e) => .error e
  | (commands, .ok ()) => do (← solver commands).toResponse

def native (solver : List Command → Except Error NativeSolution) : Engine :=
  { kind := .text Format.highs.kind, answer := nativeAnswer solver }

def nativeInfo : Value :=
  .record [("name", .text "highspy"), ("kind", .text Format.highs.kind),
    ("methods", .list [.text "simplex", .text "ipm", .text "mip", .text "qp"])]

end LinOpt.Engine
