import LinOpt.Entries
import LinOpt.Model.Basic
import LinOpt.Schema.Reading

namespace LinOpt

inductive Format
  | glpk
  | highs
  | jslp
  deriving DecidableEq

namespace Format

def all : List Format := [glpk, highs, jslp]

def kind : Format → String
  | glpk => "glpk"
  | highs => "highs"
  | jslp => "jslp"

def ofKind? : Value → Option Format
  | .text s => all.find? (·.kind == s)
  | _ => none

def kinds : List String := all.map kind

end Format

structure Bridge where
  format : Format
  kind : String
  name : String
  supportsQuadratic : Bool
  /-- Whether the objective value in a response has the constant of the objective in it. -/
  includesConstant : Bool
  /-- What sort of bridge this is, in words. -/
  title : String
  deriving DecidableEq

namespace Bridge

def glpk : Bridge :=
  { format := .glpk, kind := "glpk", name := "GLPK", supportsQuadratic := false
    includesConstant := false, title := "GLPKBridge" }

def highs : Bridge :=
  { format := .highs, kind := "highs", name := "HiGHS", supportsQuadratic := true
    includesConstant := true, title := "HighsBridge" }

def jslp : Bridge :=
  { format := .jslp, kind := "jslp", name := "jsLPSolver", supportsQuadratic := false
    includesConstant := false, title := "JSLPBridge" }

def ofFormat : Format → Bridge
  | .glpk => glpk
  | .highs => highs
  | .jslp => jslp

def render (b : Bridge) : String :=
  b.title ++ "(kind=" ++ Text.quoted b.kind ++ ")"

def checkSupported (b : Bridge) (m : Model) : Except Error Unit :=
  if !b.supportsQuadratic && m.isQuadratic then .error (.quadraticUnsupported b.name) else .ok ()

/-- A solver's objective value as that of the model. -/
def objectiveValue (b : Bridge) (m : Model) : Option Binary64 → Except Error (Option Binary64)
  | none => .ok none
  | some reported =>
    if b.includesConstant then .ok (some reported)
    else do
      let whole ← inRange ((Number.real reported).add m.objective.expression.constant)
      return whole.toBinary64?

end Bridge

structure SolveResult where
  status : Status
  objectiveValue : Option Binary64 := none
  values : Entries Value := []
  diagnostics : List Unmatched := []
  kind : String

namespace SolveResult

def isOptimal (r : SolveResult) : Bool :=
  r.status == .optimal

def toValue (r : SolveResult) : Value :=
  .record [
    ("status", .text r.status.text),
    ("objective_value", .ofOption .real r.objectiveValue),
    ("values", .record r.values),
    ("diagnostics", .list (r.diagnostics.map fun d =>
      .record [("kind", .text d.kind), ("name", .text d.name), ("message", .text d.message)])),
    ("engine_kind", .text r.kind)]

end SolveResult

def checked (reading : Schema.Reading α) : Except Error α :=
  reading.mapError .invalidData

end LinOpt
