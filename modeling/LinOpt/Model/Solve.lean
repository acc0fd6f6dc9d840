import LinOpt.Bridge.Codec
import LinOpt.Bridge.Registry

namespace LinOpt

/-- A solver: the kind of its format, if it says so, and what it answers to a request with
options. -/
structure Engine where
  kind : Value
  answer : Value → Value → Except Error Value

namespace Engine

/-- `values` are those of the variables that a message may have to show. -/
def formatOf (values : Valuation) (kind : Value) : Except Error Format :=
  match Format.ofKind? kind with
  | some format => .ok format
  | none => .error ((Error.unknownEngine kind Format.kinds).shownBy values.shown)

def ofFunction (values : Valuation) (kind : Value)
    (answer : Value → Value → Except Error Value) : Except Error Engine := do
  let _ ← formatOf values kind
  return { kind, answer }

end Engine

namespace Model

def findBridge (m : Model) (bridges : Bridges) (kind : Value) (elsewhere : Valuation) :
    Except Error Bridge :=
  (bridges.find kind).mapError (m.raised elsewhere)

/-- `elsewhere` gives the values of variables that are not the model's. -/
def toRequest (m : Model) (bridges : Bridges) (kind options : Value) (elsewhere : Valuation) :
    Except Error Value := do
  let b ← m.findBridge bridges kind elsewhere
  b.encode m options elsewhere

def readSolution (m : Model) (bridges : Bridges) (kind response : Value) (elsewhere : Valuation) :
    Model × Except Error SolveResult :=
  let m := m.reset
  match m.findBridge bridges kind elsewhere with
  | .error e => (m, .error e)
  | .ok b => match b.decode m response with
    | (m, .error e) => (m, .error e)
    | (m, .ok result) =>
      ({ m with session := { m.session with response, diagnostics := result.diagnostics } },
        .ok result)

/-- Options that count as nothing are none. -/
def solveOptions (options : Value) : Value :=
  if options.isTruthy then options else .map []

def prepare (m : Model) (bridges : Bridges) (kind options : Value) (elsewhere : Valuation) :
    Except Error (Bridge × Value) := do
  let b ← m.findBridge bridges kind elsewhere
  return (b, ← b.encode m options elsewhere)

/-- Solves with a solver; `kind`, if it is given, goes before the solver's own. -/
def solve (m : Model) (bridges : Bridges) (engine : Engine) (options kind : Value)
    (elsewhere : Valuation) : Model × Except Error SolveResult :=
  let m := m.reset
  let options := solveOptions options
  match m.prepare bridges (if kind.isNull then engine.kind else kind) options elsewhere with
  | .error e => (m, .error e)
  | .ok (b, request) => match engine.answer request options with
    | .error e => (m, .error e)
    | .ok response =>
      -- The response is kept before it is decoded, and stays if that fails.
      match b.decode { m with session := { m.session with response } } response with
      | (m, .error e) => (m, .error e)
      | (m, .ok result) =>
        ({ m with session := { m.session with diagnostics := result.diagnostics } }, .ok result)

end Model

end LinOpt
