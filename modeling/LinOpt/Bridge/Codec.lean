import LinOpt.Bridge.Glpk
import LinOpt.Bridge.Highs
import LinOpt.Bridge.Jslp
import LinOpt.LpText.Writer

namespace LinOpt.Bridge

/-- The request that asks a solver of the bridge's format to solve a model. Options may hold
variables; `elsewhere` gives the values of those that are not the model's. -/
def encode (b : Bridge) (m : Model) (options : Value) (elsewhere : Valuation) :
    Except Error Value :=
  match b.format with
  | .glpk => Glpk.Request.toValue <$> Glpk.encode b m
  | .highs => .text <$> m.toLp
  | .jslp => Jslp.Request.toValue <$> Jslp.encode b m options (m.valueOr elsewhere)

/-- A status, if a response has one with a solution the values in it, and the objective value that
it reports. -/
structure Answer where
  status : Status
  reported : Option (Option Binary64)
  take : Session × SolveResult → Session × SolveResult

def readGlpk (m : Model) (response : Value) : Except Error Answer := do
  let r ← checked (Glpk.Response.read response)
  let status := Glpk.statusOfCode r.status
  if !status.hasSolution then return { status, reported := none, take := id }
  return {
    status
    reported := some r.objectiveValue
    take := fun found => Glpk.decodeRows m r.duals (r.values.foldl (Glpk.decodeValue m) found) }

def readHighs (m : Model) (response : Value) : Except Error Answer := do
  let r ← checked (Highs.Response.read response)
  let status := Status.ofText r.status
  if !status.hasSolution then return { status, reported := none, take := id }
  return { status, reported := some r.objectiveValue, take := Highs.decode m r }

def readJslp (m : Model) (response : Value) : Except Error Answer := do
  let r ← checked (Jslp.Response.read response)
  let status := Jslp.status r.feasible r.bounded
  if r.feasible ≠ some true then return { status, reported := none, take := id }
  return { status, reported := some r.objectiveValue, take := Jslp.decode m r }

def read (b : Bridge) (m : Model) (response : Value) : Except Error Answer :=
  match b.format with
  | .glpk => readGlpk m response
  | .highs => readHighs m response
  | .jslp => readJslp m response

/-- Takes over an answer. The status and the values are there also when the objective value turns
out to be out of range. -/
def accept (b : Bridge) (m : Model) (answer : Answer) : Model × Except Error SolveResult :=
  let session := { m.session with status := some answer.status }
  let (session, result) := answer.take (session, { status := answer.status, kind := b.kind })
  match answer.reported with
  | none => ({ m with session }, .ok result)
  | some reported => match b.objectiveValue m reported with
    | .error e => ({ m with session }, .error e)
    | .ok objectiveValue =>
      ({ m with session := { session with objectiveValue } }, .ok { result with objectiveValue })

/-- Takes over a response; one that does not follow the format's schema changes nothing. -/
def decode (b : Bridge) (m : Model) (response : Value) : Model × Except Error SolveResult :=
  match b.read m response with
  | .error e => (m, .error e)
  | .ok answer => b.accept m answer

end LinOpt.Bridge
