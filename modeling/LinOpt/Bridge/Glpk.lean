import LinOpt.Bridge.Basic
import LinOpt.Schema.Glpk

namespace LinOpt.Glpk

open Schema

def rowName (index : Nat) : String :=
  "cons" ++ toString (index + 1)

def field (name : String) (n : Number) : Except Error Binary64 :=
  checked ((readFloat n).under (.field name))

def zero : Binary64 := Binary64.zero false

def encodeTerms (e : Expression) : Except Error (List Entry) :=
  e.linearTerms.mapM fun (c, v) => do return ⟨v.name, ← field "coef" c⟩

def encodeSides (type : LimitType) (upper lower : Value) : Except Error Limits :=
  let sides := ((readFloat upper).under (.field "ub")).both
    ((readFloat lower).under (.field "lb"))
  checked (sides.map fun (upper, lower) => { type, upper, lower })

def rowLimits (comparison : Comparison) (rhs : Value) : Except Error Limits :=
  match comparison with
  | .le => encodeSides .upper rhs (.int 0)
  | .ge => encodeSides .lower (.int 0) rhs
  | .eq => encodeSides .fixed rhs rhs

/-- An infinite side is not used. -/
def columnLimits (lower upper : Number) : Except Error Limits := do
  let low ← inRange lower.toBinary64?
  let high ← inRange upper.toBinary64?
  return if low.isInfinite && high.isInfinite then ⟨.free, zero, zero⟩
    else if low.isInfinite then ⟨.upper, high, zero⟩
    else if high.isInfinite then ⟨.lower, zero, low⟩
    else if lower.same upper then ⟨.fixed, high, low⟩
    else ⟨.double, high, low⟩

def encodeRow (indexed : Constraint × Nat) : Except Error Row := do
  let (c, index) := indexed
  return ⟨rowName index, ← encodeTerms c.lhs, ← rowLimits c.comparison c.rhs⟩

def encodeColumn (v : Variable) : Except Error Column := do
  return ⟨v.name, ← columnLimits v.lower v.upper⟩

def namesOf (m : Model) (kind : Kind) : List String :=
  (m.registry.vars.filter (·.kind == kind)).map (·.name)

def encode (b : Bridge) (m : Model) : Except Error Request := do
  b.checkSupported m
  let entries ← encodeTerms m.objective.expression
  let rows ← m.constraints.zipIdx.mapM encodeRow
  let columns ← m.registry.vars.mapM encodeColumn
  return {
    objective := {
      direction := if m.objective.isMaximize then Objective.maximize else Objective.minimize
      entries }
    rows, columns
    binaries := namesOf m .binary
    generals := namesOf m .integer }

def decodeValue (m : Model) (found : Session × SolveResult) (entry : String × Binary64) :
    Session × SolveResult :=
  let (session, result) := found
  let (name, x) := entry
  match m.registry.get? name with
  | some v =>
    (session.assign v (.real x), { result with values := result.values.put name (.real x) })
  | none => (session, { result with diagnostics := result.diagnostics ++ [.column name] })

def decodeDuals (m : Model) (duals : Entries Binary64) (session : Session) : Session :=
  (List.range m.constraints.length).foldl (fun session index =>
    match duals.get? (rowName index) with
    | some x => session.assignRow index { session.row index with dual := some x }
    | none => session) session

def unknownRows (m : Model) (duals : Entries Binary64) : List Unmatched :=
  let known := (List.range m.constraints.length).map rowName
  (duals.names.filter fun name => !known.contains name).map .row

def decodeRows (m : Model) (duals : Option (Entries Binary64)) (found : Session × SolveResult) :
    Session × SolveResult :=
  match duals with
  | none => found
  | some duals =>
    let (session, result) := found
    (decodeDuals m duals session,
      { result with diagnostics := result.diagnostics ++ unknownRows m duals })

end LinOpt.Glpk
