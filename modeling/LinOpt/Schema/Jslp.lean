import LinOpt.Entries
import LinOpt.Model.Session
import LinOpt.Schema.Reading

namespace LinOpt.Jslp

open Schema Reading

def readDirection (value : Value) : Reading Bool := do
  let word ← readText value
  if word == "max" then .ok true else if word == "min" then .ok false else fail .textPattern

structure Request where
  objective : String := "objective"
  maximize : Bool
  constraints : Entries (Entries Binary64)
  vars : Entries (Entries Binary64)
  ints : Entries Int
  binaries : Entries Int
  unrestricted : Entries Int
  options : Entries Value

namespace Request

def mapValue (toValue : α → Value) (entries : Entries α) : Value :=
  .record (entries.map fun (name, a) => (name, toValue a))

def toValue (r : Request) : Value :=
  .record [
    ("optimize", .text r.objective),
    ("opType", .text (if r.maximize then "max" else "min")),
    ("constraints", mapValue (mapValue Value.real) r.constraints),
    ("variables", mapValue (mapValue Value.real) r.vars),
    ("ints", mapValue Value.int r.ints),
    ("binaries", mapValue Value.int r.binaries),
    ("unrestricted", mapValue Value.int r.unrestricted),
    ("options", .record r.options)]

def read (value : Value) : Reading Request := do
  let entries ← readRecord value
  (both (defaulted entries "optimize" readText "objective")
    (both (required entries "opType" readDirection)
      (both (defaulted entries "constraints" (readEntries (readEntries readFloat)) [])
        (both (defaulted entries "variables" (readEntries (readEntries readFloat)) [])
          (both (defaulted entries "ints" (readEntries readInt) [])
            (both (defaulted entries "binaries" (readEntries readInt) [])
              (both (defaulted entries "unrestricted" (readEntries readInt) [])
                (defaulted entries "options" (readEntries .ok) [])))))))).map
    fun (objective, maximize, constraints, vars, ints, binaries, unrestricted, options) =>
      { objective, maximize, constraints, vars, ints, binaries, unrestricted, options }

end Request

structure Response where
  feasible : Option Bool
  objectiveValue : Option Binary64
  bounded : Option Bool
  integral : Option Bool
  /-- All other entries, which are values of variables. -/
  values : Entries Value

namespace Response

def flags : List String := ["feasible", "result", "bounded", "isIntegral"]

def readValues (entries : List (Value × Value)) : Entries Value :=
  entries.filterMap fun (key, value) => match key with
    | .text s => if flags.contains s then none else some (s, value)
    | _ => none

def read (value : Value) : Reading Response := do
  let entries ← readRecord value
  (both (defaulted entries "feasible" (readOptional readBool) none)
    (both (defaulted entries "result" (readOptional readFloat) none)
      (both (defaulted entries "bounded" (readOptional readBool) none)
        (both (defaulted entries "isIntegral" (readOptional readBool) none)
          (checkKeys entries))))).map
    fun (feasible, objectiveValue, bounded, integral, _) =>
      { feasible, objectiveValue, bounded, integral, values := readValues entries }

end Response

def status (feasible bounded : Option Bool) : Status :=
  match feasible with
  | none => .undefined
  | some false => .infeasible
  | some true => if bounded = some false then .unbounded else .optimal

end LinOpt.Jslp
