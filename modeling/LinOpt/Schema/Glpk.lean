import LinOpt.Entries
import LinOpt.Model.Session
import LinOpt.Schema.Reading

namespace LinOpt.Glpk

open Schema Reading

inductive LimitType
  | free
  | lower
  | upper
  | double
  | fixed
  deriving DecidableEq

namespace LimitType

/-- The lower and the upper limit that a record of limits of this type stands for, if it has the
given sides and `bottom` and `top` mean that there is no limit. -/
def range (type : LimitType) (bottom top lower upper : α) : α × α :=
  match type with
  | free => (bottom, top)
  | .lower => (lower, top)
  | .upper => (bottom, upper)
  | fixed => (lower, lower)
  | double => (lower, upper)

def code : LimitType → Int
  | free => 1
  | lower => 2
  | upper => 3
  | double => 4
  | fixed => 5

def read (value : Value) : Reading LimitType := do
  let n ← readInt value
  if 5 < n then fail .above
  else match [free, lower, upper, double, fixed].find? (·.code == n) with
    | some type => .ok type
    | none => fail .below

end LimitType

structure Limits where
  type : LimitType
  upper : Binary64
  lower : Binary64
  deriving DecidableEq

namespace Limits

def range (l : Limits) : Binary64 × Binary64 :=
  l.type.range (.infinite true) (.infinite false) l.lower l.upper

def fields (l : Limits) : List (String × Value) :=
  [("type", .int l.type.code), ("ub", .real l.upper), ("lb", .real l.lower)]

def readFields (entries : List (Value × Value)) : Reading Limits :=
  (both (required entries "type" LimitType.read)
    (both (defaulted entries "ub" readFloat (Binary64.zero false))
      (defaulted entries "lb" readFloat (Binary64.zero false)))).map
    fun (type, upper, lower) => { type, upper, lower }

def read (value : Value) : Reading Limits := do
  readFields (← readRecord value)

end Limits

structure Entry where
  name : String
  coefficient : Binary64
  deriving DecidableEq

namespace Entry

def toValue (e : Entry) : Value :=
  .record [("name", .text e.name), ("coef", .real e.coefficient)]

def read (value : Value) : Reading Entry := do
  let entries ← readRecord value
  (both (required entries "name" readText) (required entries "coef" readFloat)).map
    fun (name, coefficient) => { name, coefficient }

end Entry

structure Row where
  name : String
  entries : List Entry
  limits : Limits
  deriving DecidableEq

namespace Row

def toValue (r : Row) : Value :=
  .record [("name", .text r.name), ("vars", .list (r.entries.map Entry.toValue)),
    ("bnds", .record r.limits.fields)]

def read (value : Value) : Reading Row := do
  let entries ← readRecord value
  (both (required entries "name" readText)
    (both (defaulted entries "vars" (readList Entry.read) [])
      (required entries "bnds" Limits.read))).map
    fun (name, entries, limits) => { name, entries, limits }

end Row

structure Column where
  name : String
  limits : Limits
  deriving DecidableEq

namespace Column

def toValue (c : Column) : Value :=
  .record (c.limits.fields ++ [("name", .text c.name)])

def read (value : Value) : Reading Column := do
  let entries ← readRecord value
  (both (Limits.readFields entries) (required entries "name" readText)).map
    fun (limits, name) => { name, limits }

end Column

structure Objective where
  direction : Int
  name : String := "obj"
  entries : List Entry
  deriving DecidableEq

namespace Objective

def minimize : Int := 1

def maximize : Int := 2

def toValue (o : Objective) : Value :=
  .record [("direction", .int o.direction), ("name", .text o.name),
    ("vars", .list (o.entries.map Entry.toValue))]

def read (value : Value) : Reading Objective := do
  let entries ← readRecord value
  (both (required entries "direction" readInt)
    (both (defaulted entries "name" readText "obj")
      (defaulted entries "vars" (readList Entry.read) []))).map
    fun (direction, name, entries) => { direction, name, entries }

end Objective

structure Request where
  name : String := "LP"
  objective : Objective
  rows : List Row
  columns : List Column
  binaries : List String
  generals : List String
  deriving DecidableEq

namespace Request

def toValue (r : Request) : Value :=
  .record [("name", .text r.name), ("objective", r.objective.toValue),
    ("subjectTo", .list (r.rows.map Row.toValue)), ("bounds", .list (r.columns.map Column.toValue)),
    ("binaries", .list (r.binaries.map .text)), ("generals", .list (r.generals.map .text))]

def read (value : Value) : Reading Request := do
  let entries ← readRecord value
  (both (defaulted entries "name" readText "LP")
    (both (required entries "objective" Objective.read)
      (both (defaulted entries "subjectTo" (readList Row.read) [])
        (both (defaulted entries "bounds" (readList Column.read) [])
          (both (defaulted entries "binaries" (readList readText) [])
            (defaulted entries "generals" (readList readText) [])))))).map
    fun (name, objective, rows, columns, binaries, generals) =>
      { name, objective, rows, columns, binaries, generals }

end Request

structure Response where
  status : Int
  objectiveValue : Option Binary64
  values : Entries Binary64
  duals : Option (Entries Binary64)
  deriving DecidableEq

namespace Response

def readResult (value : Value) : Reading Response := do
  let entries ← readRecord value
  (both (required entries "status" readInt)
    (both (defaulted entries "z" (readOptional readFloat) none)
      (both (defaulted entries "vars" (readEntries readFloat) [])
        (both (defaulted entries "dual" (readOptional (readEntries readFloat)) none)
          (checkKeys entries))))).map
    fun (status, objectiveValue, values, duals, _) => { status, objectiveValue, values, duals }

def read (value : Value) : Reading Response := do
  let entries ← readRecord value
  (both (defaulted entries "name" readText "LP")
    (both (defaulted entries "time" readFloat (Binary64.zero false))
      (both (required entries "result" readResult) (checkKeys entries)))).map
    fun (_, _, result, _) => result

end Response

def statusCode : Status → Int
  | .optimal => 5
  | .feasible => 2
  | .infeasible => 4
  | .unbounded => 6
  | .undefined | .other _ => 1

/-- Infeasibility has two codes; a code without a meaning is undefined. -/
def statusOfCode (code : Int) : Status :=
  if code = 5 then .optimal
  else if code = 2 then .feasible
  else if code = 3 || code = 4 then .infeasible
  else if code = 6 then .unbounded
  else .undefined

end LinOpt.Glpk
