import LinOpt.Entries
import LinOpt.Schema.Reading

namespace LinOpt.Highs

open Schema Reading

structure Column where
  primal : Option Binary64
  dual : Option Binary64
  index : Option Int
  name : Option String
  deriving DecidableEq

def Column.read (value : Value) : Reading Column := do
  let entries ← readRecord value
  (both (defaulted entries "Primal" (readOptional readFloat) none)
    (both (defaulted entries "Dual" (readOptional readFloat) none)
      (both (defaulted entries "Index" (readOptional readInt) none)
        (both (defaulted entries "Name" (readOptional readText) none) (checkKeys entries))))).map
    fun (primal, dual, index, name, _) => { primal, dual, index, name }

structure Row where
  name : Option String
  primal : Option Binary64
  dual : Option Binary64
  index : Option Int
  deriving DecidableEq

def Row.read (value : Value) : Reading Row := do
  let entries ← readRecord value
  (both (defaulted entries "Name" (readOptional readText) none)
    (both (defaulted entries "Primal" (readOptional readFloat) none)
      (both (defaulted entries "Dual" (readOptional readFloat) none)
        (both (defaulted entries "Index" (readOptional readInt) none) (checkKeys entries))))).map
    fun (name, primal, dual, index, _) => { name, primal, dual, index }

structure Response where
  status : String
  objectiveValue : Option Binary64
  columns : Entries Column
  rows : List Row
  deriving DecidableEq

def Response.read (value : Value) : Reading Response := do
  let entries ← readRecord value
  (both (required entries "Status" readText)
    (both (defaulted entries "ObjectiveValue" (readOptional readFloat) none)
      (both (defaulted entries "Columns" (readEntries Column.read) [])
        (both (defaulted entries "Rows" (readList Row.read) []) (checkKeys entries))))).map
    fun (status, objectiveValue, columns, rows, _) => { status, objectiveValue, columns, rows }

end LinOpt.Highs
