import LinOpt.Entries
import LinOpt.Program.Basic

namespace LinOpt.LinearProgram

namespace Builder

structure Column where
  name : String
  lower : Binary64 := Binary64.zero false
  upper : Binary64 := .infinite false
  cost : Binary64 := Binary64.zero false
  isIntegral : Bool := false
  deriving DecidableEq

structure Row where
  name : String
  coefficients : Entries Binary64
  lower : Binary64
  upper : Binary64
  deriving DecidableEq

end Builder

structure Builder where
  columns : List Builder.Column := []
  rows : List Builder.Row := []
  deriving DecidableEq

namespace Builder

/-- Changes the column of a name, which is made first if there is none. -/
def change (name : String) (f : Column → Column) : List Column → List Column
  | [] => [f { name }]
  | c :: columns => if c.name = name then f c :: columns else c :: change name f columns

def onColumn (b : Builder) (name : String) (f : Column → Column) : Builder :=
  { b with columns := change name f b.columns }

def setBounds (b : Builder) (name : String) (lower upper : Binary64) : Builder :=
  b.onColumn name fun c => { c with lower, upper }

def markIntegral (b : Builder) (name : String) : Builder :=
  b.onColumn name fun c => { c with isIntegral := true }

/-- The larger number, and the first one of two that are equal. -/
def larger (x y : Binary64) : Binary64 :=
  if (Number.real x).lt (.real y) then y else x

def smaller (x y : Binary64) : Binary64 :=
  if (Number.real y).lt (.real x) then y else x

/-- A binary column keeps those of its bounds that are between 0 and 1. -/
def markBinary (b : Builder) (name : String) : Builder :=
  b.onColumn name fun c =>
    { c with
      isIntegral := true
      lower := larger c.lower (Binary64.zero false)
      upper := smaller c.upper (Binary64.ofInt 1) }

def addCost (b : Builder) (name : String) (c : Binary64) : Builder :=
  b.onColumn name fun column => { column with cost := column.cost.add c }

def accumulate (entries : Entries Binary64) : String × Binary64 → Entries Binary64
  | (name, c) => entries.put name (((entries.get? name).getD (Binary64.zero false)).add c)

def sumByName (coefficients : List (String × Binary64)) : Entries Binary64 :=
  coefficients.foldl accumulate []

def addRow (b : Builder) (name : String) (coefficients : List (String × Binary64))
    (lower upper : Binary64) : Builder :=
  let b := coefficients.foldl (fun b (column, _) => b.onColumn column id) b
  { b with rows := b.rows ++ [⟨name, sumByName coefficients, lower, upper⟩] }

def build (b : Builder) (maximize : Bool) (offset : Number) : LinearProgram where
  columnNames := b.columns.map (·.name)
  objective := b.columns.map (·.cost)
  maximize := maximize
  lower := b.columns.map (·.lower)
  upper := b.columns.map (·.upper)
  integrality := b.columns.map fun c => if c.isIntegral then 1 else 0
  rowNames := b.rows.map (·.name)
  matrix := b.rows.map fun row =>
    b.columns.map fun c => (row.coefficients.get? c.name).getD (Binary64.zero false)
  rowLower := b.rows.map (·.lower)
  rowUpper := b.rows.map (·.upper)
  offset := offset

end Builder

end LinOpt.LinearProgram
