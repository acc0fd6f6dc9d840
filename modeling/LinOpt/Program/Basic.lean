import LinOpt.Number.Basic

namespace LinOpt

structure LinearProgram where
  columnNames : List String
  objective : List Binary64
  maximize : Bool
  lower : List Binary64
  upper : List Binary64
  /-- Not zero where a column holds whole numbers. -/
  integrality : List Int
  rowNames : List String
  matrix : List (List Binary64)
  rowLower : List Binary64
  rowUpper : List Binary64
  /-- What the objective has besides the columns. -/
  offset : Number
  deriving DecidableEq

namespace LinearProgram

def columnCount (p : LinearProgram) : Nat :=
  p.columnNames.length

def rowCount (p : LinearProgram) : Nat :=
  p.rowNames.length

def isIntegral (p : LinearProgram) : Bool :=
  p.integrality.any (· != 0)

end LinearProgram

/-- The sum of products, added to zero from the left. -/
def dot (xs ys : List Binary64) : Binary64 :=
  (List.zipWith Binary64.mul xs ys).foldl Binary64.add (Binary64.zero false)

end LinOpt
