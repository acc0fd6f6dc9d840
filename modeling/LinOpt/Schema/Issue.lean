import LinOpt.Value.Basic

namespace LinOpt.Schema

inductive Step
  | field (name : String)
  | index (n : Int)
  /-- A key that is neither a text nor a whole number. -/
  | key (key : Value)

inductive Fault
  | missing
  | floatType
  | floatText
  | intType
  | intText
  | intSize
  | intFromFraction
  | notFinite
  | textType
  | textPattern
  | keyType
  | boolType
  | boolText
  | listType
  | mapType
  | recordType
  | notAbove
  | below
  | above
  deriving DecidableEq

structure Issue where
  path : List Step
  fault : Fault

def Issue.under (step : Step) (issue : Issue) : Issue :=
  { issue with path := step :: issue.path }

end LinOpt.Schema
