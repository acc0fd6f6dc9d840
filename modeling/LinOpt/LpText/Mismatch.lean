
namespace LinOpt.LpText

structure Mismatch where
  text : String
  /-- How many characters come before it. -/
  position : Nat
  deriving DecidableEq

namespace Mismatch

def before (m : Mismatch) : List Char :=
  m.text.toList.take m.position

def line (m : Mismatch) : Nat :=
  1 + m.before.count '\n'

def column (m : Mismatch) : Nat :=
  1 + (m.before.reverse.takeWhile (· != '\n')).length

def found (m : Mismatch) : String :=
  String.ofList (((m.text.toList.drop m.position).take 20).takeWhile (· != '\n'))

end Mismatch

end LinOpt.LpText
