
namespace LinOpt.Sorting

/-- The end of the runs at which work on them begins. Runs that are worked on from the back are
given turned round. -/
inductive End
  | front
  | back
  deriving DecidableEq

/-- The place in the middle of that many items. Of two in the middle it is the one nearer to the
back. -/
def End.middle : End → Nat → Nat
  | front, size => size / 2
  | back, size => (size - 1) / 2

def halve (side : End) (passes : α → Option Bool) (items : List α) : Option Nat :=
  match left : items.drop (side.middle items.length) with
  | [] => some 0
  | item :: rest => do
    if ← passes item then return side.middle items.length + 1 + (← halve side passes rest)
    else halve side passes (items.take (side.middle items.length))
termination_by items.length
decreasing_by
  all_goals
    have size := congrArg List.length left
    simp only [List.length_drop, List.length_cons, List.length_take] at *
    omega

/-- How many items pass, found by halving the part in which a test fails that is put off ever
further. -/
def gallop (side : End) (passes : α → Option Bool) (skip : Nat) (items : List α) : Option Nat :=
  match left : items.drop skip with
  | [] => halve side passes items
  | item :: rest => do
    if ← passes item then return skip + 1 + (← gallop side passes (2 * skip + 1) rest)
    else halve side passes (items.take skip)
termination_by items.length
decreasing_by
  have size := congrArg List.length left
  simp only [List.length_drop, List.length_cons] at size
  omega

def reach (side : End) (passes : α → Option Bool) : List α → Option Nat
  | [] => some 0
  | item :: items => do
    if ← passes item then return 1 + (← gallop side passes 0 items) else return 0

end LinOpt.Sorting
