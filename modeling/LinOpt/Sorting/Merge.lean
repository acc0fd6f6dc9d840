import LinOpt.Sorting.Search

namespace LinOpt.Sorting

variable (less? : α → α → Option Bool)

/-- Whether an item of the first run goes out before one of the second. Equal items stay in their
order. -/
def End.takesFirst (side : End) (x y : α) : Option Bool := do
  let smaller ← less? y x
  return match side with
    | front => !smaller
    | back => smaller

/-- What is left of two runs, where nothing has to be compared any more: one of them is empty, or it
has one item, for which room was made at the far end. -/
def End.leftover? : End → List α → List α → Option (List α)
  | _, [], second => some second
  | _, first, [] => some first
  | front, [x], second => some (second ++ [x])
  | back, first, [y] => some (first ++ [y])
  | _, _, _ => none

def leastLeap : Nat := 7

def before (items : List α) (merged : List α × Nat) : List α × Nat :=
  (items ++ merged.1, merged.2)

mutual

/-- Merges item by item, given how often in a row each run has gone first. -/
def stepwise (side : End) (patience firstWins secondWins : Nat) (first second : List α) :
    Option (List α × Nat) :=
  match side.leftover? first second, first, second with
  | none, x :: xs, y :: ys =>
    if patience ≤ max firstWins secondWins then leap side patience (x :: xs) (y :: ys)
    else do
      if ← side.takesFirst less? x y then
        before [x] <$> stepwise side patience (firstWins + 1) 0 xs (y :: ys)
      else before [y] <$> stepwise side patience 0 (secondWins + 1) (x :: xs) ys
  | rest, _, _ => rest.map (·, patience)
termination_by (first.length + second.length, 1)

/-- Leaps over the items of the first run that go before the next one of the second. -/
def leap (side : End) (patience : Nat) (first second : List α) : Option (List α × Nat) :=
  match second with
  | [] => some (first, patience)
  | y :: ys => do
    let count ← reach side (side.takesFirst less? · y) first
    before (first.take count) <$> match side.leftover? (first.drop count) (y :: ys) with
      | some rest => some (rest, patience)
      | none => before [y] <$> leapBack side patience count (first.drop count) ys
termination_by (first.length + second.length, 0)

/-- Leaps over the items of the second run that go before the next one of the first. Leaps go on if
this one or the one before it was long. -/
def leapBack (side : End) (patience count : Nat) (first second : List α) :
    Option (List α × Nat) :=
  match side.leftover? first second, first with
  | none, x :: xs => do
    let count' ← reach side (fun y => not <$> side.takesFirst less? x y) second
    let rest := second.drop count'
    before (second.take count') <$> match side.leftover? (x :: xs) rest with
      | some rest => some (rest, patience)
      | none => before [x] <$> match side.leftover? xs rest with
        | some rest => some (rest, patience)
        | none =>
          if leastLeap ≤ max count count' then leap side (max 1 (patience - 1)) xs rest
          else stepwise side (patience + 1) 0 0 xs rest
  | rest, _ => rest.map (·, patience)
termination_by (first.length + second.length, 0)

end

/-- Merges two runs of which the second has to go before the first with its first item, and after it
with its last one. -/
def weave (first second : List α) (patience : Nat) : Option (List α × Nat) :=
  if first.length ≤ second.length then
    before (second.take 1) <$> stepwise less? .front patience 0 0 first (second.drop 1)
  else do
    let (merged, patience) ← stepwise less? .back patience 0 0 (first.reverse.drop 1) second.reverse
    return (merged.reverse ++ first.drop (first.length - 1), patience)

def merge (first second : List α) (patience : Nat) : Option (List α × Nat) :=
  match second with
  | [] => some (first, patience)
  | y :: ys => do
    let low ← reach .front (fun x => not <$> less? y x) first
    match (first.drop low).getLast? with
    | none => return (first ++ y :: ys, patience)
    | some x =>
      let high ← reach .back (fun z => not <$> less? z x) (y :: ys).reverse
      let count := ys.length + 1 - high
      if count = 0 then return (first ++ y :: ys, patience)
      let (merged, patience) ← weave less? (first.drop low) ((y :: ys).take count) patience
      return (first.take low ++ merged ++ (y :: ys).drop count, patience)

end LinOpt.Sorting
