import LinOpt.Number.Rounding
import LinOpt.Sorting.Merge

namespace LinOpt.Sorting

variable (less? : α → α → Option Bool)

/-- The items that go on with a run, each below the one before it or, if the run does not fall,
none; and the items after the run. -/
def run? (falls : Bool) (last : α) : List α → Option (List α × List α)
  | [] => some ([], [])
  | item :: items => do
    if (← less? item last) = falls then
      let (run, rest) ← run? falls item items
      return (item :: run, rest)
    else return ([], item :: items)

def insert? (sorted : List α) (item : α) : Option (List α) := do
  return sorted.insertIdx (← halve .front (fun x => not <$> less? item x) sorted) item

/-- The run that items begin with, and the rest. One that falls is turned round, and one that is too
short gets more items. -/
def split? (least : Nat) : List α → Option (List α × List α)
  | first :: second :: items => do
    let falls ← less? second first
    let (run, rest) ← run? less? falls second items
    let start := if falls then (first :: second :: run).reverse else first :: second :: run
    let count := least - start.length
    return (← (rest.take count).foldlM (insert? less?) start, rest.drop count)
  | items => some (items, [])

def runs? (least : Nat) : Nat → List α → Option (List (List α))
  | 0, _ => some []
  | _, [] => some []
  | limit + 1, item :: items => do
    let (run, rest) ← split? less? least (item :: items)
    return run :: (← runs? least limit rest)

/-- How long runs are made: all of fewer than 64 items, or a part of from 32 to 64 of them, so that
a power of two of parts makes about the whole. -/
def leastLength (total : Nat) : Nat :=
  let parts := twoPower (total.log2 - 5)
  (total + parts - 1) / parts

/-- How deep the boundary between two runs lies: how often the whole has to be halved for their
middles to be apart. The places of the middles are given doubled. -/
def boundaryDepth (total middle middle' : Nat) : Nat :=
  ((List.range (total.log2 + 2)).find? fun depth =>
    middle * twoPower depth / total != middle' * twoPower depth / total).getD 0

/-- Runs that wait to be merged: the last one and where it starts, and the ones before it from the
end, each with the depth of the boundary behind it. -/
structure Pending (α : Type) where
  last : List α
  start : Nat := 0
  earlier : List (List α × Nat) := []
  patience : Nat := 7

/-- Merges the last run with those before it that lie behind deeper boundaries. -/
def settle (depth : Nat) (last : List α) (patience : Nat) :
    List (List α × Nat) → Option (List α × List (List α × Nat) × Nat)
  | [] => some (last, [], patience)
  | (run, boundary) :: earlier =>
    if depth < boundary then do
      let (merged, patience) ← merge less? run last patience
      settle depth merged patience earlier
    else some (last, (run, boundary) :: earlier, patience)

def Pending.add (total : Nat) (p : Pending α) (run : List α) : Option (Pending α) := do
  let middle := 2 * p.start + p.last.length
  let depth := boundaryDepth total middle (middle + p.last.length + run.length)
  let (last, earlier, patience) ← settle less? depth p.last p.patience p.earlier
  return {
    last := run, start := p.start + p.last.length, earlier := (last, depth) :: earlier, patience }

/-- Merges all runs, given from the end, beginning with the last ones or, where that is shorter,
with those before them. -/
def collapse (patience : Nat) : List (List α) → Option (List α)
  | [] => some []
  | [run] => some run
  | [second, first] => Prod.fst <$> merge less? first second patience
  | third :: second :: first :: earlier => do
    if first.length < third.length then
      let (merged, patience) ← merge less? first second patience
      collapse patience (third :: merged :: earlier)
    else
      let (merged, patience) ← merge less? second third patience
      collapse patience (merged :: first :: earlier)
termination_by runs => runs.length

def sort? (items : List α) : Option (List α) := do
  match ← runs? less? (leastLength items.length) items.length items with
  | [] => return []
  | run :: runs =>
    let p ← runs.foldlM (Pending.add less? items.length) { last := run }
    collapse less? p.patience (p.last :: p.earlier.map Prod.fst)

end LinOpt.Sorting
