import LinOpt.Sorting.Basic
import LinOpt.Value.Basic

namespace LinOpt.Value

mutual

def same : Value → Value → Bool
  | null, null => true
  | text s, text t => s == t
  | var v, var w => v == w
  | list as, list bs => sameAll as bs
  | tuple as, tuple bs => sameAll as bs
  | map entries, map others => entries.length == others.length && sameEntries entries others
  | a, b => match a.toNumber?, b.toNumber? with
    | some m, some n => m.same n
    | _, _ => false

def sameAll : List Value → List Value → Bool
  | [], [] => true
  | a :: as, b :: bs => same a b && sameAll as bs
  | _, _ => false

def sameEntries : List (Value × Value) → List (Value × Value) → Bool
  | [], _ => true
  | (key, value) :: entries, others =>
    (others.any fun other => same key other.1 && same value other.2) && sameEntries entries others

end

mutual

/-- Whether a value can be the key of an entry: it is no list or map and holds none. -/
def isKey : Value → Bool
  | list _ | map _ => false
  | tuple items => areKeys items
  | _ => true

def areKeys : List Value → Bool
  | [] => true
  | item :: items => isKey item && areKeys items

end

/-- Replaces the value of a key in its place, or makes a last entry. -/
def putEntry (key value : Value) : List (Value × Value) → List (Value × Value)
  | [] => [(key, value)]
  | (k, v) :: entries =>
    if k.same key then (k, value) :: entries else (k, v) :: putEntry key value entries

def findEntry? (key : Value) (entries : List (Value × Value)) : Option Value :=
  (entries.find? fun (k, _) => k.same key).map Prod.snd

mutual

def compares? (holds : Ordering → Bool) : Value → Value → Option Bool
  | text s, text t => some (holds (compare s t))
  | list as, list bs => comparesAll? holds as bs
  | tuple as, tuple bs => comparesAll? holds as bs
  | a, b => do return Number.compares holds (← a.toNumber?) (← b.toNumber?)

/-- The first items that differ decide, and the shorter of two collections comes first. -/
def comparesAll? (holds : Ordering → Bool) : List Value → List Value → Option Bool
  | [], bs => some (holds (if bs.isEmpty then .eq else .lt))
  | _ :: _, [] => some (holds .gt)
  | a :: as, b :: bs => if same a b then comparesAll? holds as bs else compares? holds a b

end

def orderedPair? (a b : Value) : Option (Value × Value) := do
  return if ← compares? Ordering.isLE a b then (a, b) else (b, a)

def less? (a b : Value) : Option Bool :=
  compares? Ordering.isLT a b

/-- Sorts values, if all that are compared have an order. -/
def sorted? (values : List Value) : Option (List Value) :=
  Sorting.sort? less? values

end LinOpt.Value
