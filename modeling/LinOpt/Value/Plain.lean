import LinOpt.Entries
import LinOpt.Value.Order

namespace LinOpt

def Variable.fields (v : Variable) (value : Value) : List (String × Value) :=
  [("name", .text v.name), ("lb", v.lower), ("ub", v.upper), ("vtype", .text v.kind.text),
    ("value", value)]

/-- Where a value is that can be met more than once: a variable, or a way into the value of one. -/
structure Place where
  owner : Variable
  way : List Nat := []
  deriving DecidableEq

namespace Value

def part (place : Option Place) (number : Nat) : Value → Option Place
  | var v => some { owner := v }
  | _ => place.map fun p => { p with way := number :: p.way }

/-- Going through values, with the places that are not to be entered: those that are being gone
through and those that lay too deep. It ends early at a key that no map can have. -/
abbrev Walk := StateT (List Place) Option

def enter (place : Option Place) : Walk Unit :=
  modify fun places => place.elim places places.insert

def leave (place : Option Place) : Walk Unit :=
  modify fun places => place.elim places places.erase

/-- Puts records for the variables in a value. -/
def plainWithin (values : Valuation) : Nat → Option Place → Value → Walk Value
  | 0, place, value => do
    enter place
    return value
  | depth + 1, place, value => do
    if place.any (← get).contains then return value
    enter place
    let within := plainWithin values depth
    let all (items : List Value) := items.zipIdx.mapM fun (item, i) =>
      within (item.part place i) item
    let plain ← match value with
      | list items => list <$> all items
      | tuple items => tuple <$> all items
      | map entries => map <$> entries.zipIdx.mapM (fun ((key, value), i) => do
        let key ← within (key.part place (2 * i)) key
        let value ← within (value.part place (2 * i + 1)) value
        if key.isKey then return (key, value) else failure)
      | var v => do
        let value ← within ((values v).part place 0) (values v)
        pure (record (v.fields value))
      | value => pure value
    leave place
    return plain

def plainDepth : Nat := 255

/-- The values of entries with records in the place of variables, unless such a record would be a
key. -/
def plainEntries? (values : Valuation) (entries : Entries Value) : Option (Entries Value) :=
  let plain (entry : String × Value) : Walk (String × Value) := do
    return (entry.1, ← plainWithin values plainDepth (entry.2.part none 0) entry.2)
  (entries.mapM plain).run' []

end Value

end LinOpt
