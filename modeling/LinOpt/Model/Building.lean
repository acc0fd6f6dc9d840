import LinOpt.Entries
import LinOpt.LpText.Resolve

namespace LinOpt

structure Store where
  model : Model
  index : Entries Nat

namespace Store

def ofModel (m : Model) : Store where
  model := m
  index := m.registry.names.zipIdx

def setRegistry (s : Store) (r : Registry) : Store :=
  { s with model := { s.model with registry := r } }

def indexOf? (s : Store) (name : String) : Option Nat :=
  Entries.get? s.index name

def get? (s : Store) (name : String) : Option Variable := do
  s.model.registry.vars[← s.indexOf? name]?

def owns (s : Store) (v : Variable) : Bool :=
  s.get? v.name == some v

end Store

abbrev Building := ExceptT Error (StateM Store)

namespace Building

def on (steps : Building α) (s : Store) : Except Error α × Store :=
  steps.run.run s

def check (outcome : Except Error α) : Building α :=
  ExceptT.mk (pure outcome)

/-- Steps that end with the error that is raised, by the values that variables have then. -/
def raising (values : Model → Valuation) (steps : Building α) : Building α := ExceptT.mk do
  let outcome ← steps.run
  let shown := (values (← get).model).shown
  return outcome.mapError (·.shownBy shown)

def isTaken (name : String) : Building Bool :=
  return (Entries.get? (← get).index name).isSome

/-- The next automatic name, whether it is taken or not; it does not come again. -/
def countName : Building String := do
  let r := (← get).model.registry
  modify (·.setRegistry { r with counter := r.counter + 1 })
  return Registry.autoName r.counter

def nextName : Nat → Building String
  | 0 => countName
  | steps + 1 => do
    let name ← countName
    if ← isTaken name then nextName steps else return name

/-- Registers a variable, first in the index and then itself, and tells of it. -/
def insert (d : Declaration) : Building Variable := do
  modify fun s => { s with index := Entries.put d.name s.model.registry.vars.length s.index }
  let (r, v) := (← get).model.registry.register d
  modify (·.setRegistry r)
  match d.notice with
  | some _ => return v
  | none => throw .wrongValue

/-- A variable without a name is checked under another one before it gets an automatic one. -/
def addVar (spec : Spec) : Building Variable :=
  if spec.name.isNull then do
    let d ← check { spec with name := .text "_" }.check
    let name ← nextName (← get).index.length
    insert { d with name }
  else do
    let d ← check spec.check
    if ← isTaken d.name then throw (.duplicateName d.name) else insert d

def freshNames : (seen : List String) → List Value → Building (List String)
  | _, [] => return []
  | seen, .text s :: names => do
    if (← isTaken s) || seen.contains s then throw (.duplicateName s)
    else return s :: (← freshNames (s :: seen) names)
  | _, given :: _ => throw (.invalidVariable (.nameSort given))

def addVars (names lower upper kind : Value) : Building (List Variable) :=
  match names.items? with
  | none => throw .wrongSort
  | some given => do
    let fresh ← freshNames [] given
    let declared ← check (fresh.mapM fun name =>
      Spec.check { name := .text name, lower, upper, kind })
    declared.mapM insert

/-- Takes all variables away, then the index; automatic names start again. -/
def clearVars : Building Unit := do
  modify fun s => s.setRegistry { s.model.registry with vars := [] }
  modify fun s => { s with index := [] }
  modify fun s => s.setRegistry { s.model.registry with counter := 0 }

def setObjective (expression sense : Value) : Building Unit := do
  let objective ← check (Objective.build (← get).model.registry expression sense)
  modify fun s => { s with model := { s.model with objective } }

def addConstraint (lhs comparison rhs : Value) : Building Constraint := do
  let c ← check (Constraint.build (some (← get).model.registry) lhs comparison rhs)
  modify fun s => { s with model := { s.model with constraints := s.model.constraints ++ [c] } }
  return c

/-- The model that a text describes is made apart from the store. Its variables, its constraints and
its objective are then put in the place of the old ones. -/
def readLp (text : String) : Building Unit := do
  let d ← check (LpText.Document.ofText text)
  let fresh ← check (d.resolve (← get).model.registry.clear)
  modify fun s => { s.setRegistry fresh.registry with index := (Store.ofModel fresh).index }
  modify fun s => { s with model := { s.model with constraints := fresh.constraints } }
  modify fun s => { s with model := { s.model with objective := fresh.objective } }
  modify fun s => { s with model := s.model.reset }

end Building

end LinOpt
