import LinOpt.Variable.Spec

namespace LinOpt

structure Registry where
  owner : Nat
  /-- How many marks were given out so far. -/
  issued : Nat := 0
  /-- The least number that an automatic name may have. -/
  counter : Nat := 0
  vars : List Variable := []

namespace Registry

def names (r : Registry) : List String :=
  r.vars.map (·.name)

def get? (r : Registry) (name : String) : Option Variable :=
  r.vars.find? (·.name == name)

def indexOf? (r : Registry) (name : String) : Option Nat :=
  r.vars.findIdx? (·.name == name)

def contains (r : Registry) (name : String) : Bool :=
  r.vars.any (·.name == name)

/-- Whether a variable is the one that the registry holds under its name. -/
def owns (r : Registry) (v : Variable) : Bool :=
  r.get? v.name == some v

def register (r : Registry) (d : Declaration) : Registry × Variable :=
  let v : Variable := { d with id := ⟨r.owner, r.issued⟩ }
  ({ r with issued := r.issued + 1, vars := r.vars ++ [v] }, v)

def registerAll (r : Registry) : List Declaration → Registry × List Variable
  | [] => (r, [])
  | d :: ds =>
    let (r, v) := r.register d
    let (r, vs) := r.registerAll ds
    (r, v :: vs)

def autoName (n : Nat) : String :=
  "Var" ++ toString n

/-- The first number from `n` on whose automatic name is free, within so many steps. -/
def firstFree (taken : List String) : Nat → Nat → Nat
  | 0, n => n
  | steps + 1, n => if taken.contains (autoName n) then firstFree taken steps (n + 1) else n

/-- The number of the next automatic name: of as many names as are taken and one more, one is
free. -/
def nextNumber (r : Registry) : Nat :=
  firstFree r.names r.names.length r.counter

/-- Registers a variable and then tells of it. Should that fail, the variable stays registered. -/
def enter (r : Registry) (d : Declaration) : Registry × Except Error Variable :=
  let (r, v) := r.register d
  match d.notice with
  | some _ => (r, .ok v)
  | none => (r, .error .wrongValue)

def enterAll (r : Registry) : List Declaration → Registry × Except Error (List Variable)
  | [] => (r, .ok [])
  | d :: ds => match r.enter d with
    | (r, .error e) => (r, .error e)
    | (r, .ok v) =>
      let (r, entered) := r.enterAll ds
      (r, (v :: ·) <$> entered)

/-- A variable without a name gets an automatic one, after its other parts have been checked. -/
def add (r : Registry) (spec : Spec) : Registry × Except Error Variable :=
  if spec.name.isNull then
    match { spec with name := .text "_" }.check with
    | .error e => (r, .error e)
    | .ok d =>
      let n := r.nextNumber
      { r with counter := n + 1 }.enter { d with name := autoName n }
  else match spec.check with
    | .error e => (r, .error e)
    | .ok d => if r.contains d.name then (r, .error (.duplicateName d.name)) else r.enter d

def freshNames : List String → List Value → Except Error (List String)
  | _, [] => .ok []
  | taken, .text s :: names =>
    if taken.contains s then .error (.duplicateName s)
    else do return s :: (← freshNames (s :: taken) names)
  | _, given :: _ => .error (.invalidVariable (.nameSort given))

/-- Variables that share bounds and kind, all of which are checked before the first one is
registered. -/
def declareMany (r : Registry) (names lower upper kind : Value) :
    Except Error (List Declaration) := do
  let some given := names.items? | throw .wrongSort
  let fresh ← freshNames r.names given
  fresh.mapM fun name => Spec.check { name := .text name, lower, upper, kind }

def addMany (r : Registry) (names lower upper kind : Value) :
    Registry × Except Error (List Variable) :=
  match r.declareMany names lower upper kind with
  | .error e => (r, .error e)
  | .ok ds => r.enterAll ds

def setKind (r : Registry) (name : String) (kind : Kind) : Registry :=
  { r with vars := r.vars.map fun v => if v.name == name then { v with kind } else v }

/-- Without variables; automatic names start again, marks do not. -/
def clear (r : Registry) : Registry :=
  { r with counter := 0, vars := [] }

def render (r : Registry) : String :=
  "VariableRegistry([" ++ ", ".intercalate (r.names.map Text.quoted) ++ "])"

end Registry

end LinOpt
