import LinOpt.Error
import LinOpt.Schema.Reading
import LinOpt.Value.Order

namespace LinOpt

structure Settings where
  timeLimit : Option Binary64 := none
  mipRelGap : Option Binary64 := none
  presolve : Bool := true
  disp : Bool := false
  primalTolerance : Option Binary64 := none
  dualTolerance : Option Binary64 := none
  deriving DecidableEq

namespace Settings

abbrev Options := List (Value × Value)

def readPair (item : Value) : Except Error (Value × Value) :=
  match item.items? with
  | none => .error .wrongSort
  | some [key, value] => if key.isKey then .ok (key, value) else .error .wrongSort
  | some _ => .error .wrongValue

/-- Options are a map or a list of pairs; anything that counts as nothing means there are none. -/
def readOptions (given : Value) : Except Error Options :=
  if !given.isTruthy then .ok []
  else match given with
    | .map entries => .ok entries
    | _ => match given.items? with
      | none => .error .wrongSort
      | some items => do
        let pairs ← items.mapM readPair
        return pairs.foldl (fun options (key, value) => Value.putEntry key value options) []

def first (options : Options) (names : List String) : Option (String × Value) :=
  names.findSome? fun name => (Schema.findField options name).map fun value => (name, value)

def timeLimitNames : List String := ["time_limit", "tmlim", "timeout"]

def gapNames : List String := ["mip_rel_gap", "mipgap", "tolerance"]

def presolveNames : List String := ["presolve", "presol"]

def dispNames : List String := ["disp", "msglev", "log_to_console"]

def primalNames : List String := ["primal_feasibility_tolerance"]

def dualNames : List String := ["dual_feasibility_tolerance"]

/-- A limit in seconds; under one of its names it is given in thousandths. -/
def readTimeLimit (options : Options) : Except Error Value :=
  match first options timeLimitNames with
  | none => .ok .null
  | some ("timeout", value) => do
    return .real ((← inRange (← value.asNumber).toBinary64?).div (Binary64.ofInt 1000))
  | some (_, value) => .ok value

def verboseLevel : Number := 2

def readDisp (options : Options) : Except Error Bool :=
  match first options dispNames with
  | none => .ok false
  | some ("msglev", value) => do return verboseLevel.le (← value.asNumber)
  | some (_, value) => .ok value.isTruthy

def readPresolve (options : Options) : Bool :=
  match first options presolveNames with
  | none => true
  | some (_, value) => value.isTruthy

open Schema Reading in
def readLimited (fault : Fault) (holds : Number → Bool) (value : Value) :
    Reading (Option Binary64) := do
  let some x ← readOptional readFloat value | return none
  if holds (.real x) then return some x else fail fault

def positive : Value → Schema.Reading (Option Binary64) :=
  readLimited .notAbove fun x => (0 : Number).lt x

def notNegative : Value → Schema.Reading (Option Binary64) :=
  readLimited .below fun x => (0 : Number).le x

def valueOf (options : Options) (names : List String) : Value :=
  ((first options names).map Prod.snd).getD .null

open Schema Reading in
def check (options : Options) (timeLimit : Value) (disp : Bool) : Reading Settings :=
  (both ((positive timeLimit).under (.field "time_limit"))
    (both ((notNegative (valueOf options gapNames)).under (.field "mip_rel_gap"))
      (both ((positive (valueOf options primalNames)).under (.field "primal_feasibility_tolerance"))
        ((positive (valueOf options dualNames)).under (.field "dual_feasibility_tolerance"))))).map
    fun (timeLimit, mipRelGap, primalTolerance, dualTolerance) =>
      { timeLimit, mipRelGap, presolve := readPresolve options, disp, primalTolerance,
        dualTolerance }

def usedNames (options : Options) : List String :=
  [timeLimitNames, gapNames, presolveNames, dispNames, primalNames, dualNames].filterMap
    fun names => (first options names).map Prod.fst

def otherKeys (options : Options) : List Value :=
  (options.map Prod.fst).filter fun
    | .text name => !(usedNames options).contains name
    | _ => true

/-- Tells of the options that are ignored, in order. Of a variable only its name is told. -/
def tellIgnored (names : List Value) : Except Error Unit :=
  match Value.sorted? names with
  | none => .error .wrongSort
  | some [] => .ok ()
  | some ordered => do
    let _ ← ((Value.list ordered).render fun _ v => .ok v.name).mapError Unshown.error

/-- Options under other names are ignored, but it has to be possible to tell of them. -/
def ofOptions (given : Value) : Except Error Settings := do
  let options ← readOptions given
  let timeLimit ← readTimeLimit options
  let disp ← readDisp options
  tellIgnored (otherKeys options)
  (check options timeLimit disp).mapError .invalidData

def numberField (name : String) (x : Option Binary64) : List (String × Value) :=
  x.toList.map fun x => (name, .real x)

def commonOptions (s : Settings) : List (String × Value) :=
  [("presolve", .bool s.presolve), ("disp", .bool s.disp)] ++ numberField "time_limit" s.timeLimit

def linearOptions (s : Settings) : Value :=
  .record (s.commonOptions ++ numberField "primal_feasibility_tolerance" s.primalTolerance
    ++ numberField "dual_feasibility_tolerance" s.dualTolerance)

def integerOptions (s : Settings) : Value :=
  .record (s.commonOptions ++ numberField "mip_rel_gap" s.mipRelGap)

def toValue (s : Settings) : Value :=
  .record [
    ("time_limit", .ofOption .real s.timeLimit),
    ("mip_rel_gap", .ofOption .real s.mipRelGap),
    ("presolve", .bool s.presolve),
    ("disp", .bool s.disp),
    ("primal_feasibility_tolerance", .ofOption .real s.primalTolerance),
    ("dual_feasibility_tolerance", .ofOption .real s.dualTolerance)]

end Settings

end LinOpt
