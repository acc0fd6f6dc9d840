import LinOpt.LpText.Mismatch
import LinOpt.Schema.Issue
import LinOpt.Value.Render

namespace LinOpt

inductive SpecFault
  | kind (given : Value)
  | lowerBound (given : Value)
  | upperBound (given : Value)
  | name (given : Value)
  | nameSort (given : Value)
  | unwritableName (name : String)

inductive TermFault
  | notItems (given : Value)
  | shape (item : Value)
  | coefficient (item : Value)
  | notVariable (item part : Value)
  | foreign (item : Value) (name : String)

inductive Error
  | invalidVariable (fault : SpecFault)
  | duplicateName (name : String)
  | invalidTerm (fault : TermFault)
  | invalidComparison (given : Value)
  | invalidSense (given : Value)
  | quadraticUnsupported (backend : String)
  | unknownEngine (kind : Value) (known : List String)
  | malformedText (mismatch : LpText.Mismatch)
  | invalidData (issues : List Schema.Issue)
  | engineFailed (reason : String)
  /-- A numeral has digits whose values are not known. -/
  | unreadableNumeral
  /-- A whole number is too large for a double or a count, or an infinity has no whole number. -/
  | overflow
  /-- A collection would be too long. -/
  | outOfMemory
  | wrongSort
  /-- A collection without keys was given for a map. -/
  | noEntries
  | wrongValue
  | missingEntry
  /-- A list has no item at a place. -/
  | missingItem
  /-- A value is nested too deep to be shown, as variables are that are each other's values. -/
  | endless

def SpecFault.message (shown : Showing) : SpecFault → Except Unshown String
  | .kind given => do
    return "Invalid variable type: " ++ (← given.render shown) ++ ". Must be one of "
      ++ ", ".intercalate (Kind.all.map Kind.text) ++ "."
  | .lowerBound given => do
    return "Invalid lower bound: " ++ (← given.render shown)
      ++ ". Must be a number or \"-infinity\"."
  | .upperBound given => do
    return "Invalid upper bound: " ++ (← given.render shown)
      ++ ". Must be a number or \"+infinity\"."
  | .name given => do
    return "Variable name must be a non-empty string, got " ++ (← given.render shown) ++ "."
  | .nameSort given => do
    return "Variable name must be a string, got '" ++ given.sort ++ "' for '"
      ++ (← given.display shown) ++ "'."
  | .unwritableName refused =>
    .ok ("Variable name '" ++ refused ++ "' cannot be written as LP text")

def TermFault.message (shown : Showing) : TermFault → Except Unshown String
  | .notItems given => do
    return "Expression must be a sequence of terms, got " ++ (← given.render shown) ++ "."
  | .shape item => do
    return "Invalid expression item: " ++ (← item.render shown)
      ++ ". Must be a number, a variable, [coefficient, variable] or "
      ++ "[coefficient, variable1, variable2]."
  | .coefficient item => do
    return "Invalid term: " ++ (← item.render shown) ++ ". Coefficient must be a number."
  | .notVariable item part => do
    return "Invalid term: " ++ (← item.render shown) ++ ". " ++ (← part.render shown)
      ++ " is not a variable."
  | .foreign item name => do
    return "Invalid term: " ++ (← item.render shown) ++ ". Variable '" ++ name
      ++ "' does not belong to this model."

/-- What is to be said about an error; `shown` gives the text of a variable. -/
def Error.message (shown : Showing) : Error → Except Unshown String
  | .invalidVariable fault => fault.message shown
  | .duplicateName name => .ok ("Variable name '" ++ name ++ "' has already been used.")
  | .invalidTerm fault => fault.message shown
  | .invalidComparison given => do
    return "Invalid comparison operator: " ++ (← given.render shown)
      ++ ". Must be one of '<=', '=', '>=' or '=='."
  | .invalidSense given => do
    return "Invalid sense: " ++ (← given.render shown)
      ++ ". Must be one of \"MAXIMIZE\" or \"MINIMIZE\"."
  | .quadraticUnsupported backend => .ok (backend ++ " does not support quadratic models.")
  | .unknownEngine kind known => do
    let kinds ← (Value.list (known.map Value.text)).render shown
    return "Unknown engine kind: " ++ (← kind.render shown) ++ "."
      ++ (if known.isEmpty then "" else " Must be one of " ++ kinds ++ ".")
  | .malformedText mismatch =>
    .ok ("Invalid LP format at line " ++ toString mismatch.line ++ ", column "
      ++ toString mismatch.column ++ ": unexpected " ++ Text.quoted mismatch.found)
  | .engineFailed reason => .ok reason
  | .invalidData _ => .ok "The data does not follow its schema."
  | .unreadableNumeral => .ok "A digit has no known value."
  | .overflow => .ok "A number is out of range."
  | .outOfMemory => .ok "A collection is too long."
  | .wrongSort => .ok "A value is of the wrong sort."
  | .noEntries => .ok "A value has no entries."
  | .wrongValue => .ok "A value is not allowed."
  | .missingEntry => .ok "There is no such entry."
  | .missingItem => .ok "A list is too short."
  | .endless => .ok "A value is nested too deep."

/-- The error that is raised in the place of a text. -/
def Unshown.error : Unshown → Error
  | .tooManyDigits => .wrongValue
  | .tooDeep => .endless

/-- The error with which an operation ends that meets this one and has to say what is wrong. -/
def Error.shownBy (shown : Showing) (e : Error) : Error :=
  match e.message shown with
  | .ok _ => e
  | .error why => why.error

/-- The result of an operation that only fails when a number is out of range. -/
def inRange : Option α → Except Error α
  | some a => .ok a
  | none => .error .overflow

def Value.asNumber (value : Value) : Except Error Number :=
  match value.toNumber? with
  | some n => .ok n
  | none => .error .wrongSort

end LinOpt
