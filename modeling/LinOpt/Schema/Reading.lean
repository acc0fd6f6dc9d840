import LinOpt.Schema.Issue
import LinOpt.Schema.WholeNumber

namespace LinOpt.Schema

abbrev Reading (α : Type) := Except (List Issue) α

namespace Reading

def fail (fault : Fault) : Reading α :=
  .error [⟨[], fault⟩]

def under (step : Step) (reading : Reading α) : Reading α :=
  reading.mapError fun issues => issues.map (·.under step)

def both : Reading α → Reading β → Reading (α × β)
  | .ok a, .ok b => .ok (a, b)
  | .ok _, .error js => .error js
  | .error is, .ok _ => .error is
  | .error is, .error js => .error (is ++ js)

def all : List (Reading α) → Reading (List α)
  | [] => .ok []
  | reading :: readings => (both reading (all readings)).map fun (a, as) => a :: as

end Reading

open Reading

def readText : Value → Reading String
  | .text s => .ok s
  | _ => fail .textType

/-- A text that is a number with blanks around it, or one with underscores in it. -/
def floatOfText (s : List Char) : Option Binary64 :=
  Binary64.ofChars? (Text.strip Text.isBlank s)
    <|> (WholeNumber.dropUnderscores s >>= Binary64.ofChars?)

def readFloat : Value → Reading Binary64
  | .number n => match n.toBinary64? with
    | some x => .ok x
    | none => fail .floatType
  | .bool b => .ok (Binary64.ofInt (if b then 1 else 0))
  | .text s => match floatOfText s.toList with
    | some x => .ok x
    | none => fail .floatText
  | _ => fail .floatType

/-- The whole number that a double is, if it has 64 bits; one at their very end is no longer
counted. -/
def wordOf? (x : Binary64) : Option Int :=
  if !x.isIntegral then none
  else match x.round? with
    | some n => if isWord n && isWord (-n) then some n else none
    | none => none

def intOfDouble (x : Binary64) : Reading Int :=
  if !x.isFinite then fail .notFinite
  else if !x.isIntegral then fail .intFromFraction
  else match wordOf? x with
    | some n => .ok n
    | none => fail .intSize

def readInt : Value → Reading Int
  | .number (.int n) => .ok n
  | .number n => match n.toBinary64? with
    | some x => intOfDouble x
    | none => fail .intType
  | .bool b => .ok (if b then 1 else 0)
  | .text s => match WholeNumber.ofText s.toList with
    | .ok n => .ok n
    | .error .malformed => fail .intText
    | .error .tooLong => fail .intSize
  | _ => fail .intType

def trueWords : List String := ["1", "true", "t", "yes", "y", "on"]

def falseWords : List String := ["0", "false", "f", "no", "n", "off"]

def boolOfInt (n : Int) : Reading Bool :=
  if n = 1 then .ok true else if n = 0 then .ok false else fail .boolText

def readBool : Value → Reading Bool
  | .bool b => .ok b
  | .number (.int n) => if isWord n then boolOfInt n else fail .boolType
  | .number n => match n.toBinary64? >>= wordOf? with
    | some n => boolOfInt n
    | none => fail .boolType
  | .text s =>
    let word := s.map Char.toLower
    if trueWords.contains word then .ok true
    else if falseWords.contains word then .ok false
    else fail .boolText
  | _ => fail .boolType

def readOptional (read : Value → Reading α) : Value → Reading (Option α)
  | .null => .ok none
  | value => (read value).map some

def readList (read : Value → Reading α) : Value → Reading (List α)
  | .list items | .tuple items =>
    all (items.zipIdx.map fun (item, i) => (read item).under (.index i))
  | _ => fail .listType

/-- How a key is named where it is wrong. A whole number of more than 64 bits is named by its
digits. -/
def keyStep (key : Value) : Step :=
  match key with
  | .text s => .field s
  | _ => match key.toNumber? with
    | some (.int n) => if isWord n then .index n else .field (toString n)
    | _ => .key key

def readEntry (read : Value → Reading α) : Value × Value → Reading (String × α)
  | (key, value) =>
    (both ((readText key).under (.field "[key]")) (read value)).under (keyStep key)

def readEntries (read : Value → Reading α) : Value → Reading (List (String × α))
  | .map entries => all (entries.map (readEntry read))
  | _ => fail .mapType

def readRecord : Value → Reading (List (Value × Value))
  | .map entries => .ok entries
  | _ => fail .recordType

/-- The entries of a record that may have any other fields besides its own, if all have a name. -/
def checkKeys (entries : List (Value × Value)) : Reading Unit :=
  (all (entries.map fun (key, _) => match key with
    | .text _ => .ok ()
    | _ => (fail .keyType).under (keyStep key))).map fun _ => ()

def findField (entries : List (Value × Value)) (name : String) : Option Value :=
  (entries.find? fun (key, _) => match key with
    | .text s => s == name
    | _ => false).map Prod.snd

def required (entries : List (Value × Value)) (name : String) (read : Value → Reading α) :
    Reading α :=
  (match findField entries name with
    | some value => read value
    | none => fail .missing).under (.field name)

def defaulted (entries : List (Value × Value)) (name : String) (read : Value → Reading α)
    (absent : α) : Reading α :=
  match findField entries name with
  | some value => (read value).under (.field name)
  | none => .ok absent

end LinOpt.Schema
