import LinOpt.Number.Numeral
import LinOpt.Text.Blank

namespace LinOpt.Schema.WholeNumber

inductive Refusal
  | malformed
  | tooLong
  deriving DecidableEq

def greatestLength : Nat := 4300

def isLeading (c : Char) : Bool :=
  c.isDigit && c != '0'

/-- The number in plain form that a text is. One that is too long is refused for that, whatever
follows its digits. -/
def ofPlain? (s : List Char) : Except Refusal Int :=
  let (negative, unsigned) := match s with
    | '-' :: s => (true, s)
    | s => (false, s)
  match unsigned with
  | ['0'] => .ok 0
  | c :: rest =>
    let (digits, after) := Numeral.digits basicDigit? (c :: rest)
    if !isLeading c then .error .malformed
    else if greatestLength < digits.length then .error .tooLong
    else if after.isEmpty then .ok (Binary64.signed negative (Numeral.valueOf digits))
    else .error .malformed
  | [] => .error .malformed

/-- What is left after zeros and underscores in front: the number from its first other digit or its
sign on, or from the last of them, if only a fraction or nothing follows. -/
def afterZeros (last : Char) : List Char → Option (List Char)
  | [] => some [last]
  | c :: s =>
    if c = '0' || c = '_' then afterZeros c s
    else if isLeading c || c = '-' then some (c :: s)
    else if c = '.' then some (last :: c :: s)
    else none

def dropZeros : List Char → Option (List Char)
  | [] => none
  | c :: s =>
    if c = '0' then afterZeros c s else if isLeading c || c = '-' then some (c :: s) else none

def dropZeroFraction (s : List Char) : List Char :=
  match s.span (· != '.') with
  | (whole, '.' :: part) => if !part.isEmpty && part.all (· == '0') then whole else s
  | _ => s

/-- Single underscores inside a numeral do not count; elsewhere they make it none. -/
def dropUnderscores (s : List Char) : Option (List Char) :=
  let misplaced := s.head? == some '_' || s.getLast? == some '_' ||
    (s.zip s.tail).contains ('_', '_')
  if misplaced then none else some (s.filter (· != '_'))

def unsignedPlain? (s : List Char) : Option (List Char) := do
  let s := dropZeroFraction (← dropZeros s)
  return (dropUnderscores s).getD s

/-- A text in plain form, as far as it has one. A plus sign may not be in front of a minus sign. -/
def toPlain? (s : List Char) : Option (List Char) :=
  match Text.strip Text.isBlank s with
  | '-' :: s => unsignedPlain? s |>.map ('-' :: ·)
  | '+' :: '-' :: _ => none
  | '+' :: s | s => unsignedPlain? s

def ofText (s : List Char) : Except Refusal Int :=
  match ofPlain? s with
  | .error .malformed => match toPlain? s with
    | some plain => (ofPlain? plain).mapError fun _ => .malformed
    | none => .error .malformed
  | reading => reading

end LinOpt.Schema.WholeNumber
