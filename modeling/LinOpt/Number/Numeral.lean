import LinOpt.Number.Decimal
import LinOpt.Text.Digit

namespace LinOpt

def basicDigit? (c : Char) : Option Nat :=
  if c.isDigit then some (c.toNat - '0'.toNat) else none

namespace Numeral

def digits (digit? : Char → Option Nat) : List Char → List Nat × List Char
  | [] => ([], [])
  | c :: s => match digit? c with
    | some d => let (ds, rest) := digits digit? s; (d :: ds, rest)
    | none => ([], c :: s)

def valueOf (ds : List Nat) : Nat :=
  ds.foldl (fun n d => 10 * n + d) 0

def fraction (digit? : Char → Option Nat) : List Char → List Nat × List Char
  | '.' :: s => digits digit? s
  | s => ([], s)

def sign : List Char → Bool × List Char
  | '+' :: s => (false, s)
  | '-' :: s => (true, s)
  | s => (false, s)

def power (digit? : Char → Option Nat) : List Char → Int × List Char
  | [] => (0, [])
  | e :: s =>
    let (negative, s') := sign s
    match digits digit? s' with
    | ([], _) => (0, e :: s)
    | (d :: ds, rest) =>
      if e = 'e' || e = 'E' then (Binary64.signed negative (valueOf (d :: ds)), rest)
      else (0, e :: s)

/-- The longest unsigned numeral that a text begins with, and the rest. -/
def scan (digit? : Char → Option Nat) (s : List Char) : Option (Decimal × List Char) :=
  let (whole, afterWhole) := digits digit? s
  let (part, afterPart) := fraction digit? afterWhole
  if whole.isEmpty && part.isEmpty then none
  else
    let (exponent, rest) := power digit? afterPart
    some (⟨valueOf (whole ++ part), exponent - part.length⟩, rest)

end Numeral

namespace Binary64

/-- A double from a text that is a number, or a word for infinity or NaN, and nothing else. -/
def ofChars? (s : List Char) : Option Binary64 :=
  let (negative, s) := Numeral.sign s
  let word := String.ofList (s.map Char.toLower)
  if word == "inf" || word == "infinity" then some (.infinite negative)
  else if word == "nan" then some .nan
  else match Numeral.scan basicDigit? s with
    | some (d, []) => some (ofDecimal negative d)
    | _ => none

end Binary64

end LinOpt
