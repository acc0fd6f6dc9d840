import LinOpt.Number.Decimal

namespace LinOpt

inductive Number
  | int (n : Int)
  | real (x : Binary64)
  | ratio (q : Rat)
  deriving DecidableEq

instance : OfNat Number n := ⟨.int n⟩

instance : Inhabited Number := ⟨0⟩

def isWord (n : Int) : Bool :=
  -0x8000000000000000 ≤ n && n ≤ 0x7fffffffffffffff

namespace Number

def infinity : Number := .real (.infinite false)

def negativeInfinity : Number := .real (.infinite true)

def toBinary64? : Number → Option Binary64
  | .int n =>
    let x := Binary64.ofInt n
    if x.isInfinite then none else some x
  | .real x => some x
  | .ratio q =>
    let x := Binary64.ofRat q
    if x.isInfinite then none else some x

def combine (onInts : Int → Int → Int) (onReals : Binary64 → Binary64 → Binary64)
    (onRatios : Rat → Rat → Rat) : Number → Number → Option Number
  | .int m, .int n => some (.int (onInts m n))
  | .int m, .ratio q => some (.ratio (onRatios m q))
  | .ratio p, .int n => some (.ratio (onRatios p n))
  | .ratio p, .ratio q => some (.ratio (onRatios p q))
  | a, b => do return .real (onReals (← a.toBinary64?) (← b.toBinary64?))

def add : Number → Number → Option Number := combine (· + ·) Binary64.add (· + ·)

def mul : Number → Number → Option Number := combine (· * ·) Binary64.mul (· * ·)

def neg : Number → Number
  | .int n => .int (-n)
  | .real x => .real x.neg
  | .ratio q => .ratio (-q)

def sub (a b : Number) : Option Number := a.add b.neg

def abs : Number → Number
  | .int n => .int n.natAbs
  | .real x => .real x.abs
  | .ratio q => .ratio q.abs

def isNaN : Number → Bool
  | .int _ => false
  | .real x => x.isNaN
  | .ratio _ => false

def isInfinite : Number → Bool
  | .int _ => false
  | .real x => x.isInfinite
  | .ratio _ => false

/-- A place in the order: the side of an infinity, and inside the infinities a number of quanta.
NaN has none. -/
def rank? : Number → Option (Int × Rat)
  | .int n => some (0, ((n * Binary64.scale : Int) : Rat))
  | .real .nan => none
  | .real (.infinite negative) => some (Binary64.signed negative 1, 0)
  | .real (.finite negative quanta _ _) => some (0, Binary64.signed negative quanta)
  | .ratio q => some (0, q * Binary64.scale)

/-- The order of the exact values; no comparison with NaN holds. -/
def compares (holds : Ordering → Bool) (a b : Number) : Bool :=
  match a.rank?, b.rank? with
  | some (i, j), some (k, l) => holds ((compare i k).then (compareOfLessAndEq j l))
  | _, _ => false

def lt (a b : Number) : Bool := compares Ordering.isLT a b

def le (a b : Number) : Bool := compares Ordering.isLE a b

/-- Equal in value, whatever the kind: `3` and `3.0`, or the two zeros. -/
def same (a b : Number) : Bool := compares Ordering.isEq a b

def isZero (a : Number) : Bool := a.same 0

def greatestLength : Nat := 4300

/-- The digits of a whole number, unless there are too many. -/
def digits? (n : Int) : Option String :=
  if n.natAbs < tenPower greatestLength then some (toString n) else none

def text? : Number → Option String
  | .int n => digits? n
  | .real x => some x.text
  | .ratio q =>
    if q.den = 1 then digits? q.num
    else do return (← digits? q.num) ++ "/" ++ (← digits? q.den)

/-- The text by which a number is shown inside of another text, with its sort if it is a ratio. -/
def shown? : Number → Option String
  | .ratio q => do return "Fraction(" ++ (← digits? q.num) ++ ", " ++ (← digits? q.den) ++ ")"
  | n => n.text?

end Number

end LinOpt
