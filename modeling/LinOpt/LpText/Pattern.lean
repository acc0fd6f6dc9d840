
namespace LinOpt.LpText

/-- A pattern whose match gives a value of type `α`. -/
inductive Pattern : Type → Type 1
  | token {α : Type} (scan : List Char → Option (α × List Char)) : Pattern α
  | map {α β : Type} (f : α → β) (p : Pattern α) : Pattern β
  | pair {α β : Type} (p : Pattern α) (q : Pattern β) : Pattern (α × β)
  | either {α : Type} (p q : Pattern α) : Pattern α
  | maybe {α : Type} (p : Pattern α) : Pattern (Option α)
  | many {α : Type} (p : Pattern α) : Pattern (List α)
  /-- Takes nothing, and fits where `p` does not. -/
  | unless {α : Type} (p : Pattern α) : Pattern Unit
  /-- A pattern whose failures show where a text is wrong. -/
  | rule {α : Type} (p : Pattern α) : Pattern α

/-- The failure that shows where a text is wrong: how much text was left, and whether it was a rule
that failed. -/
structure Failure where
  left : Nat
  ofRule : Bool
  deriving DecidableEq

/-- The first failure counts whatever has failed, and after it a rule that failed no earlier in the
text. -/
def Failure.note (left : Nat) (ofRule : Bool) : Option Failure → Option Failure
  | none => some ⟨left, ofRule⟩
  | some f => if ofRule && left ≤ f.left then some ⟨left, true⟩ else some f

namespace Pattern

def before (p : Pattern α) (q : Pattern β) : Pattern α :=
  map Prod.fst (pair p q)

def after (p : Pattern α) (q : Pattern β) : Pattern β :=
  map Prod.snd (pair p q)

def replaced (b : β) (p : Pattern α) : Pattern β :=
  map (fun _ => b) p

/-- Repeats a reader until it fails or no text is left, and not more often than `limit` has
characters. -/
def repeated (read : List Char → Option (α × List Char)) :
    (limit : List Char) → List Char → List α × List Char
  | [], s => ([], s)
  | _ :: limit, s =>
    if s.isEmpty then ([], s)
    else match read s with
      | none => ([], s)
      | some (a, rest) =>
        let (more, rest) := repeated read limit rest
        (a :: more, rest)

def run : Pattern α → List Char → Option (α × List Char)
  | token scan, s => scan s
  | map f p, s => (run p s).map fun (a, rest) => (f a, rest)
  | pair p q, s => do
    let (a, rest) ← run p s
    let (b, rest) ← run q rest
    return ((a, b), rest)
  | either p q, s => match run p s with
    | some found => some found
    | none => run q s
  | maybe p, s =>
    if s.isEmpty then some (none, s)
    else match run p s with
      | some (a, rest) => some (some a, rest)
      | none => some (none, s)
  -- Each round takes something, so that the text bounds their number.
  | many p, s => some (repeated (run p) s s)
  | .unless p, s => if (run p s).isSome then none else some ((), s)
  | rule p, s => run p s

/-- What is left of a text and its length, where a pattern fits, and the failures up to there. -/
structure Trace where
  rest : Option (List Char × Nat)
  failure : Option Failure

namespace Trace

def fits (rest : List Char) (left : Nat) (failure : Option Failure) : Trace :=
  ⟨some (rest, left), failure⟩

def fails (left : Nat) (ofRule : Bool) (failure : Option Failure) : Trace :=
  ⟨none, Failure.note left ofRule failure⟩

end Trace

def repeatedTrace (trace : List Char → Nat → Option Failure → Trace) :
    (limit : List Char) → List Char → Nat → Option Failure → Trace
  | [], s, left, f => .fits s left f
  | _ :: limit, s, left, f =>
    if s.isEmpty then .fits s left f
    else match trace s left f with
      | ⟨none, f⟩ => .fits s left f
      | ⟨some (rest, left), f⟩ => repeatedTrace trace limit rest left f

/-- Goes through a text of length `left` as `run` does, and notes the failures of a pattern and its
parts, also of those that are not needed for a match. -/
def trace : Pattern α → List Char → (left : Nat) → Option Failure → Trace
  | token scan, s, left, f => match scan s with
    | some (_, rest) => .fits rest rest.length f
    | none => .fails left false f
  | map _ p, s, left, f => trace p s left f
  | pair p q, s, left, f => match trace p s left f with
    | ⟨none, f⟩ => ⟨none, f⟩
    | ⟨some (rest, left), f⟩ => trace q rest left f
  | either p q, s, left, f => match trace p s left f with
    | ⟨none, f⟩ => trace q s left f
    | found => found
  | maybe p, s, left, f =>
    if s.isEmpty then .fits s left f
    else match trace p s left f with
      | ⟨none, f⟩ => .fits s left f
      | found => found
  | many p, s, left, f => repeatedTrace (trace p) s s left f
  | .unless p, s, left, f => match trace p s left f with
    | ⟨none, f⟩ => .fits s left f
    | ⟨some _, f⟩ => .fails left false f
  | rule p, s, left, f => match trace p s left f with
    | ⟨none, f⟩ => .fails left true f
    | found => found

def failurePosition (p : Pattern α) (s : List Char) : Nat :=
  s.length - ((trace p s s.length none).failure.elim s.length Failure.left)

end Pattern

end LinOpt.LpText
