import LinOpt.Number.Rounding

namespace LinOpt

namespace Binary64

/-- One is this many quanta. -/
def scale : Nat := twoPower 1074

/-- No finite double has this many quanta. -/
def ceiling : Nat := twoPower 2098

theorem scale_pos : 0 < scale :=
  twoPower_pos 1074

theorem ceiling_pos : 0 < ceiling :=
  twoPower_pos 2098

end Binary64

inductive Binary64
  | nan
  | infinite (negative : Bool)
  | finite (negative : Bool) (quanta : Nat) (short : ShortSignificand quanta)
      (bound : quanta < Binary64.ceiling)
  deriving DecidableEq

namespace Binary64

/-- The double nearest to a number of quanta given as a fraction; what is too large is infinite. -/
def ofQuotient (negative : Bool) (num den : Nat) : Binary64 :=
  let quanta := roundSignificand num den
  if bound : quanta < ceiling then .finite negative quanta (roundSignificand_short num den) bound
  else .infinite negative

def zero (negative : Bool) : Binary64 :=
  .finite negative 0 (by simp [ShortSignificand]) ceiling_pos

theorem ofQuotient_quanta (negative : Bool) (quanta den : Nat) (short : ShortSignificand quanta)
    (bound : quanta < ceiling) (positive : 0 < den) :
    ofQuotient negative (quanta * den) den = .finite negative quanta short bound := by
  simp only [ofQuotient, roundSignificand_mul short positive, bound, dite_true]

theorem ofQuotient_one (negative : Bool) (quanta : Nat) (short : ShortSignificand quanta)
    (bound : quanta < ceiling) :
    ofQuotient negative quanta 1 = .finite negative quanta short bound := by
  simpa using ofQuotient_quanta negative quanta 1 short bound Nat.one_pos

def isNaN : Binary64 → Bool
  | .nan => true
  | _ => false

def isInfinite : Binary64 → Bool
  | .infinite _ => true
  | _ => false

def isFinite : Binary64 → Bool
  | .finite .. => true
  | _ => false

def signed (negative : Bool) (n : Nat) : Int :=
  if negative then -(n : Int) else n

/-- A whole number of quanta, rounded; the flag is the sign of a zero. -/
def ofQuanta (quanta : Int) (negativeZero : Bool) : Binary64 :=
  ofQuotient (if quanta = 0 then negativeZero else decide (quanta < 0)) quanta.natAbs 1

def ofInt (n : Int) : Binary64 :=
  ofQuanta (n * scale) false

def ofRat (q : Rat) : Binary64 :=
  ofQuotient (decide (q.num < 0)) (q.num.natAbs * scale) q.den

def neg : Binary64 → Binary64
  | .nan => .nan
  | .infinite negative => .infinite !negative
  | .finite negative quanta short bound => .finite (!negative) quanta short bound

def abs : Binary64 → Binary64
  | .nan => .nan
  | .infinite _ => .infinite false
  | .finite _ quanta short bound => .finite false quanta short bound

def add : Binary64 → Binary64 → Binary64
  | .nan, _ | _, .nan => .nan
  | .infinite s, .infinite t => if s = t then .infinite s else .nan
  | .infinite s, .finite .. => .infinite s
  | .finite .., .infinite t => .infinite t
  | .finite s a .., .finite t b .. => ofQuanta (signed s a + signed t b) (s && t)

def mul : Binary64 → Binary64 → Binary64
  | .nan, _ | _, .nan => .nan
  | .infinite s, .infinite t => .infinite (s != t)
  | .infinite s, .finite t b .. => if b = 0 then .nan else .infinite (s != t)
  | .finite s a .., .infinite t => if a = 0 then .nan else .infinite (s != t)
  | .finite s a .., .finite t b .. => ofQuotient (s != t) (a * b) scale

def div : Binary64 → Binary64 → Binary64
  | .nan, _ | _, .nan => .nan
  | .infinite _, .infinite _ => .nan
  | .infinite s, .finite t .. => .infinite (s != t)
  | .finite s .., .infinite t => zero (s != t)
  | .finite s a .., .finite t b .. =>
    if b = 0 then if a = 0 then .nan else .infinite (s != t)
    else ofQuotient (s != t) (a * scale) b

def isIntegral : Binary64 → Bool
  | .finite _ quanta .. => quanta % scale == 0
  | _ => false

/-- The whole number nearest to a finite double, a half going to the even one. -/
def round? : Binary64 → Option Int
  | .finite negative quanta .. => some (signed negative (roundHalfEven quanta scale))
  | _ => none

theorem signed_natAbs (negative : Bool) (n : Nat) : (signed negative n).natAbs = n := by
  cases negative <;> simp [signed]

theorem ofQuanta_signed (negative : Bool) (quanta : Nat) (short : ShortSignificand quanta)
    (bound : quanta < ceiling) :
    ofQuanta (signed negative quanta) negative = .finite negative quanta short bound := by
  rw [ofQuanta, signed_natAbs, ofQuotient_one _ _ short bound]
  congr 1
  split
  · rfl
  · rename_i nonzero
    cases negative with
    | false => simp [signed]
    | true =>
      simp only [signed, if_true] at nonzero ⊢
      exact decide_eq_true (by omega)

end Binary64

end LinOpt
