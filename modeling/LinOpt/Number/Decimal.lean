import LinOpt.Number.Binary64

namespace LinOpt

def digitCount (n : Nat) : Nat :=
  (Nat.toDigits 10 n).length

/-- `digits` times ten to the power of `exponent`. -/
structure Decimal where
  digits : Nat
  exponent : Int
  deriving DecidableEq

namespace Binary64

/-- The double nearest to a decimal. One of more than 310 integral digits is past the largest double
and one below `10 ^ -330` is nearer to zero than to the least, so no large power is computed. -/
def ofDecimal (negative : Bool) (d : Decimal) : Binary64 :=
  let size := digitCount d.digits + d.exponent
  if d.digits = 0 then zero negative
  else if 310 < size then .infinite negative
  else if size < -330 then zero negative
  else if 0 ≤ d.exponent then ofQuotient negative (d.digits * tenPower d.exponent.toNat * scale) 1
  else ofQuotient negative (d.digits * scale) (tenPower (-d.exponent).toNat)

def leadingExponent (quanta : Nat) : Int :=
  digitCount (quanta * tenPower 400 / scale) - 401

/-- The neighbours of a fraction among the whole numbers, the nearer one first and of two equally
near ones the even one. -/
def neighbours (num den : Nat) : List Nat :=
  let below := num / den
  if roundHalfEven num den = below then [below, below + 1] else [below + 1, below]

def decimalNeighbours (quanta : Nat) (exponent : Int) : List Decimal :=
  let candidates :=
    if 0 ≤ exponent then neighbours quanta (scale * tenPower exponent.toNat)
    else neighbours (quanta * tenPower (-exponent).toNat) scale
  candidates.map (⟨·, exponent⟩)

def fivePower (n : Nat) : Nat := Nat.pow 5 n

def exactDecimal (quanta : Nat) : Decimal :=
  ⟨quanta * fivePower 1074, -1074⟩

/-- Of the decimals with the fewest digits, no more than 17, that read as this double the nearest.
-/
def shortest? (quanta : Nat) (short : ShortSignificand quanta) (bound : quanta < ceiling) :
    Option Decimal :=
  let leading := leadingExponent quanta
  (List.range 17).findSome? fun (further : Nat) =>
    (decimalNeighbours quanta (leading - further)).find? fun d =>
      decide (ofDecimal false d = .finite false quanta short bound)

def shortest (quanta : Nat) (short : ShortSignificand quanta) (bound : quanta < ceiling) :
    Decimal :=
  (shortest? quanta short bound).getD (exactDecimal quanta)

end Binary64

def Decimal.trim (d : Decimal) : Decimal :=
  go (digitCount d.digits) d
where
  go : Nat → Decimal → Decimal
    | 0, d => d
    | fuel + 1, d =>
      if d.digits % 10 = 0 then go fuel ⟨d.digits / 10, d.exponent + 1⟩ else d

def zeros (n : Int) : String :=
  "".pushn '0' n.toNat

/-- Plain from `10 ^ -4` up to `10 ^ 16` and with a power of ten elsewhere, always with a point or
an exponent; the exponent has a sign and two digits at least. -/
def Decimal.text (d : Decimal) : String :=
  let digits := Nat.toDigits 10 d.digits
  let point := d.exponent + digits.length
  if -4 < point && point ≤ 16 then
    if point ≤ 0 then "0." ++ zeros (-point) ++ String.ofList digits
    else if digits.length ≤ point then
      String.ofList digits ++ zeros (point - digits.length) ++ ".0"
    else
      String.ofList (digits.take point.toNat) ++ "." ++ String.ofList (digits.drop point.toNat)
  else
    let fraction := digits.drop 1
    let power := point - 1
    String.ofList (digits.take 1)
      ++ (if fraction.isEmpty then "" else "." ++ String.ofList fraction)
      ++ (if power < 0 then "e-" else "e+")
      ++ (if power.natAbs < 10 then "0" else "") ++ toString power.natAbs

def Binary64.text : Binary64 → String
  | .nan => "nan"
  | .infinite negative => if negative then "-inf" else "inf"
  | .finite negative quanta short bound =>
    let digits :=
      if quanta = 0 then "0.0" else (Binary64.shortest quanta short bound).trim.text
    if negative then "-" ++ digits else digits

namespace Binary64

theorem fivePower_pos (n : Nat) : 0 < fivePower n :=
  Nat.pow_pos (by decide)

theorem digitCount_le_iff {n : Nat} (k : Nat) (positive : 0 < k) :
    digitCount n ≤ k ↔ n < tenPower k :=
  Nat.length_toDigits_le_iff (by decide) positive

theorem digitCount_exactDecimal {quanta : Nat} (nonzero : quanta ≠ 0) (bound : quanta < ceiling) :
    743 < digitCount (exactDecimal quanta).digits ∧
      digitCount (exactDecimal quanta).digits ≤ 1383 := by
  constructor
  · apply Nat.lt_of_not_le
    rw [digitCount_le_iff _ (by decide)]
    have least : tenPower 743 ≤ 1 * fivePower 1074 := by decide +kernel
    have more := Nat.mul_le_mul_right (fivePower 1074) (Nat.one_le_iff_ne_zero.2 nonzero)
    exact Nat.not_lt.2 (Nat.le_trans least more)
  · rw [digitCount_le_iff _ (by decide)]
    have greatest : ceiling * fivePower 1074 ≤ tenPower 1383 := by decide +kernel
    exact Nat.lt_of_lt_of_le (Nat.mul_lt_mul_of_pos_right bound (fivePower_pos 1074)) greatest

theorem ofDecimal_exactDecimal (quanta : Nat) (short : ShortSignificand quanta)
    (bound : quanta < ceiling) :
    ofDecimal false (exactDecimal quanta) = .finite false quanta short bound := by
  by_cases nonzero : quanta = 0
  · subst nonzero
    simp [ofDecimal, exactDecimal, zero]
  obtain ⟨many, few⟩ := digitCount_exactDecimal nonzero bound
  have digits : (exactDecimal quanta).digits ≠ 0 :=
    Nat.mul_ne_zero nonzero (Nat.ne_of_gt (fivePower_pos 1074))
  have exponent : (exactDecimal quanta).exponent = -1074 := rfl
  have whole : (exactDecimal quanta).digits * scale =
      quanta * tenPower (-(exactDecimal quanta).exponent).toNat := by
    have powers : fivePower 1074 * scale = tenPower (-(-1074 : Int)).toNat := by decide +kernel
    rw [exponent, ← powers, ← Nat.mul_assoc]
    rfl
  unfold ofDecimal
  simp only [digits, if_false, whole,
    show ¬ 310 < digitCount (exactDecimal quanta).digits + (exactDecimal quanta).exponent by omega,
    show ¬ digitCount (exactDecimal quanta).digits + (exactDecimal quanta).exponent < -330 by omega,
    show ¬ 0 ≤ (exactDecimal quanta).exponent by omega]
  exact ofQuotient_quanta false quanta _ short bound (tenPower_pos _)

theorem ofDecimal_shortest (quanta : Nat) (short : ShortSignificand quanta)
    (bound : quanta < ceiling) :
    ofDecimal false (shortest quanta short bound) = .finite false quanta short bound := by
  unfold shortest
  cases found : shortest? quanta short bound with
  | none => exact ofDecimal_exactDecimal quanta short bound
  | some d =>
    obtain ⟨_, _, hit⟩ := List.exists_of_findSome?_eq_some found
    exact of_decide_eq_true (List.find?_some hit :)

end Binary64

end LinOpt
