import LinOpt.LpText.Grammar
import LinOpt.LpText.Writer
import LinOpt.Proofs.Number.Doubling
import LinOpt.Proofs.Number.Numeral

namespace LinOpt

theorem toList_toString_int (k : Int) :
    (toString k).toList = (if k < 0 then ['-'] else []) ++ Nat.toDigits 10 k.natAbs := by
  cases k with
  | ofNat n =>
    have notNegative : ¬Int.ofNat n < 0 := Int.not_lt.2 (Int.natCast_nonneg n)
    change (toString n).toList = _
    rw [toList_toString, if_neg notNegative]
    rfl
  | negSucc n =>
    change ("-" ++ toString (n + 1)).toList = _
    rw [String.toList_append, toList_toString, if_pos (Int.negSucc_lt_zero n)]
    rfl

namespace Text

theorem placeAmong_none {zeros : List Nat} {c : Char} (basic : c.toNat < 128)
    (beyond : ∀ first ∈ zeros, 128 ≤ first) : placeAmong zeros c = none := by
  have notFound : zeros.find? (fun first => first ≤ c.toNat && c.toNat < first + 10) = none := by
    rw [List.find?_eq_none]
    intro first member found
    have least := beyond first member
    simp only [Bool.and_eq_true, decide_eq_true_eq] at found
    omega
  rw [placeAmong, notFound]
  rfl

theorem digitValue?_eq (c : Char) :
    digitValue? c = if 48 ≤ c.toNat && c.toNat < 58 then some (c.toNat - 48)
      else placeAmong digitZeros.tail c := by
  have split : digitZeros = 48 :: digitZeros.tail := rfl
  rw [digitValue?, split, placeAmong, List.find?_cons, List.tail_cons]
  cases 48 ≤ c.toNat && c.toNat < 58 <;> rfl

theorem isNewDigit_of_basic {c : Char} (basic : c.toNat < 128) : isNewDigit c = false := by
  have none : placeAmong newDigitZeros c = none := placeAmong_none basic (by decide)
  rw [isNewDigit, none]
  rfl

end Text

namespace LpText

open Numeral (Written)

theorem isDigit_eq (c : Char) : c.isDigit = (48 ≤ c.toNat && c.toNat < 58) := by
  rw [Bool.eq_iff_iff]
  simp [Char.isDigit, UInt32.le_iff_toNat_le]
  omega

theorem basic_digit : Numeral.Basic Grammar.digit? where
  digit := by
    intro c isDigit
    rw [isDigit_eq] at isDigit
    rw [Grammar.digit?, Text.digitValue?_eq, if_pos isDigit]
    rfl
  other := by
    intro c basic notDigit
    rw [isDigit_eq] at notDigit
    have beyond : Text.placeAmong Text.digitZeros.tail c = none := Text.placeAmong_none basic (by decide)
    rw [Grammar.digit?, Text.digitValue?_eq, if_neg (by simp [notDigit]), beyond,
      Text.isNewDigit_of_basic basic]
    rfl

structure Figure where
  negative : Bool
  written : Written

namespace Figure

def text (f : Figure) : List Char :=
  (if f.negative then ['-'] else []) ++ f.written.text

def magnitude (f : Figure) : Binary64 :=
  .ofDecimal false f.written.decimal

def value (f : Figure) : Binary64 :=
  if f.negative then f.magnitude.neg else f.magnitude

def ofInt (k : Int) : Figure :=
  ⟨decide (k < 0), ⟨Nat.toDigits 10 k.natAbs, none, none⟩⟩

def ofFinite (negative : Bool) (quanta : Nat) (short : ShortSignificand quanta)
    (bound : quanta < Binary64.ceiling) : Figure :=
  if quanta % Binary64.scale = 0 then
    ofInt (Binary64.signed negative (quanta / Binary64.scale))
  else ⟨negative, (Binary64.shortest quanta short bound).trim.written⟩

def ofDouble : Binary64 → Figure
  | .finite negative quanta short bound => ofFinite negative quanta short bound
  | _ => ofInt 0

/-- A ratio whose double is whole is cut, and any other one is written as its double. -/
def ofNumber : Number → Figure
  | .int k => ofInt k
  | .real x => ofDouble x
  | .ratio q =>
    let x := (Number.ratio q).double
    if x.isIntegral then ofInt (q.num.tdiv q.den) else ofDouble x

theorem ofNumber_int (k : Int) : ofNumber (.int k) = ofInt k :=
  rfl

theorem text_ofInt (k : Int) : (ofInt k).text = (toString k).toList := by
  rw [toList_toString_int]
  simp [text, ofInt, Written.text, Written.partText, Written.powerText]

theorem ofInt_sound (k : Int) : (ofInt k).written.Sound where
  whole := fun _ member => Decimal.digits_of_mem member
  nonempty := Nat.toDigits_ne_nil
  part := List.forall_mem_nil _
  power := fun _ _ none => by cases none

theorem ofFinite_sound (negative : Bool) (quanta : Nat) (short : ShortSignificand quanta)
    (bound : quanta < Binary64.ceiling) : (ofFinite negative quanta short bound).written.Sound := by
  unfold ofFinite
  split
  · exact ofInt_sound _
  · exact Decimal.written_sound _

theorem ofDouble_sound (x : Binary64) : (ofDouble x).written.Sound := by
  cases x with
  | nan => exact ofInt_sound 0
  | infinite negative => exact ofInt_sound 0
  | finite negative quanta short bound => exact ofFinite_sound negative quanta short bound

theorem ofNumber_sound (n : Number) : (ofNumber n).written.Sound := by
  cases n with
  | int k => exact ofInt_sound k
  | real x => exact ofDouble_sound x
  | ratio q =>
    rw [ofNumber]
    split
    · exact ofInt_sound _
    · exact ofDouble_sound _

theorem ofDecimal_natural {n : Nat} (bound : n * Binary64.scale < Binary64.ceiling) :
    Binary64.ofDecimal false ⟨n, 0⟩ = .ofQuotient false (n * Binary64.scale) 1 := by
  by_cases nothing : n = 0
  · subst nothing
    have none := Binary64.ofQuotient_one false 0 (by simp [ShortSignificand]) Binary64.ceiling_pos
    rw [Nat.zero_mul, none]
    simp [Binary64.ofDecimal, Binary64.zero]
  · have few : digitCount n ≤ 310 := by
      have huge : Binary64.ceiling ≤ tenPower 310 * Binary64.scale := by decide +kernel
      rw [Binary64.digitCount_le_iff _ (by decide)]
      refine Nat.lt_of_not_le fun large => ?_
      have more := Nat.mul_le_mul_right Binary64.scale large
      exact Nat.lt_irrefl _ (Nat.lt_of_lt_of_le bound (Nat.le_trans huge more))
    have notLarge : ¬(310 : Int) < digitCount n + 0 := by omega
    have notSmall : ¬(digitCount n + 0 : Int) < -330 := by omega
    have product : n * tenPower (0 : Int).toNat * Binary64.scale = n * Binary64.scale :=
      congrArg (· * Binary64.scale) (Nat.mul_one n)
    simp only [Binary64.ofDecimal, nothing, notLarge, notSmall, Int.le_refl, if_true, if_false,
      product]

theorem ofDecimal_quanta {n q : Nat} (short : ShortSignificand q) (bound : q < Binary64.ceiling)
    (quanta : n * Binary64.scale = q) :
    Binary64.ofDecimal false ⟨n, 0⟩ = .finite false q short bound := by
  subst quanta
  rw [ofDecimal_natural bound]
  exact Binary64.ofQuotient_one false _ short bound

theorem negative_iff {k : Int} {s : Bool} {q : Nat}
    (quanta : k * Binary64.scale = Binary64.signed s q) :
    decide (k < 0) = (s && q != 0) := by
  have positive : (0 : Int) < Binary64.scale := Int.natCast_pos.2 Binary64.scale_pos
  rw [Bool.eq_iff_iff, decide_eq_true_iff, ← Binary64.mul_neg_iff_of_pos positive, quanta,
    Binary64.signed_neg_iff]

theorem value_ofInt {k : Int} {s : Bool} {q : Nat} (short : ShortSignificand q)
    (bound : q < Binary64.ceiling) (quanta : k * Binary64.scale = Binary64.signed s q) :
    (ofInt k).value = (Binary64.finite s q short bound).settled := by
  have magnitude : (ofInt k).magnitude = .finite false q short bound := by
    have absolute : k.natAbs * Binary64.scale = q := by
      have sizes := congrArg Int.natAbs quanta
      rwa [Int.natAbs_mul, Int.natAbs_natCast, Binary64.signed_natAbs] at sizes
    have value : (ofInt k).written.decimal = ⟨k.natAbs, 0⟩ := by
      simp [ofInt, Written.decimal]
    rw [Figure.magnitude, value]
    exact ofDecimal_quanta short bound absolute
  have sign : (ofInt k).negative = (s && q != 0) := negative_iff quanta
  rw [Figure.value, magnitude, sign, Binary64.settled]
  cases s && q != 0 <;> rfl

theorem value_ofFinite (negative : Bool) (quanta : Nat) (short : ShortSignificand quanta)
    (bound : quanta < Binary64.ceiling) :
    (ofFinite negative quanta short bound).value =
      (Binary64.finite negative quanta short bound).settled := by
  unfold ofFinite
  split
  next whole =>
    refine value_ofInt short bound ?_
    have quotient := Nat.div_mul_cancel (Nat.dvd_of_mod_eq_zero whole)
    rw [← Binary64.signed_mul, quotient]
  next fraction =>
    have nonzero : (quanta != 0) = true := by
      refine bne_iff_ne.2 fun nothing => fraction ?_
      rw [nothing, Nat.zero_mod]
    have magnitude := Binary64.ofDecimal_trim_shortest quanta short bound
    rw [← Decimal.ofDecimal_written] at magnitude
    rw [Figure.value, Figure.magnitude, magnitude, Binary64.settled, nonzero, Bool.and_true]
    cases negative <;> rfl

theorem value_ofInt_of_finite {k : Int} (finite : (Number.int k).IsFinite) :
    (ofInt k).value = (Number.int k).double.settled := by
  have isFinite : (Number.int k).double.isFinite = true := finite
  have double := Number.double_int finite
  rw [Binary64.ofInt_eq] at double
  have bound := Binary64.lt_ceiling_of_isFinite (double ▸ isFinite)
  have value : (ofInt k).written.decimal = ⟨k.natAbs, 0⟩ := by
    simp [ofInt, Written.decimal]
  rw [Figure.value, Figure.magnitude, value, ofDecimal_natural bound, double]
  by_cases zero : k = 0
  · subst zero
    have none (s : Bool) := Binary64.ofQuotient_one s 0 (by simp [ShortSignificand])
      Binary64.ceiling_pos
    rw [Int.natAbs_zero, Nat.zero_mul, none, none]
    rfl
  · have nonzero := Nat.mul_ne_zero (Int.natAbs_ne_zero.2 zero) (Nat.ne_of_gt Binary64.scale_pos)
    rw [Binary64.settled_ofQuotient nonzero, Binary64.neg_ofQuotient, ofInt]
    cases decide (k < 0)
    · exact if_neg Bool.false_ne_true
    · exact if_pos rfl

theorem ofFinite_eq_ofInt {k : Int} {s : Bool} {q : Nat} (short : ShortSignificand q)
    (bound : q < Binary64.ceiling) (quanta : k * Binary64.scale = Binary64.signed s q) :
    ofFinite s q short bound = ofInt k := by
  have sizes : q = k.natAbs * Binary64.scale := by
    have absolute := congrArg Int.natAbs quanta
    rw [Int.natAbs_mul, Int.natAbs_natCast, Binary64.signed_natAbs] at absolute
    exact absolute.symm
  have whole : q % Binary64.scale = 0 := by
    rw [sizes]
    exact Nat.mul_mod_left _ _
  have nonzero : (Binary64.scale : Int) ≠ 0 :=
    Int.natCast_ne_zero.2 (Nat.ne_of_gt Binary64.scale_pos)
  have quotient : Binary64.signed s (q / Binary64.scale) = k := by
    apply Int.eq_of_mul_eq_mul_right nonzero
    rw [← Binary64.signed_mul, Nat.div_mul_cancel (Nat.dvd_of_mod_eq_zero whole), quanta]
  rw [ofFinite, if_pos whole, quotient]

theorem ofDouble_congr {x y : Binary64} (isFinite : x.isFinite = true)
    (same : (Number.real y).same (.real x) = true) : ofDouble y = ofDouble x := by
  obtain ⟨place, first, second⟩ := Number.same_iff.1 same
  cases x with
  | nan => cases isFinite
  | infinite s => cases isFinite
  | finite s q short bound =>
    rw [Number.rank?_finite] at second
    rw [← second] at first
    obtain ⟨t, _, _, rfl, signs⟩ := Binary64.exists_of_rank first
    show ofFinite t q short bound = ofFinite s q short bound
    by_cases nothing : q = 0
    · subst nothing
      have zero (s : Bool) : (0 : Int) * Binary64.scale = Binary64.signed s 0 := by
        rw [Int.zero_mul]
        cases s <;> rfl
      rw [ofFinite_eq_ofInt short bound (zero t), ofFinite_eq_ofInt short bound (zero s)]
    · rw [Binary64.eq_of_signed_eq nothing signs]

/-- An exact ratio that is cut is a whole number. -/
theorem ofInt_tdiv {q : ℚ} {s : Bool} {n : Nat} (short : ShortSignificand n)
    (bound : n < Binary64.ceiling) (value : q * Binary64.scale = Binary64.signed s n)
    (whole : (Binary64.finite s n short bound).isIntegral = true) :
    ofInt (q.num.tdiv q.den) = ofFinite s n short bound := by
  have integral : (Binary64.finite s n short bound).isIntegral = (n % Binary64.scale == 0) := rfl
  rw [integral, beq_iff_eq] at whole
  have quanta : Binary64.signed s (n / Binary64.scale) * Binary64.scale = Binary64.signed s n := by
    rw [← Binary64.signed_mul, Nat.div_mul_cancel (Nat.dvd_of_mod_eq_zero whole)]
  have integer : q = (Binary64.signed s (n / Binary64.scale) : Int) := by
    apply mul_right_cancel₀ (Nat.cast_ne_zero.2 Binary64.scale_pos.ne' : (Binary64.scale : ℚ) ≠ 0)
    rw [value, ← quanta, Int.cast_mul, Int.cast_natCast]
  rw [integer, Rat.num_intCast, Rat.den_intCast, Nat.cast_one, Int.tdiv_one,
    ofFinite_eq_ofInt short bound quanta]

theorem ofNumber_of_exact {n : Number} (exact : n.IsExact) : ofNumber n = ofDouble n.double := by
  obtain ⟨place, first, second⟩ := Number.same_iff.1 exact.same_double
  have finite := exact.isFinite_double
  cases n with
  | real x => rfl
  | int k =>
    match (Number.int k).double, finite, second with
    | .finite s m short bound, _, second =>
      rw [Number.rank?_finite] at second
      rw [Number.rank?_int, ← second, Option.some.injEq, Prod.mk.injEq, Rat.intCast_inj] at first
      exact (ofFinite_eq_ofInt short bound first.2).symm
  | ratio q =>
    rw [ofNumber]
    match (Number.ratio q).double, finite, second with
    | .finite s m short bound, _, second =>
      rw [Number.rank?_finite] at second
      rw [Number.rank?_ratio, ← second, Option.some.injEq, Prod.mk.injEq] at first
      split
      next whole => exact ofInt_tdiv short bound first.2 whole
      next => rfl

theorem value_ofDouble {x : Binary64} (finite : x.isFinite = true) :
    (ofDouble x).value = x.settled := by
  match x with
  | .finite s q short bound => exact value_ofFinite s q short bound

theorem value_ofNumber {n : Number} (portable : n.IsPortable) :
    (ofNumber n).value = n.double.settled := by
  cases n with
  | int k => exact value_ofInt_of_finite portable.isFinite
  | real y => exact value_ofDouble portable.isFinite
  | ratio q =>
    have exact := portable.ratio rfl
    rw [ofNumber_of_exact exact]
    exact value_ofDouble exact.isFinite_double

/-- A ratio that is no double can be read as another one than its own: it is rounded up, and cut. -/
example : (ofNumber (.ratio (mkRat (3 * (twoPower 53 + 1) + 1) 3))).value ≠
    (Number.ratio (mkRat (3 * (twoPower 53 + 1) + 1) 3)).double.settled := by
  decide +kernel

theorem ofNumber_congr {a b : Number} (first : a.IsExact) (second : b.IsExact)
    (same : a.same b = true) : ofNumber a = ofNumber b := by
  have doubles : (Number.real a.double).same (.real b.double) = true :=
    Number.same_trans (Number.same_symm first.same_double)
      (Number.same_trans same second.same_double)
  rw [ofNumber_of_exact first, ofNumber_of_exact second]
  exact ofDouble_congr second.isFinite_double doubles

end Figure

theorem formatNumber_int {k : Int} {x : Binary64}
    (read : (Number.int k).toBinary64? = some x) : formatNumber (.int k) = .ok (toString k) := by
  simp only [formatNumber, read]
  rfl

theorem formatNumber_finite (s : Bool) (q : Nat) (short : ShortSignificand q)
    (bound : q < Binary64.ceiling) :
    formatNumber (.real (.finite s q short bound)) =
      .ok (String.ofList (Figure.ofFinite s q short bound).text) := by
  have integral : (Binary64.finite s q short bound).isIntegral = (q % Binary64.scale == 0) := rfl
  unfold formatNumber Figure.ofFinite
  dsimp only
  rw [integral]
  by_cases whole : q % Binary64.scale = 0
  · have quotient := Nat.div_mul_cancel (Nat.dvd_of_mod_eq_zero whole)
    have rounded := roundHalfEven_mul (q / Binary64.scale) Binary64.scale_pos
    rw [quotient] at rounded
    have nearest : (Binary64.finite s q short bound).round? =
        some (Binary64.signed s (roundHalfEven q Binary64.scale)) := rfl
    rw [if_pos whole, if_pos (beq_iff_eq.2 whole), Figure.text_ofInt, String.ofList_toList,
      nearest, rounded, Option.getD_some]
  · have nonzero : q ≠ 0 := fun nothing => whole (by rw [nothing, Nat.zero_mod])
    have digits := Decimal.toList_text (Binary64.shortest q short bound).trim
    rw [if_neg whole, if_neg (by simp [whole]), Figure.text, ← digits, Binary64.text]
    dsimp only
    rw [if_neg nonzero, String.ofList_append, String.ofList_toList]
    cases s <;> simp

theorem formatNumber_ratio {q : ℚ} {x : Binary64} (read : (Number.ratio q).toBinary64? = some x) :
    formatNumber (.ratio q) =
      .ok (if x.isIntegral then toString (q.num.tdiv q.den) else x.text) := by
  simp only [formatNumber, read]
  rfl

theorem Figure.text_ofDouble {x : Binary64} (finite : x.isFinite = true)
    (fraction : x.isIntegral = false) : (ofDouble x).text = x.text.toList := by
  match x, finite with
  | .finite s n short bound, _ =>
    have written := formatNumber_finite s n short bound
    unfold formatNumber at written
    dsimp only at written
    rw [fraction, if_neg Bool.false_ne_true, Except.ok.injEq] at written
    rw [written, String.toList_ofList]
    rfl

theorem formatNumber_of_finite {n : Number} (isFinite : n.IsFinite) :
    formatNumber n = .ok (String.ofList (Figure.ofNumber n).text) := by
  cases n with
  | int k =>
    rw [formatNumber_int isFinite.toBinary64?, Figure.ofNumber_int, Figure.text_ofInt,
      String.ofList_toList]
  | real x =>
    have finite : x.isFinite = true := isFinite
    match x, finite with
    | .finite s q short bound, _ => exact formatNumber_finite s q short bound
  | ratio q =>
    rw [formatNumber_ratio isFinite.toBinary64?, Figure.ofNumber]
    cases whole : (Number.ratio q).double.isIntegral with
    | true => rw [if_pos rfl, if_pos rfl, Figure.text_ofInt, String.ofList_toList]
    | false =>
      rw [if_neg Bool.false_ne_true, if_neg Bool.false_ne_true,
        Figure.text_ofDouble isFinite whole, String.ofList_toList]

end LpText

end LinOpt
