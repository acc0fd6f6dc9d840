import LinOpt.Number.Basic
import Mathlib.Data.Rat.Lemmas

namespace LinOpt

theorem twoPower_lt {m n : Nat} (h : m < n) : twoPower m < twoPower n :=
  Nat.pow_lt_pow_right (by decide) h

theorem twoPower_log2_le_roundSignificand {num : Nat} (nonzero : num ≠ 0) :
    twoPower num.log2 ≤ roundSignificand num 1 := by
  have whole : twoPower (num.log2 - 52) ∣ twoPower num.log2 := twoPower_dvd (Nat.sub_le _ _)
  have below : num / twoPower (num.log2 - 52) ≤ roundHalfEven num (twoPower (num.log2 - 52)) := by
    unfold roundHalfEven
    dsimp only
    split
    · exact Nat.le_refl _
    · split <;> omega
  have least : twoPower num.log2 / twoPower (num.log2 - 52) ≤ num / twoPower (num.log2 - 52) :=
    Nat.div_le_div_right (Nat.log2_self_le nonzero)
  have product := Nat.mul_le_mul_right (twoPower (num.log2 - 52)) (Nat.le_trans least below)
  rw [Nat.div_mul_cancel whole] at product
  simpa [roundSignificand] using product

namespace Binary64

/-- The same double, but for a negative zero. -/
def settled : Binary64 → Binary64
  | nan => nan
  | infinite negative => infinite negative
  | finite negative quanta short bound => finite (negative && quanta != 0) quanta short bound

@[simp]
theorem settled_settled (x : Binary64) : x.settled.settled = x.settled := by
  cases x <;> simp [settled]

@[simp]
theorem isFinite_settled (x : Binary64) : x.settled.isFinite = x.isFinite := by
  cases x <;> rfl

theorem isInfinite_settled {x : Binary64} (finite : x.isFinite = true) :
    x.settled.isInfinite = false := by
  match x with
  | .nan => rfl
  | .infinite _ => cases finite
  | .finite .. => rfl

theorem signed_mul (negative : Bool) (m n : Nat) :
    signed negative (m * n) = signed negative m * n := by
  cases negative <;>
    simp only [signed, Int.natCast_mul, Int.neg_mul, if_true, Bool.false_eq_true, if_false]

theorem ofQuanta_signed_false (negative : Bool) (quanta : Nat) (short : ShortSignificand quanta)
    (bound : quanta < ceiling) :
    ofQuanta (signed negative quanta) false = (finite negative quanta short bound).settled := by
  by_cases nothing : quanta = 0
  · subst nothing
    cases negative with
    | false => exact ofQuanta_signed false 0 short bound
    | true => exact ofQuanta_signed false 0 short bound
  · have nonzero : signed negative quanta ≠ 0 := by
      cases negative <;> simp [signed, nothing]
    have flags : ofQuanta (signed negative quanta) false =
        ofQuanta (signed negative quanta) negative := by
      simp only [ofQuanta, nonzero, if_false]
    rw [flags, ofQuanta_signed negative quanta short bound]
    simp [settled, nothing]

theorem zero_add (x : Binary64) : (zero false).add x = x.settled := by
  cases x with
  | nan => rfl
  | infinite negative => rfl
  | finite negative quanta short bound =>
    have total : signed false 0 + signed negative quanta = signed negative quanta := by
      simp [signed]
    simp only [zero, add, total, Bool.false_and]
    exact ofQuanta_signed_false negative quanta short bound

theorem add_comm (x y : Binary64) : x.add y = y.add x := by
  cases x with
  | nan => cases y <;> rfl
  | infinite s =>
    cases y with
    | infinite t => cases s <;> cases t <;> rfl
    | _ => rfl
  | finite s a =>
    cases y with
    | finite t b => rw [add, add, Int.add_comm, Bool.and_comm]
    | _ => rfl

theorem ofInt_zero : ofInt 0 = zero false := by
  have quanta : (0 : Int) * scale = signed false 0 := Int.zero_mul _
  rw [ofInt, quanta, ofQuanta_signed_false false 0 (by simp [ShortSignificand]) ceiling_pos]
  rfl

theorem lt_ceiling_of_isFinite {negative : Bool} {num : Nat}
    (finite : (ofQuotient negative num 1).isFinite = true) : num < ceiling := by
  refine Nat.lt_of_not_le fun large => ?_
  have positive : num ≠ 0 := Nat.ne_of_gt (Nat.lt_of_lt_of_le ceiling_pos large)
  have power : 2098 ≤ num.log2 := by
    refine Nat.le_of_not_lt fun small => ?_
    have bound := Nat.le_of_dvd ceiling_pos (twoPower_dvd (by omega : num.log2 + 1 ≤ 2098))
    exact absurd (lt_twoPower_log2 num) (Nat.not_lt.2 (Nat.le_trans bound large))
  have rounded : ceiling ≤ roundSignificand num 1 :=
    Nat.le_trans (Nat.le_of_dvd (twoPower_pos _) (twoPower_dvd power))
      (twoPower_log2_le_roundSignificand positive)
  rw [ofQuotient, dif_neg (Nat.not_lt.2 rounded)] at finite
  cases finite

theorem mul_neg_iff_of_pos {a b : Int} (positive : 0 < b) : a * b < 0 ↔ a < 0 := by
  constructor
  · intro below
    rw [← Int.zero_mul b] at below
    exact Int.lt_of_mul_lt_mul_right below (Int.le_of_lt positive)
  · exact fun below => Int.mul_neg_of_neg_of_pos below positive

theorem signed_neg_iff {negative : Bool} {n : Nat} :
    signed negative n < 0 ↔ (negative && n != 0) = true := by
  cases negative <;> simp [signed]
  omega

theorem ofInt_eq (k : Int) :
    ofInt k = ofQuotient (decide (k < 0)) (k.natAbs * scale) 1 := by
  have size : (k * scale).natAbs = k.natAbs * scale := by
    rw [Int.natAbs_mul, Int.natAbs_natCast]
  have positive : (0 : Int) < scale := Int.natCast_pos.2 scale_pos
  rw [ofInt, ofQuanta, size]
  by_cases zero : k = 0
  · subst zero
    simp only [Int.zero_mul, if_true, Int.natAbs_zero, Nat.zero_mul, Int.lt_irrefl, decide_false]
  · have nonzero : k * scale ≠ 0 := Int.mul_ne_zero zero (Int.ne_of_gt positive)
    rw [if_neg nonzero, decide_eq_decide.2 (mul_neg_iff_of_pos positive)]

theorem isFinite_ofQuotient {negative : Bool} {num den : Nat}
    (limited : (ofQuotient negative num den).isInfinite = false) :
    (ofQuotient negative num den).isFinite = true := by
  revert limited
  unfold ofQuotient
  dsimp only
  split
  · exact fun _ => rfl
  · intro limited
    cases limited

theorem neg_ofQuotient (negative : Bool) (num den : Nat) :
    (ofQuotient negative num den).neg = ofQuotient (!negative) num den := by
  unfold ofQuotient
  dsimp only
  split <;> rfl

theorem roundSignificand_ne_zero {num : Nat} (nonzero : num ≠ 0) : roundSignificand num 1 ≠ 0 :=
  Nat.ne_of_gt (Nat.lt_of_lt_of_le (twoPower_pos _) (twoPower_log2_le_roundSignificand nonzero))

theorem settled_ofQuotient {negative : Bool} {num : Nat} (nonzero : num ≠ 0) :
    (ofQuotient negative num 1).settled = ofQuotient negative num 1 := by
  have positive := roundSignificand_ne_zero nonzero
  unfold ofQuotient
  dsimp only
  split
  · simp [settled, positive]
  · rfl

end Binary64

namespace Number

@[simp]
theorem rank?_int (n : Int) : (int n).rank? = some (0, ((n * Binary64.scale : Int) : Rat)) :=
  rfl

@[simp]
theorem rank?_ratio (q : Rat) : (ratio q).rank? = some (0, q * Binary64.scale) :=
  rfl

@[simp]
theorem rank?_infinite (negative : Bool) :
    (real (.infinite negative)).rank? = some (Binary64.signed negative 1, 0) :=
  rfl

@[simp]
theorem rank?_finite (negative : Bool) (quanta : Nat) (short : ShortSignificand quanta)
    (bound : quanta < Binary64.ceiling) :
    (real (.finite negative quanta short bound)).rank? =
      some (0, (Binary64.signed negative quanta : Rat)) :=
  rfl

theorem compare_then_eq_iff {i k : Int} {j l : Rat} :
    (compare i k).then (compareOfLessAndEq j l) = .eq ↔ i = k ∧ j = l := by
  rw [Ordering.then_eq_eq, Std.compare_eq_iff_eq,
    compareOfLessAndEq_eq_eq (fun _ => Rat.le_refl) Rat.not_le]

theorem same_iff {a b : Number} :
    a.same b = true ↔ ∃ place, a.rank? = some place ∧ b.rank? = some place := by
  unfold same compares
  cases first : a.rank? with
  | none => simp
  | some p =>
    obtain ⟨i, j⟩ := p
    cases second : b.rank? with
    | none => simp
    | some q =>
      obtain ⟨k, l⟩ := q
      simp only [Option.some.injEq, exists_eq_left', Prod.mk.injEq, Ordering.isEq_iff_eq_eq,
        compare_then_eq_iff]
      rw [eq_comm (a := k), eq_comm (a := l)]

theorem same_symm {a b : Number} (h : a.same b = true) : b.same a = true := by
  obtain ⟨place, first, second⟩ := same_iff.1 h
  exact same_iff.2 ⟨place, second, first⟩

theorem same_trans {a b c : Number} (h : a.same b = true) (g : b.same c = true) :
    a.same c = true := by
  obtain ⟨place, first, second⟩ := same_iff.1 h
  obtain ⟨other, third, fourth⟩ := same_iff.1 g
  rw [second] at third
  cases third
  exact same_iff.2 ⟨place, first, fourth⟩

theorem same_refl_of_rank {a : Number} (h : a.rank? ≠ none) : a.same a = true := by
  obtain ⟨place, rank⟩ := Option.ne_none_iff_exists'.1 h
  exact same_iff.2 ⟨place, rank, rank⟩

theorem lt_congr {a b c d : Number} (first : a.same b = true) (second : c.same d = true) :
    a.lt c = b.lt d := by
  obtain ⟨place, isFirst, alsoFirst⟩ := same_iff.1 first
  obtain ⟨other, isSecond, alsoSecond⟩ := same_iff.1 second
  simp only [lt, compares, isFirst, alsoFirst, isSecond, alsoSecond]

theorem ofInt_same (n : Int) :
    (real (Binary64.ofInt n)).same (real (Binary64.ofInt n)) = true := by
  refine same_refl_of_rank ?_
  unfold Binary64.ofInt Binary64.ofQuanta Binary64.ofQuotient
  dsimp only
  split <;> exact Option.some_ne_none _

theorem isNaN_of_same {a : Number} {x : Binary64} (h : a.same (.real x) = true) :
    x.isNaN = false := by
  obtain ⟨place, -, rank⟩ := same_iff.1 h
  match x with
  | .nan => cases rank
  | .infinite _ => rfl
  | .finite .. => rfl

theorem rank?_settled (x : Binary64) : (real x.settled).rank? = (real x).rank? := by
  match x with
  | .nan => rfl
  | .infinite _ => rfl
  | .finite negative quanta _ _ =>
    by_cases nothing : quanta = 0
    · cases negative <;> simp [Binary64.settled, Binary64.signed, nothing]
    · have nonzero : (quanta != 0) = true := bne_iff_ne.2 nothing
      simp only [Binary64.settled, nonzero, Bool.and_true]

theorem same_settled {a : Number} {x : Binary64} (h : a.same (.real x) = true) :
    a.same (.real x.settled) = true := by
  obtain ⟨place, first, second⟩ := same_iff.1 h
  exact same_iff.2 ⟨place, first, (rank?_settled x).trans second⟩

theorem rank?_neg (x : Binary64) :
    (real x.neg).rank? = (real x).rank?.map fun (i, j) => (-i, -j) := by
  match x with
  | .nan => rfl
  | .infinite negative => cases negative <;> rfl
  | .finite negative quanta _ _ => cases negative <;> simp [Binary64.neg, Binary64.signed]

theorem rank?_zero : (0 : Number).rank? = some (0, 0) :=
  (rank?_int 0).trans (by rw [Int.zero_mul, Int.cast_zero])

theorem isZero_iff {a : Number} : a.isZero = true ↔ a.rank? = some (0, 0) := by
  rw [isZero, same_iff, rank?_zero]
  simp

theorem isZero_zero : (0 : Number).isZero = true :=
  isZero_iff.2 rank?_zero

/-- Finite, and exactly what some double is. -/
def IsExact (n : Number) : Prop :=
  ∃ x : Binary64, x.isFinite = true ∧ n.same (.real x) = true

def double (n : Number) : Binary64 :=
  n.toBinary64?.getD .nan

@[simp]
theorem double_real (x : Binary64) : (real x).double = x :=
  rfl

theorem ofInt_of_same {k : Int} {x : Binary64} (finite : x.isFinite = true)
    (h : (int k).same (.real x) = true) : Binary64.ofInt k = x.settled := by
  match x with
  | .nan => cases finite
  | .infinite _ => cases finite
  | .finite negative quanta short bound =>
    obtain ⟨place, first, second⟩ := same_iff.1 h
    have quantaOf : k * Binary64.scale = Binary64.signed negative quanta := by
      rw [rank?_int] at first
      rw [rank?_finite, ← first, Option.some.injEq, Prod.mk.injEq, Rat.intCast_inj] at second
      exact second.2.symm
    rw [Binary64.ofInt, quantaOf]
    exact Binary64.ofQuanta_signed_false negative quanta short bound

theorem num_mul_scale {q : Rat} {quanta : Int} (value : q * Binary64.scale = quanta) :
    q.num * Binary64.scale = quanta * q.den := by
  have product : q * q.den * Binary64.scale = quanta * q.den := by rw [← value, mul_right_comm]
  rw [Rat.mul_den_eq_num] at product
  exact_mod_cast product

theorem natAbs_num_mul_scale {q : Rat} {negative : Bool} {quanta : Nat}
    (value : q * Binary64.scale = Binary64.signed negative quanta) :
    q.num.natAbs * Binary64.scale = quanta * q.den := by
  have sizes := congrArg Int.natAbs (num_mul_scale value)
  rwa [Int.natAbs_mul, Int.natAbs_natCast, Int.natAbs_mul, Binary64.signed_natAbs,
    Int.natAbs_natCast] at sizes

theorem ofRat_of_same {q : Rat} {x : Binary64} (finite : x.isFinite = true)
    (h : (ratio q).same (.real x) = true) : Binary64.ofRat q = x.settled := by
  match x with
  | .nan => cases finite
  | .infinite _ => cases finite
  | .finite negative quanta short bound =>
    obtain ⟨place, first, second⟩ := same_iff.1 h
    have value : q * Binary64.scale = Binary64.signed negative quanta := by
      rw [rank?_ratio] at first
      rw [rank?_finite, ← first, Option.some.injEq, Prod.mk.injEq] at second
      exact second.2.symm
    have sign : decide (q.num < 0) = (negative && quanta != 0) := by
      have scale : (0 : Int) < Binary64.scale := Int.natCast_pos.2 Binary64.scale_pos
      have den : (0 : Int) < q.den := Int.natCast_pos.2 q.den_pos
      rw [Bool.eq_iff_iff, decide_eq_true_iff, ← Binary64.mul_neg_iff_of_pos scale,
        num_mul_scale value, Binary64.mul_neg_iff_of_pos den, Binary64.signed_neg_iff]
    rw [Binary64.ofRat, natAbs_num_mul_scale value,
      Binary64.ofQuotient_quanta _ quanta _ short bound q.den_pos, sign]
    rfl

theorem double_of_same {n : Number} {x : Binary64} (finite : x.isFinite = true)
    (h : n.same (.real x) = true) :
    n.toBinary64? = some n.double ∧ (n.double = x.settled ∨ n = .real n.double) := by
  cases n with
  | real y => exact ⟨rfl, .inr rfl⟩
  | int k =>
    have read : (int k).toBinary64? = some x.settled := by
      simp [Number.toBinary64?, ofInt_of_same finite h, Binary64.isInfinite_settled finite]
    have value : (int k).double = x.settled := by rw [double, read, Option.getD_some]
    exact ⟨value ▸ read, .inl value⟩
  | ratio q =>
    have read : (ratio q).toBinary64? = some x.settled := by
      simp [Number.toBinary64?, ofRat_of_same finite h, Binary64.isInfinite_settled finite]
    have value : (ratio q).double = x.settled := by rw [double, read, Option.getD_some]
    exact ⟨value ▸ read, .inl value⟩

namespace IsExact

theorem toBinary64? {n : Number} (h : n.IsExact) : n.toBinary64? = some n.double := by
  obtain ⟨x, finite, same⟩ := h
  exact (double_of_same finite same).1

theorem same_double {n : Number} (h : n.IsExact) : n.same (.real n.double) = true := by
  obtain ⟨x, finite, same⟩ := h
  rcases (double_of_same finite same).2 with value | value
  · rw [value]
    exact same_settled same
  · obtain ⟨place, rank, -⟩ := same_iff.1 same
    exact same_iff.2 ⟨place, rank, value ▸ rank⟩

theorem isFinite_double {n : Number} (h : n.IsExact) : n.double.isFinite = true := by
  obtain ⟨x, finite, same⟩ := h
  obtain ⟨place, first, second⟩ := same_iff.1 (same_double ⟨x, finite, same⟩)
  obtain ⟨other, third, fourth⟩ := same_iff.1 same
  rw [first] at third
  cases third
  match n.double, second with
  | .finite .., _ => rfl
  | .infinite t, second =>
    match x, finite, fourth with
    | .finite .., _, fourth =>
      simp only [rank?_infinite, rank?_finite, Option.some.injEq] at second fourth
      rw [← second] at fourth
      cases t <;> simp [Binary64.signed] at fourth

end IsExact

def IsFinite (n : Number) : Prop :=
  n.double.isFinite = true

instance (n : Number) : Decidable n.IsFinite :=
  inferInstanceAs (Decidable (_ = _))

theorem IsExact.isFinite {n : Number} (h : n.IsExact) : n.IsFinite :=
  h.isFinite_double

namespace IsFinite

variable {n : Number}

theorem isExact_double (h : n.IsFinite) : (real n.double).IsExact := by
  refine ⟨n.double, h, same_refl_of_rank ?_⟩
  unfold IsFinite at h
  generalize n.double = x at h
  cases x with
  | finite negative quanta short bound =>
    rw [rank?_finite]
    exact Option.some_ne_none _
  | _ => cases h

theorem toBinary64? (h : n.IsFinite) : n.toBinary64? = some n.double := by
  unfold IsFinite double at h
  cases read : n.toBinary64? with
  | none =>
    rw [read] at h
    cases h
  | some x => rw [double, read, Option.getD_some]

theorem notInfinite (h : n.IsFinite) : n.double.isInfinite = false := by
  have finite : n.double.isFinite = true := h
  match n.double, finite with
  | .finite .., _ => rfl

theorem real_add (h : n.IsFinite) (x : Binary64) :
    (real x).add n = some (real (x.add n.double)) := by
  have read := h.toBinary64?
  cases n with
  | real y => rfl
  | int k =>
    change (some x).bind (fun x => (int k).toBinary64?.bind fun y => some (real (x.add y))) = _
    rw [read, Option.bind_some, Option.bind_some]
  | ratio q =>
    change (some x).bind (fun x => (ratio q).toBinary64?.bind fun y => some (real (x.add y))) = _
    rw [read, Option.bind_some, Option.bind_some]

end IsFinite

theorem real_add_eq_none {x : Binary64} {c : Number} :
    (Number.real x).add c = none ↔ c.toBinary64? = none := by
  cases c with
  | real y => exact iff_of_false nofun nofun
  | int n =>
    have own : (Number.real x).toBinary64? = some x := rfl
    simp only [add, combine, own]
    cases (Number.int n).toBinary64? <;> simp
  | ratio q =>
    have own : (Number.real x).toBinary64? = some x := rfl
    simp only [add, combine, own]
    cases (Number.ratio q).toBinary64? <;> simp

theorem rank?_ofQuotient {negative : Bool} {num : Nat} (nonzero : num ≠ 0) :
    (real (Binary64.ofQuotient negative num 1)).rank? ≠ some (0, 0) := by
  have positive := Binary64.roundSignificand_ne_zero nonzero
  unfold Binary64.ofQuotient
  dsimp only
  split
  · rw [rank?_finite]
    cases negative <;> simp [Binary64.signed, positive]
  · rw [rank?_infinite]
    cases negative <;> simp [Binary64.signed]

theorem double_int {k : Int} (finite : (int k).IsFinite) : (int k).double = Binary64.ofInt k := by
  have read := finite.toBinary64?
  rw [toBinary64?] at read
  split at read
  · cases read
  · exact (Option.some.inj read).symm

/-- Only what is too large for a double is not finite as one, apart from the doubles themselves. -/
theorem isFinite_of_readable {n : Number} (given : ∀ x, n ≠ real x)
    (readable : n.toBinary64? ≠ none) : n.IsFinite := by
  cases n with
  | real x => exact absurd rfl (given x)
  | int k =>
    cases limited : (Binary64.ofInt k).isInfinite with
    | true => simp [toBinary64?, limited] at readable
    | false =>
      have read : (int k).toBinary64? = some (Binary64.ofInt k) := by simp [toBinary64?, limited]
      rw [IsFinite, double, read, Option.getD_some, Binary64.ofInt_eq]
      rw [Binary64.ofInt_eq] at limited
      exact Binary64.isFinite_ofQuotient limited
  | ratio q =>
    cases limited : (Binary64.ofRat q).isInfinite with
    | true => simp [toBinary64?, limited] at readable
    | false =>
      have read : (ratio q).toBinary64? = some (Binary64.ofRat q) := by simp [toBinary64?, limited]
      rw [IsFinite, double, read, Option.getD_some, Binary64.ofRat]
      rw [Binary64.ofRat] at limited
      exact Binary64.isFinite_ofQuotient limited

theorem IsExact.isZero_double {n : Number} (exact : n.IsExact) :
    (real n.double).isZero = n.isZero := by
  rw [Bool.eq_iff_iff, isZero_iff, isZero_iff]
  obtain ⟨place, first, second⟩ := same_iff.1 exact.same_double
  rw [first, second]

def isRatio : Number → Bool
  | ratio _ => true
  | _ => false

/-- Finite, and a ratio only if it is what its double is. Other ratios are rounded, and it is not
everywhere that they are rounded alike. -/
structure IsPortable (n : Number) : Prop where
  isFinite : n.IsFinite
  ratio : n.isRatio = true → n.IsExact

instance (n : Number) : Decidable n.IsExact :=
  decidable_of_iff (n.toBinary64?.any fun x => x.isFinite && n.same (.real x)) (by
    rw [Option.any_eq_true]
    constructor
    · rintro ⟨x, -, holds⟩
      exact ⟨x, Bool.and_eq_true_iff.1 holds⟩
    · intro exact
      exact ⟨_, exact.toBinary64?, Bool.and_eq_true_iff.2 ⟨exact.isFinite_double, exact.same_double⟩⟩)

theorem IsExact.isPortable {n : Number} (exact : n.IsExact) : n.IsPortable :=
  ⟨exact.isFinite, fun _ => exact⟩

namespace IsPortable

variable {n : Number}

theorem isZero_double (portable : n.IsPortable) : (real n.double).isZero = n.isZero := by
  cases n with
  | real x => rfl
  | ratio q => exact (portable.ratio rfl).isZero_double
  | int k =>
    have positive : Binary64.scale ≠ 0 := Nat.ne_of_gt Binary64.scale_pos
    rw [double_int portable.isFinite, Bool.eq_iff_iff, isZero_iff, isZero_iff, rank?_int]
    by_cases zero : k = 0
    · subst zero
      rw [Binary64.ofInt_zero, Int.zero_mul]
      exact iff_of_true rfl rfl
    · have nonzero := Nat.mul_ne_zero (Int.natAbs_ne_zero.2 zero) positive
      rw [Binary64.ofInt_eq]
      refine iff_of_false (rank?_ofQuotient nonzero) fun same => ?_
      rw [Option.some.injEq, Prod.mk.injEq, Rat.intCast_eq_zero_iff] at same
      exact Int.mul_ne_zero zero (Int.natCast_ne_zero.2 positive) same.2

end IsPortable

theorem isExact_zero : (0 : Number).IsExact :=
  ⟨Binary64.zero false, rfl, same_iff.2 ⟨(0, 0), rank?_zero, rfl⟩⟩

theorem double_zero : (0 : Number).double = Binary64.zero false := by
  have read : (0 : Number).toBinary64? = some (Binary64.zero false) := by
    change (int 0).toBinary64? = _
    simp only [toBinary64?, Binary64.ofInt_zero]
    rfl
  rw [double, read, Option.getD_some]

theorem zero_same : (0 : Number).same (.real (Binary64.zero false)) = true := by
  rw [← double_zero]
  exact isExact_zero.same_double

theorem isExact_one : (1 : Number).IsExact := by
  decide +kernel

/-- The number that comes out when a number is added to zero. -/
def settled : Number → Number
  | real x => real x.settled
  | n => n

theorem zero_add (n : Number) : (0 : Number).add n = some n.settled := by
  cases n with
  | int n =>
    change some (int (0 + n)) = some (int n)
    rw [Int.zero_add]
  | real x =>
    have zero : (int 0).toBinary64? = some (Binary64.zero false) := by
      rw [← double_zero]
      exact isExact_zero.toBinary64?
    change (int 0).toBinary64?.bind (fun z => some (real (z.add x))) = _
    rw [zero, Option.bind_some, Binary64.zero_add]
    rfl
  | ratio q =>
    change some (ratio (((0 : Int) : Rat) + q)) = some (ratio q)
    rw [Rat.intCast_zero, Rat.zero_add]

theorem add_zero (n : Number) : n.add 0 = some n.settled := by
  cases n with
  | int k => exact congrArg (some ∘ int) (Int.add_zero k)
  | real x =>
    rw [isExact_zero.isFinite.real_add, double_zero, Binary64.add_comm, Binary64.zero_add]
    rfl
  | ratio q =>
    change some (ratio (q + ((0 : Int) : Rat))) = some (ratio q)
    rw [Rat.intCast_zero, Rat.add_zero]

theorem IsFinite.settled {n : Number} (h : n.IsFinite) : n.settled.IsFinite := by
  cases n with
  | real x => exact (Binary64.isFinite_settled x).trans h
  | _ => exact h

theorem settled_double_settled (n : Number) : n.settled.double.settled = n.double.settled := by
  cases n with
  | real x => exact Binary64.settled_settled x
  | _ => rfl

end Number

end LinOpt
