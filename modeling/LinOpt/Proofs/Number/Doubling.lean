import LinOpt.Proofs.Number.Exact

namespace LinOpt

theorem shortSignificand_double {n : Nat} (short : ShortSignificand n) :
    ShortSignificand (2 * n) := by
  by_cases nothing : n = 0
  · subst nothing
    exact short
  · rw [ShortSignificand, Nat.log2_two_mul nothing]
    rcases Nat.lt_or_ge n.log2 52 with few | many
    · have power : n.log2 + 1 - 52 = 0 := by omega
      rw [power]
      exact Nat.one_dvd _
    · have power : n.log2 + 1 - 52 = 1 + (n.log2 - 52) := by omega
      rw [power, twoPower_add]
      exact Nat.mul_dvd_mul_left 2 short

theorem shortSignificand_twoPower (k : Nat) : ShortSignificand (twoPower k) := by
  have short := shortSignificand_mul_twoPower (twoPower_pos 53) k
  rwa [Nat.one_mul] at short

theorem two_mul_twoPower (k : Nat) : 2 * twoPower k = twoPower (1 + k) := by
  rw [twoPower_add]
  rfl

namespace Binary64

theorem scale_eq : scale = 2 * twoPower 1073 :=
  (two_mul_twoPower 1073).symm

theorem short_scale : ShortSignificand scale :=
  shortSignificand_twoPower 1074

theorem short_half : ShortSignificand (twoPower 1073) :=
  shortSignificand_twoPower 1073

theorem half_bound : twoPower 1073 < ceiling :=
  twoPower_lt (by decide)

theorem one_bound : scale < ceiling :=
  twoPower_lt (by decide)

theorem two_bound : 2 * scale < ceiling := by
  rw [scale, two_mul_twoPower]
  exact twoPower_lt (by decide)

def two : Binary64 :=
  finite false (2 * scale) (shortSignificand_double short_scale) two_bound

def half : Binary64 :=
  finite false (twoPower 1073) short_half half_bound

theorem ofInt_one : ofInt 1 = finite false scale short_scale one_bound := by
  have quanta : (1 : Int) * scale = signed false scale := by
    rw [Int.one_mul]
    rfl
  rw [ofInt, quanta]
  exact ofQuanta_signed false scale short_scale one_bound

theorem ofInt_two : ofInt 2 = two := by
  have quanta : (2 : Int) * scale = signed false (2 * scale) := by
    rw [signed, if_neg (by decide), Int.natCast_mul]
    rfl
  rw [ofInt, quanta]
  exact ofQuanta_signed false _ (shortSignificand_double short_scale) two_bound

theorem one_div_two : (ofInt 1).div two = half := by
  have nonzero : 2 * scale ≠ 0 := Nat.mul_ne_zero (by decide) (Nat.ne_of_gt scale_pos)
  have quotient : scale * scale = twoPower 1073 * (2 * scale) := by
    rw [← Nat.mul_assoc, Nat.mul_comm (twoPower 1073), ← scale_eq]
  rw [ofInt_one]
  simp only [two, div, nonzero, if_false, quotient]
  exact ofQuotient_quanta false _ _ short_half half_bound (Nat.mul_pos (by decide) scale_pos)

theorem ofQuotient_large {negative : Bool} {quanta den : Nat} (short : ShortSignificand quanta)
    (large : ceiling ≤ quanta) (positive : 0 < den) :
    (ofQuotient negative (quanta * den) den).isInfinite = true := by
  simp only [ofQuotient, roundSignificand_mul short positive]
  split
  next small => exact absurd large (Nat.not_le_of_lt small)
  next => rfl

theorem ofQuanta_large {negative : Bool} {quanta : Nat} (short : ShortSignificand quanta)
    (large : ceiling ≤ quanta) : (ofQuanta (signed negative quanta) false).isInfinite = true := by
  rw [ofQuanta, signed_natAbs, ← Nat.mul_one quanta]
  exact ofQuotient_large short large Nat.one_pos

variable {negative : Bool} {quanta : Nat} {short : ShortSignificand quanta}
    {bound : quanta < ceiling}

theorem two_mul (small : 2 * quanta < ceiling) :
    two.mul (finite negative quanta short bound) =
      finite negative (2 * quanta) (shortSignificand_double short) small := by
  have product : 2 * scale * quanta = 2 * quanta * scale := Nat.mul_right_comm 2 scale quanta
  simp only [two, mul, product, Bool.false_bne]
  exact ofQuotient_quanta negative _ _ (shortSignificand_double short) small scale_pos

theorem two_mul_large (large : ceiling ≤ 2 * quanta) :
    two.mul (finite negative quanta short bound) = infinite negative := by
  have product : 2 * scale * quanta = 2 * quanta * scale := Nat.mul_right_comm 2 scale quanta
  have rounded := roundSignificand_mul (shortSignificand_double short) scale_pos
  simp only [two, mul, product, Bool.false_bne, ofQuotient, rounded]
  split
  next small => exact absurd large (Nat.not_le_of_lt small)
  next => rfl

theorem mul_half (small : 2 * quanta < ceiling) :
    (finite negative (2 * quanta) (shortSignificand_double short) small).mul half =
      finite negative quanta short bound := by
  have product : 2 * quanta * twoPower 1073 = quanta * scale := by
    rw [scale_eq, Nat.mul_comm 2, Nat.mul_assoc]
  simp only [half, mul, product, Bool.bne_false]
  exact ofQuotient_quanta negative _ _ short bound scale_pos

theorem signed_double (negative : Bool) (n : Nat) :
    signed negative (2 * n) = 2 * signed negative n := by
  unfold signed
  split <;> omega

theorem double_bne_zero (n : Nat) : (2 * n != 0) = (n != 0) := by
  rw [Bool.eq_iff_iff, bne_iff_ne, bne_iff_ne]
  omega

theorem eq_of_signed_eq {s t : Bool} {n : Nat} (nonzero : n ≠ 0) (h : signed t n = signed s n) :
    t = s := by
  cases s <;> cases t <;> simp [signed] at h ⊢ <;> omega

theorem exists_of_rank {x : Binary64} {s : Bool} {q : Nat}
    (h : (Number.real x).rank? = some (0, (signed s q : ℚ))) :
    ∃ t short bound, x = finite t q short bound ∧ signed t q = signed s q := by
  cases x with
  | nan => cases h
  | infinite t =>
    rw [Number.rank?_infinite, Option.some.injEq, Prod.mk.injEq] at h
    cases t <;> cases h.1
  | finite t p short bound =>
    rw [Number.rank?_finite, Option.some.injEq, Prod.mk.injEq, Rat.intCast_inj] at h
    obtain rfl : p = q := by
      rw [← signed_natAbs t p, h.2, signed_natAbs]
    exact ⟨t, short, bound, rfl, h.2⟩

theorem settled_of_same {x y : Binary64} (isFinite : x.isFinite = true)
    (same : (Number.real y).same (.real x) = true) : y.settled = x.settled := by
  obtain ⟨place, first, second⟩ := Number.same_iff.1 same
  cases x with
  | nan => cases isFinite
  | infinite s => cases isFinite
  | finite s q _ _ =>
    rw [Number.rank?_finite] at second
    rw [← second] at first
    obtain ⟨t, _, _, rfl, signs⟩ := exists_of_rank first
    by_cases nothing : q = 0
    · simp [settled, nothing]
    · rw [eq_of_signed_eq nothing signs]

end Binary64

namespace Number

theorem settled_double_of_same {n : Number} {x : Binary64} (finite : x.isFinite = true)
    (same : n.same (.real x) = true) : n.double.settled = x.settled := by
  rcases (double_of_same finite same).2 with value | value
  · rw [value, Binary64.settled_settled]
  · rw [value] at same
    exact Binary64.settled_of_same finite same

theorem toBinary64?_two : (2 : Number).toBinary64? = some Binary64.two := by
  have notInfinite : Binary64.two.isInfinite = false := rfl
  change (if (Binary64.ofInt 2).isInfinite then none else some (Binary64.ofInt 2)) = _
  rw [Binary64.ofInt_two, notInfinite]
  rfl

theorem two_mul_int (k : Int) : (2 : Number).mul (.int k) = some (.int (2 * k)) :=
  rfl

theorem two_mul_ratio (q : ℚ) : (2 : Number).mul (.ratio q) = some (.ratio (2 * q)) :=
  rfl

theorem two_mul_real (x : Binary64) : (2 : Number).mul (.real x) = some (.real (Binary64.two.mul x)) := by
  change (2 : Number).toBinary64?.bind (fun y => some (Number.real (y.mul x))) = _
  rw [toBinary64?_two]
  rfl

theorem twice_same {c d : Number} {s : Bool} {q : Nat} {short : ShortSignificand q}
    {bound : q < Binary64.ceiling} (same : c.same (.real (.finite s q short bound)) = true)
    (product : (2 : Number).mul c = some d) (small : 2 * q < Binary64.ceiling) :
    d.same (.real (.finite s (2 * q) (shortSignificand_double short) small)) = true := by
  obtain ⟨place, first, second⟩ := same_iff.1 same
  rw [rank?_finite, Option.some.injEq] at second
  subst second
  refine same_iff.2 ⟨(0, ((2 * Binary64.signed s q : Int) : ℚ)), ?_, ?_⟩
  · cases c with
    | int k =>
      rw [two_mul_int, Option.some.injEq] at product
      subst product
      rw [rank?_int, Option.some.injEq, Prod.mk.injEq, Rat.intCast_inj] at first ⊢
      exact ⟨rfl, by rw [Int.mul_assoc, first.2]⟩
    | ratio r =>
      rw [two_mul_ratio, Option.some.injEq] at product
      subst product
      rw [rank?_ratio, Option.some.injEq, Prod.mk.injEq] at first ⊢
      exact ⟨rfl, by rw [mul_assoc, first.2, Int.cast_mul, Int.cast_ofNat]⟩
    | real y =>
      rw [two_mul_real, Option.some.injEq] at product
      subst product
      obtain ⟨t, _, _, rfl, signs⟩ := Binary64.exists_of_rank first
      rw [Binary64.two_mul small, rank?_finite, Binary64.signed_double, signs]
  · rw [rank?_finite, Binary64.signed_double]

theorem twice_large {c d : Number} {s : Bool} {q : Nat} {short : ShortSignificand q}
    {bound : q < Binary64.ceiling} (same : c.same (.real (.finite s q short bound)) = true)
    (product : (2 : Number).mul c = some d) (large : Binary64.ceiling ≤ 2 * q) :
    d.toBinary64? = none ∨ d.isInfinite = true := by
  obtain ⟨place, first, second⟩ := same_iff.1 same
  rw [rank?_finite, Option.some.injEq] at second
  subst second
  cases c with
  | int k =>
    rw [two_mul_int, Option.some.injEq] at product
    subst product
    rw [rank?_int, Option.some.injEq, Prod.mk.injEq, Rat.intCast_inj] at first
    have quanta : 2 * k * Binary64.scale = Binary64.signed s (2 * q) := by
      rw [Int.mul_assoc, first.2, Binary64.signed_double]
    have infinite : (Binary64.ofInt (2 * k)).isInfinite = true := by
      rw [Binary64.ofInt, quanta]
      exact Binary64.ofQuanta_large (shortSignificand_double short) large
    simp [toBinary64?, infinite]
  | real y =>
    rw [two_mul_real, Option.some.injEq] at product
    subst product
    obtain ⟨t, _, _, rfl, -⟩ := Binary64.exists_of_rank first
    rw [Binary64.two_mul_large large]
    exact .inr rfl
  | ratio r =>
    rw [two_mul_ratio, Option.some.injEq] at product
    subst product
    rw [rank?_ratio, Option.some.injEq, Prod.mk.injEq] at first
    have value : 2 * r * Binary64.scale = Binary64.signed s (2 * q) := by
      rw [mul_assoc, first.2, Binary64.signed_double, Int.cast_mul, Int.cast_ofNat]
    have infinite : (Binary64.ofRat (2 * r)).isInfinite = true := by
      rw [Binary64.ofRat, natAbs_num_mul_scale value]
      exact Binary64.ofQuotient_large (shortSignificand_double short) large (2 * r).den_pos
    simp [toBinary64?, infinite]

theorem IsExact.twice {c d : Number} (exact : c.IsExact) (product : (2 : Number).mul c = some d)
    (readable : d.toBinary64? ≠ none) (notInfinite : d.isInfinite = false) :
    d.IsExact ∧ d.double.settled.mul Binary64.half = c.double.settled := by
  obtain ⟨x, finite, same⟩ := exact
  cases x with
  | nan => cases finite
  | infinite s => cases finite
  | finite s q short bound =>
    rcases Nat.lt_or_ge (2 * q) Binary64.ceiling with small | large
    · have doubled := twice_same same product small
      refine ⟨⟨_, rfl, doubled⟩, ?_⟩
      rw [settled_double_of_same rfl doubled, settled_double_of_same rfl same]
      simp only [Binary64.settled, Binary64.double_bne_zero]
      exact Binary64.mul_half small
    · rcases twice_large same product large with none | infinite
      · exact absurd none readable
      · rw [notInfinite] at infinite
        cases infinite

theorem IsExact.twice_congr {b c d e : Number} (exact : c.IsExact) (same : b.same c = true)
    (product : (2 : Number).mul b = some e) (other : (2 : Number).mul c = some d)
    (readable : d.toBinary64? ≠ none) (notInfinite : d.isInfinite = false) : e.same d = true := by
  obtain ⟨x, finite, value⟩ := exact
  cases x with
  | nan => cases finite
  | infinite s => cases finite
  | finite s q short bound =>
    rcases Nat.lt_or_ge (2 * q) Binary64.ceiling with small | large
    · have first := twice_same (same_trans same value) product small
      have second := twice_same value other small
      exact same_trans first (same_symm second)
    · rcases twice_large value other large with none | infinite
      · exact absurd none readable
      · rw [notInfinite] at infinite
        cases infinite

end Number

end LinOpt
