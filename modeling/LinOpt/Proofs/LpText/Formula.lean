import LinOpt.LpText.Grammar
import LinOpt.Proofs.Number.Unrounded
import Mathlib.Algebra.BigOperators.Ring.List
import Mathlib.Data.Nat.Digits.Lemmas
import Mathlib.Tactic.Ring

namespace LinOpt.LpText

structure WrittenNumeral where
  whole : List Nat
  part : List Nat
  power : Int
  deriving DecidableEq

namespace WrittenNumeral

def partValue : List Nat → ℚ
  | [] => 0
  | d :: ds => (d + partValue ds) / 10

def value (n : WrittenNumeral) : ℚ :=
  (Nat.ofDigits 10 n.whole.reverse + partValue n.part) * 10 ^ n.power

def decimal (n : WrittenNumeral) : Decimal where
  digits := Numeral.valueOf (n.whole ++ n.part)
  exponent := n.power - n.part.length

end WrittenNumeral

/-- Numbers that the summands of an expression can be worked out with. -/
structure Arithmetic (α : Type) where
  numeral : WrittenNumeral → α
  one : α
  neg : α → α
  mul : α → α → α
  div : α → α → α
  isZero : α → Bool

namespace Arithmetic

def doubles : Arithmetic Binary64 where
  numeral n := Binary64.ofDecimal false n.decimal
  one := Binary64.ofInt 1
  neg := Binary64.neg
  mul := Binary64.mul
  div := Binary64.div
  isZero x := (Number.real x).isZero

def exact : Arithmetic ℚ where
  numeral := WrittenNumeral.value
  one := 1
  neg x := -x
  mul x y := x * y
  div x y := x / y
  isZero x := decide (x = 0)

theorem doubles_one : doubles.one = Binary64.ofInt 1 := by
  simp only [doubles]

theorem doubles_isZero (x : Binary64) : doubles.isZero x = (Number.real x).isZero :=
  rfl

theorem doubles_div (x y : Binary64) : doubles.div x y = x.div y :=
  rfl

variable (A : Arithmetic α)

def signed (negative : Bool) (x : α) : α :=
  if negative then A.neg x else x

end Arithmetic

structure Monomial (α : Type) where
  coefficient : α
  names : List String
  deriving DecidableEq

namespace Monomial

def map (f : α → β) (m : Monomial α) : Monomial β where
  coefficient := f m.coefficient
  names := m.names

def total (point : String → ℚ) (ms : List (Monomial ℚ)) : ℚ :=
  (ms.map fun m => m.coefficient * (m.names.map point).prod).sum

end Monomial

def Summand.monomial (s : Summand) : Monomial Binary64 where
  coefficient := s.coefficient
  names := s.names

namespace Formula

/-- A product of two variables in a bracket. The second one is missing where the first one is
squared. -/
structure Product where
  sign : Option Bool
  coefficient : Option WrittenNumeral
  first : String
  second : Option String
  deriving DecidableEq

inductive Body
  | bracket (first : Product) (rest : List (Bool × Product)) (divisor : Option WrittenNumeral)
  | multiple (c : WrittenNumeral) (x : String)
  | constant (c : WrittenNumeral)
  | single (x : String)
  deriving DecidableEq

structure Addend where
  sign : Option Bool
  body : Body
  deriving DecidableEq

end Formula

/-- An expression: what is added up, each after the first with the sign that stands before it. -/
structure Formula where
  first : Formula.Addend
  rest : List (Bool × Formula.Addend)
  deriving DecidableEq

namespace Formula

def factor (negative : Bool) : ℚ :=
  if negative then -1 else 1

def sumOf (worth : β → ℚ) (first : β) (rest : List (Bool × β)) : ℚ :=
  worth first + (rest.map fun (negative, b) => factor negative * worth b).sum

variable (point : String → ℚ)

def Product.coefficientValue (p : Product) : ℚ :=
  factor (p.sign.getD false) * p.coefficient.elim 1 WrittenNumeral.value

def Product.value (p : Product) : ℚ :=
  p.coefficientValue * (point p.first * point (p.second.getD p.first))

def Body.value : Body → ℚ
  | bracket first rest none => sumOf (Product.value point) first rest
  | bracket first rest (some d) => sumOf (Product.value point) first rest / d.value
  | multiple c x => c.value * point x
  | constant c => c.value
  | single x => point x

def Addend.value (a : Addend) : ℚ :=
  factor (a.sign.getD false) * a.body.value point

def value (e : Formula) : ℚ :=
  sumOf (Addend.value point) e.first e.rest

def Product.names (p : Product) : List String :=
  [p.first, p.second.getD p.first]

def Body.names : Body → List String
  | bracket first rest _ => first.names ++ rest.flatMap (·.2.names)
  | multiple _ x => [x]
  | constant _ => []
  | single x => [x]

def Addend.names (a : Addend) : List String :=
  a.body.names

def names (e : Formula) : List String :=
  e.first.names ++ e.rest.flatMap (·.2.names)

def Body.divisor : Body → Option WrittenNumeral
  | bracket _ _ d => d
  | multiple .. | constant _ | single _ => none

def Body.numerals : Body → List WrittenNumeral
  | bracket first rest divisor =>
    (first :: rest.map Prod.snd).filterMap Product.coefficient ++ divisor.toList
  | multiple c _ => [c]
  | constant c => [c]
  | single _ => []

def bodies (e : Formula) : List Body :=
  e.first.body :: e.rest.map (·.2.body)

/-- No bracket of the expression is divided by zero. -/
def IsDefined (e : Formula) : Prop :=
  ∀ b ∈ e.bodies, ∀ d ∈ b.divisor, d.value ≠ 0

instance (e : Formula) : Decidable e.IsDefined :=
  inferInstanceAs (Decidable (∀ b ∈ e.bodies, ∀ d ∈ b.divisor, d.value ≠ 0))

section monomials

variable (A : Arithmetic α)

def flattened (monomials : β → List (Monomial α)) (first : β) (rest : List (Bool × β)) :
    List (Monomial α) :=
  monomials first ++
    rest.flatMap fun (negative, b) => (monomials b).map (Monomial.map (A.signed negative))

def Product.monomials (p : Product) : List (Monomial α) :=
  [⟨A.signed (p.sign.getD false) (p.coefficient.elim A.one A.numeral), p.names⟩]

/-- All coefficients times the reciprocal of a divisor that is not zero. -/
def divided (divisor : Option WrittenNumeral) (ms : List (Monomial α)) : List (Monomial α) :=
  match divisor with
  | none => ms
  | some d =>
    if A.isZero (A.numeral d) then ms
    else ms.map (Monomial.map fun c => A.mul c (A.div A.one (A.numeral d)))

def Body.undivided : Body → List (Monomial α)
  | bracket first rest _ => flattened A (Product.monomials A) first rest
  | multiple c x => [⟨A.numeral c, [x]⟩]
  | constant c => [⟨A.numeral c, []⟩]
  | single x => [⟨A.one, [x]⟩]

def Body.monomials (b : Body) : List (Monomial α) :=
  divided A b.divisor (b.undivided A)

def Addend.monomials (a : Addend) : List (Monomial α) :=
  (a.body.monomials A).map (Monomial.map (A.signed (a.sign.getD false)))

def monomials (e : Formula) : List (Monomial α) :=
  flattened A (Addend.monomials A) e.first e.rest

end monomials

end Formula

namespace Monomial

variable {point : String → ℚ}

theorem total_append (ms ns : List (Monomial ℚ)) :
    total point (ms ++ ns) = total point ms + total point ns := by
  rw [total, List.map_append, List.sum_append]
  rfl

theorem total_singleton (m : Monomial ℚ) :
    total point [m] = m.coefficient * (m.names.map point).prod :=
  List.sum_singleton

theorem total_map {f : ℚ → ℚ} {k : ℚ} (scales : ∀ c, f c = k * c) (ms : List (Monomial ℚ)) :
    total point (ms.map (map f)) = k * total point ms := by
  rw [total, total, List.map_map, ← List.sum_map_mul_left]
  congr 1
  refine List.map_congr_left fun m _ => ?_
  change f m.coefficient * _ = _
  rw [scales, mul_assoc]
  rfl

theorem total_signed (negative : Bool) (ms : List (Monomial ℚ)) :
    total point (ms.map (map (Arithmetic.exact.signed negative))) =
      Formula.factor negative * total point ms := by
  refine total_map (fun c => ?_) ms
  cases negative
  · exact (one_mul c).symm
  · exact (neg_one_mul c).symm

end Monomial

namespace Formula

open Monomial

variable {point : String → ℚ}

theorem total_flattened {worth : β → ℚ} {monomials : β → List (Monomial ℚ)} {first : β}
    {rest : List (Bool × β)} (one : total point (monomials first) = worth first)
    (each : ∀ b ∈ rest, total point (monomials b.2) = worth b.2) :
    total point (flattened .exact monomials first rest) = sumOf worth first rest := by
  have others : total point (rest.flatMap fun (negative, b) =>
      (monomials b).map (map (Arithmetic.exact.signed negative))) =
        (rest.map fun (negative, b) => factor negative * worth b).sum := by
    induction rest with
    | nil => rfl
    | cons b rest ih =>
      obtain ⟨own, others⟩ := List.forall_mem_cons.1 each
      rw [List.flatMap_cons, total_append, total_signed, own, ih others]
      rfl
  rw [flattened, total_append, one, others]
  rfl

theorem Product.total_monomials (p : Product) :
    total point (p.monomials .exact) = p.value point := by
  have coefficient : Arithmetic.exact.signed (p.sign.getD false)
      (p.coefficient.elim Arithmetic.exact.one Arithmetic.exact.numeral) = p.coefficientValue := by
    rw [coefficientValue, factor, Arithmetic.signed]
    cases p.sign.getD false
    · exact (one_mul _).symm
    · exact (neg_one_mul _).symm
  rw [monomials, total_singleton, coefficient, value, names]
  simp

theorem Body.total_monomials (b : Body) (defined : ∀ d ∈ b.divisor, d.value ≠ 0) :
    total point (b.monomials .exact) = b.value point := by
  cases b with
  | bracket first rest divisor =>
    have inner : total point (flattened .exact (Product.monomials .exact) first rest) =
        sumOf (Product.value point) first rest :=
      total_flattened first.total_monomials fun b _ => b.2.total_monomials
    cases divisor with
    | none => exact inner
    | some d =>
      have nonzero : Arithmetic.exact.isZero (Arithmetic.exact.numeral d) = false :=
        decide_eq_false (defined d (Option.mem_some_self d))
      have scales : ∀ c : ℚ, Arithmetic.exact.mul c (Arithmetic.exact.div Arithmetic.exact.one
          (Arithmetic.exact.numeral d)) = (1 / d.value) * c :=
        fun c => mul_comm c _
      rw [monomials, divisor, divided, nonzero, if_neg Bool.false_ne_true, total_map scales,
        undivided, inner, value, one_div_mul_eq_div]
  | multiple c x => exact (total_singleton _).trans (by simp [value, Arithmetic.exact])
  | constant c => exact (total_singleton _).trans (by simp [value, Arithmetic.exact])
  | single x => exact (total_singleton _).trans (by simp [value, Arithmetic.exact])

theorem Addend.total_monomials (a : Addend) (defined : ∀ d ∈ a.body.divisor, d.value ≠ 0) :
    total point (a.monomials .exact) = a.value point := by
  rw [monomials, total_signed, a.body.total_monomials defined]
  rfl

theorem total_monomials {e : Formula} (defined : e.IsDefined) :
    total point (e.monomials .exact) = e.value point := by
  obtain ⟨first, others⟩ := List.forall_mem_cons.1 defined
  refine total_flattened (e.first.total_monomials first) fun b member => ?_
  exact b.2.total_monomials (others _ (List.mem_map_of_mem member))

section names

variable {A : Arithmetic α}

theorem names_map (f : α → α) (ms : List (Monomial α)) :
    (ms.map (Monomial.map f)).flatMap Monomial.names = ms.flatMap Monomial.names := by
  rw [List.flatMap_map]
  rfl

theorem names_flattened {monomials : β → List (Monomial α)} {names : β → List String} {first : β}
    {rest : List (Bool × β)} (each : ∀ b, (monomials b).flatMap Monomial.names = names b) :
    (flattened A monomials first rest).flatMap Monomial.names =
      names first ++ rest.flatMap (names ·.2) := by
  rw [flattened, List.flatMap_append, each, List.flatMap_assoc]
  congr 1
  refine List.flatMap_congr fun b _ => ?_
  rw [names_map, each]

theorem names_divided (divisor : Option WrittenNumeral) (ms : List (Monomial α)) :
    (divided A divisor ms).flatMap Monomial.names = ms.flatMap Monomial.names := by
  cases divisor with
  | none => rfl
  | some d =>
    rw [divided]
    split
    · rfl
    · exact names_map _ ms

theorem Body.names_monomials (b : Body) : (b.monomials A).flatMap Monomial.names = b.names := by
  rw [monomials, names_divided]
  cases b with
  | bracket first rest divisor => exact names_flattened fun p => List.append_nil _
  | multiple c x => rfl
  | constant c => rfl
  | single x => rfl

theorem names_monomials (e : Formula) : (e.monomials A).flatMap Monomial.names = e.names := by
  refine names_flattened fun a => ?_
  rw [Addend.monomials, names_map]
  exact a.body.names_monomials

end names

end Formula

namespace WrittenNumeral

theorem valueOf_eq (ds : List Nat) : Numeral.valueOf ds = Nat.ofDigits 10 ds.reverse := by
  induction ds using List.reverseRecOn with
  | nil => rfl
  | append_singleton ds d ih =>
    rw [Numeral.valueOf, List.foldl_append, List.reverse_append, List.reverse_singleton,
      List.singleton_append, Nat.ofDigits_cons, ← ih, Nat.add_comm]
    rfl

theorem partValue_eq (ds : List Nat) :
    partValue ds = (Nat.ofDigits 10 ds.reverse : ℕ) / 10 ^ ds.length := by
  induction ds with
  | nil => simp [partValue]
  | cons d ds ih =>
    rw [partValue, ih, List.reverse_cons, Nat.ofDigits_append, List.length_reverse,
      Nat.ofDigits_singleton, List.length_cons, pow_succ]
    push_cast
    field_simp
    ring

theorem value_decimal (n : WrittenNumeral) : n.decimal.value = n.value := by
  rw [Decimal.value, decimal, value, partValue_eq, valueOf_eq, List.reverse_append,
    Nat.ofDigits_append, List.length_reverse, zpow_sub₀ (by norm_num), zpow_natCast]
  push_cast
  field_simp
  ring

end WrittenNumeral

open Binary64

structure Monomial.IsExactly (m : Monomial Binary64) (n : Monomial ℚ) : Prop where
  coefficient : m.coefficient.toRat? = some n.coefficient
  names : m.names = n.names

namespace Formula

/-- All numerals are doubles, and so is what the division of a bracket gives. -/
structure Body.Unrounded (b : Body) : Prop where
  numerals : ∀ n ∈ b.numerals, IsDouble n.value
  quotients : ∀ d ∈ b.divisor, IsDouble (1 / d.value) ∧
    ∀ m ∈ b.undivided .exact, IsDouble (m.coefficient * (1 / d.value))

def Unrounded (e : Formula) : Prop :=
  ∀ b ∈ e.bodies, b.Unrounded

theorem isExactly_mk {x : Binary64} {r : ℚ} (value : x.toRat? = some r) (names : List String) :
    Monomial.IsExactly ⟨x, names⟩ ⟨r, names⟩ :=
  ⟨value, rfl⟩

theorem isExactly_signed {m : Monomial Binary64} {n : Monomial ℚ} (h : m.IsExactly n)
    (negative : Bool) : (m.map (Arithmetic.doubles.signed negative)).IsExactly
      (n.map (Arithmetic.exact.signed negative)) := by
  cases negative with
  | false => exact h
  | true => exact ⟨toRat?_neg h.coefficient, h.names⟩

theorem isExactly_map_signed {ms : List (Monomial Binary64)} {ns : List (Monomial ℚ)}
    (h : List.Forall₂ Monomial.IsExactly ms ns) (negative : Bool) :
    List.Forall₂ Monomial.IsExactly (ms.map (Monomial.map (Arithmetic.doubles.signed negative)))
      (ns.map (Monomial.map (Arithmetic.exact.signed negative))) := by
  rw [List.forall₂_map_left_iff, List.forall₂_map_right_iff]
  exact h.imp fun _ _ same => isExactly_signed same negative

theorem isExactly_map_mul {ms : List (Monomial Binary64)} {ns : List (Monomial ℚ)}
    (h : List.Forall₂ Monomial.IsExactly ms ns) {x : Binary64} {r : ℚ} (value : x.toRat? = some r)
    (products : ∀ n ∈ ns, IsDouble (n.coefficient * r)) :
    List.Forall₂ Monomial.IsExactly (ms.map (Monomial.map (Arithmetic.doubles.mul · x)))
      (ns.map (Monomial.map (Arithmetic.exact.mul · r))) := by
  induction h with
  | nil => exact .nil
  | cons same rest ih =>
    obtain ⟨product, others⟩ := List.forall_mem_cons.1 products
    exact .cons ⟨toRat?_mul same.coefficient value product, same.names⟩ (ih others)

theorem isExactly_flattened {doubles : β → List (Monomial Binary64)} {exact : β → List (Monomial ℚ)}
    {first : β} {rest : List (Bool × β)}
    (each : ∀ b ∈ first :: rest.map Prod.snd, List.Forall₂ Monomial.IsExactly (doubles b) (exact b)) :
    List.Forall₂ Monomial.IsExactly (flattened .doubles doubles first rest)
      (flattened .exact exact first rest) := by
  obtain ⟨one, others⟩ := List.forall_mem_cons.1 each
  refine List.rel_append one ?_
  clear each
  induction rest with
  | nil => exact .nil
  | cons b rest ih =>
    obtain ⟨own, others⟩ := List.forall_mem_cons.1 others
    exact List.rel_append (isExactly_map_signed own b.1) (ih others)

theorem toRat?_numeral {n : WrittenNumeral} (exact : IsDouble n.value) :
    (Arithmetic.doubles.numeral n).toRat? = some n.value := by
  have same := n.value_decimal
  rw [← same] at exact ⊢
  exact toRat?_ofDecimal exact

theorem toRat?_unit : Arithmetic.doubles.one.toRat? = some Arithmetic.exact.one := by
  have exact : (Number.int 1).IsExact := Number.isExact_one
  rw [Arithmetic.doubles_one, ← Number.double_int exact.isFinite, ← toRat?_settled]
  exact toRat?_one

theorem Product.isExactly_monomials {p : Product} (exact : ∀ n ∈ p.coefficient, IsDouble n.value) :
    List.Forall₂ Monomial.IsExactly (p.monomials .doubles) (p.monomials .exact) := by
  refine .cons ?_ .nil
  have magnitude : (p.coefficient.elim Arithmetic.doubles.one Arithmetic.doubles.numeral).toRat? =
      some (p.coefficient.elim Arithmetic.exact.one Arithmetic.exact.numeral) := by
    cases coefficient : p.coefficient with
    | none => exact toRat?_unit
    | some n => exact toRat?_numeral (exact n (Option.mem_def.2 coefficient))
  exact isExactly_signed (isExactly_mk magnitude p.names) _

theorem Body.isExactly_undivided {b : Body} (exact : ∀ n ∈ b.numerals, IsDouble n.value) :
    List.Forall₂ Monomial.IsExactly (b.undivided .doubles) (b.undivided .exact) := by
  cases b with
  | bracket first rest divisor =>
    refine isExactly_flattened fun p member => Product.isExactly_monomials fun n given => ?_
    exact exact n (List.mem_append_left _ (List.mem_filterMap.2 ⟨p, member, given⟩))
  | multiple c x => exact .cons (isExactly_mk (toRat?_numeral (exact c List.mem_cons_self)) _) .nil
  | constant c => exact .cons (isExactly_mk (toRat?_numeral (exact c List.mem_cons_self)) _) .nil
  | single x => exact .cons (isExactly_mk toRat?_unit _) .nil

theorem Body.divisor_mem {b : Body} {d : WrittenNumeral} (given : d ∈ b.divisor) :
    d ∈ b.numerals := by
  cases b with
  | bracket first rest divisor =>
    exact List.mem_append_right _ (Option.mem_toList.2 given)
  | multiple c x => cases given
  | constant c => cases given
  | single x => cases given

theorem isZero_numeral {n : WrittenNumeral} (exact : IsDouble n.value) :
    Arithmetic.doubles.isZero (Arithmetic.doubles.numeral n) = decide (n.value = 0) := by
  have value := toRat?_numeral exact
  have zero := rational_eq_zero_iff (isFinite_of_toRat? value)
  rw [rational_eq value] at zero
  exact Bool.eq_iff_iff.2 (zero.symm.trans decide_eq_true_iff.symm)

theorem Body.isExactly_monomials {b : Body} (unrounded : b.Unrounded) :
    List.Forall₂ Monomial.IsExactly (b.monomials .doubles) (b.monomials .exact) := by
  have inner := isExactly_undivided unrounded.numerals
  rw [monomials, monomials]
  cases given : b.divisor with
  | none => exact inner
  | some d =>
    have member := Option.mem_def.2 given
    have numeral : IsDouble d.value := unrounded.numerals d (divisor_mem member)
    obtain ⟨isReciprocal, areQuotients⟩ := unrounded.quotients d member
    have zero : Arithmetic.doubles.isZero (Arithmetic.doubles.numeral d) =
        Arithmetic.exact.isZero (Arithmetic.exact.numeral d) := isZero_numeral numeral
    rw [divided, divided, zero]
    split
    next => exact inner
    next nonzero =>
      have apart : d.value ≠ 0 := of_decide_eq_false (Bool.eq_false_of_not_eq_true nonzero)
      have reciprocal := toRat?_div toRat?_unit (toRat?_numeral numeral) apart isReciprocal
      rw [← Arithmetic.doubles_div] at reciprocal
      exact isExactly_map_mul inner reciprocal areQuotients

theorem isExactly_monomials {e : Formula} (unrounded : e.Unrounded) :
    List.Forall₂ Monomial.IsExactly (e.monomials .doubles) (e.monomials .exact) := by
  have bodies : ∀ a ∈ e.first :: e.rest.map Prod.snd, a.body.Unrounded := by
    obtain ⟨first, others⟩ := List.forall_mem_cons.1 unrounded
    refine List.forall_mem_cons.2 ⟨first, List.forall_mem_map.2 fun a member => ?_⟩
    exact others _ (List.mem_map_of_mem member)
  refine isExactly_flattened fun a member => ?_
  exact isExactly_map_signed (a.body.isExactly_monomials (bodies a member)) _

end Formula

def Summand.total (point : String → ℚ) (summands : List Summand) : ℚ :=
  (summands.map fun s => s.coefficient.rational * (s.names.map point).prod).sum

theorem Summand.total_eq {point : String → ℚ} {summands : List Summand} {ns : List (Monomial ℚ)}
    (exactly : List.Forall₂ Monomial.IsExactly (summands.map Summand.monomial) ns) :
    Summand.total point summands = Monomial.total point ns := by
  rw [List.forall₂_map_left_iff] at exactly
  induction exactly with
  | nil => rfl
  | @cons s n summands ns same rest ih =>
    have coefficient : s.coefficient.rational = n.coefficient := rational_eq same.coefficient
    have names : s.names = n.names := same.names
    rw [Summand.total, Monomial.total, List.map_cons, List.map_cons, List.sum_cons, List.sum_cons,
      coefficient, names]
    exact congrArg _ ih

end LinOpt.LpText
