import LinOpt.Proofs.LpText.Formula
import LinOpt.Proofs.LpText.Spacing

namespace LinOpt

namespace LpText

open Pattern Grammar

/-- A numeral of a text, as long as it can be. A digit whose value is not known counts as zero. -/
inductive WrittenNumeral.Spelled : WrittenNumeral → List Char → List Char → Prop
  | intro {s u v t : List Char} {whole part : List Nat} {power : Int}
      (before : Numeral.digits digit? s = (whole, u))
      (after : Numeral.fraction digit? u = (part, v))
      (times : Numeral.power digit? v = (power, t))
      (some : ¬(whole = [] ∧ part = [])) : Spelled ⟨whole, part, power⟩ s t

def Padded (spelled : β → List Char → List Char → Prop) (b : β) (s t : List Char) : Prop :=
  ∃ u, spelled b s u ∧ t = skip u

/-- What is spelled in a text one after the other, each after a sign. -/
inductive Signed (spelled : β → List Char → List Char → Prop) :
    List (Bool × β) → List Char → List Char → Prop
  | stop {s : List Char} : Signed spelled [] s s
  | next {s t u v : List Char} {negative : Bool} {b : β} {rest : List (Bool × β)}
      (sign : (lexeme Grammar.sign).Reads s negative t) (first : spelled b t u)
      (others : Signed spelled rest u v) : Signed spelled ((negative, b) :: rest) s v

namespace Formula

inductive Product.Spelled : Product → List Char → List Char → Prop
  | plain {s t u v : List Char} {negative : Option Bool} {x : String} {y : Option String}
      (sign : (lexeme (maybe Grammar.sign)).Reads s negative t)
      (first : (lexeme variableName).Reads t x u) (second : secondFactor.Reads u y v) :
      Spelled ⟨negative, none, x, y⟩ s v
  | scaled {s t u v w : List Char} {negative : Option Bool} {c : WrittenNumeral} {x : String}
      {y : Option String} (sign : (lexeme (maybe Grammar.sign)).Reads s negative t)
      (coefficient : Padded WrittenNumeral.Spelled c t u)
      (first : (lexeme variableName).Reads u x v) (second : secondFactor.Reads v y w) :
      Spelled ⟨negative, some c, x, y⟩ s w

inductive BracketSpelled : Product → List (Bool × Product) → List Char → List Char → Prop
  | intro {s t u v w : List Char} {first : Product} {rest : List (Bool × Product)}
      (opens : (lexeme (literal "[")).Reads s () t) (one : first.Spelled t u)
      (others : Signed Product.Spelled rest u v) (closes : (lexeme (literal "]")).Reads v () w) :
      BracketSpelled first rest s w

/-- What follows a bracket, which is a divisor wherever one stands. -/
inductive DivisorSpelled : Option WrittenNumeral → List Char → List Char → Prop
  | absent {s : List Char} (fails : divisor.Fails s) : DivisorSpelled none s s
  | present {s t u : List Char} {d : WrittenNumeral} (slash : (lexeme (literal "/")).Reads s () t)
      (number : Padded WrittenNumeral.Spelled d t u) : DivisorSpelled (some d) s u

inductive Body.Spelled : Body → List Char → List Char → Prop
  | bracket {s t u : List Char} {first : Product} {rest : List (Bool × Product)}
      {d? : Option WrittenNumeral} (products : BracketSpelled first rest s t)
      (divisor : DivisorSpelled d? t u) : Spelled (.bracket first rest d?) s u
  | multiple {s t u : List Char} {c : WrittenNumeral} {x : String} (number : c.Spelled s t)
      (name : variableName.Reads (skip t) x u) : Spelled (.multiple c x) s u
  | constant {s t : List Char} {c : WrittenNumeral} (number : c.Spelled s t)
      (alone : variableName.Fails (skip t)) : Spelled (.constant c) s t
  | single {s t : List Char} {x : String} (name : variableName.Reads s x t) :
      Spelled (.single x) s t

def Addend.Spelled (a : Addend) (s t : List Char) : Prop :=
  ∃ u, (lexeme (maybe Grammar.sign)).Reads s a.sign u ∧ Padded Body.Spelled a.body u t

end Formula

/-- The text begins with the expression, and this is what comes after it. -/
def Formula.Spelled (e : Formula) (s t : List Char) : Prop :=
  ∃ u, e.first.Spelled s u ∧ Signed Addend.Spelled e.rest u t

/-- A pattern that reads what stands for monomials, where something is spelled that gives these
monomials. -/
def Tells (p : Pattern γ) (read : γ → List (Monomial Binary64))
    (spelled : β → List Char → List Char → Prop) (monomials : β → List (Monomial Binary64)) : Prop :=
  ∀ s c t, p.Reads s c t → ∃ b, spelled b s t ∧ monomials b = read c

theorem numeral_spelled {s t : List Char} {x : Binary64} (reads : number.Reads s x t) :
    ∃ n : WrittenNumeral, n.Spelled s t ∧ x = Arithmetic.doubles.numeral n := by
  obtain ⟨d, scanned, rfl⟩ := reads_map.1 reads
  rw [Reads, run_token, Numeral.scan] at scanned
  dsimp only at scanned
  split at scanned
  · cases scanned
  next some =>
    cases scanned
    refine ⟨⟨_, _, _⟩, .intro rfl rfl rfl fun none => some ?_, rfl⟩
    rw [Bool.and_eq_true, List.isEmpty_iff, List.isEmpty_iff]
    exact none

theorem number_reads_spelled {n : WrittenNumeral} {s t : List Char} (h : n.Spelled s t) :
    number.Reads s (Arithmetic.doubles.numeral n) t := by
  cases h with
  | @intro s u v t whole part power before after times some =>
    refine reads_map.2 ⟨WrittenNumeral.decimal ⟨whole, part, power⟩, ?_, rfl⟩
    rw [Reads, run_token, Numeral.scan, before]
    dsimp only
    rw [after]
    dsimp only
    rw [if_neg (by simpa using some), times]
    rfl

theorem padded_spelled {s t : List Char} {x : Binary64} (reads : (lexeme number).Reads s x t) :
    ∃ n, Padded WrittenNumeral.Spelled n s t ∧ x = Arithmetic.doubles.numeral n := by
  obtain ⟨u, number, rfl⟩ := lexeme_reads_iff.1 reads
  obtain ⟨n, spelled, value⟩ := numeral_spelled number
  exact ⟨n, ⟨u, spelled, rfl⟩, value⟩

theorem lexeme_number_reads {n : WrittenNumeral} {s t : List Char}
    (h : Padded WrittenNumeral.Spelled n s t) :
    (lexeme number).Reads s (Arithmetic.doubles.numeral n) t := by
  obtain ⟨u, spelled, rfl⟩ := h
  exact reads_lexeme (number_reads_spelled spelled)

theorem monomial_linear (c : Binary64) (x : String) : (Summand.linear c x).monomial = ⟨c, [x]⟩ :=
  rfl

theorem monomial_signed (s : Summand) (negative : Bool) :
    (s.signed negative).monomial = s.monomial.map (Arithmetic.doubles.signed negative) := by
  cases negative
  · rfl
  · cases s <;> rfl

theorem map_monomial_signed (summands : List Summand) (negative : Bool) :
    (summands.map (·.signed negative)).map Summand.monomial =
      (summands.map Summand.monomial).map (Monomial.map (Arithmetic.doubles.signed negative)) := by
  rw [List.map_map, List.map_map]
  exact List.map_congr_left fun s _ => monomial_signed s negative

theorem monomial_mapCoefficient (s : Summand) (f : Binary64 → Binary64) :
    (s.mapCoefficient f).monomial = s.monomial.map f := by
  cases s <;> rfl

theorem monomial_quadraticSummand (negative : Option Bool) (c : Option Binary64) (x : String)
    (y : Option String) : (quadraticSummand negative c x y).monomial =
      ⟨Arithmetic.doubles.signed (negative.getD false) (c.getD Arithmetic.doubles.one),
        [x, y.getD x]⟩ := by
  rw [Arithmetic.doubles_one]
  rfl

theorem quadraticTerm_tells :
    Tells quadraticTerm (fun s => [s.monomial]) Formula.Product.Spelled
      (Formula.Product.monomials .doubles) := by
  intro s summand t reads
  obtain ⟨⟨negative, c?, x, y⟩, parts, rfl⟩ := reads_map.1 reads
  obtain ⟨u, sign, rest⟩ := reads_pair.1 parts
  obtain ⟨v, coefficient, factors⟩ := reads_pair.1 rest
  obtain ⟨w, first, second⟩ := reads_pair.1 factors
  dsimp only at sign coefficient first second ⊢
  rw [monomial_quadraticSummand]
  rcases reads_maybe coefficient with ⟨c, rfl, number⟩ | ⟨rfl, rfl, -⟩
  · obtain ⟨n, spelled, rfl⟩ := padded_spelled number
    exact ⟨⟨negative, some n, x, y⟩, .scaled sign spelled first second, rfl⟩
  · exact ⟨⟨negative, none, x, y⟩, .plain sign first second, rfl⟩

variable {p : Pattern γ} {read : γ → List (Monomial Binary64)}
  {spelled : β → List Char → List Char → Prop} {monomials : β → List (Monomial Binary64)}

theorem Tells.repeated (h : Tells p read spelled monomials) (limit s : List Char) :
    ∃ rest, Signed spelled rest s (repeated (run (pair (lexeme sign) p)) limit s).2 ∧
      (rest.flatMap fun (negative, b) =>
        (monomials b).map (Monomial.map (Arithmetic.doubles.signed negative))) =
      (repeated (run (pair (lexeme sign) p)) limit s).1.flatMap fun (negative, c) =>
        (read c).map (Monomial.map (Arithmetic.doubles.signed negative)) := by
  induction limit generalizing s with
  | nil => exact ⟨[], .stop, rfl⟩
  | cons c limit ih =>
    rw [Pattern.repeated]
    split
    · exact ⟨[], .stop, rfl⟩
    · split
      next => exact ⟨[], .stop, rfl⟩
      next both t found =>
        obtain ⟨u, sign, first⟩ := reads_pair.1 found
        obtain ⟨b, isSpelled, same⟩ := h _ _ _ first
        obtain ⟨rest, others, flattened⟩ := ih t
        refine ⟨(both.1, b) :: rest, .next sign isSpelled others, ?_⟩
        rw [List.flatMap_cons, List.flatMap_cons, flattened]
        dsimp only
        rw [same]

theorem Tells.many (h : Tells p read spelled monomials) {s t : List Char} {cs : List (Bool × γ)}
    (reads : (Pattern.many (pair (lexeme sign) p)).Reads s cs t) :
    ∃ rest, Signed spelled rest s t ∧
      (rest.flatMap fun (negative, b) =>
        (monomials b).map (Monomial.map (Arithmetic.doubles.signed negative))) =
      cs.flatMap fun (negative, c) =>
        (read c).map (Monomial.map (Arithmetic.doubles.signed negative)) := by
  obtain ⟨rfl, rfl⟩ := Prod.mk.inj (Option.some.inj reads)
  exact h.repeated s s

theorem divisor_fails_nil : divisor.Fails [] :=
  rfl

theorem monomial_divide (d? : Option WrittenNumeral) (summands : List Summand) :
    (divide (d?.map Arithmetic.doubles.numeral) summands).map Summand.monomial =
      Formula.divided .doubles d? (summands.map Summand.monomial) := by
  cases d? with
  | none => rfl
  | some d =>
    rw [Option.map_some, divide, Formula.divided, Arithmetic.doubles_isZero]
    by_cases zero : (Number.real (Arithmetic.doubles.numeral d)).isZero = true
    · rw [if_pos zero, if_pos zero]
    · rw [if_neg zero, if_neg zero, List.map_map, List.map_map, Arithmetic.doubles_div,
        Arithmetic.doubles_one]
      exact List.map_congr_left fun s _ => monomial_mapCoefficient s _

theorem quadraticBlock_tells :
    Tells quadraticBlock (List.map Summand.monomial) Formula.Body.Spelled
      (Formula.Body.monomials .doubles) := by
  intro s summands t reads
  obtain ⟨⟨first, others, d?⟩, parts, rfl⟩ := reads_map.1 reads
  obtain ⟨u, opens, rest⟩ := reads_after.1 parts
  obtain ⟨v, one, rest⟩ := reads_pair.1 rest
  obtain ⟨w, more, rest⟩ := reads_pair.1 rest
  obtain ⟨z, closes, division⟩ := reads_after.1 rest
  dsimp only at one more division ⊢
  obtain ⟨p, isFirst, same⟩ := quadraticTerm_tells _ _ _ one
  obtain ⟨ps, areOthers, flattened⟩ := quadraticTerm_tells.many more
  have bracket : Formula.BracketSpelled p ps s z := .intro opens isFirst areOthers closes
  have inner : (first :: others.map signedSummand).map Summand.monomial =
      Formula.flattened .doubles (Formula.Product.monomials .doubles) p ps := by
    rw [Formula.flattened, flattened, same, List.map_cons, List.map_map, List.map_eq_flatMap]
    refine congrArg _ (List.flatMap_congr fun b _ => ?_)
    exact congrArg (fun m => [m]) (monomial_signed b.2 b.1)
  rcases reads_maybe division with ⟨d, rfl, number⟩ | ⟨rfl, rfl, ends⟩
  · obtain ⟨v, slash, number⟩ := reads_after.1 number
    obtain ⟨n, spelled, rfl⟩ := padded_spelled number
    refine ⟨.bracket p ps (some n), .bracket bracket (.present slash spelled), ?_⟩
    rw [Formula.Body.monomials, Formula.Body.undivided, ← inner]
    exact (monomial_divide (some n) _).symm
  · have fails : divisor.Fails t := ends.elim (fun empty => empty ▸ divisor_fails_nil) id
    refine ⟨.bracket p ps none, .bracket bracket (.absent fails), ?_⟩
    rw [Formula.Body.monomials, Formula.Body.undivided, ← inner]
    exact (monomial_divide none _).symm

theorem termBody_tells :
    Tells termBody (List.map Summand.monomial) Formula.Body.Spelled
      (Formula.Body.monomials .doubles) := by
  intro s summands t reads
  rcases reads_either.1 reads with bracket | ⟨-, reads⟩
  · exact quadraticBlock_tells _ _ _ bracket
  rcases reads_either.1 reads with multiple | ⟨notMultiple, reads⟩
  · obtain ⟨⟨c, x⟩, parts, rfl⟩ := reads_map.1 multiple
    obtain ⟨u, number, name⟩ := reads_pair.1 parts
    obtain ⟨n, ⟨v, spelled, rfl⟩, same⟩ := padded_spelled number
    dsimp only at name same ⊢
    rw [same]
    exact ⟨.multiple n x, .multiple spelled name, rfl⟩
  rcases reads_either.1 reads with constant | ⟨-, single⟩
  · obtain ⟨c, number, rfl⟩ := reads_map.1 constant
    obtain ⟨n, spelled, rfl⟩ := numeral_spelled number
    -- With a name after it, the numeral would have been read as a multiple.
    have alone : variableName.Fails (skip t) := by
      by_contra named
      obtain ⟨found, name⟩ := Option.ne_none_iff_exists'.1 named
      exact notMultiple.not_reads (((reads_lexeme number).pair name).map _)
    exact ⟨.constant n, .constant spelled alone, rfl⟩
  · obtain ⟨x, name, rfl⟩ := reads_map.1 single
    refine ⟨.single x, .single name, ?_⟩
    rw [Formula.Body.monomials, Formula.Body.undivided, Arithmetic.doubles_one, List.map_singleton,
      monomial_linear]
    rfl

theorem term_tells :
    Tells term (List.map Summand.monomial) Formula.Addend.Spelled
      (Formula.Addend.monomials .doubles) := by
  intro s summands t reads
  obtain ⟨⟨negative, body⟩, parts, rfl⟩ := reads_map.1 reads
  obtain ⟨u, sign, rest⟩ := reads_pair.1 parts
  obtain ⟨v, isBody, rfl⟩ := lexeme_reads_iff.1 rest
  obtain ⟨b, spelled, same⟩ := termBody_tells _ _ _ isBody
  refine ⟨⟨negative, b⟩, ⟨u, sign, v, spelled, rfl⟩, ?_⟩
  rw [Formula.Addend.monomials, same]
  exact (map_monomial_signed body _).symm

theorem expression_tells :
    Tells expression (List.map Summand.monomial) Formula.Spelled (Formula.monomials .doubles) := by
  intro s summands t reads
  obtain ⟨⟨first, others⟩, parts, rfl⟩ := reads_map.1 reads
  obtain ⟨u, one, more⟩ := reads_pair.1 parts
  obtain ⟨a, isFirst, same⟩ := term_tells _ _ _ one
  obtain ⟨rest, areOthers, flattened⟩ := term_tells.many more
  refine ⟨⟨a, rest⟩, ⟨u, isFirst, areOthers⟩, ?_⟩
  rw [Formula.monomials, Formula.flattened, flattened, same, List.map_append, List.map_flatMap]
  exact congrArg _ (List.flatMap_congr fun b _ => (map_monomial_signed b.2 b.1).symm)

theorem length_of_yields {p : Pattern α} {P : α → Prop} (h : ∀ text, p.Yields text P)
    {s t : List Char} {a : α} (reads : p.Reads s a t) : t.length ≤ s.length :=
  (h s s a t (List.suffix_refl s) reads).2.length_le

theorem WrittenNumeral.Spelled.length_le {n : WrittenNumeral} {s t : List Char}
    (h : n.Spelled s t) : t.length ≤ s.length :=
  length_of_yields (fun _ => number_yields) (number_reads_spelled h)

theorem WrittenNumeral.Spelled.unique {n n' : WrittenNumeral} {s t t' : List Char}
    (h : n.Spelled s t) (g : n'.Spelled s t') : n = n' ∧ t = t' := by
  obtain ⟨before, after, times, -⟩ := h
  obtain ⟨before', after', times', -⟩ := g
  obtain ⟨rfl, rfl⟩ := Prod.mk.inj (before.symm.trans before')
  obtain ⟨rfl, rfl⟩ := Prod.mk.inj (after.symm.trans after')
  obtain ⟨rfl, rfl⟩ := Prod.mk.inj (times.symm.trans times')
  exact ⟨rfl, rfl⟩

/-- No text begins both with a numeral and with a name. -/
theorem WrittenNumeral.Spelled.not_name {n : WrittenNumeral} {s t u : List Char} {x : String}
    (h : n.Spelled s t) : ¬variableName.Reads s x u := by
  intro name
  obtain ⟨v, unreserved, scanned⟩ := reads_after.1 name
  obtain ⟨-, rfl⟩ := reads_unless.1 unreserved
  obtain ⟨rfl, ⟨⟨c, rest, chars, start⟩, named⟩, -⟩ := scanName_eq_some scanned
  have basic := (printable_of_isNameChar (named c (chars ▸ List.mem_cons_self))).2
  have notPoint : c ≠ '.' := by
    rintro rfl
    cases start
  rw [chars] at h
  have fails := number_fails (Nat.lt_trans basic (by decide)) (notDigit_of_isNameStart start)
    notPoint (rest ++ u)
  exact fails.not_reads (number_reads_spelled h)

theorem Padded.not_name {n : WrittenNumeral} {s t u : List Char} {x : String}
    (h : Padded WrittenNumeral.Spelled n s t) : ¬(lexeme variableName).Reads s x u := by
  obtain ⟨v, number, -⟩ := h
  intro reads
  obtain ⟨w, name, -⟩ := lexeme_reads_iff.1 reads
  exact number.not_name name

section chains

variable {s t t' : List Char} {b b' : β} {rest rest' : List (Bool × β)}

theorem Padded.unique (h : Padded spelled b s t) (g : Padded spelled b' s t')
    (same : ∀ {u u'}, spelled b s u → spelled b' s u' → b = b' ∧ u = u') : b = b' ∧ t = t' := by
  obtain ⟨u, isSpelled, rfl⟩ := h
  obtain ⟨u', isSpelled', rfl⟩ := g
  obtain ⟨rfl, rfl⟩ := same isSpelled isSpelled'
  exact ⟨rfl, rfl⟩

theorem Signed.length_le (h : Signed spelled rest s t)
    (shrinks : ∀ {b s t}, spelled b s t → t.length ≤ s.length) : t.length ≤ s.length := by
  induction h with
  | stop => exact Nat.le_refl _
  | next sign first _ ih =>
    have signed := sign_advances.lexeme _ _ _ sign
    have one := shrinks first
    omega

theorem Signed.length_lt {b : Bool × β} (h : Signed spelled (b :: rest) s t)
    (shrinks : ∀ {b s t}, spelled b s t → t.length ≤ s.length) : t.length < s.length := by
  cases h with
  | next sign first others =>
    have signed := sign_advances.lexeme _ _ _ sign
    have one := shrinks first
    have more := others.length_le shrinks
    omega

theorem Signed.compare (h : Signed spelled rest s t) (g : Signed spelled rest' s t')
    (same : ∀ {b b' s t t'}, spelled b s t → spelled b' s t' → b = b' ∧ t = t') :
    (rest = rest' ∧ t = t') ∨ (∃ b more, Signed spelled (b :: more) t t') ∨
      ∃ b more, Signed spelled (b :: more) t' t := by
  induction h generalizing rest' with
  | stop =>
    cases g with
    | stop => exact .inl ⟨rfl, rfl⟩
    | next sign first others => exact .inr (.inl ⟨_, _, .next sign first others⟩)
  | next sign first others ih =>
    cases g with
    | stop => exact .inr (.inr ⟨_, _, .next sign first others⟩)
    | next sign' first' others' =>
      obtain ⟨rfl, rfl⟩ := sign.unique sign'
      obtain ⟨rfl, rfl⟩ := same first first'
      rcases ih others' with ⟨rfl, rfl⟩ | goesOn
      · exact .inl ⟨rfl, rfl⟩
      · exact .inr goesOn

end chains

namespace Formula

variable {s t t' : List Char}

theorem Product.Spelled.unique {p p' : Product} (h : p.Spelled s t) (g : p'.Spelled s t') :
    p = p' ∧ t = t' := by
  cases h with
  | plain sign first second =>
    cases g with
    | plain sign' first' second' =>
      obtain ⟨rfl, rfl⟩ := sign.unique sign'
      obtain ⟨rfl, rfl⟩ := first.unique first'
      obtain ⟨rfl, rfl⟩ := second.unique second'
      exact ⟨rfl, rfl⟩
    | scaled sign' coefficient' first' second' =>
      obtain ⟨rfl, rfl⟩ := sign.unique sign'
      exact absurd first coefficient'.not_name
  | scaled sign coefficient first second =>
    cases g with
    | plain sign' first' second' =>
      obtain ⟨rfl, rfl⟩ := sign.unique sign'
      exact absurd first' coefficient.not_name
    | scaled sign' coefficient' first' second' =>
      obtain ⟨rfl, rfl⟩ := sign.unique sign'
      obtain ⟨rfl, rfl⟩ := coefficient.unique coefficient' WrittenNumeral.Spelled.unique
      obtain ⟨rfl, rfl⟩ := first.unique first'
      obtain ⟨rfl, rfl⟩ := second.unique second'
      exact ⟨rfl, rfl⟩

theorem symbol_eq {text : String} {u : List Char} (reads : (lexeme (literal text)).Reads s () u) :
    ∃ v, s = text.toList ++ v := by
  obtain ⟨v, symbol, -⟩ := lexeme_reads_iff.1 reads
  rw [literal, Reads, run_token, scanText] at symbol
  split at symbol
  next starts => exact (List.isPrefixOf_iff_prefix.1 starts).imp fun _ => Eq.symm
  next => cases symbol

theorem not_sign_of_closes {u v : List Char} {negative : Bool}
    (closes : (lexeme (literal "]")).Reads s () u) : ¬(lexeme sign).Reads s negative v := by
  obtain ⟨w, rfl⟩ := symbol_eq closes
  exact (fails_lexeme (sign_fails (by decide) w)).not_reads

theorem BracketSpelled.unique {p p' : Product} {rest rest' : List (Bool × Product)}
    (h : BracketSpelled p rest s t) (g : BracketSpelled p' rest' s t') :
    (p = p' ∧ rest = rest') ∧ t = t' := by
  obtain ⟨opens, one, others, closes⟩ := h
  obtain ⟨opens', one', others', closes'⟩ := g
  obtain ⟨-, rfl⟩ := opens.unique opens'
  obtain ⟨rfl, rfl⟩ := one.unique one'
  rcases others.compare others' Product.Spelled.unique with ⟨rfl, rfl⟩ | ⟨b, more, goesOn⟩ |
    ⟨b, more, goesOn⟩
  · obtain ⟨-, rfl⟩ := closes.unique closes'
    exact ⟨⟨rfl, rfl⟩, rfl⟩
  · cases goesOn with
    | next sign _ _ => exact absurd sign (not_sign_of_closes closes)
  · cases goesOn with
    | next sign _ _ => exact absurd sign (not_sign_of_closes closes')

theorem BracketSpelled.not_number {p : Product} {rest : List (Bool × Product)}
    {n : WrittenNumeral} {u : List Char} (h : BracketSpelled p rest s t) : ¬n.Spelled s u := by
  obtain ⟨opens, -, -, -⟩ := h
  obtain ⟨w, rfl⟩ := symbol_eq opens
  intro number
  exact (number_fails (by decide) rfl (by decide) w).not_reads (number_reads_spelled number)

theorem BracketSpelled.not_name {p : Product} {rest : List (Bool × Product)} {x : String}
    {u : List Char} (h : BracketSpelled p rest s t) : ¬variableName.Reads s x u := by
  obtain ⟨opens, -, -, -⟩ := h
  obtain ⟨w, rfl⟩ := symbol_eq opens
  intro name
  obtain ⟨v, unreserved, scanned⟩ := reads_after.1 name
  obtain ⟨-, rfl⟩ := reads_unless.1 unreserved
  cases scanned

theorem DivisorSpelled.unique {d? d?' : Option WrittenNumeral} (h : DivisorSpelled d? s t)
    (g : DivisorSpelled d?' s t') : d? = d?' ∧ t = t' := by
  cases h with
  | absent fails =>
    cases g with
    | absent _ => exact ⟨rfl, rfl⟩
    | present slash number =>
      exact absurd (slash.after (lexeme_number_reads number)) fails.not_reads
  | present slash number =>
    cases g with
    | absent fails => exact absurd (slash.after (lexeme_number_reads number)) fails.not_reads
    | present slash' number' =>
      obtain ⟨-, rfl⟩ := slash.unique slash'
      obtain ⟨rfl, rfl⟩ := number.unique number' WrittenNumeral.Spelled.unique
      exact ⟨rfl, rfl⟩

theorem Body.Spelled.unique {b b' : Body} (h : b.Spelled s t) (g : b'.Spelled s t') :
    b = b' ∧ t = t' := by
  -- A bracket, a numeral or neither stands first, and a numeral may have a name after it: no two
  -- kinds of bodies begin alike.
  cases h with
  | bracket products divisor =>
    cases g with
    | bracket products' divisor' =>
      obtain ⟨⟨rfl, rfl⟩, rfl⟩ := products.unique products'
      obtain ⟨rfl, rfl⟩ := divisor.unique divisor'
      exact ⟨rfl, rfl⟩
    | multiple number _ => exact absurd number products.not_number
    | constant number _ => exact absurd number products.not_number
    | single name => exact absurd name products.not_name
  | multiple number name =>
    cases g with
    | bracket products _ => exact absurd number products.not_number
    | multiple number' name' =>
      obtain ⟨rfl, rfl⟩ := number.unique number'
      obtain ⟨rfl, rfl⟩ := name.unique name'
      exact ⟨rfl, rfl⟩
    | constant number' alone =>
      obtain ⟨rfl, rfl⟩ := number.unique number'
      exact absurd name alone.not_reads
    | single name' => exact absurd name' number.not_name
  | constant number alone =>
    cases g with
    | bracket products _ => exact absurd number products.not_number
    | multiple number' name =>
      obtain ⟨rfl, rfl⟩ := number.unique number'
      exact absurd name alone.not_reads
    | constant number' _ =>
      obtain ⟨rfl, rfl⟩ := number.unique number'
      exact ⟨rfl, rfl⟩
    | single name => exact absurd name number.not_name
  | single name =>
    cases g with
    | bracket products _ => exact absurd name products.not_name
    | multiple number _ => exact absurd name number.not_name
    | constant number _ => exact absurd name number.not_name
    | single name' =>
      obtain ⟨rfl, rfl⟩ := name.unique name'
      exact ⟨rfl, rfl⟩

theorem Addend.Spelled.unique {a a' : Addend} (h : a.Spelled s t) (g : a'.Spelled s t') :
    a = a' ∧ t = t' := by
  obtain ⟨u, sign, body⟩ := h
  obtain ⟨u', sign', body'⟩ := g
  obtain ⟨negative, rfl⟩ := sign.unique sign'
  obtain ⟨same, rfl⟩ := body.unique body' Body.Spelled.unique
  exact ⟨congrArg₂ Addend.mk negative same, rfl⟩

theorem maybeSign_length {u : List Char} {negative : Option Bool}
    (reads : (lexeme (maybe Grammar.sign)).Reads s negative u) : u.length ≤ s.length :=
  length_of_yields (fun _ => Yields.lexeme sign_yields.maybe) reads

theorem Product.Spelled.length_le {p : Product} (h : p.Spelled s t) : t.length ≤ s.length := by
  have named {u v : List Char} {x : String} (first : (lexeme variableName).Reads u x v) :
      v.length ≤ u.length := length_of_yields name_yields first
  have factor {u v : List Char} {y : Option String} (second : secondFactor.Reads u y v) :
      v.length ≤ u.length :=
    length_of_yields (fun _ => secondFactor_yields variableName_nonempty) second
  cases h with
  | plain sign first second =>
    have signed := maybeSign_length sign
    have name := named first
    have other := factor second
    omega
  | scaled sign coefficient first second =>
    obtain ⟨u, number, rfl⟩ := coefficient
    have signed := maybeSign_length sign
    have digits := number.length_le
    have blanks := skip_length u
    have name := named first
    have other := factor second
    omega

theorem Body.Spelled.length_le {b : Body} (h : b.Spelled s t) : t.length ≤ s.length := by
  have symbol {text : String} {u v : List Char} (reads : (lexeme (literal text)).Reads u () v) :
      v.length ≤ u.length := length_of_yields (symbol_yields text) reads
  have named {u v : List Char} {x : String} (name : variableName.Reads u x v) :
      v.length ≤ u.length := length_of_yields (fun _ => variableName_nonempty) name
  cases h with
  | bracket products divisor =>
    obtain ⟨opens, one, others, closes⟩ := products
    have opened := symbol opens
    have first := one.length_le
    have more := others.length_le Product.Spelled.length_le
    have closed := symbol closes
    cases divisor with
    | absent _ => omega
    | present slash number =>
      obtain ⟨u, spelled, rfl⟩ := number
      have divided := symbol slash
      have digits := spelled.length_le
      have blanks := skip_length u
      omega
  | @multiple _ u _ _ _ number name =>
    have digits := number.length_le
    have blanks := skip_length u
    have known := named name
    omega
  | constant number _ => exact number.length_le
  | single name => exact named name

theorem Addend.Spelled.length_le {a : Addend} (h : a.Spelled s t) : t.length ≤ s.length := by
  obtain ⟨u, sign, v, body, rfl⟩ := h
  have signed := maybeSign_length sign
  have inner := body.length_le
  have blanks := skip_length v
  omega

end Formula

/-- What stands between two places of a text is one expression at most. -/
theorem Formula.Spelled.unique {e e' : Formula} {s t : List Char} (h : e.Spelled s t)
    (g : e'.Spelled s t) : e = e' := by
  obtain ⟨u, first, others⟩ := h
  obtain ⟨u', first', others'⟩ := g
  obtain ⟨one, rfl⟩ := first.unique first'
  rcases others.compare others' Addend.Spelled.unique with ⟨rest, -⟩ | ⟨b, more, goesOn⟩ |
    ⟨b, more, goesOn⟩
  · exact congrArg₂ Formula.mk one rest
  · exact absurd (goesOn.length_lt Addend.Spelled.length_le) (Nat.lt_irrefl _)
  · exact absurd (goesOn.length_lt Addend.Spelled.length_le) (Nat.lt_irrefl _)

/-- What is read at the start of a text are the summands of the one expression that stands there,
worked out with doubles, and its variables are in the order of the text. With exact numbers the
summands are together worth what the expression is worth, whatever its variables stand for, unless a
bracket is divided by zero; and so are the summands themselves if no double is rounded. -/
theorem expression_denotes {s t : List Char} {summands : List Summand}
    (reads : expression.Reads s summands t) :
    ∃ e : Formula, e.Spelled s t ∧ (∀ e' : Formula, e'.Spelled s t → e' = e) ∧
      summands.map Summand.monomial = e.monomials .doubles ∧
      summands.flatMap Summand.names = e.names ∧
      (e.IsDefined → ∀ point : String → ℚ,
        Monomial.total point (e.monomials .exact) = e.value point ∧
          (e.Unrounded → Summand.total point summands = e.value point)) := by
  obtain ⟨e, spelled, same⟩ := expression_tells s summands t reads
  refine ⟨e, spelled, fun e' other => other.unique spelled, same.symm, ?_, fun defined point => ?_⟩
  · rw [← e.names_monomials (A := .doubles), same, List.flatMap_map]
    rfl
  · have exact : Monomial.total point (e.monomials .exact) = e.value point :=
      Formula.total_monomials defined
    refine ⟨exact, fun unrounded => ?_⟩
    rw [Summand.total_eq (same ▸ Formula.isExactly_monomials unrounded), exact]

section sample

open Binary64 Formula

def Sample.difference : List Char :=
  "1 - [ x ^ 2 - x * y ] / 2".toList

def Sample.differenceFormula : Formula where
  first := ⟨none, .constant ⟨[1], [], 0⟩⟩
  rest := [(true, ⟨none, .bracket ⟨none, none, "x", none⟩ [(true, ⟨none, none, "x", some "y"⟩)]
    (some ⟨[2], [], 0⟩)⟩)]

theorem Sample.difference_spelled : Sample.differenceFormula.Spelled Sample.difference [] := by
  have one : WrittenNumeral.Spelled ⟨[1], [], 0⟩ Sample.difference
      " - [ x ^ 2 - x * y ] / 2".toList :=
    .intro (u := " - [ x ^ 2 - x * y ] / 2".toList) (v := " - [ x ^ 2 - x * y ] / 2".toList)
      (by decide +kernel) (by decide +kernel) (by decide +kernel) (by decide)
  have two : WrittenNumeral.Spelled ⟨[2], [], 0⟩ "2".toList [] :=
    .intro (u := []) (v := []) (by decide +kernel) (by decide +kernel) (by decide +kernel)
      (by decide)
  have square : Product.Spelled ⟨none, none, "x", none⟩ "x ^ 2 - x * y ] / 2".toList
      "- x * y ] / 2".toList :=
    .plain (t := "x ^ 2 - x * y ] / 2".toList) (u := "^ 2 - x * y ] / 2".toList)
      (by decide +kernel) (by decide +kernel) (by decide +kernel)
  have product : Product.Spelled ⟨none, none, "x", some "y"⟩ "x * y ] / 2".toList
      "] / 2".toList :=
    .plain (t := "x * y ] / 2".toList) (u := "* y ] / 2".toList)
      (by decide +kernel) (by decide +kernel) (by decide +kernel)
  have bracket : BracketSpelled ⟨none, none, "x", none⟩ [(true, ⟨none, none, "x", some "y"⟩)]
      "[ x ^ 2 - x * y ] / 2".toList "/ 2".toList :=
    .intro (t := "x ^ 2 - x * y ] / 2".toList) (by decide +kernel) square
      (.next (t := "x * y ] / 2".toList) (by decide +kernel) product .stop) (by decide +kernel)
  have first : Addend.Spelled ⟨none, .constant ⟨[1], [], 0⟩⟩ Sample.difference
      "- [ x ^ 2 - x * y ] / 2".toList :=
    ⟨Sample.difference, by decide +kernel, _, .constant one (by decide +kernel), by decide +kernel⟩
  have second : Addend.Spelled ⟨none, .bracket ⟨none, none, "x", none⟩
      [(true, ⟨none, none, "x", some "y"⟩)] (some ⟨[2], [], 0⟩)⟩ "[ x ^ 2 - x * y ] / 2".toList [] :=
    ⟨"[ x ^ 2 - x * y ] / 2".toList, by decide +kernel, [],
      .bracket bracket (.present (t := "2".toList) (by decide +kernel)
        ⟨[], two, by decide +kernel⟩),
      by decide +kernel⟩
  exact ⟨_, first, .next (t := "[ x ^ 2 - x * y ] / 2".toList) (by decide +kernel) second .stop⟩

theorem sample_expression_denotes : ∃ (summands : List Summand) (e : Formula),
    expression.Reads Sample.difference summands [] ∧ e.Spelled Sample.difference [] ∧
      summands.map Summand.monomial = e.monomials .doubles ∧
      summands.flatMap Summand.names = ["x", "x", "x", "y"] ∧
      ∀ point : String → ℚ, Summand.total point summands =
        1 - (point "x" * point "x" - point "x" * point "y") / 2 := by
  have read : ((expression.run Sample.difference).map Prod.snd) = some [] := by decide +kernel
  obtain ⟨⟨summands, rest⟩, reads, same⟩ := Option.map_eq_some_iff.1 read
  cases same
  obtain ⟨e, spelled, unique, doubles, names, value⟩ := expression_denotes reads
  have known : Sample.differenceFormula = e := unique _ Sample.difference_spelled
  subst known
  have defined : Sample.differenceFormula.IsDefined := by decide +kernel
  have values : WrittenNumeral.value ⟨[1], [], 0⟩ = 1 ∧ WrittenNumeral.value ⟨[2], [], 0⟩ = 2 := by
    decide +kernel
  have unrounded : Sample.differenceFormula.Unrounded := by
    have one : IsDouble 1 := ⟨.ofInt 1, by decide +kernel⟩
    have two : IsDouble 2 := ⟨.ofInt 2, by decide +kernel⟩
    have half : IsDouble (1 / 2) := ⟨(Binary64.ofInt 1).div (.ofInt 2), by decide +kernel⟩
    have other : IsDouble (-1 * (1 / 2)) := ⟨(Binary64.ofInt (-1)).div (.ofInt 2), by decide +kernel⟩
    have inner : (flattened .exact (Product.monomials .exact) ⟨none, none, "x", none⟩
        [(true, ⟨none, none, "x", some "y"⟩)]).map Monomial.coefficient = [1, -1] := by
      decide +kernel
    refine List.forall_mem_cons.2 ⟨⟨?_, ?_⟩, List.forall_mem_singleton.2 ⟨?_, ?_⟩⟩
    · exact List.forall_mem_singleton.2 (values.1 ▸ one)
    · exact fun d given => nomatch given
    · exact List.forall_mem_singleton.2 (values.2 ▸ two)
    · intro d given
      cases given
      rw [values.2]
      refine ⟨half, fun m member => ?_⟩
      have among := inner ▸ List.mem_map_of_mem member
      rcases List.mem_pair.1 among with same | same
      · rwa [same, one_mul]
      · rwa [same]
  refine ⟨summands, _, reads, spelled, doubles, names, fun point => ?_⟩
  rw [(value defined point).2 unrounded]
  simp only [Sample.differenceFormula, Formula.value, sumOf, Addend.value, Body.value,
    Product.value, Product.coefficientValue, factor, values, List.map_cons, List.map_nil,
    List.sum_cons, List.sum_nil, Option.getD_none, Option.getD_some, Option.elim_none, if_true,
    Bool.false_eq_true, if_false]
  ring

end sample

end LpText

end LinOpt
