import LinOpt.Proofs.Constraint.Sides
import LinOpt.Proofs.Number.Nearest

namespace LinOpt

theorem Number.add_neg {m n : Number} (finite : n.toRat?.isSome = true)
    (same : m = n ∨ m = n.settled) :
    ∃ zero, m.add n.neg = some zero ∧ zero.isZero = true := by
  cases n with
  | int k =>
    obtain rfl : m = .int k := same.elim id id
    refine ⟨.int (k + -k), rfl, ?_⟩
    rw [Int.add_right_neg]
    exact isZero_zero
  | real x =>
    obtain ⟨r, value⟩ := Option.isSome_iff_exists.1 finite
    have own : x.toRat? = some r := value
    have opposite := Binary64.toRat?_neg own
    have first : ∃ y : Binary64, m = .real y ∧ y.toRat? = some r := by
      rcases same with rfl | rfl
      · exact ⟨x, rfl, own⟩
      · exact ⟨x.settled, rfl, (toRat?_settled (.real x)).trans own⟩
    obtain ⟨y, rfl, first⟩ := first
    exact ⟨_, rfl, (Binary64.isZero_add first opposite).2.2 (add_neg_cancel r)⟩
  | ratio q =>
    obtain rfl : m = .ratio q := same.elim id id
    have cancelled : q + -q = 0 := add_neg_cancel q
    refine ⟨.ratio (q + -q), rfl, ?_⟩
    rw [cancelled, isZero_iff, rank?_ratio, zero_mul]

namespace Expression

theorem addTerm_at {s t : Term} {before after : List Term} {c : Number}
    (fresh : t.key ∉ before.map Term.key) (same : s.key = t.key)
    (added : s.coefficient.add t.coefficient = some c) :
    addTerm t (before ++ s :: after) = some (before ++ s.withCoefficient c :: after) := by
  induction before with
  | nil =>
    rw [List.nil_append, addTerm, if_pos same, added]
    rfl
  | cons u before ih =>
    rw [List.map_cons, List.mem_cons, not_or] at fresh
    rw [List.cons_append, addTerm, if_neg (Ne.symm fresh.1), ih fresh.2]
    rfl

theorem addItems_negated (constant : Number) {done terms : List Term}
    (distinct : ((done ++ terms).map Term.key).Nodup)
    (cancelled : ∀ t ∈ done, t.coefficient.isZero = true)
    (finite : ∀ t ∈ terms, t.coefficient.toRat?.isSome = true) :
    ∃ zeros, (terms.map fun t => Item.term t.neg).foldlM addItem
        { constant, terms := done ++ terms } = some { constant, terms := zeros } ∧
      ∀ t ∈ zeros, t.coefficient.isZero = true := by
  -- The terms in front are zero already; those that follow still have their coefficients.
  induction terms generalizing done with
  | nil => exact ⟨done, by rw [List.append_nil]; rfl, cancelled⟩
  | cons t terms ih =>
    obtain ⟨here, finite⟩ := List.forall_mem_cons.1 finite
    obtain ⟨zero, added, isZero⟩ := Number.add_neg here (.inl rfl)
    have sameKey : t.key = t.neg.key := (Term.key_withCoefficient _ t).symm
    have opposite : t.neg.coefficient = t.coefficient.neg := Term.coefficient_withCoefficient _ t
    have found : addTerm t.neg (done ++ t :: terms) =
        some (done ++ t.withCoefficient zero :: terms) :=
      addTerm_at (sameKey ▸ key_fresh distinct) sameKey (opposite ▸ added)
    have step : addItem { constant, terms := done ++ t :: terms } (.term t.neg) =
        some { constant, terms := done ++ [t.withCoefficient zero] ++ terms } := by
      rw [addItem, found, List.append_assoc]
      rfl
    have kept : ((done ++ [t.withCoefficient zero] ++ terms).map Term.key).Nodup := by
      simpa using distinct
    have nothing : ∀ u ∈ done ++ [t.withCoefficient zero], u.coefficient.isZero = true := by
      intro u member
      rcases List.mem_append.1 member with before | last
      · exact cancelled u before
      · rw [List.mem_singleton.1 last, Term.coefficient_withCoefficient, isZero]
    rw [List.map_cons, List.foldlM_cons, step]
    exact ih kept nothing finite

theorem ofItems_cancelled {e : Expression} (canonical : e.IsCanonical)
    (constant : e.constant.toRat?.isSome = true)
    (terms : ∀ t ∈ e.terms, t.coefficient.toRat?.isSome = true) :
    ∃ zero : Number, zero.isZero = true ∧
      ofItems (e.items ++ e.negated) = some { constant := zero } := by
  obtain ⟨zero, added, isZero⟩ := Number.add_neg constant (.inr rfl)
  have distinct : ((([] : List Term) ++ e.terms).map Term.key).Nodup := canonical.keys_nodup
  have start : ∀ t ∈ ([] : List Term), t.coefficient.isZero = true :=
    fun t member => absurd member List.not_mem_nil
  obtain ⟨zeros, cancelled, vanish⟩ := addItems_negated zero distinct start terms
  have first : addItem { e with constant := e.constant.settled } (.number e.constant.neg) =
      some { e with constant := zero } := by
    rw [addItem, added]
    rfl
  have left : zeros.filter (fun t => !t.coefficient.isZero) = [] :=
    List.filter_eq_nil_iff.2 fun t member => by simp [vanish t member]
  have sum : (e.items ++ e.negated).foldlM addItem {} =
      some { constant := zero, terms := zeros } := by
    rw [List.foldlM_append, addItems_items canonical, Option.bind_eq_bind, Option.bind_some,
      negated, List.foldlM_cons, first]
    exact cancelled
  refine ⟨zero, isZero, ?_⟩
  rw [ofItems, sum, Option.map_eq_map, Option.map_some, dropZeros, left]

end Expression

namespace Constraint

open Expression

theorem asItems_eq {registry : Option Registry} {given : Value} {e : Expression}
    (h : canonicalize registry given = .ok e) : given.asItems = given := by
  cases given with
  | number n => cases h
  | _ => rfl

/-- Two sides that are the same make an empty row, for numbers of both kinds. -/
theorem build_same_sides {registry : Option Registry} {given : Value} {e : Expression}
    {op : String} {comparison : Comparison} (h : canonicalize registry given = .ok e)
    (spelling : (op, comparison) ∈ Comparison.spellings)
    (constant : e.constant.toRat?.isSome = true)
    (terms : ∀ t ∈ e.terms, t.coefficient.toRat?.isSome = true) :
    build registry given (.text op) given = .ok { lhs := {}, comparison, rhs := 0 } := by
  obtain ⟨zero, isZero, nothing⟩ :=
    ofItems_cancelled (canonicalize_sound h).1 constant terms
  have row : ofSides e comparison e = some { lhs := {}, comparison, rhs := 0 } := by
    rw [ofSides, nothing]
    simp only [Option.bind_eq_bind, Option.bind_some, isZero, if_true]
    rfl
  rw [build_eq, Comparison.read_spelling spelling, asItems_eq h, h]
  exact inRange_eq_ok.2 row

namespace Sample

def tenths (n : Nat) : Number :=
  .real (.ofQuotient false (n * Binary64.scale) 10)

def repeated : List Value := [
  .number (tenths 1),
  .list [.number (tenths 1), .var Sample.x],
  .tuple [.int (10 ^ 400), .var Sample.y],
  .int 3,
  .list [.number (tenths 2), .var Sample.x],
  .list [.number (tenths 1).neg, .var Sample.y, .var Sample.x],
  .tuple [.number (tenths 3), .var Sample.x, .var Sample.y],
  .var Sample.y]

end Sample

theorem sample_build_same_sides :
    ∃ e, canonicalize (some Sample.registry) (.list Sample.repeated) = .ok e ∧
      e.constant.toRat?.isSome = true ∧ e.terms.length = 3 ∧
      (∀ t ∈ e.terms, t.coefficient.toRat?.isSome = true) ∧
      ("==", Comparison.eq) ∈ Comparison.spellings ∧
      build (some Sample.registry) (.list Sample.repeated) (.text "==")
        (.list Sample.repeated) = .ok { lhs := {}, comparison := .eq, rhs := 0 } := by
  have found : ∃ e, (canonicalize (some Sample.registry)
      (.list Sample.repeated)).toOption = some e := Option.isSome_iff_exists.1 (by decide +kernel)
  have finite : (canonicalize (some Sample.registry)
      (.list Sample.repeated)).toOption.all (fun e => e.constant.toRat?.isSome &&
        e.terms.length == 3 && e.terms.all fun t => t.coefficient.toRat?.isSome) = true := by
    decide +kernel
  obtain ⟨e, summed⟩ := found
  rw [summed, Option.all_some] at finite
  simp only [Bool.and_eq_true, List.all_eq_true, beq_iff_eq] at finite
  obtain ⟨⟨constant, three⟩, terms⟩ := finite
  have given := toOption_eq_some.1 summed
  have spelling : ("==", Comparison.eq) ∈ Comparison.spellings := by decide
  exact ⟨e, given, constant, three, terms, spelling, build_same_sides given spelling constant terms⟩

end Constraint

end LinOpt
