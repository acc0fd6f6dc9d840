import LinOpt.Proofs.LpText.Declared

namespace LinOpt

/-- A number in the form in which it is read. -/
def Number.reread (n : Number) : Number :=
  .real n.double.settled

def Variable.among (r : Registry) (v : Variable) : Variable :=
  (r.get? v.name).getD v

def Term.among (r : Registry) : Term → Term
  | linear c v => linear c.reread (v.among r)
  | quadratic c v w => quadratic c.reread (v.among r) (w.among r)

def Item.among (r : Registry) : Item → Item
  | number n => number n.reread
  | term t => term (t.among r)

namespace Number

variable {n : Number}

theorem IsExact.reread_same (exact : n.IsExact) : n.reread.same n = true :=
  same_symm (same_settled exact.same_double)

theorem IsPortable.reread_isZero (portable : n.IsPortable) : n.reread.isZero = n.isZero := by
  rw [← portable.isZero_double, Bool.eq_iff_iff, isZero_iff, isZero_iff, reread, rank?_settled]

theorem zero_add_reread (n : Number) : (0 : Number).add n.reread = some n.reread := by
  rw [reread, zero_add, settled, Binary64.settled_settled]

end Number

theorem Variable.name_among (r : Registry) (v : Variable) : (v.among r).name = v.name := by
  unfold among
  cases found : r.get? v.name with
  | none => rfl
  | some w => exact (Registry.get?_eq_some found).2

namespace Term

@[simp]
theorem key_among (r : Registry) (t : Term) : (t.among r).key = t.key := by
  cases t <;> simp [among, key, Variable.name_among]

@[simp]
theorem coefficient_among (r : Registry) (t : Term) :
    (t.among r).coefficient = t.coefficient.reread := by
  cases t <;> rfl

end Term

namespace LpText

variable {r : Registry}

theorem find_among {v : Variable} (known : r.contains v.name = true) :
    Summand.resolve.find r v.name = .ok (v.among r) := by
  unfold Summand.resolve.find Variable.among
  cases found : r.get? v.name with
  | none =>
    rw [Registry.contains_eq_isSome, Registry.declared?, found] at known
    cases known
  | some w => rfl

theorem summand_resolve {t : Term} (ordered : t.Ordered)
    (known : ∀ v ∈ t.vars, r.contains v.name = true) :
    (summand (.term t)).resolve r = .ok (.term (t.among r)) := by
  cases t with
  | linear c v =>
    rw [summand, Summand.resolve, find_among (known v List.mem_cons_self)]
    rfl
  | quadratic c v w =>
    have first := known v List.mem_cons_self
    have second := known w (List.mem_cons_of_mem v List.mem_cons_self)
    have inOrder : ¬(w.among r).name < (v.among r).name := by
      rw [Variable.name_among, Variable.name_among]
      exact String.not_lt.2 ordered
    rw [summand, Summand.resolve, find_among first, find_among second]
    show Except.ok (Item.term (Term.product c.reread (v.among r) (w.among r))) = _
    rw [Term.product, if_neg inOrder]
    rfl

def Resolves (r : Registry) (t : Term) : Prop :=
  t.Ordered ∧ ∀ v ∈ t.vars, r.contains v.name = true

theorem resolve_written {e : Expression} (resolves : ∀ t ∈ e.terms, Resolves r t)
    (withConstant : Bool) :
    ((writtenItems e withConstant).map summand).mapM (·.resolve r) =
      .ok ((writtenItems e withConstant).map (Item.among r)) := by
  rw [List.mapM_map]
  apply mapM_eq_ok
  intro i member
  rcases List.mem_append.1 member with constant | term
  · split at constant
    · rw [List.mem_singleton.1 constant]
      rfl
    · cases constant
  · obtain ⟨t, isTerm, rfl⟩ := List.mem_map.1 term
    exact summand_resolve (resolves t isTerm).1 (resolves t isTerm).2

/-- The sum that an expression is read as. -/
def reread (r : Registry) (e : Expression) (withConstant : Bool) : Expression where
  constant := if withConstant && !e.constant.isZero then e.constant.reread else 0
  terms := e.terms.map (Term.among r)

theorem reread_nonzero {e : Expression} (canonical : e.IsCanonical) (portable : e.IsPortable) :
    ∀ t ∈ e.terms.map (Term.among r), t.coefficient.isZero = false := by
  intro t member
  obtain ⟨s, isTerm, rfl⟩ := List.mem_map.1 member
  rw [Term.coefficient_among, Number.IsPortable.reread_isZero (portable.coefficients s isTerm)]
  exact canonical.nonzero s isTerm

theorem reread_distinct {e : Expression} (canonical : e.IsCanonical) :
    ((e.terms.map (Term.among r)).map Term.key).Nodup := by
  have keys : (e.terms.map (Term.among r)).map Term.key = e.terms.map Term.key := by
    rw [List.map_map]
    exact List.map_congr_left fun t _ => Term.key_among r t
  rw [keys]
  exact canonical.keys_nodup

theorem addItems_written {e : Expression} (canonical : e.IsCanonical) (withConstant : Bool) :
    ((writtenItems e withConstant).map (Item.among r)).foldlM Expression.addItem {} =
      some (reread r e withConstant) := by
  have terms : (e.terms.map Item.term).map (Item.among r) =
      (e.terms.map (Term.among r)).map Item.term := by
    rw [List.map_map, List.map_map]
    rfl
  rw [writtenItems, List.map_append, List.foldlM_append, terms, reread]
  split
  · have first : [Item.number e.constant].map (Item.among r) = [.number e.constant.reread] := rfl
    have added : ({} : Expression).addItem (.number e.constant.reread) =
        some { constant := e.constant.reread } := by
      rw [Expression.addItem, Number.zero_add_reread]
      rfl
    rw [first, List.foldlM_cons, added]
    exact Expression.addItems_terms (reread_distinct canonical)
  · exact Expression.addItems_terms (reread_distinct canonical)

theorem resolveSum_written {e : Expression} (canonical : e.IsCanonical) (portable : e.IsPortable)
    (resolves : ∀ t ∈ e.terms, Resolves r t) (withConstant : Bool) :
    resolveSum r ((writtenItems e withConstant).map summand) = .ok (reread r e withConstant) := by
  have sum : Expression.ofItems ((writtenItems e withConstant).map (Item.among r)) =
      some (reread r e withConstant) := by
    have kept : (reread r e withConstant).dropZeros = reread r e withConstant :=
      Expression.dropZeros_eq (reread_nonzero canonical portable)
    rw [Expression.ofItems, addItems_written canonical, Option.map_eq_map, Option.map_some, kept]
  rw [resolveSum, resolve_written resolves]
  exact inRange_eq_ok.2 sum

def rereadRhs (n : Number) : Number :=
  if n.reread.neg.settled.isZero then 0 else n.reread.neg.settled.neg

def rereadRow (r : Registry) (c : Constraint) : Constraint where
  lhs := reread r c.lhs false
  comparison := c.comparison
  rhs := rereadRhs c.rhs

theorem rank?_brought (n : Number) : n.reread.neg.settled.neg.rank? = n.reread.rank? := by
  show (Number.real n.double.settled.neg.settled.neg).rank? = _
  rw [Number.rank?_neg, Number.rank?_settled, Number.rank?_neg, Option.map_map, Number.reread]
  cases (Number.real n.double.settled).rank? <;> simp

theorem rereadRhs_same {n : Number} (exact : n.IsExact) : (rereadRhs n).same n = true := by
  have brought : n.reread.neg.settled.neg.same n = true := by
    obtain ⟨place, first, second⟩ := Number.same_iff.1 exact.reread_same
    exact Number.same_iff.2 ⟨place, (rank?_brought n).trans first, second⟩
  unfold rereadRhs
  split
  next zero =>
    have rank : n.reread.neg.settled.neg.rank? = some (0, 0) := by
      have inner : (Number.real n.double.settled.neg.settled).rank? = some (0, 0) :=
        Number.isZero_iff.1 zero
      show (Number.real n.double.settled.neg.settled.neg).rank? = _
      rw [Number.rank?_neg, inner]
      rfl
    obtain ⟨place, first, second⟩ := Number.same_iff.1 brought
    rw [rank] at first
    exact Number.same_iff.2 ⟨place, Number.rank?_zero.trans first, second⟩
  next => exact brought

theorem resolveSum_constant (n : Number) :
    resolveSum r [.constant n.double.settled] = .ok { constant := n.reread } := by
  have resolved : [Summand.constant n.double.settled].mapM (·.resolve r) =
      .ok [Item.number n.reread] := rfl
  have added : ({} : Expression).addItem (.number n.reread) = some { constant := n.reread } := by
    rw [Expression.addItem, Number.zero_add_reread]
    rfl
  have kept : ({ constant := n.reread } : Expression).dropZeros = { constant := n.reread } :=
    Expression.dropZeros_eq (List.forall_mem_nil _)
  have sum : Expression.ofItems [.number n.reread] = some { constant := n.reread } := by
    rw [Expression.ofItems, List.foldlM_cons, added]
    exact congrArg some kept
  unfold resolveSum
  exact bind_eq_ok.2 ⟨_, resolved, inRange_eq_ok.2 sum⟩

theorem reread_false (r : Registry) (e : Expression) :
    reread r e false = { terms := e.terms.map (Term.among r) } := by
  rw [reread, Bool.false_and, if_neg Bool.false_ne_true]

theorem ofSides_reread {c : Constraint} (canonical : c.lhs.IsCanonical) (portable : c.lhs.IsPortable) :
    Constraint.ofSides (reread r c.lhs false) c.comparison { constant := c.rhs.reread } =
      some (rereadRow r c) := by
  let terms := c.lhs.terms.map (Term.among r)
  have zero : ({} : Expression).addItem (.number 0) = some {} := by
    rw [Expression.addItem, Number.zero_add]
    rfl
  -- The terms are canonical already: no two of them are added up, and none is dropped.
  have added : (terms.map Item.term).foldlM Expression.addItem {} = some { terms } :=
    Expression.addItems_terms (reread_distinct canonical)
  have constant : Expression.addItem { terms } (.number c.rhs.reread.neg) =
      some { constant := c.rhs.reread.neg.settled, terms } := by
    rw [Expression.addItem, Number.zero_add]
    rfl
  have kept : ({ constant := c.rhs.reread.neg.settled, terms } : Expression).dropZeros =
      { constant := c.rhs.reread.neg.settled, terms } :=
    Expression.dropZeros_eq (reread_nonzero canonical portable)
  have sum : Expression.ofItems (.number 0 :: (terms.map Item.term ++ [.number c.rhs.reread.neg])) =
      some { constant := c.rhs.reread.neg.settled, terms } := by
    rw [Expression.ofItems, List.foldlM_cons, zero, Option.bind_eq_bind, Option.bind_some,
      List.foldlM_append, added, Option.bind_eq_bind, Option.bind_some, List.foldlM_cons, constant]
    exact congrArg some kept
  rw [rereadRow, Constraint.ofSides, reread_false]
  show (do
    let whole ← Expression.ofItems
      (.number 0 :: (terms.map Item.term ++ [Item.number c.rhs.reread.neg]))
    _) = _
  rw [sum]
  rfl

theorem row_resolve {c : Constraint} (index : Nat) (canonical : c.lhs.IsCanonical)
    (portable : c.lhs.IsPortable) (resolves : ∀ t ∈ c.lhs.terms, Resolves r t) :
    (describedRow (c, index)).resolve r = .ok (rereadRow r c) := by
  have left := resolveSum_written canonical portable resolves false
  have right := resolveSum_constant (r := r) c.rhs
  have sides := ofSides_reread (r := r) canonical portable
  rw [Row.resolve, describedRow, left, ok_bind, right, ok_bind, sides]
  rfl

end LpText

end LinOpt
