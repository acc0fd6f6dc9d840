import LinOpt.Proofs.Model.WellFormed
import LinOpt.Proofs.Number.Exact

namespace LinOpt

namespace Expression

structure IsExact (e : Expression) : Prop where
  constant : e.constant.IsExact
  coefficients : ∀ t ∈ e.terms, t.coefficient.IsExact

structure IsFinite (e : Expression) : Prop where
  constant : e.constant.IsFinite
  coefficients : ∀ t ∈ e.terms, t.coefficient.IsFinite

structure IsPortable (e : Expression) : Prop where
  constant : e.constant.IsPortable
  coefficients : ∀ t ∈ e.terms, t.coefficient.IsPortable

theorem IsPortable.isFinite {e : Expression} (h : e.IsPortable) : e.IsFinite where
  constant := h.constant.isFinite
  coefficients := fun t member => (h.coefficients t member).isFinite

theorem IsExact.isPortable {e : Expression} (h : e.IsExact) : e.IsPortable where
  constant := h.constant.isPortable
  coefficients := fun t member => (h.coefficients t member).isPortable

theorem linearTerms_mem {e : Expression} {c : Number} {v : Variable} :
    (c, v) ∈ e.linearTerms ↔ Term.linear c v ∈ e.terms := by
  simp only [linearTerms, List.mem_filterMap]
  constructor
  · rintro ⟨t, member, same⟩
    cases t with
    | linear d w =>
      cases same
      exact member
    | quadratic d w x => cases same
  · exact fun member => ⟨_, member, rfl⟩

theorem IsExact.linear {e : Expression} (h : e.IsExact) :
    ∀ term ∈ e.linearTerms, term.1.IsExact :=
  fun _ member => h.coefficients _ (linearTerms_mem.1 member)

theorem IsFinite.linear {e : Expression} (h : e.IsFinite) :
    ∀ term ∈ e.linearTerms, term.1.IsFinite :=
  fun _ member => h.coefficients _ (linearTerms_mem.1 member)

end Expression

/-- An infinity only as a bound of its own side. -/
structure Declaration.IsExact (d : Declaration) : Prop where
  lower : d.lower = .negativeInfinity ∨ d.lower.IsExact
  upper : d.upper = .infinity ∨ d.upper.IsExact

structure Model.IsExact (m : Model) : Prop where
  objective : m.objective.expression.IsExact
  lhs : ∀ c ∈ m.constraints, c.lhs.IsExact
  rhs : ∀ c ∈ m.constraints, c.rhs.IsExact
  bounds : ∀ v ∈ m.registry.vars, v.IsExact

structure Model.IsFinite (m : Model) : Prop where
  objective : m.objective.expression.IsFinite
  lhs : ∀ c ∈ m.constraints, c.lhs.IsFinite
  rhs : ∀ c ∈ m.constraints, c.rhs.IsFinite

/-- An infinity only as a bound of its own side, as in any model. -/
structure Declaration.IsPortable (d : Declaration) : Prop where
  lower : d.lower = .negativeInfinity ∨ d.lower.IsPortable
  upper : d.upper = .infinity ∨ d.upper.IsPortable

theorem Declaration.IsExact.isPortable {d : Declaration} (h : d.IsExact) : d.IsPortable where
  lower := h.lower.imp_right Number.IsExact.isPortable
  upper := h.upper.imp_right Number.IsExact.isPortable

/-- All numbers are finite but for bounds, and the ratios are doubles. -/
structure Model.IsPortable (m : Model) : Prop where
  objective : m.objective.expression.IsPortable
  lhs : ∀ c ∈ m.constraints, c.lhs.IsPortable
  rhs : ∀ c ∈ m.constraints, c.rhs.IsPortable
  bounds : ∀ v ∈ m.registry.vars, v.IsPortable

theorem Model.IsFinite.reset {m : Model} (h : m.IsFinite) : m.reset.IsFinite where
  objective := h.objective
  lhs := h.lhs
  rhs := h.rhs

theorem Model.IsPortable.isFinite {m : Model} (h : m.IsPortable) : m.IsFinite where
  objective := h.objective.isFinite
  lhs := fun c member => (h.lhs c member).isFinite
  rhs := fun c member => (h.rhs c member).isFinite

theorem Model.IsExact.isPortable {m : Model} (h : m.IsExact) : m.IsPortable where
  objective := h.objective.isPortable
  lhs := fun c member => (h.lhs c member).isPortable
  rhs := fun c member => (h.rhs c member).isPortable
  bounds := fun v member => (h.bounds v member).isPortable

theorem Model.IsExact.isFinite {m : Model} (h : m.IsExact) : m.IsFinite :=
  h.isPortable.isFinite

section Decidable

instance (e : Expression) : Decidable e.IsExact :=
  decidable_of_iff (e.constant.IsExact ∧ ∀ t ∈ e.terms, t.coefficient.IsExact)
    ⟨fun h => ⟨h.1, h.2⟩, fun h => ⟨h.constant, h.coefficients⟩⟩

instance (d : Declaration) : Decidable d.IsExact :=
  decidable_of_iff ((d.lower = .negativeInfinity ∨ d.lower.IsExact) ∧
      (d.upper = .infinity ∨ d.upper.IsExact))
    ⟨fun h => ⟨h.1, h.2⟩, fun h => ⟨h.lower, h.upper⟩⟩

instance (m : Model) : Decidable m.IsExact :=
  decidable_of_iff (m.objective.expression.IsExact ∧ (∀ c ∈ m.constraints, c.lhs.IsExact) ∧
      (∀ c ∈ m.constraints, c.rhs.IsExact) ∧ ∀ v ∈ m.registry.vars, v.IsExact)
    ⟨fun h => ⟨h.1, h.2.1, h.2.2.1, h.2.2.2⟩, fun h => ⟨h.objective, h.lhs, h.rhs, h.bounds⟩⟩

instance (e : Expression) : Decidable e.IsFinite :=
  decidable_of_iff (e.constant.IsFinite ∧ ∀ t ∈ e.terms, t.coefficient.IsFinite)
    ⟨fun h => ⟨h.1, h.2⟩, fun h => ⟨h.constant, h.coefficients⟩⟩

instance (m : Model) : Decidable m.IsFinite :=
  decidable_of_iff (m.objective.expression.IsFinite ∧ (∀ c ∈ m.constraints, c.lhs.IsFinite) ∧
      ∀ c ∈ m.constraints, c.rhs.IsFinite)
    ⟨fun h => ⟨h.1, h.2.1, h.2.2⟩, fun h => ⟨h.objective, h.lhs, h.rhs⟩⟩

end Decidable

namespace Number

@[simp]
theorem double_infinity : infinity.double = .infinite false :=
  rfl

@[simp]
theorem double_negativeInfinity : negativeInfinity.double = .infinite true :=
  rfl

theorem IsBound.toBinary64? {own n : Number} (h : own.IsBound n) :
    n.toBinary64? = some n.double := by
  obtain ⟨x, read, -⟩ := h
  rw [double, read, Option.getD_some]

theorem IsBound.eq_or_isFinite {own n : Number} (h : own.IsBound n) : n = own ∨ n.IsFinite := by
  obtain ⟨x, read, number, infinite⟩ := h
  have double : n.double = x := by rw [double, read, Option.getD_some]
  cases x with
  | nan => cases number
  | infinite negative => exact .inl (infinite rfl)
  | finite => exact .inr (by rw [IsFinite, double]; rfl)

theorem IsFinite.isPortable {n : Number} (finite : n.IsFinite) (notRatio : n.isRatio = false) :
    n.IsPortable where
  isFinite := finite
  ratio := fun isRatio => by
    rw [notRatio] at isRatio
    cases isRatio

theorem bound_same_double {own b : Number} {negative : Bool}
    (infinite : own = .real (.infinite negative)) (h : b = own ∨ b.IsExact) :
    b.same (.real b.double) = true := by
  rcases h with rfl | exact
  · subst infinite
    exact same_iff.2 ⟨_, rfl, rfl⟩
  · exact exact.same_double

end Number

theorem Declaration.WellFormed.isPortable {d : Declaration} (h : d.WellFormed)
    (lower : d.lower.isRatio = false) (upper : d.upper.isRatio = false) : d.IsPortable where
  lower := h.lower.eq_or_isFinite.imp_right fun finite => finite.isPortable lower
  upper := h.upper.eq_or_isFinite.imp_right fun finite => finite.isPortable upper

namespace Declaration.IsExact

variable {d : Declaration}

theorem lower_same (h : d.IsExact) : d.lower.same (.real d.lower.double) = true :=
  Number.bound_same_double rfl h.lower

theorem upper_same (h : d.IsExact) : d.upper.same (.real d.upper.double) = true :=
  Number.bound_same_double rfl h.upper

theorem lower_infinite (h : d.IsExact) (infinite : d.lower.double.isInfinite = true) :
    d.lower.double = .infinite true := by
  rcases h.lower with same | exact
  · rw [same]
    rfl
  · rw [exact.isFinite.notInfinite] at infinite
    cases infinite

theorem lower_eq (h : d.IsExact) (infinite : d.lower.double.isInfinite = true) :
    d.lower = .negativeInfinity := by
  rcases h.lower with same | exact
  · exact same
  · rw [exact.isFinite.notInfinite] at infinite
    cases infinite

theorem upper_infinite (h : d.IsExact) (infinite : d.upper.double.isInfinite = true) :
    d.upper.double = .infinite false := by
  rcases h.upper with same | exact
  · rw [same]
    rfl
  · rw [exact.isFinite.notInfinite] at infinite
    cases infinite

end Declaration.IsExact

end LinOpt
