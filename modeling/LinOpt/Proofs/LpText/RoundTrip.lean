import LinOpt.Proofs.LpText.Resolved
import LinOpt.Proofs.Model.Run

namespace LinOpt

/-- The same declaration, with bounds of the same value. -/
structure Declaration.Matches (d e : Declaration) : Prop where
  name : e.name = d.name
  lower : e.lower.same d.lower = true
  upper : e.upper.same d.upper = true
  kind : e.kind = d.kind

structure Term.Matches (s t : Term) : Prop where
  key : t.key = s.key
  coefficient : t.coefficient.same s.coefficient = true

structure Expression.Matches (e f : Expression) : Prop where
  constant : f.constant.same e.constant = true
  terms : List.Forall₂ Term.Matches e.terms f.terms

structure Constraint.Matches (c d : Constraint) : Prop where
  lhs : c.lhs.Matches d.lhs
  comparison : d.comparison = c.comparison
  rhs : d.rhs.same c.rhs = true

/-- The same objective and rows, and of the variables those that the first model's text mentions. -/
structure Model.Matches (m n : Model) : Prop where
  sense : n.objective.sense = m.objective.sense
  objective : m.objective.expression.Matches n.objective.expression
  constraints : List.Forall₂ Constraint.Matches m.constraints n.constraints
  names : n.registry.names.Nodup
  mentioned : ∀ v ∈ m.registry.vars, m.Mentions v → ∃ w ∈ n.registry.vars,
    v.toDeclaration.Matches w.toDeclaration
  declared : ∀ w ∈ n.registry.vars, ∃ v ∈ m.registry.vars, m.Mentions v ∧
    v.toDeclaration.Matches w.toDeclaration

def Model.DoublesFinite (m : Model) : Prop :=
  ∀ e ∈ m.expressions, ∀ t ∈ e.terms, t.isQuadratic = true →
    ∀ d ∈ (2 : Number).mul t.coefficient, d.isInfinite = false

instance (m : Model) : Decidable m.DoublesFinite := by
  unfold Model.DoublesFinite
  infer_instance

namespace LpText

open Registry

variable {m : Model} {r : Registry}

theorem term_matches {t : Term} (exact : t.coefficient.IsExact) : t.Matches (t.among r) where
  key := Term.key_among r t
  coefficient := by
    rw [Term.coefficient_among]
    exact exact.reread_same

theorem terms_match {e : Expression} (exact : e.IsExact) :
    List.Forall₂ Term.Matches e.terms (e.terms.map (Term.among r)) := by
  rw [List.forall₂_map_right_iff]
  exact List.forall₂_same.2 fun t member => term_matches (exact.coefficients t member)

theorem reread_matches {e : Expression} (exact : e.IsExact) : e.Matches (reread r e true) where
  constant := by
    rw [reread, Bool.true_and]
    cases zero : e.constant.isZero with
    | true =>
      exact Number.same_symm zero
    | false => exact exact.constant.reread_same
  terms := terms_match exact

theorem row_matches {c : Constraint} (noConstant : c.lhs.constant = 0) (exact : c.lhs.IsExact)
    (rhs : c.rhs.IsExact) :
    c.Matches (rereadRow r c) where
  lhs :=
    { constant := by
        rw [rereadRow, reread_false, noConstant]
        exact Number.same_refl_of_rank (by rw [Number.rank?_zero]; exact Option.some_ne_none _)
      terms := terms_match exact }
  comparison := rfl
  rhs := rereadRhs_same rhs

theorem redeclared_matches {v : Variable} (exact : v.IsExact) :
    v.toDeclaration.Matches (redeclared v) := by
  unfold redeclared
  split
  next isDefault =>
    obtain ⟨lower, upper⟩ := Bool.and_eq_true_iff.1 isDefault
    exact ⟨rfl, Number.same_symm lower, Number.same_symm upper, rfl⟩
  next =>
    exact ⟨rfl, Number.same_symm (Number.same_settled exact.lower_same),
      Number.same_symm (Number.same_settled exact.upper_same), rfl⟩

theorem resolves_of_declared (sound : m.WellFormed)
    (known : ∀ v ∈ m.registry.vars, m.Mentions v → r.declared? v.name = some (redeclared v)) :
    ∀ e ∈ m.expressions, ∀ t ∈ e.terms, Resolves r t := by
  intro e among t isTerm
  obtain ⟨canonical, owned⟩ := sound.expressions e among
  refine ⟨canonical.ordered t isTerm, fun v ofTerm => ?_⟩
  have member := mem_of_owns (owned t isTerm v ofTerm)
  rw [contains_eq_isSome, known v member (.inl ⟨e, among, t, isTerm, ofTerm⟩)]
  rfl

/-- The objective and rows of a model as they are read, over the variables that its text mentions. -/
structure Rereads (m n : Model) : Prop where
  sense : n.objective.sense = m.objective.sense
  objective : n.objective.expression = reread n.registry m.objective.expression true
  constraints : n.constraints = m.constraints.map (rereadRow n.registry)
  known : ∀ v ∈ m.registry.vars,
    (m.Mentions v → n.registry.declared? v.name = some (redeclared v)) ∧
      (¬m.Mentions v → n.registry.declared? v.name = none)
  unknown : ∀ x, x ∉ m.registry.names → n.registry.declared? x = none

theorem resolve_described (sound : m.WellFormed) (portable : m.IsPortable)
    (empty : ∀ x, r.declared? x = none) : ∃ n, (described m).resolve r = .ok n ∧ Rereads m n := by
  obtain ⟨s, declared, known, unknown⟩ := declare_described sound empty
  have resolves := resolves_of_declared sound fun v member => (known v member).1
  have objective := resolveSum_written sound.canonical portable.objective
    (resolves _ List.mem_cons_self) true
  have rows : (m.constraints.zipIdx.map describedRow).mapM (Row.resolve s) =
      .ok (m.constraints.map (rereadRow s)) := by
    rw [List.mapM_map]
    nth_rewrite 2 [← List.zipIdx_map_fst 0 m.constraints]
    rw [List.map_map]
    apply mapM_eq_ok
    intro i indexed
    have member := List.fst_mem_of_mem_zipIdx indexed
    exact row_resolve i.2 (sound.constraints _ member).canonical (portable.lhs _ member)
      (resolves _ (List.mem_cons_of_mem _ (List.mem_map_of_mem member)))
  have resolved : (described m).resolve r = .ok {
      registry := s
      constraints := m.constraints.map (rereadRow s)
      objective := { expression := reread s m.objective.expression true
                     sense := m.objective.sense } } := by
    rw [Document.resolve, declared, ok_bind]
    simp only [described]
    rw [objective, ok_bind, rows]
    rfl
  exact ⟨_, resolved, ⟨rfl, rfl, rfl, known, unknown⟩⟩

namespace Rereads

variable {n : Model}

theorem mentioned (h : Rereads m n) {v : Variable} (member : v ∈ m.registry.vars)
    (mentions : m.Mentions v) : ∃ w ∈ n.registry.vars, w.toDeclaration = redeclared v := by
  obtain ⟨w, found, same⟩ := Option.map_eq_some_iff.1 ((h.known v member).1 mentions)
  exact ⟨w, (get?_eq_some found).1, same⟩

theorem declared (h : Rereads m n) (names : n.registry.names.Nodup) {w : Variable}
    (member : w ∈ n.registry.vars) :
    ∃ v ∈ m.registry.vars, m.Mentions v ∧ w.toDeclaration = redeclared v := by
  have found : n.registry.declared? w.name = some w.toDeclaration := by
    rw [declared?, get?_of_mem names member]
    rfl
  by_cases isName : w.name ∈ m.registry.names
  · obtain ⟨v, own, same⟩ := mem_names.1 isName
    rw [← same] at found
    by_cases mentions : m.Mentions v
    · rw [(h.known v own).1 mentions] at found
      exact ⟨v, own, mentions, (Option.some.inj found).symm⟩
    · rw [(h.known v own).2 mentions] at found
      cases found
  · rw [h.unknown w.name isName] at found
    cases found

theorem isSame (h : Rereads m n) (sound : m.WellFormed) (exact : m.IsExact)
    (names : n.registry.names.Nodup) : m.Matches n where
  sense := h.sense
  objective := h.objective ▸ reread_matches exact.objective
  constraints := by
    rw [h.constraints, List.forall₂_map_right_iff]
    exact List.forall₂_same.2 fun c member => row_matches (sound.constraints c member).constant
      (exact.lhs c member) (exact.rhs c member)
  names
  mentioned := by
    intro v member mentions
    obtain ⟨w, among, same⟩ := h.mentioned member mentions
    exact ⟨w, among, same ▸ redeclared_matches (exact.bounds v member)⟩
  declared := by
    intro w member
    obtain ⟨v, own, mentions, same⟩ := h.declared names member
    exact ⟨v, own, mentions, same ▸ redeclared_matches (exact.bounds v own)⟩

end Rereads

/-- A model that is written is read as the same model, whatever model its text is read into, if its
numbers are doubles and its names are no first words of keywords. -/
theorem readLp_toLp {m : Model} {text : String} (reachable : m.Reachable) (exact : m.IsExact)
    (finite : m.DoublesFinite)
    (single : ∀ v ∈ m.registry.vars, v.name.map Char.toLower ∉ ["subject", "such"])
    (written : m.toLp = .ok text) (other : Model) :
    ∃ n, other.readLp text = .ok n ∧ m.Matches n := by
  have sound := reachable.wellFormed
  obtain ⟨writable, safe⟩ := writable_of_toLp written sound exact single
    fun e member c v w among d product => finite e member _ among rfl d product
  obtain rfl : String.ofList (layout m) = text := by
    rw [toLp_eq (writable.legible.shown safe)] at written
    exact Except.ok.inj written
  obtain ⟨n, resolved, same⟩ :=
    resolve_described sound exact.isPortable other.registry.declared?_clear
  have read : other.readLp (String.ofList (layout m)) = .ok n :=
    bind_eq_ok.2 ⟨_, ofText_layout writable, resolved⟩
  exact ⟨n, read, same.isSame sound exact (Model.readLp_wellFormed read).1.registry.nodup⟩

namespace Sample

open Model.Sample

def ops : List Model.Operation := Model.Sample.ops ++ [
  .addVar { name := .text "z" },
  .setObjective (.list [.list [.number 3, .var x, .var y], .var x, .number 1]) (.text "minimize")]

def model : Model :=
  (Model.empty 0).run ops

def text : String :=
  "Minimize\nobj: 1 + [ 6 x * y ]/2 + 1 x\nSubject To\n c1: 1 x + 3 y <= 5\n"
    ++ "Bounds\n -1 <= x <= 4\nBinary\n y\nEnd\n"

theorem toLp_eq_text : model.toLp = .ok text := by
  have written : model.toLp.toOption = some text := by decide +kernel
  exact toOption_eq_some.1 written

end Sample

theorem sample_readLp_toLp :
    ∃ n, (Model.empty 1).readLp Sample.text = .ok n ∧ Sample.model.Matches n :=
  readLp_toLp ⟨0, Sample.ops, rfl⟩ (by decide +kernel) (by decide +kernel) (by decide +kernel)
    Sample.toLp_eq_text (Model.empty 1)

end LpText

end LinOpt
