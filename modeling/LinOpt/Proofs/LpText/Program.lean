import LinOpt.Engine.Reference
import LinOpt.Proofs.LpText.RoundTrip
import LinOpt.Proofs.Program.Represents

namespace LinOpt

namespace Number

theorem isFinite_reread {n : Number} (finite : n.IsFinite) : n.reread.IsFinite :=
  (Binary64.isFinite_settled n.double).trans finite

theorem isPortable_reread {n : Number} (portable : n.IsPortable) : n.reread.IsPortable :=
  (isFinite_reread portable.isFinite).isPortable rfl

theorem settled_double_reread (n : Number) : n.reread.double.settled = n.double.settled :=
  Binary64.settled_settled n.double

theorem settled_double_of_isZero {n : Number} (zero : n.isZero = true) :
    n.double.settled = (0 : Number).double.settled := by
  rw [settled_double_of_same rfl (same_trans zero zero_same), double_zero]

end Number

namespace LpText

open LinearProgram LinearProgram.Builder

section reread

variable {r : Registry} {e : Expression} {withConstant : Bool}

theorem isPortable_reread (portable : e.IsPortable) : (reread r e withConstant).IsPortable where
  constant := by
    unfold reread
    dsimp only
    split
    · exact Number.isPortable_reread portable.constant
    · exact Number.isExact_zero.isPortable
  coefficients := by
    intro t member
    obtain ⟨s, among, rfl⟩ := List.mem_map.1 member
    rw [Term.coefficient_among]
    exact Number.isPortable_reread (portable.coefficients s among)

theorem isQuadratic_reread : (reread r e withConstant).isQuadratic = e.isQuadratic := by
  rw [Expression.isQuadratic, reread, List.any_map]
  refine congrArg (List.any _) (funext fun t => ?_)
  cases t <;> rfl

theorem isPortable_rereadRhs {n : Number} (portable : n.IsPortable) :
    (rereadRhs n).IsPortable := by
  unfold rereadRhs
  split
  · exact Number.isExact_zero.isPortable
  · have read := Number.isFinite_reread portable.isFinite
    have negated (x : Binary64) : x.neg.isFinite = x.isFinite := by cases x <;> rfl
    refine Number.IsFinite.isPortable ?_ rfl
    change n.double.settled.neg.settled.neg.isFinite = true
    rw [negated, Binary64.isFinite_settled, negated]
    exact read

theorem entryOf_reread : entryOf (reread r e withConstant) = entryOf e := by
  have settled (g : Expression) (x : String) : entryOf g x = (Entries.get?
      (g.linearTerms.map fun t => (t.2.name, t.1.double.settled)) x).getD (Binary64.zero false) := by
    have named := Entries.get?_map (doubles g) Binary64.settled x
    rw [entryOf, ← named, doubles, byName, List.map_map, List.map_map]
    rfl
  have terms : ((reread r e withConstant).linearTerms.map fun t => (t.2.name, t.1.double.settled)) =
      e.linearTerms.map fun t => (t.2.name, t.1.double.settled) := by
    unfold Expression.linearTerms reread
    rw [List.filterMap_map, List.map_filterMap, List.map_filterMap]
    refine List.filterMap_congr fun t _ => ?_
    cases t <;> simp [Term.among, Variable.name_among, Number.settled_double_reread]
  funext x
  rw [settled, settled, terms]

end reread

namespace Rereads

variable {m n : Model}

theorem isPortable (h : Rereads m n) (again : n.WellFormed) (portable : m.IsPortable) :
    n.IsPortable where
  objective := h.objective ▸ isPortable_reread portable.objective
  lhs := by
    rw [h.constraints, List.forall_mem_map]
    exact fun c member => isPortable_reread (portable.lhs c member)
  rhs := by
    rw [h.constraints, List.forall_mem_map]
    exact fun c member => isPortable_rereadRhs (portable.rhs c member)
  bounds := by
    intro w member
    obtain ⟨v, -, -, same⟩ := h.declared again.registry.nodup member
    have ratios : (redeclared v).lower.isRatio = false ∧ (redeclared v).upper.isRatio = false := by
      unfold redeclared
      split <;> exact ⟨rfl, rfl⟩
    rw [← same] at ratios
    exact (again.registry.declared w member).isPortable ratios.1 ratios.2

theorem isQuadratic (h : Rereads m n) : n.isQuadratic = m.isQuadratic := by
  have rows : n.constraints.any (·.lhs.isQuadratic) = m.constraints.any (·.lhs.isQuadratic) := by
    rw [h.constraints, List.any_map]
    exact congrArg (List.any _) (funext fun c => isQuadratic_reread)
  have objective : n.objective.expression.isQuadratic = m.objective.expression.isQuadratic :=
    h.objective ▸ isQuadratic_reread
  exact congrArg₂ or objective rows

theorem comparisons (h : Rereads m n) :
    n.constraints.map (·.comparison) = m.constraints.map (·.comparison) := by
  rw [h.constraints, List.map_map]
  rfl

theorem isIntegral (h : Rereads m n) (names : n.registry.names.Nodup) :
    n.isIntegral = m.isIntegral := by
  have kinds {v w : Variable} (same : w.toDeclaration = redeclared v) :
      w.isIntegral = v.isIntegral :=
    congrArg Kind.isIntegral ((congrArg Declaration.kind same).trans (kind_redeclared v))
  unfold Model.isIntegral
  rw [Bool.eq_iff_iff, List.any_eq_true, List.any_eq_true]
  constructor
  · rintro ⟨w, member, whole⟩
    obtain ⟨v, among, -, same⟩ := h.declared names member
    exact ⟨v, among, (kinds same).symm.trans whole⟩
  · rintro ⟨v, member, whole⟩
    have mentions : m.Mentions v := by
      refine .inr (.inr fun continuous => ?_)
      rw [Declaration.isIntegral, continuous] at whole
      cases whole
    obtain ⟨w, among, same⟩ := h.mentioned member mentions
    exact ⟨w, among, (kinds same).trans whole⟩

theorem mem_names (h : Rereads m n) (names : n.registry.names.Nodup) (x : String) :
    x ∈ n.registry.names ↔ ∃ v ∈ m.registry.vars, m.Mentions v ∧ v.name = x := by
  have same {v w : Variable} (same : w.toDeclaration = redeclared v) : w.name = v.name :=
    (congrArg Declaration.name same).trans (name_redeclared v)
  rw [Registry.mem_names]
  constructor
  · rintro ⟨w, member, rfl⟩
    obtain ⟨v, among, mentions, declared⟩ := h.declared names member
    exact ⟨v, among, mentions, (same declared).symm⟩
  · rintro ⟨v, member, mentions, rfl⟩
    obtain ⟨w, among, declared⟩ := h.mentioned member mentions
    exact ⟨w, among, same declared⟩

theorem constant (h : Rereads m n) : n.objective.expression.constant.double.settled =
    m.objective.expression.constant.double.settled := by
  rw [h.objective, reread, Bool.true_and]
  cases zero : m.objective.expression.constant.isZero with
  | true => exact (Number.settled_double_of_isZero zero).symm
  | false => exact Number.settled_double_reread _

end Rereads

end LpText

namespace LinearProgram

variable {p : LinearProgram}

theorem LimitedBy.congr {cs ds : List Constraint}
    (same : cs.map (·.comparison) = ds.map (·.comparison)) (h : p.LimitedBy cs) :
    p.LimitedBy ds where
  equations := by
    have equations := congrArg (List.map fun comparison : Comparison => comparison == .eq) same
    rw [List.map_map, List.map_map] at equations
    exact h.equations.trans equations
  sides := by
    have sides := congrArg (List.map fun comparison : Comparison =>
      if comparison == .eq then [] else [comparison == .ge]) same
    rw [List.map_map, List.map_map] at sides
    exact h.sides.trans sides
  count := by
    have count := congrArg List.length same
    rw [List.length_map, List.length_map] at count
    exact h.count.trans count

theorem Represents.of_rereads {m n : Model} (own : p.Represents n) (h : LpText.Rereads m n)
    (names : n.registry.names.Nodup) : p.Represents m where
  objective := by rw [own.objective, h.objective, LpText.entryOf_reread]
  maximize := by rw [own.maximize, Objective.isMaximize, Objective.isMaximize, h.sense]
  isIntegral := own.isIntegral.trans (h.isIntegral names)
  matrix := by
    rw [own.matrix, h.constraints, List.map_map]
    refine List.map_congr_left fun c _ => ?_
    exact congrArg (List.map · p.columnNames) LpText.entryOf_reread
  limited := own.limited.congr h.comparisons
  shape := own.shape

/-- What a program has that is read from the text of a model. -/
structure ReadFrom (p : LinearProgram) (m : Model) : Prop where
  represents : p.Represents m
  nodup : p.columnNames.Nodup
  columns : ∀ x, x ∈ p.columnNames ↔ ∃ v ∈ m.registry.vars, m.Mentions v ∧ v.name = x
  isFinite : p.offset.IsFinite
  offset : p.offset.double.settled = m.objective.expression.constant.double.settled

theorem ReadFrom.mem_names {p : LinearProgram} {m : Model} (readFrom : p.ReadFrom m) :
    ∀ x ∈ p.columnNames, x ∈ m.registry.names := by
  intro x member
  obtain ⟨v, own, -, rfl⟩ := (readFrom.columns x).1 member
  exact List.mem_map_of_mem own

end LinearProgram

theorem Model.linear_expressions {m : Model} (linear : m.isQuadratic = false) :
    ∀ e ∈ m.expressions, ∀ t ∈ e.terms, t.isQuadratic = false := by
  obtain ⟨objective, rows⟩ := Bool.or_eq_false_iff.1 linear
  intro e among t isTerm
  rcases List.mem_cons.1 among with rfl | among
  · exact Bool.eq_false_iff.2 (List.any_eq_false.1 objective t isTerm)
  · obtain ⟨c, member, rfl⟩ := List.mem_map.1 among
    have row := List.any_eq_false.1 rows c member
    exact Bool.eq_false_iff.2 (List.any_eq_false.1 (Bool.eq_false_iff.2 row) t isTerm)

namespace LpText

open LinearProgram

variable {m : Model} (sound : m.WellFormed) (portable : m.IsPortable) (linear : m.isQuadratic = false)
  (safe : ∀ v ∈ m.registry.vars, isSafeName v.name = true)
  (single : ∀ v ∈ m.registry.vars, v.name.map Char.toLower ∉ ["subject", "such"])
include sound portable linear safe single

theorem writable_of_linear : WritableModel m := by
  have names : ∀ v ∈ m.registry.vars, Readable v.name :=
    fun v member => readable_of_isSafeName (safe v member) (single v member)
  have written (e : Expression) (among : e ∈ m.expressions) (portable : e.IsPortable)
      (withConstant : Bool) : ∀ i ∈ writtenItems e withConstant, Writable i := by
    intro i member
    rcases List.mem_append.1 member with constant | term
    · split at constant
      · rw [List.mem_singleton.1 constant]
        exact portable.constant
      · cases constant
    · obtain ⟨t, isTerm, rfl⟩ := List.mem_map.1 term
      have single := Model.linear_expressions linear e among t isTerm
      cases t with
      | quadratic => cases single
      | linear c v =>
        have owned := Registry.mem_of_owns
          ((sound.expressions e among).2 _ isTerm v List.mem_cons_self)
        exact ⟨portable.coefficients _ isTerm, names v owned⟩
  exact {
    objective := written _ List.mem_cons_self portable.objective true
    lhs := fun c member => written _
      (List.mem_cons_of_mem _ (List.mem_map_of_mem member)) (portable.lhs c member) false
    rhs := portable.rhs
    names
    bounds := sound.registry.declared
    limits := portable.bounds }

theorem exists_readFrom : ∃ text p, m.toLp = .ok text ∧
    Engine.readProgram .highs (.text text) = .ok p ∧ p.ReadFrom m := by
  have writable := writable_of_linear sound portable linear safe single
  obtain ⟨n, resolved, same⟩ :=
    resolve_described sound portable (Model.empty 0).registry.declared?_clear
  have read : (Model.empty 0).readLp (String.ofList (layout m)) = .ok n :=
    bind_eq_ok.2 ⟨_, ofText_layout writable, resolved⟩
  have again := (Model.readLp_wellFormed read).1
  have names := again.registry.nodup
  have alsoPortable := same.isPortable again portable
  have program := ofModel_eq_ok again alsoPortable.isFinite (same.isQuadratic.trans linear)
    (Engine.referenceName .highs)
  refine ⟨_, _, toLp_eq (writable.legible.shown safe), bind_eq_ok.2 ⟨n, read, program⟩, ?_⟩
  have columns : (Builder.build ⟨Builder.columnsOf n, n.constraints.zipIdx.map Builder.rowOf⟩
      n.objective.isMaximize n.objective.expression.constant).columnNames = n.registry.names :=
    Builder.names_columnsOf n _
  exact {
    represents := (represents_model again alsoPortable.isFinite _).of_rereads same names
    nodup := columns ▸ names
    columns := fun x => columns ▸ same.mem_names names x
    isFinite := alsoPortable.objective.constant.isFinite
    offset := same.constant }

end LpText

end LinOpt
