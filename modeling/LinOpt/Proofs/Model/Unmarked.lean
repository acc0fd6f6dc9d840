import LinOpt.Bridge.Codec
import LinOpt.Proofs.Outcome

namespace LinOpt

def Variable.unmarked (v : Variable) : Variable :=
  { v with id := ⟨0, 0⟩ }

def Term.unmarked : Term → Term
  | .linear c v => .linear c v.unmarked
  | .quadratic c v w => .quadratic c v.unmarked w.unmarked

def Expression.unmarked (e : Expression) : Expression :=
  { e with terms := e.terms.map Term.unmarked }

def Constraint.unmarked (c : Constraint) : Constraint :=
  { c with lhs := c.lhs.unmarked }

def Objective.unmarked (o : Objective) : Objective :=
  { o with expression := o.expression.unmarked }

def Registry.unmarked (r : Registry) : Registry :=
  { owner := 0, vars := r.vars.map Variable.unmarked }

def Model.unmarked (m : Model) : Model where
  registry := m.registry.unmarked
  constraints := m.constraints.map Constraint.unmarked
  objective := m.objective.unmarked

namespace Term

@[simp]
theorem isQuadratic_unmarked (t : Term) : t.unmarked.isQuadratic = t.isQuadratic := by
  cases t <;> rfl

end Term

namespace Expression

theorem linearTerms_unmarked (e : Expression) :
    e.unmarked.linearTerms = e.linearTerms.map fun t => (t.1, t.2.unmarked) := by
  rw [linearTerms, unmarked, List.filterMap_map, linearTerms, List.map_filterMap]
  refine List.filterMap_congr fun t _ => ?_
  cases t <;> rfl

@[simp]
theorem isQuadratic_unmarked (e : Expression) : e.unmarked.isQuadratic = e.isQuadratic := by
  simp [isQuadratic, unmarked, List.any_map, Function.comp_def]

end Expression

namespace Model

@[simp]
theorem isQuadratic_unmarked (m : Model) : m.unmarked.isQuadratic = m.isQuadratic := by
  simp [isQuadratic, unmarked, Objective.unmarked, Constraint.unmarked, List.any_map,
    Function.comp_def]

theorem names_unmarked (m : Model) (p : Variable → Bool) (blind : ∀ v, p v.unmarked = p v) :
    (m.unmarked.registry.vars.filter p).map (·.name) =
      (m.registry.vars.filter p).map (·.name) := by
  have same : p ∘ Variable.unmarked = p := funext blind
  simp only [unmarked, Registry.unmarked, List.filter_map, List.map_map, same]
  rfl

end Model

namespace Bridge

@[simp]
theorem checkSupported_unmarked (b : Bridge) (m : Model) :
    b.checkSupported m.unmarked = b.checkSupported m := by
  simp only [checkSupported, Model.isQuadratic_unmarked]

end Bridge

namespace Glpk

theorem encodeTerms_unmarked (e : Expression) : encodeTerms e.unmarked = encodeTerms e := by
  rw [encodeTerms, Expression.linearTerms_unmarked, List.mapM_map]
  rfl

theorem encode_unmarked (b : Bridge) (m : Model) : encode b m.unmarked = encode b m := by
  have objective : encodeTerms m.unmarked.objective.expression =
      encodeTerms m.objective.expression := encodeTerms_unmarked _
  have rows : m.unmarked.constraints.zipIdx.mapM encodeRow =
      m.constraints.zipIdx.mapM encodeRow := by
    rw [Model.unmarked, List.zipIdx_map, List.mapM_map]
    refine congrArg (List.mapM · _) (funext fun indexed => ?_)
    simp only [Function.comp, encodeRow, Prod.map, Constraint.unmarked, encodeTerms_unmarked]
    rfl
  have columns : m.unmarked.registry.vars.mapM encodeColumn =
      m.registry.vars.mapM encodeColumn := List.mapM_map
  have kinds (kind : Kind) : namesOf m.unmarked kind = namesOf m kind :=
    m.names_unmarked (·.kind == kind) fun _ => rfl
  simp only [encode, Bridge.checkSupported_unmarked, objective, rows, columns, kinds]
  rfl

end Glpk

namespace LpText

theorem formatTerm_unmarked (t : Term) : formatTerm t.unmarked = formatTerm t := by
  cases t <;> rfl

theorem formatExpression_unmarked (e : Expression) (withConstant : Bool) :
    formatExpression e.unmarked withConstant = formatExpression e withConstant := by
  have terms : e.unmarked.terms.mapM formatTerm = e.terms.mapM formatTerm := by
    rw [Expression.unmarked, List.mapM_map]
    exact congrArg (List.mapM · _) (funext formatTerm_unmarked)
  simp only [formatExpression, terms]
  rfl

theorem objectiveLine_unmarked (e : Expression) :
    objectiveLine e.unmarked = objectiveLine e := by
  simp only [objectiveLine, formatExpression_unmarked]

theorem rowLine_unmarked (index : Nat) (c : Constraint) :
    rowLine index c.unmarked = rowLine index c := by
  simp only [rowLine, Constraint.unmarked, formatExpression_unmarked]

theorem lines_unmarked (m : Model) : lines m.unmarked = lines m := by
  have names : m.unmarked.registry.vars.forM checkName = m.registry.vars.forM checkName :=
    List.forM_map
  have objective : objectiveLine m.unmarked.objective.expression =
      objectiveLine m.objective.expression := objectiveLine_unmarked _
  have rows {write : Constraint × Nat → Except Error String}
      (same : ∀ indexed, write (indexed.1.unmarked, indexed.2) = write indexed) :
      m.unmarked.constraints.zipIdx.mapM write = m.constraints.zipIdx.mapM write := by
    rw [Model.unmarked, List.zipIdx_map, List.mapM_map]
    exact congrArg (List.mapM · _) (funext same)
  have bounds : (m.unmarked.registry.vars.filter (!·.hasDefaultBounds)).mapM boundLine =
      (m.registry.vars.filter (!·.hasDefaultBounds)).mapM boundLine := by
    rw [Model.unmarked, Registry.unmarked, List.filter_map, List.mapM_map]
    rfl
  have kinds (kind : Kind) : kindLines m.unmarked kind = kindLines m kind := by
    simp only [kindLines, Model.unmarked, Registry.unmarked, List.filter_map, List.map_map]
    rfl
  simp only [lines, names, objective, bounds, kinds]
  rw [rows fun indexed => ?_]
  · rfl
  · exact rowLine_unmarked indexed.2 indexed.1

theorem toLp_unmarked (m : Model) : m.unmarked.toLp = m.toLp := by
  simp only [Model.toLp, lines_unmarked]

end LpText

namespace Jslp

theorem encode_unmarked (b : Bridge) (m : Model) (options : Value) (values : Valuation) :
    encode b m.unmarked options values = encode b m options values := by
  have declared : m.unmarked.registry.vars.foldlM Draft.addVariable {} =
      m.registry.vars.foldlM Draft.addVariable {} := List.foldlM_map
  have costs (d : Draft) : m.unmarked.objective.expression.linearTerms.foldl Draft.addCost d =
      m.objective.expression.linearTerms.foldl Draft.addCost d := by
    have terms : m.unmarked.objective.expression.linearTerms = _ :=
      Expression.linearTerms_unmarked m.objective.expression
    rw [terms]
    exact List.foldl_map
  have rows (d : Draft) : m.unmarked.constraints.zipIdx.foldlM Draft.addConstraint d =
      m.constraints.zipIdx.foldlM Draft.addConstraint d := by
    rw [Model.unmarked, List.zipIdx_map, List.foldlM_map]
    refine congrArg (fun f => List.foldlM f d _) (funext₂ fun d indexed => ?_)
    have terms : indexed.1.unmarked.lhs.linearTerms = _ :=
      Expression.linearTerms_unmarked indexed.1.lhs
    simp only [Draft.addConstraint, Prod.map]
    rw [terms]
    exact List.foldlM_map
  have names (p : Variable → Bool) (blind : ∀ v, p v.unmarked = p v) :
      namesWhere m.unmarked p = namesWhere m p := m.names_unmarked p blind
  have integers := names (·.kind == .integer) fun _ => rfl
  have binaries := names (·.isBinary) fun _ => rfl
  have unrestricted := names (fun v => v.lower.lt 0) fun _ => rfl
  simp only [encode, Bridge.checkSupported_unmarked, declared, costs, rows, integers, binaries,
    unrestricted]
  rfl

end Jslp

/-- Models with the same declarations in the same order, the same objective and the same constraints,
whatever marks their variables have and whatever was heard from solvers. -/
structure Model.Alike (m n : Model) : Prop where
  declarations : m.registry.vars.map (·.toDeclaration) = n.registry.vars.map (·.toDeclaration)
  objective : m.objective.unmarked = n.objective.unmarked
  constraints : m.constraints.map Constraint.unmarked = n.constraints.map Constraint.unmarked

namespace Model.Alike

variable {m n : Model}

theorem unmarked_eq (alike : m.Alike n) : m.unmarked = n.unmarked := by
  have vars (m : Model) : m.registry.vars.map Variable.unmarked =
      (m.registry.vars.map (·.toDeclaration)).map (Variable.mk · ⟨0, 0⟩) := by
    rw [List.map_map]
    rfl
  simp only [unmarked, Registry.unmarked, vars, alike.declarations, alike.objective,
    alike.constraints]

theorem names (alike : m.Alike n) : m.registry.names = n.registry.names := by
  have named := congrArg (List.map (·.name)) alike.declarations
  rwa [List.map_map, List.map_map] at named

theorem length (alike : m.Alike n) : m.registry.vars.length = n.registry.vars.length := by
  have counted := congrArg List.length alike.declarations
  rwa [List.length_map, List.length_map] at counted

end Model.Alike

end LinOpt
