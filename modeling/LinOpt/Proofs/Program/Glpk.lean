import LinOpt.Bridge.Codec
import LinOpt.Engine.Reference
import LinOpt.Proofs.Model.Run
import LinOpt.Proofs.Program.OfModel
import LinOpt.Proofs.Schema.Requests

namespace LinOpt

namespace LinearProgram.Builder

theorem smaller_same {x y z : Binary64} (h : (Number.real x).same (.real y) = true)
    (limit : (Number.real z).same (.real z) = true) :
    (Number.real (smaller x z)).same (.real (smaller y z)) = true := by
  unfold smaller
  rw [Number.lt_congr limit h]
  split
  · exact limit
  · exact h

end LinearProgram.Builder

namespace Glpk

open LinearProgram LinearProgram.Builder

def limitsOf (v : Variable) : Limits :=
  if v.lower.double.isInfinite && v.upper.double.isInfinite then ⟨.free, zero, zero⟩
  else if v.lower.double.isInfinite then ⟨.upper, v.upper.double, zero⟩
  else if v.upper.double.isInfinite then ⟨.lower, zero, v.lower.double⟩
  else if v.lower.same v.upper then ⟨.fixed, v.upper.double, v.lower.double⟩
  else ⟨.double, v.upper.double, v.lower.double⟩

theorem columnLimits_eq_ok {v : Variable} (declared : v.WellFormed) :
    columnLimits v.lower v.upper = .ok (limitsOf v) := by
  simp only [columnLimits, declared.lower.toBinary64?, declared.upper.toBinary64?]
  rfl

theorem range_limitsOf {v : Variable} (exact : v.IsExact) :
    (limitsOf v).range.1 = v.lower.double ∧
      (Number.real (limitsOf v).range.2).same (.real v.upper.double) = true := by
  have upper : (Number.real v.upper.double).same (.real v.upper.double) = true :=
    Number.same_trans (Number.same_symm exact.upper_same) exact.upper_same
  unfold limitsOf
  -- No limit, an upper one, a lower one, a fixed value, or two limits.
  split
  next both =>
    rw [Bool.and_eq_true] at both
    have bottom := exact.lower_infinite both.1
    have top := exact.upper_infinite both.2
    rw [bottom]
    rw [top] at upper ⊢
    exact ⟨rfl, upper⟩
  next notBoth =>
    split
    next low =>
      have bottom := exact.lower_infinite low
      rw [bottom]
      exact ⟨rfl, upper⟩
    next notLow =>
      split
      next high =>
        have top := exact.upper_infinite high
        rw [top] at upper ⊢
        exact ⟨rfl, upper⟩
      next notHigh =>
        split
        next equal =>
          have fixed := Number.same_trans (Number.same_symm exact.lower_same) equal
          exact ⟨rfl, Number.same_trans fixed exact.upper_same⟩
        next different => exact ⟨rfl, upper⟩

def columnOf (v : Variable) : Column :=
  ⟨v.name, limitsOf v⟩

theorem encodeColumn_eq_ok {v : Variable} (declared : v.WellFormed) :
    encodeColumn v = .ok (columnOf v) := by
  rw [encodeColumn, columnLimits_eq_ok declared]
  rfl

theorem readFloat_of_finite {n : Number} (finite : n.IsFinite) :
    Schema.readFloat n = .ok n.double := by
  simp only [Schema.readFloat, finite.toBinary64?]

theorem field_eq_ok {n : Number} (finite : n.IsFinite) (name : String) :
    field name n = .ok n.double := by
  simp only [field, checked, readFloat_of_finite finite]
  rfl

def entriesOf (e : Expression) : List Entry :=
  (doubles e).map fun entry => ⟨entry.1, entry.2⟩

theorem encodeTerms_eq_ok {e : Expression} (finite : e.IsFinite) :
    encodeTerms e = .ok (entriesOf e) := by
  have entries : encodeTerms e =
      .ok (e.linearTerms.map fun term => ⟨term.2.name, term.1.double⟩) := by
    refine mapM_eq_ok fun term member => ?_
    have read := field_eq_ok (finite.linear term member)
    simp only [read]
    rfl
  rw [entries, entriesOf, doubles, byName, List.map_map, List.map_map]
  rfl

theorem pairs_entriesOf (e : Expression) :
    (entriesOf e).map (fun entry => (entry.name, entry.coefficient)) = doubles e := by
  rw [entriesOf, List.map_map]
  exact List.map_id _

def rowLimitsOf (c : Constraint) : Limits :=
  match c.comparison with
  | .le => ⟨.upper, c.rhs.double, zero⟩
  | .ge => ⟨.lower, zero, c.rhs.double⟩
  | .eq => ⟨.fixed, c.rhs.double, c.rhs.double⟩

theorem readFloat_zero : Schema.readFloat (.int 0) = .ok zero := by
  have read : Schema.readFloat (.int 0) = .ok (0 : Number).double :=
    readFloat_of_finite Number.isExact_zero.isFinite
  rw [read, Number.double_zero]
  rfl

theorem rowLimits_eq_ok {c : Constraint} (finite : c.rhs.IsFinite) :
    rowLimits c.comparison c.rhs = .ok (rowLimitsOf c) := by
  have rhs := readFloat_of_finite finite
  unfold rowLimitsOf
  cases c.comparison with
  | _ => simp [rowLimits, encodeSides, rhs, readFloat_zero, checked, Except.mapError]

theorem range_rowLimitsOf (c : Constraint) :
    (rowLimitsOf c).range = range c.comparison c.rhs.double := by
  unfold rowLimitsOf
  cases c.comparison <;> rfl

def rowOf (indexed : Constraint × Nat) : Row :=
  ⟨rowName indexed.2, entriesOf indexed.1.lhs, rowLimitsOf indexed.1⟩

theorem encodeRow_eq_ok {c : Constraint} (lhs : c.lhs.IsFinite) (rhs : c.rhs.IsFinite)
    (index : Nat) : encodeRow (c, index) = .ok (rowOf (c, index)) := by
  simp only [encodeRow]
  rw [encodeTerms_eq_ok lhs, rowLimits_eq_ok rhs]
  rfl

def requestOf (m : Model) : Request where
  objective := {
    direction := if m.objective.isMaximize then Objective.maximize else Objective.minimize
    entries := entriesOf m.objective.expression }
  rows := m.constraints.zipIdx.map rowOf
  columns := m.registry.vars.map columnOf
  binaries := namesOfKind m.registry .binary
  generals := namesOfKind m.registry .integer

theorem encode_eq_ok {m : Model} (sound : m.WellFormed) (finite : m.IsFinite)
    (linear : m.isQuadratic = false) :
    encode Bridge.glpk m = .ok (requestOf m) := by
  have supported : Bridge.glpk.checkSupported m = .ok () := by
    simp [Bridge.checkSupported, linear]
  have rows : m.constraints.zipIdx.mapM encodeRow = .ok (m.constraints.zipIdx.map rowOf) := by
    refine mapM_eq_ok fun indexed member => ?_
    have known := List.fst_mem_of_mem_zipIdx member
    exact encodeRow_eq_ok (finite.lhs _ known) (finite.rhs _ known) indexed.2
  have columns : m.registry.vars.mapM encodeColumn = .ok (m.registry.vars.map columnOf) :=
    mapM_eq_ok fun v member => encodeColumn_eq_ok (sound.registry.declared v member)
  rw [encode, supported, ok_bind, encodeTerms_eq_ok finite.objective, ok_bind, rows, ok_bind,
    columns]
  rfl

theorem encode_quadratic {m : Model} (quadratic : m.isQuadratic = true) :
    encode Bridge.glpk m = .error (.quadraticUnsupported Bridge.glpk.name) := by
  have refused : Bridge.glpk.checkSupported m =
      .error (.quadraticUnsupported Bridge.glpk.name) := by
    simp [Bridge.checkSupported, quadratic, Bridge.glpk]
  exact bind_eq_error.2 (.inl refused)

def limited (v : Variable) : LinearProgram.Builder.Column :=
  { name := v.name, lower := (limitsOf v).range.1, upper := (limitsOf v).range.2 }

def costly (m : Model) (v : Variable) : LinearProgram.Builder.Column :=
  priced (doubles m.objective.expression) (limited v)

def programRow (indexed : Constraint × Nat) : LinearProgram.Builder.Row :=
  { LinearProgram.Builder.rowOf indexed with name := rowName indexed.2 }

theorem addGlpkRow_rowOf (b : Builder) (indexed : Constraint × Nat) :
    addGlpkRow b (rowOf indexed) = b.addRow (programRow indexed).name
      (sumByName (doubles indexed.1.lhs)) (programRow indexed).lower
      (programRow indexed).upper := by
  simp only [addGlpkRow, rowOf, pairs_entriesOf, range_rowLimitsOf]
  rfl

theorem foldl_addGlpkColumn {m : Model} (sound : m.WellFormed) :
    (m.registry.vars.map columnOf).foldl addGlpkColumn {} =
      ⟨m.registry.vars.map limited, []⟩ := by
  have fresh : (Builder.names {} ++ (m.registry.vars.map columnOf).map (·.name)).Nodup := by
    rw [List.map_map]
    exact sound.registry.nodup
  have columns := foldl_onColumn_of_fresh (f := fun c column =>
    { column with lower := c.limits.range.1, upper := c.limits.range.2 }) fresh fun _ _ => rfl
  rw [List.map_map] at columns
  exact columns

theorem foldl_entriesOf {m : Model} (sound : m.WellFormed) :
    (entriesOf m.objective.expression).foldl (fun b e => addCost b e.name e.coefficient)
        ⟨m.registry.vars.map limited, []⟩ = ⟨m.registry.vars.map (costly m), []⟩ := by
  have added := foldl_addCost_doubles sound (names_columns (g := limited) (fun _ => rfl) [])
  rw [List.map_map] at added
  rw [entriesOf, List.foldl_map]
  exact added

theorem foldl_addGlpkRow {m : Model} (sound : m.WellFormed) {b : Builder}
    (names : b.names = m.registry.names) :
    (m.constraints.zipIdx.map rowOf).foldl addGlpkRow b =
      { b with rows := b.rows ++ m.constraints.zipIdx.map programRow } := by
  have wellFormed (indexed) (member : indexed ∈ m.constraints.zipIdx) :=
    sound.constraints _ (List.fst_mem_of_mem_zipIdx member)
  rw [List.foldl_map]
  refine foldl_addRow _ (fun indexed => sumByName (doubles indexed.1.lhs))
    (names.symm ▸ sound.registry.nodup) addGlpkRow_rowOf ?_ ?_
  · intro indexed member
    exact (sumByName_sumByName (doubles_nodup (wellFormed indexed member).canonical)).symm
  · intro indexed member e among
    have listed := List.mem_map_of_mem (f := Prod.fst) among
    rw [names_sumByName (doubles_nodup (wellFormed indexed member).canonical)] at listed
    obtain ⟨entry, isEntry, same⟩ := List.mem_map.1 listed
    rw [names, ← same]
    exact doubles_known (wellFormed indexed member).owned entry isEntry

theorem ofGlpk_requestOf {m : Model} (sound : m.WellFormed) :
    ofGlpk (requestOf m) = Builder.build
      ⟨m.registry.vars.map fun v => kindColumn v (costly m v), m.constraints.zipIdx.map programRow⟩
      m.objective.isMaximize (.real (Binary64.zero false)) := by
  have columns : (requestOf m).columns.foldl addGlpkColumn {} = _ := foldl_addGlpkColumn sound
  have costs : (requestOf m).objective.entries.foldl _ _ = _ := foldl_entriesOf sound
  have rows : (requestOf m).rows.foldl addGlpkRow _ = _ :=
    foldl_addGlpkRow sound (names_columns (g := costly m) (fun _ => rfl) [])
  have marks : (requestOf m).binaries.foldl markBinary
      ((requestOf m).generals.foldl markIntegral _) = _ :=
    foldl_mark_kinds sound.registry.nodup (g := costly m) (fun _ => rfl)
      (m.constraints.zipIdx.map programRow)
  have direction : ((requestOf m).objective.direction == Objective.maximize) =
      m.objective.isMaximize := by
    unfold requestOf
    cases m.objective.isMaximize <;> rfl
  simp only [ofGlpk, columns, costs, rows, List.nil_append, marks, direction]

end Glpk

/-- The same problem: all but the names of rows and the offset. Upper limits are the same by value,
since a zero among them may have another sign. -/
structure LinearProgram.SameProblem (p q : LinearProgram) : Prop where
  columnNames : p.columnNames = q.columnNames
  objective : p.objective = q.objective
  maximize : p.maximize = q.maximize
  lower : p.lower = q.lower
  upper : List.Forall₂ (fun x y => (Number.real x).same (.real y) = true) p.upper q.upper
  integrality : p.integrality = q.integrality
  matrix : p.matrix = q.matrix
  rowLower : p.rowLower = q.rowLower
  rowUpper : p.rowUpper = q.rowUpper

namespace Glpk

open LinearProgram LinearProgram.Builder

theorem upper_same {v : Variable} (exact : v.IsExact) (m : Model) :
    (Number.real (kindColumn v (costly m v)).upper).same
      (.real (LinearProgram.Builder.columnOf v).upper) = true := by
  rw [LinearProgram.Builder.columnOf, upper_kindColumn, upper_kindColumn]
  split
  · exact smaller_same (range_limitsOf exact).2 (Number.ofInt_same 1)
  · exact (range_limitsOf exact).2

theorem sameProblem {m : Model} (exact : m.IsExact) :
    (Builder.build ⟨m.registry.vars.map fun v => kindColumn v (costly m v),
        m.constraints.zipIdx.map programRow⟩
      m.objective.isMaximize (.real (Binary64.zero false))).SameProblem
    (Builder.build ⟨columnsOf m, m.constraints.zipIdx.map LinearProgram.Builder.rowOf⟩
      m.objective.isMaximize m.objective.expression.constant) := by
  have names : Builder.names ⟨m.registry.vars.map fun v => kindColumn v (costly m v),
      m.constraints.zipIdx.map programRow⟩ = m.registry.names :=
    names_columns (fun v => name_kindColumn v _) _
  refine ⟨?_, ?_, rfl, ?_, ?_, ?_, ?_, ?_, ?_⟩
  · exact names.trans (names_columnsOf m _).symm
  · exact map_cost_columnsOf (g := limited) (fun _ => rfl) fun _ => rfl
  · simp only [build, columnsOf, List.map_map]
    refine List.map_congr_left fun v member => ?_
    have lower := (range_limitsOf (exact.bounds v member)).1
    simp [costly, limited, priced, LinearProgram.Builder.columnOf, lower_kindColumn, lower]
  · simp only [build, columnsOf, List.map_map]
    rw [List.forall₂_map_left_iff, List.forall₂_map_right_iff]
    exact List.forall₂_same.2 fun v member => upper_same (exact.bounds v member) m
  · exact map_isIntegral_columnsOf (g := limited) fun _ => rfl
  · rw [matrix_build, matrix_build, names, names_columnsOf, List.map_map, List.map_map]
    rfl
  · simp only [build, List.map_map]
    rfl
  · simp only [build, List.map_map]
    rfl

theorem names_of_places (m : Model) (name : Nat → String)
    (row : Constraint × Nat → LinearProgram.Builder.Row)
    (named : ∀ indexed, (row indexed).name = name indexed.2) :
    (m.constraints.zipIdx.map row).map (·.name) =
      (List.range m.constraints.length).map name := by
  have places : m.constraints.zipIdx.map Prod.snd = List.range m.constraints.length := by
    rw [List.zipIdx_map_snd, List.range_eq_range']
  rw [← places, List.map_map, List.map_map]
  exact List.map_congr_left fun indexed _ => named indexed

/-- The request of a model is refused if and only if a term is quadratic; otherwise it describes the
model's own problem, with rows under other names and without the constant of the objective. -/
theorem request_describes_model {m : Model} (reachable : m.Reachable) (exact : m.IsExact)
    (options : Value) (elsewhere : Valuation) (engine : String) :
    (Bridge.glpk.encode m options elsewhere = .error (.quadraticUnsupported Bridge.glpk.name) ↔
      m.HasQuadraticTerm) ∧
    (¬ m.HasQuadraticTerm → ∃ request p q,
      Bridge.glpk.encode m options elsewhere = .ok request ∧
      Engine.readProgram .glpk request = .ok p ∧ ofModel m engine = .ok q ∧
      p.SameProblem q ∧ p.columnNames = m.registry.names ∧
      p.rowNames = (List.range m.constraints.length).map (fun i => "cons" ++ toString (i + 1)) ∧
      q.rowNames = (List.range m.constraints.length).map (fun i => "c" ++ toString (i + 1)) ∧
      p.offset = .real (Binary64.zero false) ∧ q.offset = m.objective.expression.constant) := by
  have sound := reachable.wellFormed
  have succeeds (linear : m.isQuadratic = false) :
      Bridge.glpk.encode m options elsewhere = .ok (requestOf m).toValue :=
    map_eq_ok.2 ⟨_, encode_eq_ok sound exact.isFinite linear, rfl⟩
  rw [← Model.isQuadratic_iff, Bool.not_eq_true]
  constructor
  · constructor
    · intro refused
      by_contra linear
      rw [succeeds (Bool.not_eq_true _ ▸ linear)] at refused
      cases refused
    · intro quadratic
      have refused := encode_quadratic quadratic
      exact congrArg (Except.map Request.toValue) refused
  · intro linear
    have reads : Engine.readProgram .glpk (requestOf m).toValue = .ok (ofGlpk (requestOf m)) := by
      simp only [Engine.readProgram, Request.read_toValue]
      rfl
    rw [ofGlpk_requestOf sound] at reads
    have program := ofModel_eq_ok sound exact.isFinite linear engine
    refine ⟨_, _, _, succeeds linear, reads, program, sameProblem exact, ?_, ?_, ?_, rfl, rfl⟩
    · exact names_columns (fun v => name_kindColumn v _) _
    · exact names_of_places m (fun i => "cons" ++ toString (i + 1)) programRow fun _ => rfl
    · exact names_of_places m (fun i => "c" ++ toString (i + 1)) _ fun _ => rfl

theorem sample_request_describes_model :
    ∃ request p q, Bridge.glpk.encode Model.Sample.model .null (fun _ => .null) = .ok request ∧
      Engine.readProgram .glpk request = .ok p ∧ ofModel Model.Sample.model "scipy" = .ok q ∧
      p.SameProblem q := by
  have exact : Model.Sample.model.IsExact := by decide +kernel
  have linear : ¬ Model.Sample.model.HasQuadraticTerm := by decide +kernel
  obtain ⟨request, p, q, encoded, read, compiled, same, -⟩ :=
    (request_describes_model Model.Sample.reachable exact .null (fun _ => .null) "scipy").2 linear
  exact ⟨request, p, q, encoded, read, compiled, same⟩

end Glpk

end LinOpt
