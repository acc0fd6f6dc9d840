import LinOpt.Proofs.Expression.Foreign
import LinOpt.Proofs.Model.WellFormed

namespace LinOpt.Model

inductive Operation
  | addVar (spec : Spec) (elsewhere : Valuation := fun _ => .null)
  | addVars (names lower upper kind : Value) (elsewhere : Valuation := fun _ => .null)
  | setObjective (expression sense : Value) (elsewhere : Valuation := fun _ => .null)
  | addConstraint (lhs comparison rhs : Value) (elsewhere : Valuation := fun _ => .null)
  | readLp (text : String)
  | clear
  | solve (bridges : Bridges) (engine : Engine) (options kind : Value) (elsewhere : Valuation)
  | readSolution (bridges : Bridges) (kind response : Value) (elsewhere : Valuation)
  | decode (b : Bridge) (response : Value)

def orKeep (m : Model) : Except Error Model → Model
  | .ok n => n
  | .error _ => m

def Operation.apply (m : Model) : Operation → Model
  | addVar spec elsewhere => (m.addVar spec elsewhere).1
  | addVars names lower upper kind elsewhere => (m.addVars names lower upper kind elsewhere).1
  | setObjective expression sense elsewhere => m.orKeep (m.setObjective expression sense elsewhere)
  | addConstraint lhs comparison rhs elsewhere =>
    m.orKeep (Prod.fst <$> m.addConstraint lhs comparison rhs elsewhere)
  | readLp text => m.orKeep (m.readLp text)
  | clear => m.clear
  | solve bridges engine options kind elsewhere => (m.solve bridges engine options kind elsewhere).1
  | readSolution bridges kind response elsewhere =>
    (m.readSolution bridges kind response elsewhere).1
  | decode b response => (b.decode m response).1

def run (m : Model) (ops : List Operation) : Model :=
  ops.foldl Operation.apply m

/-- A model that some run reaches from an empty one. -/
def Reachable (m : Model) : Prop :=
  ∃ owner ops, m = (empty owner).run ops

/-- What every operation keeps: a well-formed model, and the owner and the age of its marks. -/
structure Kept (start owner : Nat) (m : Model) : Prop where
  wellFormed : m.WellFormed
  since : m.registry.Since start
  owner : m.registry.owner = owner

theorem orKeep_of {P : Model → Prop} {m : Model} {attempt : Except Error Model} (h : P m)
    (step : ∀ n, attempt = .ok n → P n) : P (m.orKeep attempt) := by
  cases attempt with
  | error e => exact h
  | ok n => exact step n rfl

theorem WellFormed.extends {m : Model} {s : Registry} (h : m.WellFormed)
    (more : m.registry.Extends s) (sound : s.WellFormed) :
    ({ m with registry := s } : Model).WellFormed where
  registry := sound
  canonical := h.canonical
  owned := h.owned.extends more
  constraints := fun c member => (h.constraints c member).extends more

variable {start owner : Nat} {m n : Model}

theorem Kept.agrees (h : m.Kept start owner) (same : m.Agrees n) : n.Kept start owner where
  wellFormed := h.wellFormed.agrees same
  since := same.registry ▸ h.since
  owner := same.registry ▸ h.owner

theorem Kept.rebuilt (h : m.Kept start owner) : m.registry.Rebuilt start owner :=
  ⟨h.wellFormed.registry, h.since, h.owner⟩

theorem Kept.grown (h : m.Kept start owner) {s : Registry} (more : m.registry.Grown s) :
    ({ m with registry := s } : Model).Kept start owner := by
  have sound := h.rebuilt.grown more
  exact ⟨h.wellFormed.extends more.extends sound.wellFormed, sound.since, sound.owner⟩

theorem Kept.addVar (h : m.Kept start owner) (spec : Spec) (elsewhere : Valuation) :
    (m.addVar spec elsewhere).1.Kept start owner :=
  h.grown (m.registry.grown_add spec)

theorem Kept.addVars (h : m.Kept start owner) (names lower upper kind : Value)
    (elsewhere : Valuation) : (m.addVars names lower upper kind elsewhere).1.Kept start owner :=
  h.grown (m.registry.grown_addMany names lower upper kind)

theorem Kept.setObjective (h : m.Kept start owner) {expression sense : Value}
    {elsewhere : Valuation} (set : m.setObjective expression sense elsewhere = .ok n) :
    n.Kept start owner := by
  obtain ⟨o, built, set⟩ := bind_eq_ok.1 set
  cases set
  obtain ⟨canonical, owned⟩ := Objective.build_sound (mapError_eq_ok.1 built)
  exact ⟨⟨h.wellFormed.registry, canonical, owned, h.wellFormed.constraints⟩, h.since, h.owner⟩

theorem Kept.addConstraint (h : m.Kept start owner) {lhs comparison rhs : Value}
    {elsewhere : Valuation} {c : Constraint}
    (added : m.addConstraint lhs comparison rhs elsewhere = .ok (n, c)) : n.Kept start owner := by
  obtain ⟨row, built, added⟩ := bind_eq_ok.1 added
  cases added
  have sound := h.wellFormed
  refine ⟨⟨sound.registry, sound.canonical, sound.owned, fun d member => ?_⟩, h.since, h.owner⟩
  rcases List.mem_append.1 member with member | member
  · exact sound.constraints d member
  · rw [List.mem_singleton.1 member]
    exact Constraint.build_wellFormed (mapError_eq_ok.1 built)

theorem Kept.clear (h : m.Kept start owner) : m.clear.Kept m.registry.issued owner := by
  have rebuilt := m.registry.clear_rebuilt
  have nothing : ({} : Expression).IsCanonical :=
    ⟨List.nodup_nil, fun _ member => absurd member List.not_mem_nil,
      fun _ member => absurd member List.not_mem_nil⟩
  exact ⟨⟨rebuilt.wellFormed, nothing, fun _ member => absurd member List.not_mem_nil,
    fun _ member => absurd member List.not_mem_nil⟩, rebuilt.since, h.owner⟩

theorem Kept.readLp (h : m.Kept start owner) {text : String} (read : m.readLp text = .ok n) :
    n.Kept m.registry.issued owner := by
  obtain ⟨sound, rebuilt⟩ := readLp_wellFormed read
  exact ⟨sound, rebuilt.since, rebuilt.owner.trans h.owner⟩

theorem Kept.weaken {later : Nat} (h : m.Kept later owner) (order : start ≤ later) :
    m.Kept start owner where
  wellFormed := h.wellFormed
  since := by
    refine ⟨Nat.le_trans order h.since.start_le, fun v member => ?_⟩
    obtain ⟨own, least, below⟩ := h.since.marked v member
    exact ⟨own, Nat.le_trans order least, below⟩
  owner := h.owner

theorem Kept.apply (h : m.Kept start owner) (op : Operation) : (op.apply m).Kept start owner := by
  cases op with
  | addVar spec elsewhere => exact h.addVar spec elsewhere
  | addVars names lower upper kind elsewhere => exact h.addVars names lower upper kind elsewhere
  | setObjective expression sense elsewhere => exact orKeep_of h fun n set => h.setObjective set
  | addConstraint lhs comparison rhs elsewhere =>
    refine orKeep_of h fun n attempt => ?_
    obtain ⟨⟨n, c⟩, added, rfl⟩ := map_eq_ok.1 attempt
    exact h.addConstraint added
  | readLp text => exact orKeep_of h fun n read => (h.readLp read).weaken h.since.start_le
  | clear => exact h.clear.weaken h.since.start_le
  | solve bridges engine options kind elsewhere => exact h.agrees (m.solve_agrees ..)
  | readSolution bridges kind response elsewhere => exact h.agrees (m.readSolution_agrees ..)
  | decode b response => exact h.agrees (b.decode_agrees m response)

theorem Kept.run (h : m.Kept start owner) (ops : List Operation) :
    (m.run ops).Kept start owner := by
  induction ops generalizing m with
  | nil => exact h
  | cons op ops ih => exact ih (h.apply op)

theorem empty_kept (owner : Nat) : (empty owner).Kept 0 owner := by
  have nothing : ({} : Expression).IsCanonical :=
    ⟨List.nodup_nil, fun _ member => absurd member List.not_mem_nil,
      fun _ member => absurd member List.not_mem_nil⟩
  exact ⟨⟨⟨List.nodup_nil, fun _ member => absurd member List.not_mem_nil⟩, nothing,
    fun _ member => absurd member List.not_mem_nil,
    fun _ member => absurd member List.not_mem_nil⟩,
    ⟨Nat.le_refl _, fun _ member => absurd member List.not_mem_nil⟩, rfl⟩

theorem Reachable.wellFormed (h : m.Reachable) : m.WellFormed := by
  obtain ⟨owner, ops, rfl⟩ := h
  exact ((empty_kept owner).run ops).wellFormed

namespace Sample

def x : Variable :=
  { name := "x", lower := .int (-1), upper := 4, id := ⟨0, 0⟩ }

def y : Variable :=
  { name := "y", kind := .binary, id := ⟨0, 1⟩ }

def ops : List Operation := [
  .addVar { name := .text "x", lower := Number.int (-1), upper := (4 : Number) },
  .addVar { name := .text "y", kind := .text "binary" },
  .setObjective (.list [.list [.number 2, .var x], .var y, .number 1]) (.text "maximize"),
  .addConstraint (.list [.var x, .list [.number 3, .var y]]) (.text "<=") (.number 5)]

def model : Model :=
  (empty 0).run ops

theorem reachable : model.Reachable :=
  ⟨0, ops, rfl⟩

end Sample

end LinOpt.Model
