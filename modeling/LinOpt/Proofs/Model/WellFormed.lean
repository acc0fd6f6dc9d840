import LinOpt.LpText.Resolve
import LinOpt.Model.Solve
import LinOpt.Model.Validation
import LinOpt.Proofs.Expression.Canonical

namespace LinOpt

namespace Model

/-- A model whose parts fit together: sound declarations under different names, and canonical
expressions about variables that its registry owns. -/
structure WellFormed (m : Model) : Prop where
  registry : m.registry.WellFormed
  canonical : m.objective.expression.IsCanonical
  owned : m.objective.expression.OwnedBy m.registry
  constraints : ∀ c ∈ m.constraints, c.WellFormed m.registry

theorem WellFormed.expressions {m : Model} (h : m.WellFormed) :
    ∀ e ∈ m.expressions, e.IsCanonical ∧ e.OwnedBy m.registry := by
  intro e member
  rcases List.mem_cons.1 member with rfl | member
  · exact ⟨h.canonical, h.owned⟩
  · obtain ⟨c, among, rfl⟩ := List.mem_map.1 member
    exact ⟨(h.constraints c among).canonical, (h.constraints c among).owned⟩

structure Agrees (m n : Model) : Prop where
  registry : n.registry = m.registry
  constraints : n.constraints = m.constraints
  objective : n.objective = m.objective

theorem Agrees.refl (m : Model) : m.Agrees m :=
  ⟨rfl, rfl, rfl⟩

theorem Agrees.trans {l m n : Model} (first : l.Agrees m) (second : m.Agrees n) : l.Agrees n :=
  ⟨second.registry.trans first.registry, second.constraints.trans first.constraints,
    second.objective.trans first.objective⟩

theorem WellFormed.agrees {m n : Model} (h : m.WellFormed) (same : m.Agrees n) :
    n.WellFormed where
  registry := same.registry ▸ h.registry
  canonical := same.objective ▸ h.canonical
  owned := by
    rw [same.objective, same.registry]
    exact h.owned
  constraints := by
    rw [same.constraints, same.registry]
    exact h.constraints

theorem reset_agrees (m : Model) : m.Agrees m.reset :=
  ⟨rfl, rfl, rfl⟩

end Model

namespace Bridge

theorem accept_agrees (b : Bridge) (m : Model) (answer : Answer) :
    m.Agrees (b.accept m answer).1 := by
  unfold accept
  dsimp only
  split
  · exact ⟨rfl, rfl, rfl⟩
  · split <;> exact ⟨rfl, rfl, rfl⟩

theorem decode_agrees (b : Bridge) (m : Model) (response : Value) :
    m.Agrees (b.decode m response).1 := by
  unfold decode
  split
  · exact .refl m
  · exact accept_agrees b m _

theorem agrees_of_decode {b : Bridge} {m n : Model} {response : Value}
    {outcome : Except Error SolveResult} (h : b.decode m response = (n, outcome)) : m.Agrees n := by
  have decoded := b.decode_agrees m response
  rw [h] at decoded
  exact decoded

end Bridge

namespace Model

theorem readSolution_agrees (m : Model) (bridges : Bridges) (kind response : Value)
    (elsewhere : Valuation) : m.Agrees (m.readSolution bridges kind response elsewhere).1 := by
  unfold readSolution
  dsimp only
  split
  · exact m.reset_agrees
  next b _ =>
    split
    next n e outcome => exact m.reset_agrees.trans (Bridge.agrees_of_decode outcome)
    next n result outcome =>
      have decoded := Bridge.agrees_of_decode outcome
      exact m.reset_agrees.trans ⟨decoded.registry, decoded.constraints, decoded.objective⟩

theorem solve_agrees (m : Model) (bridges : Bridges) (engine : Engine) (options kind : Value)
    (elsewhere : Valuation) : m.Agrees (m.solve bridges engine options kind elsewhere).1 := by
  unfold solve
  dsimp only
  split
  · exact m.reset_agrees
  next b request _ =>
    split
    · exact m.reset_agrees
    next response _ =>
      split
      next n e outcome =>
        have decoded := Bridge.agrees_of_decode outcome
        exact ⟨decoded.registry, decoded.constraints, decoded.objective⟩
      next n result outcome =>
        have decoded := Bridge.agrees_of_decode outcome
        exact ⟨decoded.registry, decoded.constraints, decoded.objective⟩

end Model

namespace Registry

/-- What the steps of a reconstruction keep: names, soundness, owner and marks. -/
structure Rebuilt (start owner : Nat) (r : Registry) : Prop where
  wellFormed : r.WellFormed
  since : r.Since start
  owner : r.owner = owner

theorem Rebuilt.grown {start owner : Nat} {r s : Registry} (h : r.Rebuilt start owner)
    (more : r.Grown s) : s.Rebuilt start owner := by
  cases more with
  | of ds counter sound distinct fresh forward =>
    let counted : Registry := { r with counter }
    have wellFormed : counted.WellFormed := ⟨h.wellFormed.nodup, h.wellFormed.declared⟩
    have since : counted.Since start := ⟨h.since.start_le, h.since.marked⟩
    exact {
      wellFormed := wellFormed.registerAll sound distinct fresh
      since := since.registerAll ds
      owner := (registerAll_extends counted ds).owner.trans h.owner }

theorem names_setKind (r : Registry) (x : String) (kind : Kind) :
    (r.setKind x kind).names = r.names := by
  simp only [names, setKind, List.map_map]
  refine List.map_congr_left fun v _ => ?_
  simp only [Function.comp]
  split <;> rfl

theorem mem_vars_setKind {r : Registry} {x : String} {kind : Kind} {v : Variable}
    (member : v ∈ (r.setKind x kind).vars) :
    ∃ w ∈ r.vars, v = w ∨ v = { w with kind } := by
  obtain ⟨w, among, rfl⟩ := List.mem_map.1 member
  refine ⟨w, among, ?_⟩
  split
  · exact .inr rfl
  · exact .inl rfl

theorem Rebuilt.setKind {start owner : Nat} {r : Registry} (h : r.Rebuilt start owner)
    (x : String) (kind : Kind) : (r.setKind x kind).Rebuilt start owner where
  wellFormed := by
    refine ⟨names_setKind r x kind ▸ h.wellFormed.nodup, fun v member => ?_⟩
    obtain ⟨w, among, rfl | rfl⟩ := mem_vars_setKind member
    · exact h.wellFormed.declared v among
    · have sound := h.wellFormed.declared w among
      exact ⟨sound.named, sound.lower, sound.upper⟩
  since := by
    refine ⟨h.since.start_le, fun v member => ?_⟩
    obtain ⟨w, among, rfl | rfl⟩ := mem_vars_setKind member
    · exact h.since.marked v among
    · exact h.since.marked w among
  owner := h.owner

theorem clear_rebuilt (r : Registry) : r.clear.Rebuilt r.issued r.owner where
  wellFormed := ⟨List.nodup_nil, fun _ member => absurd member List.not_mem_nil⟩
  since := ⟨Nat.le_refl _, fun _ member => absurd member List.not_mem_nil⟩
  owner := rfl

theorem owns_of_get? {r : Registry} {x : String} {v : Variable} (h : r.get? x = some v) :
    r.owns v = true := by
  obtain ⟨-, rfl⟩ := get?_eq_some h
  simp [owns, h]

end Registry

namespace LpText

theorem register_eq_ok {r s : Registry} {spec : Spec} :
    register r spec = .ok s ↔ ∃ v, r.add spec = (s, .ok v) := by
  unfold register
  rcases r.add spec with ⟨t, _ | v⟩ <;> simp [Except.map]

theorem register_rebuilt {start owner : Nat} {r s : Registry} {spec : Spec}
    (h : r.Rebuilt start owner) (registered : register r spec = .ok s) :
    s.Rebuilt start owner := by
  obtain ⟨v, added⟩ := register_eq_ok.1 registered
  have kept := h.grown (r.grown_add spec)
  rwa [added] at kept

theorem declareKind_rebuilt {start owner : Nat} {kind : Kind} {r s : Registry} {x : String}
    (h : r.Rebuilt start owner) (declared : declareKind kind r x = .ok s) :
    s.Rebuilt start owner := by
  unfold declareKind at declared
  split at declared
  · cases declared
    exact h.setKind x kind
  · exact register_rebuilt h declared

theorem declareName_rebuilt {start owner : Nat} {r s : Registry} {x : String}
    (h : r.Rebuilt start owner) (declared : declareName r x = .ok s) : s.Rebuilt start owner := by
  unfold declareName at declared
  split at declared
  · cases declared
    exact h
  · exact register_rebuilt h declared

theorem declare_rebuilt {start owner : Nat} {d : Document} {r s : Registry}
    (h : r.Rebuilt start owner) (declared : d.declare r = .ok s) : s.Rebuilt start owner := by
  obtain ⟨bounded, bounds, declared⟩ := bind_eq_ok.1 declared
  obtain ⟨binary, binaries, declared⟩ := bind_eq_ok.1 declared
  obtain ⟨general, generals, declared⟩ := bind_eq_ok.1 declared
  have afterBounds := foldlM_keeps _ (fun _ _ _ _ => register_rebuilt) h bounds
  have afterBinaries := foldlM_keeps _ (fun _ _ _ _ => declareKind_rebuilt) afterBounds binaries
  have afterGenerals := foldlM_keeps _ (fun _ _ _ _ => declareKind_rebuilt) afterBinaries generals
  exact foldlM_keeps _ (fun _ _ _ _ => declareName_rebuilt) afterGenerals declared

theorem find_owned {r : Registry} {x : String} {v : Variable}
    (h : Summand.resolve.find r x = .ok v) : r.owns v = true := by
  unfold Summand.resolve.find at h
  split at h
  · rename_i found
    cases h
    exact Registry.owns_of_get? found
  · cases h

theorem summand_sound {r : Registry} {s : Summand} {i : Item} (h : s.resolve r = .ok i) :
    i.Sound r := by
  cases s with
  | constant c =>
    cases h
    trivial
  | linear c x =>
    obtain ⟨v, found, h⟩ := bind_eq_ok.1 h
    cases h
    refine ⟨trivial, fun u member => ?_⟩
    rw [List.mem_singleton.1 member]
    exact find_owned found
  | quadratic c x y =>
    obtain ⟨v, foundFirst, h⟩ := bind_eq_ok.1 h
    obtain ⟨w, foundSecond, h⟩ := bind_eq_ok.1 h
    cases h
    refine ⟨Term.product_ordered _ v w, fun u member => ?_⟩
    rcases Term.mem_vars_product member with rfl | rfl
    · exact find_owned foundFirst
    · exact find_owned foundSecond

theorem resolveSum_sound {r : Registry} {summands : List Summand} {e : Expression}
    (h : resolveSum r summands = .ok e) : e.IsCanonical ∧ e.OwnedBy r := by
  obtain ⟨items, resolved, h⟩ := bind_eq_ok.1 h
  refine Expression.ofItems_sound ?_ (inRange_eq_ok.1 h)
  intro i member
  obtain ⟨s, -, step⟩ := exists_of_mem_mapM resolved member
  exact summand_sound step

theorem Row.resolve_wellFormed {r : Registry} {row : Row} {c : Constraint}
    (h : row.resolve r = .ok c) : c.WellFormed r := by
  obtain ⟨left, isLeft, h⟩ := bind_eq_ok.1 h
  obtain ⟨right, isRight, h⟩ := bind_eq_ok.1 h
  exact Constraint.ofSides_wellFormed (resolveSum_sound isLeft) (resolveSum_sound isRight)
    (inRange_eq_ok.1 h)

theorem Document.resolve_wellFormed {start owner : Nat} {d : Document} {r : Registry} {m : Model}
    (h : r.Rebuilt start owner) (resolved : d.resolve r = .ok m) :
    m.WellFormed ∧ m.registry.Rebuilt start owner := by
  obtain ⟨registry, declared, resolved⟩ := bind_eq_ok.1 resolved
  obtain ⟨expression, summed, resolved⟩ := bind_eq_ok.1 resolved
  obtain ⟨constraints, rows, resolved⟩ := bind_eq_ok.1 resolved
  cases resolved
  have rebuilt := declare_rebuilt h declared
  obtain ⟨canonical, owned⟩ := resolveSum_sound summed
  refine ⟨⟨rebuilt.wellFormed, canonical, owned, fun c member => ?_⟩, rebuilt⟩
  obtain ⟨row, -, step⟩ := exists_of_mem_mapM rows member
  exact Row.resolve_wellFormed step

end LpText

namespace Model

theorem readLp_wellFormed {m n : Model} {text : String} (h : m.readLp text = .ok n) :
    n.WellFormed ∧ n.registry.Rebuilt m.registry.issued m.registry.owner := by
  obtain ⟨d, -, resolved⟩ := bind_eq_ok.1 h
  exact LpText.Document.resolve_wellFormed m.registry.clear_rebuilt resolved

end Model

end LinOpt
