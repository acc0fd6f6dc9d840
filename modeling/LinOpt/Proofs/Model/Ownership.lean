import LinOpt.Proofs.Bridge.Names
import LinOpt.Proofs.Model.Run

namespace LinOpt.Model

variable {m : Model}

/-- The error of what is wrong with a term: the one that says so, unless it cannot be said because a
number has too many digits or a value is nested too deep. -/
inductive TermError (shown : Showing) (fault : TermFault) : Error → Prop
  | said {message : String} (isMessage : fault.message shown = .ok message) :
      TermError shown fault (.invalidTerm fault)
  | tooManyDigits (unshown : fault.message shown = .error .tooManyDigits) :
      TermError shown fault .wrongValue
  | tooDeep (unshown : fault.message shown = .error .tooDeep) : TermError shown fault .endless

/-- An attempt fails because of the first item that cannot be read, unless an earlier check fails or
what stands before the foreign item is out of range already. -/
def Refused (m : Model) (elsewhere : Valuation) (before : List Value) (given : Value)
    (earlier : Error → Prop) (attempt : Except Error α) : Prop :=
  ∃ e, attempt = .error e ∧
    ((∃ items fault, Expression.offered? given = some items ∧ FirstFault m.registry items fault ∧
        TermError (m.valueOr elsewhere).shown fault e) ∨
      (∃ first, earlier first ∧ e = m.raised elsewhere first) ∨
      e = .overflow ∧ Expression.canonicalize (some m.registry) (.list before) = .error .overflow)

/-- As `Refused`, of what a registry takes part in, with the error before it is raised. -/
def Stopped (r : Registry) (before : List Value) (given : Value) (earlier : Error → Prop)
    (attempt : Except Error α) : Prop :=
  ∃ e, attempt = .error e ∧
    ((∃ items fault, Expression.offered? given = some items ∧ FirstFault r items fault ∧
        e = .invalidTerm fault) ∨
      earlier e ∨
      e = .overflow ∧ Expression.canonicalize (some r) (.list before) = .error .overflow)

namespace Stopped

variable {r : Registry} {before : List Value} {given : Value} {earlier : Error → Prop}

theorem bind {attempt : Except Error α} (h : Stopped r before given earlier attempt)
    (next : α → Except Error β) : Stopped r before given earlier (attempt >>= next) := by
  obtain ⟨e, rfl, why⟩ := h
  exact ⟨e, rfl, why⟩

theorem weaken {attempt : Except Error α} (h : Stopped r before given earlier attempt)
    {others : Error → Prop} (more : ∀ e, earlier e → others e) :
    Stopped r before given others attempt := by
  obtain ⟨e, wrong, why⟩ := h
  exact ⟨e, wrong, why.imp_right (Or.imp_left (more e))⟩

theorem after {check : Except Error β} {next : β → Except Error α}
    (h : ∀ b, Stopped r before given earlier (next b)) :
    Stopped r before given (fun e => check = .error e ∨ earlier e) (check >>= next) := by
  cases check with
  | error e => exact ⟨e, rfl, .inr (.inl (.inl rfl))⟩
  | ok b => exact (h b).weaken fun _ => .inr

end Stopped

theorem termError_raised (m : Model) (elsewhere : Valuation) (fault : TermFault) :
    TermError (m.valueOr elsewhere).shown fault (m.raised elsewhere (.invalidTerm fault)) := by
  cases message : fault.message (m.valueOr elsewhere).shown with
  | ok text =>
    have same : m.raised elsewhere (.invalidTerm fault) = .invalidTerm fault := by
      simp only [raised, Error.shownBy, Error.message, message]
    rw [same]
    exact .said message
  | error why =>
    cases why with
    | tooManyDigits =>
      have other : m.raised elsewhere (.invalidTerm fault) = .wrongValue := by
        simp only [raised, Error.shownBy, Error.message, message, Unshown.error]
      rw [other]
      exact .tooManyDigits message
    | tooDeep =>
      have other : m.raised elsewhere (.invalidTerm fault) = .endless := by
        simp only [raised, Error.shownBy, Error.message, message, Unshown.error]
      rw [other]
      exact .tooDeep message

theorem Stopped.refused {before : List Value} {given : Value} {earlier : Error → Prop}
    {built : Except Error α} (h : Stopped m.registry before given earlier built)
    (elsewhere : Valuation) (next : α → Except Error β) :
    Refused m elsewhere before given earlier (built.mapError (m.raised elsewhere) >>= next) := by
  obtain ⟨e, rfl, why⟩ := h
  refine ⟨m.raised elsewhere e, rfl, ?_⟩
  rcases why with ⟨items, fault, offered, among, rfl⟩ | before | ⟨rfl, reached⟩
  · exact .inl ⟨items, fault, offered, among, termError_raised m elsewhere fault⟩
  · exact .inr (.inl ⟨e, before, rfl⟩)
  · exact .inr (.inr ⟨rfl, reached⟩)

theorem run_append (m : Model) (first later : List Operation) :
    m.run (first ++ later) = (m.run first).run later :=
  List.foldl_append

end LinOpt.Model
