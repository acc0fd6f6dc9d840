import LinOpt.Proofs.Bridge.Answers
import LinOpt.Proofs.Engine.Jslp
import LinOpt.Proofs.Model.Independence

namespace LinOpt

namespace Session

structure IsValueless (s : Session) : Prop where
  objectiveValue : s.objectiveValue = none
  value : ∀ v, s.value v = .null
  row : ∀ i, s.row i = {}

structure IsCleared (s : Session) : Prop extends s.IsValueless where
  status : s.status = none
  diagnostics : s.diagnostics = []

theorem isCleared_response (response : Value) : ({ response } : Session).IsCleared where
  objectiveValue := rfl
  value := fun _ => rfl
  row := fun _ => rfl
  status := rfl
  diagnostics := rfl

end Session

namespace Model

variable {m n : Model} {call : Call} {e : Error} {result : SolveResult}

namespace Call

/-- The response that a call takes over, and the bridge it comes through, unless the call fails
before. -/
def heard (m : Model) : Call → Option (Bridge × Value)
  | solve bridges engine options kind elsewhere =>
    let options := solveOptions options
    match m.reset.prepare bridges (if kind.isNull then engine.kind else kind) options elsewhere with
    | .error _ => none
    | .ok (b, request) => (engine.answer request options).toOption.map fun response => (b, response)
  | readSolution bridges kind response _ =>
    (bridges.find kind).toOption.map fun b => (b, response)

/-- What a call understands of what it hears. -/
def understood (m : Model) (call : Call) : Option (Bridge × Bridge.Answer) :=
  call.heard m >>= fun (b, response) => (b.read m response).toOption.map fun answer => (b, answer)

/-- Either a call fails before it hears anything, or it ends as the taking over of what it hears,
with something noted at the end. The response may be in the session already by then. -/
theorem on_cases (call : Call) (m : Model) :
    (call.heard m = none ∧ ∃ e, call.on m = (m.reset, .error e)) ∨
      ∃ b response kept note, call.heard m = some (b, response) ∧
        call.on m = noted note (b.decode { m with session := { response := kept } } response) ∧
        ∀ result session, ∃ heard, note result session =
          { session with response := heard, diagnostics := result.diagnostics } := by
  cases call with
  | readSolution bridges kind response elsewhere =>
    unfold heard on Model.readSolution findBridge
    dsimp only
    cases bridges.find kind with
    | error e => exact .inl ⟨rfl, _, rfl⟩
    | ok b =>
      let note (result : SolveResult) (s : Session) : Session :=
        { s with response, diagnostics := result.diagnostics }
      exact .inr ⟨b, response, .null, note, rfl, rfl, fun _ _ => ⟨response, rfl⟩⟩
  | solve bridges engine options kind elsewhere =>
    unfold heard on Model.solve
    dsimp only
    cases m.reset.prepare bridges (if kind.isNull then engine.kind else kind)
        (solveOptions options) elsewhere with
    | error e => exact .inl ⟨rfl, e, rfl⟩
    | ok prepared =>
      dsimp only
      cases engine.answer prepared.2 (solveOptions options) with
      | error e => exact .inl ⟨rfl, e, rfl⟩
      | ok response =>
        let note (result : SolveResult) (s : Session) : Session :=
          { s with diagnostics := result.diagnostics }
        exact .inr ⟨prepared.1, response, response, note, rfl, rfl, fun _ s => ⟨s.response, rfl⟩⟩

theorem heard_solve {bridges : Bridges} {engine : Engine} {options kind response : Value}
    {elsewhere : Valuation} {b : Bridge}
    (heard : (solve bridges engine options kind elsewhere).heard m = some (b, response)) :
    bridges.find (if kind.isNull then engine.kind else kind) = .ok b ∧
      ∃ request, b.encode m.reset (solveOptions options) elsewhere = .ok request ∧
        engine.answer request (solveOptions options) = .ok response := by
  unfold Call.heard at heard
  dsimp only at heard
  split at heard
  · cases heard
  next b' request prepared =>
    obtain ⟨c, known, encoded⟩ := bind_eq_ok.1 prepared
    obtain ⟨request, encoded, same⟩ := bind_eq_ok.1 encoded
    cases same
    have found := findBridge_eq_ok.1 known
    cases answered : engine.answer request (solveOptions options) with
    | error e =>
      rw [answered] at heard
      cases heard
    | ok answer =>
      rw [answered] at heard
      cases heard
      exact ⟨found, request, encoded, answered⟩

theorem heard_readSolution {bridges : Bridges} {kind response given : Value} {b : Bridge}
    {elsewhere : Valuation}
    (heard : (readSolution bridges kind given elsewhere).heard m = some (b, response)) :
    bridges.find kind = .ok b ∧ response = given := by
  unfold Call.heard at heard
  dsimp only at heard
  cases found : bridges.find kind with
  | error e =>
    rw [found] at heard
    cases heard
  | ok c =>
    rw [found] at heard
    cases heard
    exact ⟨rfl, rfl⟩

theorem on_eq_error (failed : call.on m = (n, .error e)) :
    call.heard m = none ∧ n = m.reset ∨
      ∃ b response kept, call.heard m = some (b, response) ∧
        b.decode { m with session := { response := kept } } response = (n, .error e) := by
  rcases call.on_cases m with ⟨silent, e', same⟩ | ⟨b, response, kept, note, heard, same, -⟩
  · rw [failed] at same
    exact .inl ⟨silent, congrArg Prod.fst same⟩
  · refine .inr ⟨b, response, kept, heard, ?_⟩
    rw [failed] at same
    revert same
    match b.decode { m with session := { response := kept } } response with
    | (after, .error e') => exact Eq.symm
    | (after, .ok result) => exact nofun

theorem on_eq_ok (taken : call.on m = (n, .ok result)) :
    ∃ b response answer objectiveValue kept noted, call.heard m = some (b, response) ∧
      b.read m response = .ok answer ∧
      b.objectiveValue m answer.reported.join = .ok objectiveValue ∧
      n = { m with session := { (b.found kept answer).1 with
        objectiveValue, response := noted, diagnostics := result.diagnostics } } ∧
      result = { (b.found kept answer).2 with objectiveValue } := by
  rcases call.on_cases m with ⟨-, e', same⟩ | ⟨b, response, kept, note, heard, same, notes⟩
  · cases taken.symm.trans same
  · rw [taken] at same
    revert same
    match decoded : b.decode { m with session := { response := kept } } response with
    | (after, .error e') => exact nofun
    | (after, .ok result') =>
      intro same
      cases same
      obtain ⟨answer, objectiveValue, read, whole, rfl, found⟩ := Bridge.decode_eq_ok decoded
      obtain ⟨noted, isNote⟩ := notes result { (b.found kept answer).1 with objectiveValue }
      exact ⟨b, response, answer, objectiveValue, kept, noted, heard, read, whole,
        by rw [isNote], found⟩

theorem value_eq (taken : call.on m = (n, .ok result)) {b : Bridge} {response : Value}
    (heard : call.heard m = some (b, response)) :
    ∃ answer kept, b.read m response = .ok answer ∧ n.value = (b.found kept answer).1.value := by
  obtain ⟨b', response', answer, objectiveValue, kept, noted, hears, read, -, rfl, -⟩ := on_eq_ok taken
  rw [heard] at hears
  cases hears
  exact ⟨answer, kept, read, rfl⟩

theorem heard_reference {format : Format}
    {solver : LinearProgram.Query → Except Error LinearProgram.Outcome} {options : Value}
    {elsewhere : Valuation}
    (solved : m.solve .standard (.reference format solver) options .null elsewhere =
      (n, .ok result)) :
    ∃ request response,
      (solve .standard (.reference format solver) options .null elsewhere).heard m =
        some (.ofFormat format, response) ∧
      (Bridge.ofFormat format).encode m.reset (solveOptions options) elsewhere = .ok request ∧
      Engine.referenceAnswer format solver request (solveOptions options) = .ok response := by
  have taken : (solve .standard (.reference format solver) options .null elsewhere).on m =
      (n, .ok result) := solved
  obtain ⟨b, response, -, -, -, -, heard, -⟩ := on_eq_ok taken
  obtain ⟨found, request, encoded, answered⟩ := heard_solve heard
  have known : Bridges.standard.find (Engine.reference format solver).kind =
      .ok (.ofFormat format) := by cases format <;> rfl
  obtain rfl : Bridge.ofFormat format = b := Except.ok.inj (known.symm.trans found)
  exact ⟨request, response, heard, encoded, answered⟩

theorem understood_of_read {b : Bridge} {response : Value} {answer : Bridge.Answer}
    (heard : call.heard m = some (b, response)) (read : b.read m response = .ok answer) :
    call.understood m = some (b, answer) := by
  simp only [understood, heard, bind, Option.bind_some, read]
  rfl

end Call

/-- A call that fails leaves the problem as it was, and no objective value. It leaves nothing else
either, unless it has understood an answer: it is the constant of the objective that then makes it
fail, where it is too large to be added to the objective value, and the status that the answer has
is left behind. -/
theorem failed_call_clears (failed : call.on m = (n, .error e)) :
    m.Agrees n ∧ n.session.objectiveValue = none ∧ n.session.diagnostics = [] ∧
      (call.understood m = none ∧ n.session.IsCleared ∨
        ∃ b answer, call.understood m = some (b, answer) ∧
          n.session.status = some answer.status ∧ e = .overflow ∧ b.includesConstant = false ∧
          m.objective.expression.constant.toBinary64? = none) := by
  have agrees : m.Agrees n := by
    have same := call.on_agrees m
    rwa [failed] at same
  rcases Call.on_eq_error failed with ⟨silent, rfl⟩ | ⟨b, response, kept, heard, decoded⟩
  · have cleared := Session.isCleared_response .null
    refine ⟨agrees, rfl, rfl, .inl ⟨?_, cleared⟩⟩
    rw [Call.understood, silent]
    rfl
  -- What was heard is not understood, or it is, and only the constant cannot be added.
  rcases Bridge.decode_eq_error decoded with ⟨refused, rfl⟩ | ⟨answer, read, whole, rfl⟩
  · have cleared := Session.isCleared_response kept
    refine ⟨agrees, rfl, rfl, .inl ⟨?_, cleared⟩⟩
    simp only [Call.understood, heard, bind, Option.bind_some, refused]
    rfl
  · have rest := (Bridge.found_keeps read kept).session
    obtain ⟨overflow, apart, -, large⟩ := Bridge.objectiveValue_eq_error.1 whole
    exact ⟨agrees, rest.objectiveValue, rest.diagnostics,
      .inr ⟨b, answer, Call.understood_of_read heard read, rest.status, overflow, apart, large⟩⟩

namespace Sample

def broken : Call :=
  .solve .standard { kind := .text "glpk", answer := fun _ _ => .error (.engineFailed "no solver") }
    .null .null fun _ => .null

def solved : Model :=
  ((Call.solve .standard (.reference .glpk fun _ => .ok .sample) .null .null fun _ => .null).on
    model).1

def distant : Model :=
  let x : Variable := { name := "x", id := ⟨0, 0⟩ }
  (empty 0).run [
    .addVar { name := .text "x" },
    .setObjective (.list [.var x, .int (10 ^ 400)]) (.text "minimize"),
    .addConstraint (.list [.var x]) (.text ">=") (.number 1)]

def best : Value :=
  .record [("result", .record [
    ("status", .int 5), ("z", .real (Number.double 1)),
    ("vars", .record [("x", .real (Number.double 1))]),
    ("dual", .record [("cons1", .real (Number.double 1))])])]

end Sample

theorem sample_failed_call_clears :
    Sample.solved.session.status = some .optimal ∧
      (Sample.broken.on Sample.solved).2.toOption.isNone = true ∧
      (Sample.broken.on Sample.solved).1.session.IsCleared := by
  have silent : (Sample.broken.understood Sample.solved).isNone = true := by decide +kernel
  have fails : (Sample.broken.on Sample.solved).2.toOption.isNone = true := by decide +kernel
  refine ⟨by decide +kernel, fails, ?_⟩
  match ended : Sample.broken.on Sample.solved with
  | (n, .ok result) =>
    rw [ended] at fails
    cases fails
  | (n, .error e) =>
    obtain ⟨-, -, -, ⟨-, cleared⟩ | ⟨b, answer, understood, -⟩⟩ := failed_call_clears ended
    · exact cleared
    · rw [understood] at silent
      cases silent

/-- A call that fails after all, and leaves a status, a value and a dual. -/
theorem distant_call_leaves_values :
    let left := (Call.readSolution .standard (.text "glpk") Sample.best fun _ => .null).on Sample.distant
    left.2.toOption.isNone = true ∧ left.1.session.status = some .optimal ∧
      left.1.registry.vars.map (fun v => (left.1.value v).isNull) = [false] ∧
      (left.1.session.row 0).dual = some (Number.double 1) := by
  decide +kernel

/-- A response without a solution leaves no values, and there are none in what is given back. Only
an unbounded problem through the jsLPSolver format leaves what the response has for each
variable. -/
theorem readSolution_without_solution (reachable : m.Reachable) {kind response : Value}
    {elsewhere : Valuation}
    (taken : m.readSolution .standard kind response elsewhere = (n, .ok result))
    (bare : result.status.hasSolution = false) :
    m.Agrees n ∧ n.session.status = some result.status ∧
      (¬ (result.kind = "jslp" ∧ result.status = .unbounded) →
        n.session.IsValueless ∧ result.objectiveValue = none ∧ result.values = []) ∧
      (result.kind = "jslp" → result.status = .unbounded →
        ∃ r, Jslp.Response.read response = .ok r ∧
          m.registry.vars.map n.value = m.registry.vars.map (Jslp.valueIn r) ∧
          result.values = m.registry.vars.map (fun v => (v.name, Jslp.valueIn r v)) ∧
          Bridge.jslp.objectiveValue m r.objectiveValue = .ok n.session.objectiveValue) := by
  have agrees : m.Agrees n := by
    have same := m.readSolution_agrees .standard kind response elsewhere
    rwa [taken] at same
  have taken : (Call.readSolution .standard kind response elsewhere).on m = (n, .ok result) := taken
  obtain ⟨b, response', answer, objectiveValue, kept, noted, heard, read, whole, rfl, found⟩ :=
    Call.on_eq_ok taken
  obtain ⟨known, rfl⟩ := Call.heard_readSolution heard
  obtain ⟨format, rfl⟩ := Bridges.find_standard known
  have rest := Bridge.found_keeps read kept
  have status : result.status = answer.status := found ▸ rest.status
  have isFormat : result.kind = "jslp" ↔ format = .jslp := by
    have isKind : result.kind = format.kind := by
      rw [← Bridge.kind_ofFormat, found]
      exact rest.kind
    rw [isKind]
    cases format <;> decide
  refine ⟨agrees, status ▸ rest.session.status, ?_⟩
  rw [isFormat, status]
  -- Where feasibility is a flag of its own, there may be values without a solution.
  rcases Bridge.read_bare read (status ▸ bare) with
    ⟨other, said, nothing⟩ | ⟨isJslp, unbounded, r, understood, said, all⟩
  · rw [Bridge.format_ofFormat] at other
    refine ⟨fun _ => ?_, fun isJslp unbounded => absurd ⟨isJslp, unbounded⟩ other⟩
    rw [said] at whole
    cases whole
    simp only [Bridge.found, nothing] at found ⊢
    subst found
    exact ⟨⟨rfl, fun _ => rfl, fun _ => rfl⟩, rfl, rfl⟩
  · rw [Bridge.format_ofFormat] at isJslp
    subst isJslp
    refine ⟨fun other => absurd ⟨rfl, unbounded⟩ other, fun _ _ => ⟨r, understood, ?_⟩⟩
    rw [said] at whole
    have values := Jslp.decode_values reachable.wellFormed r
      { response := kept, status := some answer.status }
      { status := answer.status, kind := Bridge.jslp.kind } rfl
    subst found
    simp only [Bridge.found, all]
    exact ⟨values.1, values.2, whole⟩

namespace Sample

def flagged (feasible bounded : Bool) : Value :=
  .record [("feasible", .bool feasible), ("result", .real (.infinite false)),
    ("bounded", .bool bounded)]

end Sample

theorem sample_readSolution_without_solution :
    ∃ n result,
      Sample.solved.readSolution .standard (.text "jslp") (Sample.flagged false true)
          (fun _ => .null) = (n, .ok result) ∧
      n.session.status = some .infeasible ∧ n.session.IsValueless ∧ result.values = [] := by
  have reachable : Sample.solved.Reachable :=
    ⟨0, Sample.ops ++ [.solve .standard (.reference .glpk fun _ => .ok .sample) .null .null
      fun _ => .null], rfl⟩
  have said : (Sample.solved.readSolution .standard (.text "jslp")
      (Sample.flagged false true) fun _ => .null).2.toOption.map (·.status) = some .infeasible := by decide +kernel
  match taken : Sample.solved.readSolution .standard (.text "jslp") (Sample.flagged false true)
      fun _ => .null with
  | (n, .error e) =>
    rw [taken] at said
    cases said
  | (n, .ok result) =>
    rw [taken] at said
    have status : result.status = .infeasible := Option.some.inj said
    obtain ⟨-, isStatus, valueless, -⟩ :=
      readSolution_without_solution reachable taken (by rw [status]; rfl)
    obtain ⟨empty, -, none⟩ := valueless fun unbounded => by
      rw [status] at unbounded
      cases unbounded.2
    exact ⟨n, result, rfl, status ▸ isStatus, empty, none⟩

/-- An unbounded problem, of which both variables have a value and so has the objective. -/
theorem unbounded_response_has_values :
    let left := Sample.model.readSolution .standard (.text "jslp") (Sample.flagged true false)
      fun _ => .null
    left.2.toOption.map (·.status.hasSolution) = some false ∧
      left.2.toOption.map (·.values.names) = some ["x", "y"] ∧
      left.1.session.status = some .unbounded ∧
      left.1.registry.vars.map (fun v => (left.1.value v).isNull) = [false, false] ∧
      left.1.session.objectiveValue = some (.infinite false) := by
  decide +kernel

end Model

end LinOpt
