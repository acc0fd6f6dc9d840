import LinOpt.Proofs.Model.Solve
import LinOpt.Proofs.Program.Represents
import LinOpt.Proofs.Schema.Responses

namespace LinOpt

namespace Glpk

open LinearProgram LinearProgram.Builder

theorem rowName_injective {i j : Nat} (same : rowName i = rowName j) : i = j :=
  Nat.succ.inj (append_toString_injective "cons" same)

theorem foldl_decodeValue {m : Model} {vs : List Variable}
    (held : ∀ v ∈ vs, m.registry.get? v.name = some v) (xs : List Binary64)
    (session : Session) (result : SolveResult) :
    ∃ values, ((vs.map (·.name)).zip xs).foldl (decodeValue m) (session, result) =
      (session.assignAll (vs.zip (xs.map .real)), { result with values }) := by
  rw [List.zip_map_left, List.foldl_map, List.zip_map_right]
  refine Session.foldl_assign (fun item member s r => ?_) session result
  have known := held item.1 (List.of_mem_zip member).1
  exact ⟨r.values.put item.1.name (.real item.2), by simp only [Prod.map, decodeValue, known]; rfl⟩

theorem row_decodeDuals (m : Model) (duals : Entries Binary64) (session : Session) (i : Nat) :
    (decodeDuals m duals session).row i =
      if i < m.constraints.length then
        ⟨(session.row i).primal, (duals.get? (rowName i)).or (session.row i).dual⟩
      else session.row i := by
  unfold decodeDuals
  induction m.constraints.length with
  | zero => rfl
  | succ n ih =>
    rw [List.range_succ, List.foldl_append, List.foldl_cons, List.foldl_nil]
    generalize (List.range n).foldl _ session = before at ih ⊢
    have order (differs : i ≠ n) : i < n + 1 ↔ i < n := by omega
    cases found : duals.get? (rowName n) with
    | none =>
      dsimp only
      rw [ih]
      by_cases here : i = n
      · subst here
        simp [found]
      · simp only [order here]
    | some x =>
      dsimp only
      rw [Session.row_assignRow, ih]
      -- A dual is assigned in its own place only.
      by_cases here : i = n
      · subst here
        simp [ih, found]
      · rw [if_neg (Ne.symm here)]
        simp only [order here]

theorem rowNames_ofGlpk {m : Model} (sound : m.WellFormed) :
    (ofGlpk (requestOf m)).rowNames = (List.range m.constraints.length).map rowName := by
  rw [ofGlpk_requestOf sound]
  exact names_of_places m rowName programRow fun _ => rfl

theorem rowNames_nodup (n : Nat) : ((List.range n).map rowName).Nodup :=
  List.nodup_range.map fun _ _ => rowName_injective

theorem get?_duals {n : Nat} {duals : List Binary64} (length : duals.length = n) (i : Nat)
    (bound : i < n) :
    Entries.get? (((List.range n).map rowName).zip duals) (rowName i) = duals[i]? := by
  have keys : Entries.names (((List.range n).map rowName).zip duals) = (List.range n).map rowName :=
    List.map_fst_zip (by simp [length])
  have place : ((List.range n).map rowName)[i]? = some (rowName i) := by
    simp [bound]
  have value : duals[i]? = some (duals.get ⟨i, length ▸ bound⟩) := List.getElem?_eq_getElem _
  rw [value]
  refine Entries.get?_of_mem (keys.symm ▸ rowNames_nodup n) (List.mem_of_getElem? (i := i) ?_)
  exact List.getElem?_zip_eq_some.2 ⟨place, value⟩

theorem decodeDuals_eq (m : Model) (duals : Entries Binary64) (session : Session) :
    ∃ rows, decodeDuals m duals session = { session with rows } := by
  unfold decodeDuals
  refine List.foldlRecOn _ _ 
    (motive := fun s : Session => ∃ rows, s = { session with rows := rows }) ⟨session.rows, rfl⟩ ?_
  rintro _ ⟨rows, rfl⟩ i _
  split
  · exact ⟨_, rfl⟩
  · exact ⟨rows, rfl⟩

def unknownDuals (m : Model) (duals : Option (Entries Binary64)) : List Unmatched :=
  ((duals.elim [] Entries.names).filter fun x =>
    x ∉ (List.range m.constraints.length).map rowName).map .row

theorem unknownDuals_eq_nil {m : Model} {duals : Option (Entries Binary64)}
    (known : ∀ entries, duals = some entries →
      entries.names = (List.range m.constraints.length).map rowName) :
    unknownDuals m duals = [] := by
  cases duals with
  | none => rfl
  | some entries =>
    simp only [unknownDuals, Option.elim_some, known entries rfl, List.map_eq_nil_iff,
      List.filter_eq_nil_iff]
    intro name member
    simpa using member

theorem decodeRows_eq (m : Model) (duals : Option (Entries Binary64)) (session : Session)
    (result : SolveResult) : ∃ rows, decodeRows m duals (session, result) =
        ({ session with rows },
          { result with diagnostics := result.diagnostics ++ unknownDuals m duals }) ∧
      ∀ i, ({ session with rows } : Session).row i =
        if i < m.constraints.length then
          ⟨(session.row i).primal,
            (duals >>= fun entries => entries.get? (rowName i)).or (session.row i).dual⟩
        else session.row i := by
  cases duals with
  | none =>
    refine ⟨session.rows, ?_, fun i => ?_⟩
    · simp [decodeRows, unknownDuals]
    · exact (ite_self _).symm
  | some entries =>
    obtain ⟨rows, same⟩ := decodeDuals_eq m entries session
    refine ⟨rows, ?_, fun i => ?_⟩
    · simp only [decodeRows, same, unknownRows, unknownDuals, Option.elim_some,
        List.contains_eq_mem, decide_not]
    · rw [← same]
      exact row_decodeDuals m entries session i

theorem decodeRows_all {m : Model} {duals : Option (List Binary64)}
    (length : ∀ ys, duals = some ys → ys.length = m.constraints.length) {session : Session}
    (bare : session.rows = []) (result : SolveResult) :
    ∃ rows, decodeRows m (duals.map ((List.range m.constraints.length).map rowName).zip)
        (session, result) = ({ session with rows }, result) ∧
      ∀ i, ({ session with rows } : Session).row i = ⟨none, duals >>= fun ys => ys[i]?⟩ := by
  have empty (i : Nat) : session.row i = {} := by
    rw [Session.row, bare]
    rfl
  obtain ⟨rows, taken, found⟩ := decodeRows_eq m
    (duals.map ((List.range m.constraints.length).map rowName).zip) session result
  have known : unknownDuals m (duals.map ((List.range m.constraints.length).map rowName).zip) =
      [] := by
    apply unknownDuals_eq_nil
    intro entries zipped
    obtain ⟨ys, some, rfl⟩ := Option.map_eq_some_iff.1 zipped
    exact List.map_fst_zip (by simp [length ys some])
  rw [known, List.append_nil] at taken
  refine ⟨rows, taken, fun i => ?_⟩
  rw [found, empty]
  cases duals with
  | none => exact ite_self _
  | some ys =>
    have count := length ys rfl
    split
    next bound =>
      simp only [Option.map_some, Option.bind_eq_bind, Option.bind_some,
        get?_duals count i bound, Option.or_none]
    next beyond =>
      have absent : ys[i]? = none := List.getElem?_eq_none_iff.2 (by omega)
      simp [absent]

theorem statusOfCode_statusCode {status : Status} (known : ∀ text, status ≠ .other text) :
    statusOfCode (statusCode status) = status := by
  cases status with
  | other text => exact absurd rfl (known text)
  | _ => rfl

theorem read_solved {m : Model} {response : Value} {r : Response}
    (understood : Response.read response = .ok r)
    (hasSolution : (statusOfCode r.status).hasSolution = true) :
    Bridge.glpk.read m response = .ok {
      status := statusOfCode r.status
      reported := some r.objectiveValue
      take := fun found => decodeRows m r.duals (r.values.foldl (decodeValue m) found) } := by
  simp only [Bridge.read, Bridge.glpk, Bridge.readGlpk, understood, checked, Except.mapError, bind,
    Except.bind, hasSolution]
  rfl

theorem decode_eq_ok {m : Model} (sound : m.WellFormed)
    (constant : m.objective.expression.constant.IsFinite) {response : Value} {status : Status}
    (known : ∀ text, status ≠ .other text) (hasSolution : status.hasSolution = true)
    {z : Binary64} {point : List Binary64} {duals : Option (List Binary64)}
    (count : ∀ ys, duals = some ys → ys.length = m.constraints.length)
    (read : Response.read response = .ok {
      status := statusCode status
      objectiveValue := some z
      values := m.registry.names.zip point
      duals := duals.map ((List.range m.constraints.length).map rowName).zip }) :
    ∃ rows values,
      Bridge.glpk.decode { m with session := { response } } response = ({ m with session := {
          Session.assignAll { response } (m.registry.vars.zip (point.map .real)) with
          status := some status
          rows
          objectiveValue := some (z.add m.objective.expression.constant.double) } },
        .ok { status, values, kind := "glpk"
              objectiveValue := some (z.add m.objective.expression.constant.double) }) ∧
      ∀ i, (Session.row { rows } i) = ⟨none, duals >>= fun ys => ys[i]?⟩ := by
  -- The model that has heard the response differs from `m` in its session only.
  generalize start : ({ m with session := { response } } : Model) = n
  have registry : n.registry = m.registry := start ▸ rfl
  have constraints : n.constraints = m.constraints := start ▸ rfl
  have objective : n.objective = m.objective := start ▸ rfl
  have answer : Bridge.glpk.read n response = .ok {
      status
      reported := some (some z)
      take := fun found => decodeRows n
        (duals.map ((List.range n.constraints.length).map rowName).zip)
        ((n.registry.names.zip point).foldl (decodeValue n) found) } := by
    have solved := read_solved (m := n) read (by rwa [statusOfCode_statusCode known])
    rw [statusOfCode_statusCode known] at solved
    rw [registry, constraints]
    exact solved
  have whole : Bridge.glpk.objectiveValue n (some z) =
      .ok (some (z.add m.objective.expression.constant.double)) := by
    simp only [Bridge.objectiveValue, objective, constant.real_add z]
    rfl
  obtain ⟨values, assigned⟩ := foldl_decodeValue (m := n)
    (fun v member => Registry.get?_of_mem (registry ▸ sound.registry.nodup) member) point
    { n.session with status := some status } { status, kind := "glpk" }
  let session := Session.assignAll { n.session with status := some status }
    (n.registry.vars.zip (point.map .real))
  have noRows : session.rows = [] := by
    subst start
    rfl
  obtain ⟨rows, taken, found⟩ := decodeRows_all (m := n) (constraints ▸ count) noRows
    { status, values, kind := "glpk" }
  rw [← assigned] at taken
  have all := Bridge.decode_solved answer whole taken
  subst start
  exact ⟨rows, values, all, found⟩

theorem read_bare {m : Model} {response : Value} {status : Status}
    (known : ∀ text, status ≠ .other text) (bare : status.hasSolution = false)
    {z : Option Binary64} {values : Entries Binary64} {duals : Option (Entries Binary64)}
    (read : Response.read response = .ok ⟨statusCode status, z, values, duals⟩) :
    Bridge.glpk.read m response = .ok { status, reported := none, take := id } := by
  simp only [Bridge.read, Bridge.glpk, Bridge.readGlpk, read, checked, Except.mapError, bind,
    Except.bind, statusOfCode_statusCode known, bare, Bool.not_false, if_true]
  rfl

/-- What a solve through the GLPK format leaves behind, if the solver's outcome has a point. -/
structure SolvedBy (m : Model) (outcome : Outcome) (point : List Binary64) (n : Model)
    (result : SolveResult) : Prop where
  agrees : m.Agrees n
  status : n.session.status = some (LinearProgram.statusOfCode outcome.code true)
  values : m.registry.vars.map n.value = point.map .real
  recorded : result.diagnostics = []
  diagnostics : n.session.diagnostics = []
  objectiveValue : n.session.objectiveValue =
    some (((sumAt m.objective.expression m.registry.names point).add (Binary64.zero false)).add
      m.objective.expression.constant.double)
  primal : ∀ i, (n.session.row i).primal = none
  dual : ∀ i, (n.session.row i).dual =
    if m.isIntegral = false ∧ outcome.code = 0 ∧ HasMarginals m.constraints outcome then
      sensitivity? m.objective.isMaximize m.constraints outcome i
    else none

theorem requestName_requestOf (m : Model) :
    Engine.requestName (requestOf m).toValue = .text "LP" := by
  simp only [Engine.requestName, Request.toValue, Value.record, List.map_cons,
    Schema.findField_cons_text, if_true, Option.getD_some]
  rfl

theorem readRun_requestOf {m : Model} {options : Value} {settings : Settings}
    (read : Settings.ofOptions options = .ok settings) :
    Engine.readRun .glpk (requestOf m).toValue options =
      .ok (ofGlpk (requestOf m), settings) := by
  have program : Engine.readProgram .glpk (requestOf m).toValue = .ok (ofGlpk (requestOf m)) := by
    simp only [Engine.readProgram, Request.read_toValue]
    rfl
  have own : Engine.runOptions .glpk (requestOf m).toValue options = options := rfl
  simp only [Engine.readRun, program, own, read, bind, Except.bind, pure, Except.pure]

theorem encode_requestOf {m : Model} (sound : m.WellFormed) (finite : m.IsFinite)
    (linear : m.isQuadratic = false) (options : Value) (elsewhere : Valuation) :
    Bridge.glpk.encode m.reset options elsewhere = .ok (requestOf m).toValue := by
  have encoded := encode_eq_ok (sound.agrees m.reset_agrees) finite.reset linear
  exact map_eq_ok.2 ⟨_, encoded, rfl⟩

theorem columnCount_requestOf {m : Model} (sound : m.WellFormed) (finite : m.IsFinite) :
    (ofGlpk (requestOf m)).columnCount = m.registry.vars.length := by
  rw [LinearProgram.columnCount, (represents_glpk sound finite).2, Registry.names, List.length_map]

section

variable {m : Model} {outcome : Outcome} {solver : Query → Except Error Outcome} {options : Value}
  {settings : Settings} (sound : m.WellFormed) (finite : m.IsFinite)
  (nonempty : m.registry.vars ≠ [])
  (read : Settings.ofOptions (Model.solveOptions options) = .ok settings)
  (answers : solver ((ofGlpk (requestOf m)).query settings) = .ok outcome)
include sound finite nonempty read answers

theorem solve_bare (linear : m.isQuadratic = false) (elsewhere : Valuation)
    (bare : (LinearProgram.statusOfCode outcome.code outcome.point.isSome).hasSolution = false) :
    ∃ n result response, m.solve .standard (.reference .glpk solver) options .null elsewhere =
        (n, .ok result) ∧
      n.session = { response
                    status := some (LinearProgram.statusOfCode outcome.code outcome.point.isSome)
                  } := by
  have columns : (ofGlpk (requestOf m)).columnCount ≠ 0 := by
    rw [columnCount_requestOf sound finite]
    exact fun none => nonempty (List.length_eq_zero_iff.1 none)
  have run := readRun_requestOf (m := m) read
  have solution := LinearProgram.solve_bare (represents_glpk sound finite).1.shape columns answers bare
  have response := Engine.read_glpkAnswer_bare (p := ofGlpk (requestOf m))
    (s := bareSolution outcome) rfl "LP"
  have answered : (Engine.reference .glpk solver).answer (requestOf m).toValue
      (Model.solveOptions options) =
      .ok (Engine.glpkAnswer (ofGlpk (requestOf m)) (bareSolution outcome) (.text "LP")) := by
    simp only [Engine.reference, Engine.referenceAnswer, run, solution, bind, Except.bind,
      Engine.answerIn, requestName_requestOf]
  exact Model.solve_bare rfl (encode_requestOf sound finite linear _ elsewhere) answered
    (read_bare (statusOfCode_ne_other _ _) bare response)

variable {point : List Binary64}
  (gives : outcome.GivesPoint m.constraints m.registry.vars.length point)
include gives

theorem answer_requestOf : ∃ response duals,
    (Engine.reference .glpk solver).answer (requestOf m).toValue (Model.solveOptions options) =
      .ok response ∧
    Response.read response = .ok {
      status := statusCode (LinearProgram.statusOfCode outcome.code true)
      objectiveValue := some
        ((sumAt m.objective.expression m.registry.names point).add (Binary64.zero false))
      values := m.registry.names.zip point
      duals := duals.map ((List.range m.constraints.length).map rowName).zip } ∧
    (∀ ys, duals = some ys → ys.length = m.constraints.length) ∧
    ∀ i, (duals >>= fun ys => ys[i]?) =
      if m.isIntegral = false ∧ outcome.code = 0 ∧ HasMarginals m.constraints outcome then
        sensitivity? m.objective.isMaximize m.constraints outcome i
      else none := by
  obtain ⟨same, columnNames⟩ := represents_glpk sound finite
  have rowNames := rowNames_ofGlpk sound
  have offset : (ofGlpk (requestOf m)).offset = .real (Binary64.zero false) := by
    rw [ofGlpk_requestOf sound]
    rfl
  have run := readRun_requestOf (m := m) read
  have columnCount := columnCount_requestOf sound finite
  -- All that counts about the program has been said, and nothing is computed from it.
  generalize ofGlpk (requestOf m) = p at *
  rw [← columnCount] at gives
  have total : (Number.real (dot p.objective point)).add p.offset = some (.real
      ((sumAt m.objective.expression m.registry.names point).add (Binary64.zero false))) := by
    rw [offset, same.objective, columnNames]
    rfl
  have solution := LinearProgram.solve_eq_ok same.shape
    (columnCount ▸ fun none => nonempty (List.length_eq_zero_iff.1 none)) answers (same.fits gives)
    gives.code gives.isPoint gives.length total
  have columns : p.columnNames.Nodup := columnNames ▸ sound.registry.nodup
  have rows : p.rowNames.Nodup := rowNames ▸ rowNames_nodup _
  have dualCount := length_rowDuals p outcome point (.real
    ((sumAt m.objective.expression m.registry.names point).add (Binary64.zero false)))
  have response := Engine.read_glpkAnswer (s := p.solutionAt outcome point (.real
    ((sumAt m.objective.expression m.registry.names point).add (Binary64.zero false)))) columns rows
    (statusOfCode_of_point gives.code).1 rfl gives.length dualCount rfl "LP"
  rw [columnNames, rowNames] at response
  refine ⟨_, _, ?_, response, fun ys given => ?_, same.rowDuals gives _⟩
  · simp only [Engine.reference, Engine.referenceAnswer, run, solution, bind, Except.bind,
      Engine.answerIn, requestName_requestOf]
  · rw [dualCount ys given, rowNames, List.length_map, List.length_range]

theorem solve_eq_ok (linear : m.isQuadratic = false) (elsewhere : Valuation) :
    ∃ n result, m.solve .standard (.reference .glpk solver) options .null elsewhere =
      (n, .ok result) ∧ SolvedBy m outcome point n result := by
  obtain ⟨response, duals, answered, understood, count, duals_eq⟩ :=
    answer_requestOf sound finite nonempty read answers gives
  have encoded := encode_requestOf sound finite linear (Model.solveOptions options) elsewhere
  have known := statusOfCode_ne_other outcome.code true
  have hasSolution := (statusOfCode_of_point gives.code).1
  obtain ⟨rowResults, values, decoded, found⟩ :=
    decode_eq_ok sound finite.objective.constant known hasSolution count understood
  refine ⟨_, _, Model.solve_eq_ok rfl encoded answered decoded, ?_⟩
  exact {
    agrees := ⟨rfl, rfl, rfl⟩
    status := rfl
    values := Session.map_value_assignAll _ (List.Nodup.of_map _ sound.registry.nodup)
      (by rw [List.length_map, gives.length])
    recorded := rfl
    diagnostics := rfl
    objectiveValue := rfl
    primal := fun i => congrArg RowResult.primal (found i)
    dual := fun i => (congrArg RowResult.dual (found i)).trans (duals_eq i) }

end

/-- A model without quadratic terms is asked about in a form in which every answer of a solver that
has a point comes back to it: the coordinates to the variables in their places, the sensitivities to
the constraints in theirs, and to the objective value the constant once. -/
theorem solve_takes_over_point {m : Model} (reachable : m.Reachable) (exact : m.IsExact)
    (linear : ¬ m.HasQuadraticTerm) (nonempty : m.registry.vars ≠ []) {options : Value}
    {settings : Settings} (read : Settings.ofOptions (Model.solveOptions options) = .ok settings)
    (elsewhere : Valuation) :
    ∃ request p,
      m.toRequest .standard (.text "glpk") (Model.solveOptions options) elsewhere = .ok request ∧
      Engine.readRun .glpk request (Model.solveOptions options) = .ok (p, settings) ∧
      ∀ solver outcome point, solver (p.query settings) = .ok outcome →
        outcome.GivesPoint m.constraints m.registry.vars.length point →
        ∃ n result, m.solve .standard (.reference .glpk solver) options .null elsewhere =
            (n, .ok result) ∧
          SolvedBy m outcome point n result ∧
          (m.objective.expression.IsSummedExactly m.registry.vars (fun v => (n.value v).rational) →
            n.session.objectiveValue >>= Binary64.toRat? =
              some (m.objective.expression.rationalAt fun v => (n.value v).rational)) := by
  have sound := reachable.wellFormed
  rw [← Model.isQuadratic_iff, Bool.not_eq_true] at linear
  refine ⟨_, _, bind_eq_ok.2 ⟨Bridge.glpk, rfl, map_eq_ok.2
      ⟨_, encode_eq_ok sound exact.isFinite linear, rfl⟩⟩,
    readRun_requestOf read, fun solver outcome point answers gives => ?_⟩
  obtain ⟨n, result, solved, by_point⟩ :=
    solve_eq_ok sound exact.isFinite nonempty read answers gives linear elsewhere
  refine ⟨n, result, solved, by_point, fun summed => ?_⟩
  have coordinates : point.map Binary64.rational =
      m.registry.vars.map fun v => (n.value v).rational :=
    (Value.map_rational by_point.values).symm
  -- The request leaves the constant out; it is added once, when the answer is taken over.
  rw [by_point.objectiveValue]
  refine toRat?_objective sound.registry.nodup sound.owned.linear sound.canonical exact.objective
    (Bool.or_eq_false_iff.1 linear).1 gives.finite coordinates summed ?_
      exact.objective.constant.toRat?_double
  rw [Binary64.add_comm, Binary64.zero_add, Binary64.toRat?_settled]
  rfl

theorem sample_solve_takes_over_point :
    ∃ n result, Model.Sample.model.solve .standard (.reference .glpk fun _ => .ok .sample) .null .null
        (fun _ => .null) = (n, .ok result) ∧
      n.value Model.Sample.x = .real (Number.double 1) ∧
      n.session.objectiveValue >>= Binary64.toRat? = some 4 := by
  have exact : Model.Sample.model.IsExact := by decide +kernel
  have linear : ¬ Model.Sample.model.HasQuadraticTerm := by decide +kernel
  have unset : Settings.ofOptions (Model.solveOptions .null) = .ok {} := rfl
  obtain ⟨request, p, -, -, answered⟩ := solve_takes_over_point Model.Sample.reachable exact linear
    (sample_vars ▸ List.cons_ne_nil _ _) unset fun _ => .null
  rw [sample_vars] at answered
  obtain ⟨n, result, solved, by_point, objective⟩ :=
    answered (fun _ => .ok .sample) .sample _ rfl (Outcome.sample_givesPoint _)
  have values := by_point.values
  rw [sample_vars, List.map_cons, List.map_cons, List.map_nil] at values
  injection values with first rest
  injection rest with second
  have atX : (n.value Model.Sample.x).rational = 1 := first ▸ Number.rational_double_one
  have atY : (n.value Model.Sample.y).rational = 1 := second ▸ Number.rational_double_one
  refine ⟨n, result, solved, first, (objective (sample_isSummedExactly atX atY)).trans ?_⟩
  rw [sample_rationalAt atX atY]

end Glpk

end LinOpt
