import LinOpt.Proofs.Model.Solve
import LinOpt.Proofs.Program.Jslp
import LinOpt.Proofs.Program.Represents
import LinOpt.Proofs.Schema.Responses

namespace LinOpt.Jslp

open LinearProgram LinearProgram.Builder

section program

variable {m : Model} {plain : Entries Value} (sound : m.WellFormed)
include sound

theorem columnNames_requestOf : (ofJslp (requestOf m plain)).columnNames = m.registry.names := by
  rw [ofJslp_requestOf sound]
  exact names_build (fun _ => rfl) _ _

theorem columnCount_requestOf :
    (ofJslp (requestOf m plain)).columnCount = m.registry.vars.length := by
  rw [LinearProgram.columnCount, columnNames_requestOf sound, Registry.names, List.length_map]

theorem objective_requestOf : (ofJslp (requestOf m plain)).objective =
    m.registry.names.map (entryOf m.objective.expression) := by
  rw [ofJslp_requestOf sound]
  exact objective_build (fun _ => rfl) _ _ sound fun _ => rfl

theorem offset_requestOf :
    (ofJslp (requestOf m plain)).offset = .real (Binary64.zero false) := by
  rw [ofJslp_requestOf sound]
  rfl

theorem rectangular_requestOf : (ofJslp (requestOf m plain)).Rectangular := by
  rw [ofJslp_requestOf sound]
  exact rectangular_build _ _ _

end program

theorem encode_requestOf {m : Model} (sound : m.WellFormed) (finite : m.IsFinite)
    (linear : m.isQuadratic = false) {options : Value} {elsewhere : Valuation}
    {plain : Entries Value} (embedded : readPlain options (m.reset.valueOr elsewhere) = .ok plain) :
    Bridge.jslp.encode m.reset options elsewhere = .ok (requestOf m plain).toValue := by
  have encoded := encode_eq (sound.agrees m.reset_agrees) finite.reset linear options
    (m.reset.valueOr elsewhere)
  rw [embedded] at encoded
  exact map_eq_ok.2 ⟨_, encoded, rfl⟩

theorem readRun_requestOf {m : Model} {options : Value} {values : Valuation}
    {plain : Entries Value} {settings : Settings}
    (embedded : readPlain (Model.solveOptions options) values = .ok plain)
    (read : Settings.ofOptions (Model.solveOptions options) = .ok settings) :
    Engine.readRun .jslp (requestOf m plain).toValue (Model.solveOptions options) =
      .ok (ofJslp (requestOf m plain), settings) := by
  have program : Engine.readProgram .jslp (requestOf m plain).toValue =
      .ok (ofJslp (requestOf m plain)) := by
    simp only [Engine.readProgram, Request.read_toValue]
    rfl
  have own : Settings.ofOptions (Engine.runOptions .jslp (requestOf m plain).toValue
      (Model.solveOptions options)) = .ok settings := by
    unfold Model.solveOptions at embedded read ⊢
    cases truthy : options.isTruthy with
    | true =>
      rw [truthy] at read
      simp only [if_true] at read ⊢
      simp only [Engine.runOptions, truthy, Bool.not_true, Bool.and_false, Bool.false_eq_true,
        if_false, read]
    | false =>
      rw [truthy] at read embedded
      obtain rfl : plain = [] := (Except.ok.inj embedded).symm
      exact read
  simp only [Engine.readRun, program, own, bind, Except.bind, pure, Except.pure]

/-- What a variable at a coordinate is taken to be: a zero that was left out is a whole number. -/
def taken (x : Binary64) : Value :=
  if (Number.real x).isZero then .int 0 else .real x

theorem get?_nonzeroValues {names : List String} {xs : List Binary64} (nodup : names.Nodup)
    (length : xs.length = names.length) :
    names.map (fun x => ((Engine.nonzeroValues names xs).get? x).getD (.int 0)) = xs.map taken := by
  induction names generalizing xs with
  | nil =>
    cases xs with
    | nil => rfl
    | cons y ys => cases length
  | cons x names ih =>
    cases xs with
    | nil => cases length
    | cons y ys =>
      obtain ⟨alone, nodup⟩ := List.nodup_cons.1 nodup
      have rest := ih nodup (Nat.succ.inj length)
      have absent : (Engine.nonzeroValues names ys).get? x = none :=
        Entries.get?_eq_none.2 fun member => alone (Engine.names_nonzeroValues x member)
      cases zero : (Number.real y).isZero with
      | true =>
        have same : Engine.nonzeroValues (x :: names) (y :: ys) = Engine.nonzeroValues names ys := by
          simp [Engine.nonzeroValues, zero]
        rw [List.map_cons, List.map_cons, same, rest, absent, taken, if_pos zero, Option.getD_none]
      | false =>
        have parts : Engine.nonzeroValues (x :: names) (y :: ys) =
            (x, .real y) :: Engine.nonzeroValues names ys := by
          simp [Engine.nonzeroValues, zero]
        have others : names.map (fun z => ((Engine.nonzeroValues (x :: names) (y :: ys)).get? z).getD
            (.int 0)) = names.map
              fun z => ((Engine.nonzeroValues names ys).get? z).getD (.int 0) := by
          refine List.map_congr_left fun z member => ?_
          have differs : x ≠ z := fun same => alone (same ▸ member)
          rw [parts, Entries.get?_cons, if_neg differs]
        rw [List.map_cons, List.map_cons, others, rest, parts, Entries.get?_cons, if_pos rfl, taken,
          zero]
        rfl

def valueIn (r : Response) (v : Variable) : Value :=
  (r.values.get? v.name).getD (.int 0)

theorem map_valueIn_pointResponse {vs : List Variable} {p : LinearProgram} {point : List Binary64}
    (names : p.columnNames = vs.map (·.name)) (nodup : p.columnNames.Nodup)
    (length : point.length = vs.length) (z : Binary64) :
    (vs.map fun v => (v, valueIn (Engine.pointResponse p point z) v)) =
      vs.zip (point.map taken) := by
  have values : vs.map (valueIn (Engine.pointResponse p point z)) = point.map taken := by
    have found := get?_nonzeroValues nodup (names ▸ length.trans (List.length_map _).symm)
    conv at found => lhs; rw [names, List.map_map]
    rw [← found, ← names]
    rfl
  have pairs : (vs.map id).zip (vs.map (valueIn (Engine.pointResponse p point z))) =
      vs.map fun v => (v, valueIn (Engine.pointResponse p point z) v) := List.zip_map'
  rw [← pairs, List.map_id, values]

theorem unknownColumns_eq_nil {m : Model} {r : Response}
    (known : ∀ x ∈ r.values.names, x ∈ m.registry.names) : unknownColumns m r = [] := by
  have none : (r.values.names.filter fun name => !m.registry.contains name) = [] := by
    rw [List.filter_eq_nil_iff]
    intro x member
    simp [Registry.contains_iff.2 (known x member)]
  rw [unknownColumns, none, List.map_nil]

theorem decode_found (m : Model) (r : Response) (session : Session) (result : SolveResult) :
    ∃ values, decode m r (session, result) =
      (session.assignAll (m.registry.vars.map fun v => (v, valueIn r v)),
        { result with values, diagnostics := result.diagnostics ++ unknownColumns m r }) := by
  have all : ∃ values, m.registry.vars.foldl (decodeVariable r) (session, result) =
      (session.assignAll (m.registry.vars.map fun v => (v, valueIn r v)), { result with values }) :=
    Session.foldl_assign (fun v _ _ found => ⟨found.values.put v.name (valueIn r v), rfl⟩) _ _
  obtain ⟨values, assigned⟩ := all
  exact ⟨values, by rw [decode, assigned]⟩

theorem decode_values {m : Model} (sound : m.WellFormed) (r : Response) (session : Session)
    (result : SolveResult) (none : result.values = []) :
    m.registry.vars.map (decode m r (session, result)).1.value =
        m.registry.vars.map (valueIn r) ∧
      (decode m r (session, result)).2.values =
        m.registry.vars.map fun v => (v.name, valueIn r v) := by
  constructor
  · obtain ⟨values, found⟩ := decode_found m r session result
    rw [found]
    refine List.map_congr_left fun v member => ?_
    have keys : (m.registry.vars.map fun v => (v, valueIn r v)).map Prod.fst = m.registry.vars := by
      rw [List.map_map]
      exact List.map_id _
    exact Session.value_assignAll (keys.symm ▸ List.Nodup.of_map _ sound.registry.nodup)
      (List.mem_map.2 ⟨v, member, rfl⟩)
  · have put (vs : List Variable) (found : Session × SolveResult) :
        (vs.foldl (decodeVariable r) found).2.values =
          vs.foldl (fun values v => values.put v.name (valueIn r v)) found.2.values := by
      induction vs generalizing found with
      | nil => rfl
      | cons v vs ih => exact ih _
    have names : Entries.names (m.registry.vars.map fun v => (v.name, valueIn r v)) =
        m.registry.names := by
      rw [Entries.names, List.map_map]
      rfl
    have distinct : (Entries.names (m.registry.vars.map fun v => (v.name, valueIn r v))).Nodup :=
      names.symm ▸ sound.registry.nodup
    refine (put _ _).trans ?_
    rw [none, ← Entries.ofList_of_nodup distinct, Entries.ofList, List.foldl_map]

theorem decode_eq_ok {m : Model} (constant : m.objective.expression.constant.IsFinite)
    {response : Value} {r : Response} (read : Response.read response = .ok r)
    (feasible : r.feasible = some true) {z : Binary64} (reported : r.objectiveValue = some z) :
    ∃ values,
      Bridge.jslp.decode { m with session := { response } } response = ({ m with session := {
          Session.assignAll { response } (m.registry.vars.map fun v => (v, valueIn r v)) with
          status := some (status r.feasible r.bounded)
          objectiveValue := some (z.add m.objective.expression.constant.double) } },
        .ok { status := status r.feasible r.bounded, values, kind := "jslp"
              diagnostics := unknownColumns m r
              objectiveValue := some (z.add m.objective.expression.constant.double) }) := by
  generalize start : ({ m with session := { response } } : Model) = n
  have registry : n.registry = m.registry := start ▸ rfl
  have objective : n.objective = m.objective := start ▸ rfl
  have answer : Bridge.jslp.read n response = .ok {
      status := status r.feasible r.bounded, reported := some (some z), take := decode n r } := by
    simp only [Bridge.read, Bridge.jslp, Bridge.readJslp, read, checked, Except.mapError, bind,
      Except.bind, feasible, reported, ne_eq, not_true_eq_false, if_false]
    rfl
  have whole : Bridge.jslp.objectiveValue n (some z) =
      .ok (some (z.add m.objective.expression.constant.double)) := by
    simp only [Bridge.objectiveValue, objective, constant.real_add z]
    rfl
  obtain ⟨values, found⟩ := decode_found n r
    { n.session with status := some (status r.feasible r.bounded) }
    { status := status r.feasible r.bounded, kind := "jslp" }
  have all := Bridge.decode_solved answer whole found
  subst start
  exact ⟨values, all⟩

theorem read_bare {m : Model} {response : Value} {r : Response}
    (read : Response.read response = .ok r) (infeasible : r.feasible ≠ some true) :
    Bridge.jslp.read m response =
      .ok { status := status r.feasible r.bounded, reported := none, take := id } := by
  simp only [Bridge.read, Bridge.jslp, Bridge.readJslp, read, checked, Except.mapError, bind,
    Except.bind, infeasible, ne_eq, not_false_eq_true, if_true]
  rfl

/-- What a solve through the jsLPSolver format leaves behind, if the solver's outcome has a
point. -/
structure SolvedBy (m : Model) (point : List Binary64) (n : Model) (result : SolveResult) :
    Prop where
  agrees : m.Agrees n
  status : n.session.status = some .optimal
  values : m.registry.vars.map n.value = point.map taken
  recorded : result.diagnostics = []
  diagnostics : n.session.diagnostics = []
  objectiveValue : n.session.objectiveValue =
    some (((sumAt m.objective.expression m.registry.names point).add (Binary64.zero false)).add
      m.objective.expression.constant.double)

/-- Variables with the names of flags are at zero, and so have no place in the response. -/
def FlagsAtZero (m : Model) (point : List Binary64) : Prop :=
  ∀ entry ∈ m.registry.names.zip point, entry.1 ∈ Response.flags →
    (Number.real entry.2).isZero = true

theorem flagsAtZero_of_unflagged {m : Model}
    (unflagged : ∀ v ∈ m.registry.vars, v.name ∉ Response.flags) (point : List Binary64) :
    FlagsAtZero m point := by
  intro entry member flagged
  obtain ⟨v, own, same⟩ := List.mem_map.1 (List.of_mem_zip (a := entry.1) (b := entry.2) member).1
  exact absurd (same ▸ flagged) (unflagged v own)

section

variable {m : Model} {plain : Entries Value} {outcome : Outcome}
  {solver : Query → Except Error Outcome} {options : Value} {settings : Settings}
  {elsewhere : Valuation} (sound : m.WellFormed) (finite : m.IsFinite)
  (linear : m.isQuadratic = false) (nonempty : m.registry.vars ≠ [])
  (embedded : readPlain (Model.solveOptions options) (m.reset.valueOr elsewhere) = .ok plain)
  (read : Settings.ofOptions (Model.solveOptions options) = .ok settings)
  (answers : solver ((ofJslp (requestOf m plain)).query settings) = .ok outcome)
include sound nonempty embedded read answers

theorem answer_requestOf {s : Solution}
    (solved : (ofJslp (requestOf m plain)).interpret outcome = .ok s) :
    (Engine.reference .jslp solver).answer (requestOf m plain).toValue (Model.solveOptions options) =
      .ok (Engine.jslpAnswer (ofJslp (requestOf m plain)) s) := by
  have columns : (ofJslp (requestOf m plain)).columnCount ≠ 0 := by
    rw [columnCount_requestOf sound]
    exact fun none => nonempty (List.length_eq_zero_iff.1 none)
  have run := readRun_requestOf (m := m) embedded read
  have solution := solve_eq_interpret (rectangular_requestOf sound) columns answers
  simp only [Engine.reference, Engine.referenceAnswer, run, solution, solved, bind, Except.bind,
    Engine.answerIn]

include finite linear

/-- Without a solution there is only a status. But an unbounded problem counts as feasible, and an
objective value comes with it. -/
theorem solve_bare
    (bare : (statusOfCode outcome.code outcome.point.isSome).hasSolution = false) :
    ∃ n result, m.solve .standard (.reference .jslp solver) options .null elsewhere =
        (n, .ok result) ∧
      n.session.status = some (statusOfCode outcome.code outcome.point.isSome) ∧
      (statusOfCode outcome.code outcome.point.isSome ≠ .unbounded →
        n.session.objectiveValue = none) := by
  have answered := answer_requestOf sound nonempty embedded read answers
    (interpret_bare bare)
  have encoded := encode_requestOf sound finite linear embedded
  have response := Engine.read_jslpAnswer_bare (p := ofJslp (requestOf m plain))
    (s := bareSolution outcome) rfl
  have known := statusOfCode_ne_other outcome.code outcome.point.isSome
  have status : (bareSolution outcome).status = statusOfCode outcome.code outcome.point.isSome := rfl
  rw [status] at response
  -- From here on the status is any that is known, so that there is one case for each.
  generalize Engine.jslpAnswer (ofJslp (requestOf m plain)) (bareSolution outcome) = answer at *
  generalize statusOfCode outcome.code outcome.point.isSome = said at *
  have silent {r : Response} (understood : Response.read answer = .ok r)
      (infeasible : r.feasible ≠ some true) :
      ∃ n result, m.solve .standard (.reference .jslp solver) options .null elsewhere =
          (n, .ok result) ∧
        n.session.status = some (Jslp.status r.feasible r.bounded) ∧
        n.session.objectiveValue = none := by
    obtain ⟨n, result, _, solved, session⟩ : ∃ n result response,
        m.solve .standard (.reference .jslp solver) options .null elsewhere = (n, .ok result) ∧
          n.session = { response, status := some (Jslp.status r.feasible r.bounded) } :=
      Model.solve_bare rfl encoded answered (read_bare understood infeasible)
    exact ⟨n, result, solved, session ▸ rfl, session ▸ rfl⟩
  cases said with
  | optimal => cases bare
  | feasible => cases bare
  | other text => exact absurd rfl (known text)
  | unbounded =>
    -- The flags call it feasible, so that the response is read like one with a solution.
    obtain ⟨values, decoded⟩ := decode_eq_ok finite.objective.constant response rfl rfl
    exact ⟨_, _, Model.solve_eq_ok rfl encoded answered decoded, rfl, fun wrong => absurd rfl wrong⟩
  | infeasible =>
    obtain ⟨n, result, solved, isStatus, noValue⟩ := silent response (by simp [Engine.bareResponse])
    exact ⟨n, result, solved, isStatus, fun _ => noValue⟩
  | undefined =>
    obtain ⟨n, result, solved, isStatus, noValue⟩ := silent response (by simp [Engine.bareResponse])
    exact ⟨n, result, solved, isStatus, fun _ => noValue⟩

theorem solve_eq_ok {point : List Binary64} (unflagged : FlagsAtZero m point)
    (fits : outcome.Fits (ofJslp (requestOf m plain))) (code : outcome.code = 0 ∨ outcome.code = 1)
    (isPoint : outcome.point = some point)
    (length : point.length = m.registry.vars.length) :
    ∃ n result, m.solve .standard (.reference .jslp solver) options .null elsewhere =
      (n, .ok result) ∧ SolvedBy m point n result := by
  have names : (ofJslp (requestOf m plain)).columnNames = m.registry.names :=
    columnNames_requestOf sound
  have columns : (ofJslp (requestOf m plain)).columnNames.Nodup := names ▸ sound.registry.nodup
  have count : (ofJslp (requestOf m plain)).columnCount = m.registry.vars.length :=
    columnCount_requestOf sound
  have free : ∀ x ∈ (Engine.nonzeroValues (ofJslp (requestOf m plain)).columnNames point).names,
      x ∉ Response.flags := by
    rw [names]
    intro name member flagged
    obtain ⟨x, among, nonzero⟩ := Engine.mem_names_nonzeroValues.1 member
    exact Bool.noConfusion (nonzero.symm.trans (unflagged (name, x) among flagged))
  -- The sum gets a name, as nothing depends on how it is computed.
  obtain ⟨z, isSum⟩ : ∃ z, z =
      (sumAt m.objective.expression m.registry.names point).add (Binary64.zero false) := ⟨_, rfl⟩
  have total : (Number.real (dot (ofJslp (requestOf m plain)).objective point)).add
      (ofJslp (requestOf m plain)).offset = some (.real z) := by
    rw [offset_requestOf sound, objective_requestOf sound, isSum]
    rfl
  have solution := interpret_eq_ok (rectangular_requestOf sound) fits code isPoint
    (length.trans count.symm) total
  have response := Engine.read_jslpAnswer (s := solutionAt (ofJslp (requestOf m plain)) outcome point
    (.real z)) columns free (statusOfCode_of_point code).1 rfl (length.trans count.symm) rfl
  have answered := answer_requestOf sound nonempty embedded read answers solution
  have encoded := encode_requestOf sound finite linear embedded
  obtain ⟨values, decoded⟩ := decode_eq_ok finite.objective.constant response rfl rfl
  have known : unknownColumns m (Engine.pointResponse (ofJslp (requestOf m plain)) point z) = [] :=
    unknownColumns_eq_nil fun x member => names ▸ Engine.names_nonzeroValues x member
  have coordinates := map_valueIn_pointResponse names columns length z
  rw [known, coordinates] at decoded
  refine ⟨_, _, Model.solve_eq_ok rfl encoded answered decoded, ?_⟩
  exact {
    agrees := ⟨rfl, rfl, rfl⟩
    status := rfl
    values := Session.map_value_assignAll _ (List.Nodup.of_map _ sound.registry.nodup)
      (by rw [List.length_map, length])
    recorded := rfl
    diagnostics := rfl
    objectiveValue := congrArg (fun sum => some (Binary64.add sum _)) isSum }

end

end LinOpt.Jslp
