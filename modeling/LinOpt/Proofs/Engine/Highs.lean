import LinOpt.Proofs.LpText.Program
import LinOpt.Proofs.Model.Solve
import LinOpt.Proofs.Schema.Responses

namespace LinOpt

def Model.named (m : Model) (names : List String) : List Variable :=
  names.filterMap m.registry.get?

namespace Model

variable {m : Model} {names : List String}

theorem mem_named {v : Variable} (sound : m.WellFormed) :
    v ∈ m.named names ↔ v ∈ m.registry.vars ∧ v.name ∈ names := by
  rw [named, List.mem_filterMap]
  constructor
  · rintro ⟨x, member, found⟩
    obtain ⟨own, same⟩ := Registry.get?_eq_some found
    exact ⟨own, same ▸ member⟩
  · rintro ⟨own, member⟩
    exact ⟨v.name, member, Registry.get?_of_mem sound.registry.nodup own⟩

theorem names_named (known : ∀ x ∈ names, x ∈ m.registry.names) :
    (m.named names).map (·.name) = names := by
  unfold named
  induction names with
  | nil => rfl
  | cons x names ih =>
    obtain ⟨here, known⟩ := List.forall_mem_cons.1 known
    have present := Registry.contains_eq_isSome m.registry x
    rw [Registry.contains_iff.2 here] at present
    cases found : m.registry.get? x with
    | none =>
      rw [Registry.declared?, found] at present
      cases present
    | some v =>
      rw [List.filterMap_cons, found]
      exact congrArg₂ List.cons (Registry.get?_eq_some found).2 (ih known)

end Model

namespace Highs

open LinearProgram LinearProgram.Builder

theorem foldl_decodeColumn {m : Model} {vs : List Variable}
    (held : ∀ v ∈ vs, m.registry.get? v.name = some v) (columns : List Column)
    (session : Session) (result : SolveResult) :
    ∃ values, ((vs.map (·.name)).zip columns).foldl (decodeColumn m) (session, result) =
      (session.assignAll (vs.zip (columns.map fun c => .ofOption .real c.primal)),
        { result with values }) := by
  rw [List.zip_map_left, List.foldl_map, List.zip_map_right]
  refine Session.foldl_assign (fun item member s r => ?_) session result
  have known := held item.1 (List.of_mem_zip member).1
  exact ⟨r.values.put item.1.name (.ofOption .real item.2.primal),
    by simp only [Prod.map, decodeColumn, known]; rfl⟩

def unmatchedRow (indexed : Row × Nat) : Unmatched :=
  (indexed.1.name.map .row).getD (.unnamedRow indexed.2)

theorem foldl_decodeRow (m : Model) (rows : List Row) (start : Nat) (session : Session)
    (result : SolveResult) :
    ∃ after, (rows.zipIdx start).foldl (decodeRow m) (session, result) =
        ({ session with rows := after }, { result with
          diagnostics := result.diagnostics ++
            ((rows.zipIdx start).drop (m.constraints.length - start)).map unmatchedRow }) ∧
      ∀ i, Session.row { rows := after } i =
        if i < start ∨ m.constraints.length ≤ i then session.row i
        else (rows[i - start]?).elim (session.row i) fun row => ⟨row.primal, row.dual⟩ := by
  -- Places are counted from `start`, which moves on with each row.
  induction rows generalizing start session result with
  | nil =>
    refine ⟨session.rows, by simp, fun i => ?_⟩
    rw [List.getElem?_nil, Option.elim_none, ite_self]
    rfl
  | cons row rows ih =>
    rw [List.zipIdx_cons, List.foldl_cons]
    by_cases here : start < m.constraints.length
    · obtain ⟨after, rest, found⟩ := ih (start + 1)
        (session.assignRow start { primal := row.primal, dual := row.dual }) result
      have left : m.constraints.length - start = m.constraints.length - (start + 1) + 1 := by omega
      refine ⟨after, ?_, fun i => ?_⟩
      · rw [left, List.drop_succ_cons]
        simp only [decodeRow, here, if_true]
        exact rest
      · rw [found, Session.row_assignRow]
        -- What this row has left in its place is not changed by the rows after it.
        rcases Nat.lt_trichotomy i start with before | rfl | later
        · have differs : start ≠ i := by omega
          rw [if_pos (by omega), if_neg differs, if_pos (by omega)]
        · simp [here]
        · obtain ⟨k, rfl⟩ := Nat.exists_eq_add_of_lt later
          have place : start + k + 1 - start = k + 1 := by omega
          have next : start + k + 1 - (start + 1) = k := by omega
          have differs : start ≠ start + k + 1 := by omega
          have same : (start + k + 1 < start + 1 ∨ m.constraints.length ≤ start + k + 1) ↔
              (start + k + 1 < start ∨ m.constraints.length ≤ start + k + 1) := by omega
          rw [if_neg differs, place, next, List.getElem?_cons_succ]
          simp only [same]
    · obtain ⟨after, rest, found⟩ := ih (start + 1) session
        { result with diagnostics := result.diagnostics ++ [unmatchedRow (row, start)] }
      have none : m.constraints.length - start = 0 := by omega
      have noneLater : m.constraints.length - (start + 1) = 0 := by omega
      refine ⟨after, ?_, fun i => ?_⟩
      · rw [noneLater, List.drop_zero, List.append_assoc] at rest
        rw [none, List.drop_zero, List.map_cons]
        simp only [decodeRow, here, if_false]
        exact rest
      · rw [found, if_pos (by omega), if_pos (by omega)]

theorem foldl_decodeRow_all {m : Model} {rows : List Row}
    (count : rows.length = m.constraints.length) (session : Session) (result : SolveResult) :
    ∃ after, rows.zipIdx.foldl (decodeRow m) (session, result) =
        ({ session with rows := after }, result) ∧
      ∀ i, Session.row { rows := after } i =
        (rows[i]?).elim (session.row i) fun row => ⟨row.primal, row.dual⟩ := by
  obtain ⟨after, taken, found⟩ := foldl_decodeRow m rows 0 session result
  have nothing : rows.zipIdx.drop (m.constraints.length - 0) = [] := by
    rw [List.drop_eq_nil_iff, List.length_zipIdx, count, Nat.sub_zero]
  rw [nothing, List.map_nil, List.append_nil] at taken
  refine ⟨after, taken, fun i => ?_⟩
  rw [found, Nat.sub_zero]
  split
  next beyond =>
    have absent : rows[i]? = none := List.getElem?_eq_none (by omega)
    rw [absent, Option.elim_none]
  · rfl

theorem row_rowOf {names : List String} {xs : List Binary64} {duals : Option (List Binary64)}
    (length : xs.length = names.length) (known : ∀ ys, duals = some ys → ys.length = names.length)
    (i : Nat) :
    (((names.zip xs).zipIdx.map (Engine.rowOf duals))[i]?).elim {}
      (fun row => RowResult.mk row.primal row.dual) = ⟨xs[i]?, duals >>= fun ys => ys[i]?⟩ := by
  rw [List.getElem?_map, List.getElem?_zipIdx]
  by_cases bound : i < names.length
  · have name : names[i]? = some names[i] := List.getElem?_eq_getElem bound
    have value : xs[i]? = some (xs.get ⟨i, length ▸ bound⟩) := List.getElem?_eq_getElem _
    have both : (names.zip xs)[i]? = some (names[i], xs.get ⟨i, length ▸ bound⟩) :=
      List.getElem?_zip_eq_some.2 ⟨name, value⟩
    rw [both, value]
    simp [Engine.rowOf]
  · have noValue : xs[i]? = none := List.getElem?_eq_none (by omega)
    have noDual : (duals >>= fun ys => ys[i]?) = none := by
      cases duals with
      | none => rfl
      | some ys => exact List.getElem?_eq_none (by have count := known ys rfl; omega)
    have noRow : (names.zip xs)[i]? = none :=
      List.getElem?_eq_none (by rw [List.length_zip]; omega)
    rw [noRow, noValue, noDual]
    rfl

/-- What a solve through LP text leaves behind, if the solver's outcome has a point for the columns of
the program that was read from the text. -/
structure SolvedBy (m : Model) (p : LinearProgram) (outcome : Outcome) (point : List Binary64)
    (n : Model) (result : SolveResult) : Prop where
  agrees : m.Agrees n
  status : n.session.status = some (LinearProgram.statusOfCode outcome.code true)
  values : (m.named p.columnNames).map n.value = point.map .real
  recorded : result.diagnostics = []
  diagnostics : n.session.diagnostics = []
  objectiveValue : n.session.objectiveValue =
    some ((sumAt m.objective.expression p.columnNames point).add p.offset.double)
  primal : ∀ i, (n.session.row i).primal =
    m.constraints[i]?.map fun c => sumAt c.lhs p.columnNames point
  dual : ∀ i, (n.session.row i).dual =
    if m.isIntegral = false ∧ outcome.code = 0 ∧ HasMarginals m.constraints outcome then
      sensitivity? m.objective.isMaximize m.constraints outcome i
    else none

theorem read_solved {m : Model} {response : Value} {r : Response}
    (understood : Response.read response = .ok r)
    (hasSolution : (Status.ofText r.status).hasSolution = true) :
    Bridge.highs.read m response = .ok {
      status := Status.ofText r.status
      reported := some r.objectiveValue
      take := decode m r } := by
  simp only [Bridge.read, Bridge.highs, Bridge.readHighs, understood, checked, Except.mapError,
    bind, Except.bind, hasSolution]
  rfl

theorem decode_eq_ok {m : Model} (sound : m.WellFormed) {names : List String}
    (known : ∀ x ∈ names, x ∈ m.registry.names) {response : Value} {word : String} {status : Status}
    (isWord : Status.ofText word = status) (hasSolution : status.hasSolution = true)
    {z : Binary64} {columns : List Column} {rows : List Row}
    (count : rows.length = m.constraints.length)
    (read : Response.read response = .ok {
      status := word, objectiveValue := some z, columns := names.zip columns, rows }) :
    ∃ after values,
      Bridge.highs.decode { m with session := { response } } response = ({ m with session := {
          Session.assignAll { response }
            ((m.named names).zip (columns.map fun c => .ofOption .real c.primal)) with
          status := some status
          rows := after
          objectiveValue := some z } },
        .ok { status, values, kind := "highs", objectiveValue := some z }) ∧
      ∀ i, (Session.row { rows := after } i) =
        (rows[i]?).elim {} fun row => ⟨row.primal, row.dual⟩ := by
  generalize start : ({ m with session := { response } } : Model) = n
  have registry : n.registry = m.registry := start ▸ rfl
  have constraints : n.constraints = m.constraints := start ▸ rfl
  have named : n.named names = m.named names := by rw [Model.named, Model.named, registry]
  have answer : Bridge.highs.read n response = .ok {
      status
      reported := some (some z)
      take := decode n { status := word, objectiveValue := some z, columns := names.zip columns, rows }
      } := by
    subst isWord
    exact read_solved read hasSolution
  have whole : Bridge.highs.objectiveValue n (some z) = .ok (some z) := rfl
  have held : ∀ v ∈ m.named names, n.registry.get? v.name = some v := fun v member =>
    registry ▸ Registry.get?_of_mem sound.registry.nodup ((Model.mem_named sound).1 member).1
  obtain ⟨values, assigned⟩ := foldl_decodeColumn held columns
    { n.session with status := some status } { status, kind := "highs" }
  obtain ⟨after, taken, found⟩ := foldl_decodeRow_all (m := n) (constraints ▸ count)
    (Session.assignAll { n.session with status := some status }
      ((m.named names).zip (columns.map fun c => .ofOption .real c.primal)))
    { status, values, kind := "highs" }
  rw [Model.names_named known] at assigned
  rw [← assigned] at taken
  have all := Bridge.decode_solved answer whole taken
  subst start
  exact ⟨after, values, all, found⟩

def statusSaid : Status → Status
  | .undefined => .other "Unknown"
  | status => status

theorem ofText_highsStatus_known {status : Status} (known : ∀ text, status ≠ .other text) :
    Status.ofText (Engine.highsStatus status) = statusSaid status := by
  cases status with
  | other text => exact absurd rfl (known text)
  | _ => rfl

theorem read_bare {m : Model} {response : Value} {word : String}
    (bare : (Status.ofText word).hasSolution = false)
    (read : Response.read response = .ok {
      status := word, objectiveValue := none, columns := [], rows := [] }) :
    Bridge.highs.read m response =
      .ok { status := Status.ofText word, reported := none, take := id } := by
  simp only [Bridge.read, Bridge.highs, Bridge.readHighs, read, checked, Except.mapError, bind,
    Except.bind, bare, Bool.not_false, if_true]
  rfl

theorem ofText_highsStatus {code : Int} (solved : code = 0 ∨ code = 1) :
    Status.ofText (Engine.highsStatus (LinearProgram.statusOfCode code true)) =
      LinearProgram.statusOfCode code true := by
  rcases solved with rfl | rfl <;> decide

section

variable {m : Model} {p : LinearProgram} {text : String} {outcome : Outcome} {point : List Binary64}
  {solver : Query → Except Error Outcome} {options : Value} {settings : Settings}
  (mentions : ∃ v ∈ m.registry.vars, m.Mentions v) (readFrom : p.ReadFrom m)
  (run : Engine.readRun .highs (.text text) (Model.solveOptions options) = .ok (p, settings))
  (answers : solver (p.query settings) = .ok outcome)
include mentions readFrom

theorem columnCount_ne_zero : p.columnCount ≠ 0 := by
  obtain ⟨v, member, mentioned⟩ := mentions
  have column := (readFrom.columns v.name).2 ⟨v, member, mentioned, rfl⟩
  exact Nat.ne_of_gt (List.length_pos_of_mem column)

include run answers

theorem solve_bare (written : m.toLp = .ok text) (elsewhere : Valuation)
    (bare : (LinearProgram.statusOfCode outcome.code outcome.point.isSome).hasSolution = false) :
    ∃ n result response, m.solve .standard (.reference .highs solver) options .null elsewhere =
        (n, .ok result) ∧
      n.session = {
        response
        status := some
          (statusSaid (LinearProgram.statusOfCode outcome.code outcome.point.isSome)) } := by
  have solution := LinearProgram.solve_bare readFrom.represents.shape
    (columnCount_ne_zero mentions readFrom) answers bare
  obtain ⟨response, answered, understood⟩ :=
    Engine.read_highsAnswer_bare (p := p) (s := bareSolution outcome) rfl
  have answer : (Engine.reference .highs solver).answer (.text text) (Model.solveOptions options) =
      .ok response := by
    simp only [Engine.reference, Engine.referenceAnswer, run, solution, bind, Except.bind,
      Engine.answerIn, answered]
  have word := ofText_highsStatus_known (statusOfCode_ne_other outcome.code outcome.point.isSome)
  have silent : (statusSaid (LinearProgram.statusOfCode outcome.code
      outcome.point.isSome)).hasSolution = false := by
    revert bare
    cases LinearProgram.statusOfCode outcome.code outcome.point.isSome <;> exact fun bare => bare
  have encoded : Bridge.highs.encode m.reset (Model.solveOptions options) elsewhere =
      .ok (.text text) := map_eq_ok.2 ⟨text, written, rfl⟩
  rw [← word] at silent ⊢
  exact Model.solve_bare rfl encoded answer (read_bare silent understood)

variable (gives : outcome.GivesPoint m.constraints p.columnCount point)
include gives

theorem answer_text : ∃ response columns rows,
    (Engine.reference .highs solver).answer (.text text) (Model.solveOptions options) =
      .ok response ∧
    Response.read response = .ok {
      status := Engine.highsStatus (LinearProgram.statusOfCode outcome.code true)
      objectiveValue := some
        ((sumAt m.objective.expression p.columnNames point).add p.offset.double)
      columns := p.columnNames.zip columns
      rows } ∧
    columns.map (fun c => Value.ofOption .real c.primal) = point.map .real ∧
    rows.length = m.constraints.length ∧
    ∀ i, (rows[i]?).elim {} (fun row => RowResult.mk row.primal row.dual) =
      ⟨m.constraints[i]?.map fun c => sumAt c.lhs p.columnNames point,
        if m.isIntegral = false ∧ outcome.code = 0 ∧ HasMarginals m.constraints outcome then
          sensitivity? m.objective.isMaximize m.constraints outcome i
        else none⟩ := by
  have same := readFrom.represents
  have nonempty := columnCount_ne_zero mentions readFrom
  have total : (Number.real (dot p.objective point)).add p.offset = some (.real
      ((sumAt m.objective.expression p.columnNames point).add p.offset.double)) := by
    rw [same.objective]
    exact readFrom.isFinite.real_add _
  have solution := LinearProgram.solve_eq_ok same.shape nonempty answers (same.fits gives)
    gives.code gives.isPoint gives.length total
  obtain ⟨response, answered, understood⟩ := Engine.read_highsAnswer (s := p.solutionAt outcome point
    (.real ((sumAt m.objective.expression p.columnNames point).add p.offset.double)))
    readFrom.nodup (statusOfCode_of_point gives.code).1 rfl gives.length rfl
    (length_rowDuals p outcome point _) (length_columnDuals (same.fits gives) point _) rfl
  have rowCount : p.rowNames.length = m.constraints.length := same.limited.count
  have activity : p.matrix.map (fun row => dot row point) =
      m.constraints.map fun c => sumAt c.lhs p.columnNames point := by
    rw [same.matrix, List.map_map]
    rfl
  refine ⟨response, _, _, ?_, understood, ?_, ?_, fun i => ?_⟩
  · simp only [Engine.reference, Engine.referenceAnswer, run, solution, bind, Except.bind,
      Engine.answerIn, answered]
  · -- Of each column only the coordinate is taken over.
    have places : (p.columnNames.zip point).zipIdx.map Prod.fst = p.columnNames.zip point :=
      List.zipIdx_map_fst 0 _
    have coordinates : (p.columnNames.zip point).map Prod.snd = point :=
      List.map_snd_zip gives.length.le
    conv_rhs => rw [← coordinates, ← places, List.map_map, List.map_map]
    rw [List.map_map]
    rfl
  · rw [activity, List.length_map, List.length_zipIdx, List.length_zip, rowCount, List.length_map,
      Nat.min_self]
  · rw [← same.rowDuals gives (.real ((sumAt m.objective.expression p.columnNames point).add
      p.offset.double)), row_rowOf (by rw [activity, List.length_map, rowCount])
        (length_rowDuals p outcome point _), activity, List.getElem?_map]

theorem solve_eq_ok (sound : m.WellFormed) (written : m.toLp = .ok text) (elsewhere : Valuation) :
    ∃ n result, m.solve .standard (.reference .highs solver) options .null elsewhere =
      (n, .ok result) ∧ SolvedBy m p outcome point n result := by
  obtain ⟨response, columns, rows, answered, understood, primals, count, found⟩ :=
    answer_text mentions readFrom run answers gives
  have encoded : Bridge.highs.encode m.reset (Model.solveOptions options) elsewhere =
      .ok (.text text) := map_eq_ok.2 ⟨text, written, rfl⟩
  have named := Model.names_named readFrom.mem_names
  obtain ⟨after, values, decoded, rowResults⟩ := decode_eq_ok sound readFrom.mem_names
    (ofText_highsStatus gives.code) (statusOfCode_of_point gives.code).1 count understood
  rw [primals] at decoded
  have rowResults (i : Nat) := (rowResults i).trans (found i)
  refine ⟨_, _, Model.solve_eq_ok rfl encoded answered decoded, ?_⟩
  exact {
    agrees := ⟨rfl, rfl, rfl⟩
    status := rfl
    values := Session.map_value_assignAll _ (List.Nodup.of_map _ (named.symm ▸ readFrom.nodup)) (by
      have length := congrArg List.length named
      rw [List.length_map] at length
      rw [List.length_map, gives.length, length]
      rfl)
    recorded := rfl
    diagnostics := rfl
    objectiveValue := rfl
    primal := fun i => congrArg RowResult.primal (rowResults i)
    dual := fun i => congrArg RowResult.dual (rowResults i) }

end

theorem linear_named {m : Model} {p : LinearProgram} (sound : m.WellFormed)
    (readFrom : p.ReadFrom m) {e : Expression} (among : e ∈ m.expressions) :
    ∀ t ∈ e.linearTerms, t.2 ∈ m.named p.columnNames := by
  intro t member
  have isTerm := Expression.linearTerms_mem.1 member
  have own := Registry.mem_of_owns ((sound.expressions e among).2 _ isTerm t.2 List.mem_cons_self)
  have mentioned : m.Mentions t.2 := .inl ⟨e, among, _, isTerm, List.mem_cons_self⟩
  exact (Model.mem_named sound).2 ⟨own, (readFrom.columns _).2 ⟨t.2, own, mentioned, rfl⟩⟩

theorem readRun_text {text : String} {p : LinearProgram} {options : Value} {settings : Settings}
    (program : Engine.readProgram .highs (.text text) = .ok p)
    (read : Settings.ofOptions options = .ok settings) :
    Engine.readRun .highs (.text text) options = .ok (p, settings) := by
  have own : Engine.runOptions .highs (.text text) options = options := rfl
  simp only [Engine.readRun, program, own, read, bind, Except.bind, pure, Except.pure]

/-- A model without quadratic terms is written for its solver, and whatever answer the solver has for
the program of the text comes back if it has a point: the coordinates to the variables that the text
mentions, the activities to the constraints, and the objective with its constant once. -/
theorem solve_takes_over_columns {m : Model} (reachable : m.Reachable) (exact : m.IsExact)
    (linear : ¬ m.HasQuadraticTerm)
    (safe : ∀ v ∈ m.registry.vars, LpText.isSafeName v.name = true)
    (single : ∀ v ∈ m.registry.vars, v.name.map Char.toLower ∉ ["subject", "such"])
    (mentions : ∃ v ∈ m.registry.vars, m.Mentions v) {options : Value} {settings : Settings}
    (read : Settings.ofOptions (Model.solveOptions options) = .ok settings)
    (elsewhere : Valuation) :
    ∃ text p,
      m.toRequest .standard (.text "highs") (Model.solveOptions options) elsewhere =
        .ok (.text text) ∧
      Engine.readRun .highs (.text text) (Model.solveOptions options) = .ok (p, settings) ∧
      (m.named p.columnNames).map (·.name) = p.columnNames ∧
      (∀ v ∈ m.registry.vars, v ∈ m.named p.columnNames ↔ m.Mentions v) ∧
      ∀ solver outcome point, solver (p.query settings) = .ok outcome →
        outcome.GivesPoint m.constraints p.columnCount point →
        ∃ n result, m.solve .standard (.reference .highs solver) options .null elsewhere =
            (n, .ok result) ∧
          SolvedBy m p outcome point n result ∧
          (m.objective.expression.IsSummedExactly (m.named p.columnNames)
              (fun v => (n.value v).rational) →
            n.session.objectiveValue >>= Binary64.toRat? =
              some (m.objective.expression.rationalAt fun v => (n.value v).rational)) ∧
          ∀ i c, m.constraints[i]? = some c →
            Unrounded 0 (c.lhs.productsAt (m.named p.columnNames) fun v => (n.value v).rational) →
            (n.session.row i).primal >>= Binary64.toRat? =
              some (c.lhs.rationalAt fun v => (n.value v).rational) := by
  have sound := reachable.wellFormed
  rw [← Model.isQuadratic_iff, Bool.not_eq_true] at linear
  obtain ⟨text, p, written, program, readFrom⟩ :=
    LpText.exists_readFrom sound exact.isPortable linear safe single
  have run := readRun_text program read
  have named := Model.names_named readFrom.mem_names
  have nodup : ((m.named p.columnNames).map (·.name)).Nodup := named.symm ▸ readFrom.nodup
  refine ⟨text, p, bind_eq_ok.2 ⟨Bridge.highs, rfl, map_eq_ok.2 ⟨text, written, rfl⟩⟩, run, named,
    fun v own => ?_, fun solver outcome point answers gives => ?_⟩
  · rw [Model.mem_named sound, readFrom.columns]
    constructor
    · rintro ⟨-, w, among, mentioned, same⟩
      exact sound.registry.eq_of_name among own same ▸ mentioned
    · exact fun mentioned => ⟨own, v, own, mentioned, rfl⟩
  · obtain ⟨n, result, solved, by_point⟩ :=
      solve_eq_ok mentions readFrom run answers gives sound written elsewhere
    have coordinates : point.map Binary64.rational =
        (m.named p.columnNames).map fun v => (n.value v).rational :=
      (Value.map_rational by_point.values).symm
    refine ⟨n, result, solved, by_point, fun summed => ?_, fun i c here unrounded => ?_⟩
    · rw [by_point.objectiveValue]
      refine toRat?_objective nodup (linear_named sound readFrom List.mem_cons_self) sound.canonical
        exact.objective (Bool.or_eq_false_iff.1 linear).1 gives.finite coordinates summed
        (by rw [named]) ?_
      rw [← Binary64.toRat?_settled, readFrom.offset, Binary64.toRat?_settled,
        exact.objective.constant.toRat?_double]
    · have member := List.mem_of_getElem? here
      have row := sound.constraints c member
      have single := Bool.eq_false_iff.2
        (List.any_eq_false.1 (Bool.or_eq_false_iff.1 linear).2 c member)
      -- Every variable of the row has a column, so that the sum over the columns is the whole sum.
      have known := linear_named sound readFrom
        (List.mem_cons_of_mem _ (List.mem_map_of_mem (f := Constraint.lhs) member))
      have sum := toRat?_sumAt nodup known row.canonical (exact.lhs c member) gives.finite coordinates
        unrounded
      rw [named] at sum
      rw [by_point.primal, here, Expression.rationalAt_eq (List.Nodup.of_map _ nodup) known single,
        row.constant]
      simpa [Number.rational] using sum

theorem sample_columns {text : String} {p : LinearProgram}
    (written : Model.Sample.model.toLp = .ok text)
    (program : Engine.readProgram .highs (.text text) = .ok p) :
    p.columnNames = ["x", "y"] ∧
      Model.Sample.model.named p.columnNames = [Model.Sample.x, Model.Sample.y] := by
  have columns : (Model.Sample.model.toLp.toOption.bind fun text =>
      (Engine.readProgram .highs (.text text)).toOption.map (·.columnNames)) = some ["x", "y"] := by
    decide +kernel
  have named : Model.Sample.model.named ["x", "y"] = [Model.Sample.x, Model.Sample.y] := by
    decide +kernel
  rw [written, Except.toOption, Option.bind_some, program] at columns
  have columns : p.columnNames = ["x", "y"] := Option.some.inj columns
  exact ⟨columns, columns ▸ named⟩

theorem sample_solve_takes_over_columns :
    ∃ n result, Model.Sample.model.solve .standard
        (.reference .highs fun _ => .ok .sample) .null .null (fun _ => .null) = (n, .ok result) ∧
      n.value Model.Sample.y = .real (Number.double 1) ∧
      n.session.objectiveValue >>= Binary64.toRat? = some 4 := by
  have exact : Model.Sample.model.IsExact := by decide +kernel
  have linear : ¬ Model.Sample.model.HasQuadraticTerm := by decide +kernel
  have mentions : Model.Sample.model.Mentions Model.Sample.y := .inr (.inr (by decide))
  have unset : Settings.ofOptions (Model.solveOptions .null) = .ok {} := rfl
  obtain ⟨text, p, requested, run, -, -, answered⟩ := solve_takes_over_columns
    Model.Sample.reachable exact linear (by decide +kernel) (by decide +kernel)
    ⟨Model.Sample.y, by decide +kernel, mentions⟩ unset fun _ => .null
  obtain ⟨b, found, encoded⟩ := bind_eq_ok.1 requested
  cases found
  obtain ⟨_, written, same⟩ := map_eq_ok.1 encoded
  cases same
  obtain ⟨q, program, rest⟩ := bind_eq_ok.1 run
  obtain ⟨_, -, same⟩ := bind_eq_ok.1 rest
  obtain rfl : q = p := congrArg Prod.fst (Except.ok.inj same)
  obtain ⟨columns, named⟩ := sample_columns written program
  have count : q.columnCount = 2 := by
    rw [LinearProgram.columnCount, columns]
    rfl
  obtain ⟨n, result, solved, by_point, objective, -⟩ :=
    answered (fun _ => .ok .sample) .sample _ rfl (count.symm ▸ Outcome.sample_givesPoint _)
  have values := by_point.values
  rw [named, List.map_cons, List.map_cons, List.map_nil] at values
  injection values with first rest
  injection rest with second
  have atX : (n.value Model.Sample.x).rational = 1 := first ▸ Number.rational_double_one
  have atY : (n.value Model.Sample.y).rational = 1 := second ▸ Number.rational_double_one
  refine ⟨n, result, solved, second, (objective (named ▸ sample_isSummedExactly atX atY)).trans ?_⟩
  rw [sample_rationalAt atX atY]

end Highs

end LinOpt
