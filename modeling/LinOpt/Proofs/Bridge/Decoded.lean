import LinOpt.Proofs.Engine.Highs
import LinOpt.Proofs.Engine.Glpk
import LinOpt.Proofs.Model.Heard
import LinOpt.Proofs.Schema.Keys

namespace LinOpt

theorem Session.IsCleared.of_empty {s : Session} (values : s.values.isEmpty = true)
    (rows : s.rows = []) (objectiveValue : s.objectiveValue = none) (status : s.status = none)
    (diagnostics : s.diagnostics = []) : s.IsCleared where
  objectiveValue := objectiveValue
  value := fun _ => by rw [Session.value, List.isEmpty_iff.1 values]; rfl
  row := fun _ => by rw [Session.row, rows]; rfl
  status := status
  diagnostics := diagnostics

namespace Model

variable {m : Model}

def valued (m : Model) (say : α → Value) (entries : Entries α) : List (Variable × Value) :=
  entries.filterMap fun e => (m.registry.get? e.1).map fun v => (v, say e.2)

def unknownColumns (m : Model) (names : List String) : List Unmatched :=
  (names.filter fun x => x ∉ m.registry.names).map .column

theorem valued_vars (m : Model) (say : α → Value) (entries : Entries α) :
    (m.valued say entries).map Prod.fst = m.named entries.names := by
  rw [valued, List.map_filterMap, named, Entries.names, List.filterMap_map]
  congr 1
  funext e
  exact (Option.map_map ..).trans Option.map_id'

theorem name_mem_of_named {names : List String} {v : Variable} (named : v ∈ m.named names) :
    v.name ∈ names := by
  obtain ⟨x, member, found⟩ := List.mem_filterMap.1 named
  exact (Registry.get?_eq_some found).2 ▸ member

theorem nodup_named {names : List String} (nodup : names.Nodup) : (m.named names).Nodup := by
  apply nodup.filterMap
  intro x y v first second
  rw [← (Registry.get?_eq_some first).2, (Registry.get?_eq_some second).2]

theorem value_valued (sound : m.WellFormed) {entries : Entries α} (nodup : entries.names.Nodup)
    (say : α → Value) (s : Session) (v : Variable) :
    (s.assignAll (m.valued say entries)).value v =
      if v ∈ m.registry.vars then ((entries.get? v.name).map say).getD (s.value v)
      else s.value v := by
  have pairs := valued_vars m say entries
  by_cases named : v ∈ m.named entries.names
  · obtain ⟨own, among⟩ := (mem_named sound).1 named
    obtain ⟨a, found⟩ := Option.ne_none_iff_exists'.1 (mt Entries.get?_eq_none.1 (not_not_intro among))
    -- The names are distinct, so that no other entry is about the same variable.
    have member : (v, say a) ∈ m.valued say entries := by
      apply List.mem_filterMap.2 ⟨(v.name, a), Entries.mem_of_get? found, _⟩
      rw [Registry.get?_of_mem sound.registry.nodup own, Option.map_some]
    rw [Session.value_assignAll (pairs ▸ nodup_named nodup) member, if_pos own, found,
      Option.map_some, Option.getD_some]
  · rw [Session.value_assignAll_of_fresh (pairs ▸ named)]
    split
    next own =>
      have absent : v.name ∉ entries.names := fun among => named ((mem_named sound).2 ⟨own, among⟩)
      rw [Entries.get?_eq_none.2 absent, Option.map_none, Option.getD_none]
    · rfl

theorem foldl_entries (say : α → Value)
    (step : Session × SolveResult → String × α → Session × SolveResult)
    (takes : ∀ s r e v, m.registry.get? e.1 = some v →
      ∃ values, step (s, r) e = (s.assign v (say e.2), { r with values }))
    (reports : ∀ s r e, m.registry.get? e.1 = none →
      step (s, r) e = (s, { r with diagnostics := r.diagnostics ++ [.column e.1] }))
    (entries : Entries α) (s : Session) (r : SolveResult) : ∃ values,
      entries.foldl step (s, r) = (s.assignAll (m.valued say entries), { r with
        values, diagnostics := r.diagnostics ++ m.unknownColumns entries.names }) := by
  induction entries generalizing s r with
  | nil => exact ⟨r.values, by simp [Session.assignAll, valued, unknownColumns, Entries.names]⟩
  | cons e entries ih =>
    rw [List.foldl_cons]
    cases found : m.registry.get? e.1 with
    | some v =>
      obtain ⟨values, first⟩ := takes s r e v found
      obtain ⟨values, rest⟩ := ih (s.assign v (say e.2)) { r with values }
      have known : e.1 ∈ m.registry.names := Registry.mem_names.2 ⟨v, Registry.get?_eq_some found⟩
      refine ⟨values, ?_⟩
      rw [first, rest]
      simp [valued, unknownColumns, Entries.names, found, known, Session.assignAll_cons,
        -Registry.mem_names]
    | none =>
      obtain ⟨values, rest⟩ := ih s { r with diagnostics := r.diagnostics ++ [.column e.1] }
      have unknown : e.1 ∉ m.registry.names := Registry.get?_eq_none.1 found
      refine ⟨values, ?_⟩
      rw [reports s r e found, rest]
      simp [valued, unknownColumns, Entries.names, found, unknown, -Registry.mem_names]

/-- The session of a model holds a value under the name of each variable, a result in the place of
each constraint, and nothing else. -/
structure Holds (m : Model) (under : String → Value) (place : Nat → RowResult) (s : Session) :
    Prop where
  value : ∀ v, s.value v = if v ∈ m.registry.vars then under v.name else .null
  row : ∀ i, s.row i = if i < m.constraints.length then place i else {}

/-- What a response leaves of a model. -/
structure TakesOver (m : Model) (status : Status) (under : String → Value)
    (place : Nat → RowResult) (n : Model) : Prop where
  agrees : m.Agrees n
  status : n.session.status = some status
  holds : m.Holds under place n.session

end Model

namespace Glpk

variable (m : Model) (r : Response)

def valueUnder (x : String) : Value :=
  .ofOption .real (r.values.get? x)

def rowAt (i : Nat) : RowResult :=
  { dual := r.duals >>= fun duals => duals.get? (rowName i) }

def unmatched : List Unmatched :=
  m.unknownColumns r.values.names ++ unknownDuals m r.duals

variable {m r}

theorem decode_eq (m : Model) (r : Response) (session : Session) (result : SolveResult) :
    ∃ values rows, decodeRows m r.duals (r.values.foldl (decodeValue m) (session, result)) =
        ({ session.assignAll (m.valued .real r.values) with rows },
          { result with values, diagnostics := result.diagnostics ++ unmatched m r }) ∧
      ∀ i, ({ session with rows } : Session).row i =
        if i < m.constraints.length then
          ⟨(session.row i).primal, ((rowAt r i).dual).or (session.row i).dual⟩
        else session.row i := by
  obtain ⟨values, columns⟩ := Model.foldl_entries (m := m) .real (decodeValue m)
    (fun s t e v known => ⟨t.values.put e.1 (.real e.2), by simp only [decodeValue, known]⟩)
    (fun s t e unknown => by simp only [decodeValue, unknown]) r.values session result
  obtain ⟨rows, duals, found⟩ := decodeRows_eq m r.duals
    (session.assignAll (m.valued .real r.values))
    { result with values, diagnostics := result.diagnostics ++ m.unknownColumns r.values.names }
  refine ⟨values, rows, ?_, found⟩
  rw [columns, duals, unmatched, ← List.append_assoc]

theorem exists_taken (sound : m.WellFormed) (nodup : r.values.names.Nodup) {session : Session}
    (unset : session.IsValueless) (result : SolveResult) : ∃ after taken,
      decodeRows m r.duals (r.values.foldl (decodeValue m) (session, result)) = (after, taken) ∧
        after.status = session.status ∧ m.Holds (valueUnder r) (rowAt r) after ∧
        taken.diagnostics = result.diagnostics ++ unmatched m r := by
  obtain ⟨values, rows, taken, found⟩ := decode_eq m r session result
  refine ⟨_, _, taken, rfl, ⟨fun v => ?_, fun i => ?_⟩, rfl⟩
  · have value := Model.value_valued sound nodup .real session v
    have said : valueUnder r v.name = ((r.values.get? v.name).map Value.real).getD .null := by
      unfold valueUnder
      cases r.values.get? v.name <;> rfl
    rw [unset.value, ← said] at value
    exact value
  · have row := found i
    rw [unset.row, Option.or_none] at row
    exact row

end Glpk

namespace Highs

def Column.said (c : Column) : Value :=
  .ofOption .real c.primal

variable (m : Model) (r : Response)

def valueUnder (x : String) : Value :=
  .ofOption .real (r.columns.get? x >>= Column.primal)

def rowAt (i : Nat) : RowResult :=
  (r.rows[i]?).elim {} fun row => { primal := row.primal, dual := row.dual }

def unmatched : List Unmatched :=
  m.unknownColumns r.columns.names ++
    (r.rows.zipIdx.drop m.constraints.length).map unmatchedRow

variable {m r}

theorem decode_eq (m : Model) (r : Response) (session : Session) (result : SolveResult) :
    ∃ values rows, decode m r (session, result) =
        ({ session.assignAll (m.valued Column.said r.columns) with rows },
          { result with values, diagnostics := result.diagnostics ++ unmatched m r }) ∧
      ∀ i, ({ session with rows } : Session).row i =
        if i < m.constraints.length then
          (r.rows[i]?).elim (session.row i) fun row => { primal := row.primal, dual := row.dual }
        else session.row i := by
  obtain ⟨values, columns⟩ := Model.foldl_entries (m := m) Column.said (decodeColumn m)
    (fun s t e v known => ⟨t.values.put e.1 e.2.said, by simp only [decodeColumn, known]; rfl⟩)
    (fun s t e unknown => by simp only [decodeColumn, unknown]) r.columns session result
  obtain ⟨rows, taken, found⟩ := foldl_decodeRow m r.rows 0
    (session.assignAll (m.valued Column.said r.columns))
    { result with values, diagnostics := result.diagnostics ++ m.unknownColumns r.columns.names }
  refine ⟨values, rows, ?_, fun i => (found i).trans ?_⟩
  · rw [decode, columns, taken, unmatched, ← List.append_assoc, Nat.sub_zero]
  · by_cases here : i < m.constraints.length
    · rw [if_neg (by omega), if_pos here, Nat.sub_zero]
      rfl
    · rw [if_pos (by omega), if_neg here]
      rfl

theorem exists_taken (sound : m.WellFormed) (nodup : r.columns.names.Nodup) {session : Session}
    (unset : session.IsValueless) (result : SolveResult) : ∃ after taken,
      decode m r (session, result) = (after, taken) ∧
        after.status = session.status ∧ m.Holds (valueUnder r) (rowAt r) after ∧
        taken.diagnostics = result.diagnostics ++ unmatched m r := by
  obtain ⟨values, rows, taken, found⟩ := decode_eq m r session result
  refine ⟨_, _, taken, rfl, ⟨fun v => ?_, fun i => ?_⟩, rfl⟩
  · have value := Model.value_valued sound nodup Column.said session v
    have said : valueUnder r v.name = ((r.columns.get? v.name).map Column.said).getD .null := by
      unfold valueUnder
      cases r.columns.get? v.name <;> rfl
    rw [unset.value, ← said] at value
    exact value
  · have row := found i
    rw [unset.row] at row
    exact row

theorem value_decode_of_absent {v : Variable} (absent : v.name ∉ r.columns.names)
    (found : Session × SolveResult) : (decode m r found).1.value v = found.1.value v := by
  obtain ⟨values, rows, taken, -⟩ := decode_eq m r found.1 found.2
  have fresh : v ∉ (m.valued Column.said r.columns).map Prod.fst := by
    rw [Model.valued_vars]
    exact fun named => absent (Model.name_mem_of_named named)
  have kept : (found.1.assignAll (m.valued Column.said r.columns)).value v = found.1.value v :=
    Session.value_assignAll_of_fresh fresh
  rw [taken]
  exact kept

end Highs

namespace Model

/-- Every entry of a response with a solution is taken over where it belongs or is reported, in the
order of the response, and nothing else is written. A response fails only in the GLPK format, and
only where it has an objective value to which the constant of the objective cannot be added. -/
theorem decode_routes_entries {m : Model} (reachable : m.Reachable)
    (cleared : m.session.IsCleared) {response : Value}
    (distinct : response.hasDistinctKeys = true) :
    (∀ r, Glpk.Response.read response = .ok r →
      (Glpk.statusOfCode r.status).hasSolution = true →
        ∃ n outcome, Bridge.glpk.decode m response = (n, outcome) ∧
          m.TakesOver (Glpk.statusOfCode r.status) (Glpk.valueUnder r) (Glpk.rowAt r) n ∧
          if r.objectiveValue ≠ none ∧ m.objective.expression.constant.toBinary64? = none then
            outcome = .error .overflow
          else ∃ result, outcome = .ok result ∧ result.diagnostics = Glpk.unmatched m r) ∧
    ∀ r, Highs.Response.read response = .ok r → (Status.ofText r.status).hasSolution = true →
      ∃ n result, Bridge.highs.decode m response = (n, .ok result) ∧
        m.TakesOver (Status.ofText r.status) (Highs.valueUnder r) (Highs.rowAt r) n ∧
        result.diagnostics = Highs.unmatched m r := by
  have sound := reachable.wellFormed
  have unset (status : Status) :
      ({ m.session with status := some status } : Session).IsValueless :=
    ⟨cleared.objectiveValue, cleared.value, cleared.row⟩
  constructor
  · intro r understood hasSolution
    have read := Glpk.read_solved (m := m) understood hasSolution
    obtain ⟨after, result, taken, status, holds, reported⟩ :=
      Glpk.exists_taken sound (Glpk.Response.names_nodup distinct understood)
        (unset (Glpk.statusOfCode r.status))
        { status := Glpk.statusOfCode r.status, kind := Bridge.glpk.kind }
    -- All entries have been taken over before the constant is added, also if that fails.
    cases whole : Bridge.glpk.objectiveValue m r.objectiveValue with
    | error e =>
      obtain ⟨rfl, -, large⟩ := Bridge.objectiveValue_eq_error.1 whole
      refine ⟨_, _, Bridge.decode_failed read whole taken, ⟨⟨rfl, rfl, rfl⟩, status, holds⟩, ?_⟩
      rw [if_pos large]
    | ok objectiveValue =>
      have added : ¬ (r.objectiveValue ≠ none ∧
          m.objective.expression.constant.toBinary64? = none) := by
        intro large
        have fails : Bridge.glpk.objectiveValue m r.objectiveValue = .error .overflow :=
          Bridge.objectiveValue_eq_error.2 ⟨rfl, rfl, large⟩
        cases whole.symm.trans fails
      refine ⟨_, _, Bridge.decode_solved read whole taken,
        ⟨⟨rfl, rfl, rfl⟩, status, holds.value, holds.row⟩, ?_⟩
      rw [if_neg added]
      exact ⟨_, rfl, reported⟩
  · intro r understood hasSolution
    have read := Highs.read_solved (m := m) understood hasSolution
    obtain ⟨after, result, taken, status, holds, reported⟩ :=
      Highs.exists_taken sound (Highs.Response.names_nodup distinct understood)
        (unset (Status.ofText r.status))
        { status := Status.ofText r.status, kind := Bridge.highs.kind }
    have whole : Bridge.highs.objectiveValue m r.objectiveValue = .ok r.objectiveValue := by
      cases r.objectiveValue <;> rfl
    exact ⟨_, _, Bridge.decode_solved read whole taken,
      ⟨⟨rfl, rfl, rfl⟩, status, holds.value, holds.row⟩, reported⟩

namespace Sample

def glpkAnswer : Value :=
  .record [("result", .record [
    ("status", .int 5), ("z", .real (Number.double 3)),
    ("vars", .record [("w", .real (Number.double 2)), ("x", .real (Number.double 1))]),
    ("dual", .record [("cons2", .real (Number.double 4)), ("cons1", .real (Number.double 3))])])]

def highsAnswer : Value :=
  .record [("Status", .text "Optimal"),
    ("Columns", .record [("cons1", .record []), ("y", .record [("Primal", .real (Number.double 1))])]),
    ("Rows", .list [.record [("Dual", .real (Number.double 3))], .record []])]

def strayAnswer : Value :=
  .record [("result", .record [
    ("status", .int 5), ("z", .real (Number.double 1)),
    ("vars", .record [("w", .real (Number.double 2))])])]

theorem model_isCleared : model.session.IsCleared :=
  .of_empty (by decide +kernel) (by decide +kernel) (by decide +kernel) (by decide +kernel)
    (by decide +kernel)

end Sample

theorem sample_decode_routes_entries :
    (∃ n result, Bridge.glpk.decode Sample.model Sample.glpkAnswer = (n, .ok result) ∧
      n.value Sample.x = .real (Number.double 1) ∧ n.value Sample.y = .null ∧
      n.session.row 0 = { dual := some (Number.double 3) } ∧
      result.diagnostics = [.column "w", .row "cons2"]) ∧
    ∃ n result, Bridge.highs.decode Sample.model Sample.highsAnswer = (n, .ok result) ∧
      n.value Sample.x = .null ∧ n.value Sample.y = .real (Number.double 1) ∧
      n.session.row 0 = { dual := some (Number.double 3) } ∧
      result.diagnostics = [.column "cons1", .unnamedRow 1] := by
  have own : Sample.x ∈ Sample.model.registry.vars ∧ Sample.y ∈ Sample.model.registry.vars := by
    decide +kernel
  have row : 0 < Sample.model.constraints.length := by decide +kernel
  constructor
  · let r : Glpk.Response := {
      status := 5
      objectiveValue := some (Number.double 3)
      values := [("w", Number.double 2), ("x", Number.double 1)]
      duals := some [("cons2", Number.double 4), ("cons1", Number.double 3)] }
    have understood : Glpk.Response.read Sample.glpkAnswer = .ok r :=
      toOption_eq_some.1 (by decide +kernel)
    obtain ⟨n, outcome, decoded, takes, ends⟩ := (decode_routes_entries Sample.reachable
      Sample.model_isCleared (by decide +kernel)).1 r understood (by decide +kernel)
    rw [if_neg (by decide +kernel)] at ends
    obtain ⟨result, rfl, reported⟩ := ends
    have said : r.values.get? Sample.x.name = some (Number.double 1) := by decide +kernel
    have unsaid : r.values.get? Sample.y.name = none := by decide +kernel
    have held : Glpk.rowAt r 0 = { dual := some (Number.double 3) } := by decide +kernel
    refine ⟨n, result, decoded, ?_, ?_, ?_, ?_⟩
    · rw [Model.value, takes.holds.value, if_pos own.1, Glpk.valueUnder, said]
      rfl
    · rw [Model.value, takes.holds.value, if_pos own.2, Glpk.valueUnder, unsaid]
      rfl
    · rw [takes.holds.row, if_pos row, held]
    · rw [reported]
      decide +kernel
  · let r : Highs.Response := {
      status := "Optimal"
      objectiveValue := none
      columns := [("cons1", ⟨none, none, none, none⟩),
        ("y", ⟨some (Number.double 1), none, none, none⟩)]
      rows := [⟨none, none, some (Number.double 3), none⟩, ⟨none, none, none, none⟩] }
    have understood : Highs.Response.read Sample.highsAnswer = .ok r :=
      toOption_eq_some.1 (by decide +kernel)
    obtain ⟨n, result, decoded, takes, reported⟩ := (decode_routes_entries Sample.reachable
      Sample.model_isCleared (by decide +kernel)).2 r understood (by decide +kernel)
    have unsaid : (r.columns.get? Sample.x.name >>= Highs.Column.primal) = none := by
      decide +kernel
    have said : (r.columns.get? Sample.y.name >>= Highs.Column.primal) =
        some (Number.double 1) := by decide +kernel
    have held : Highs.rowAt r 0 = { dual := some (Number.double 3) } := by decide +kernel
    refine ⟨n, result, decoded, ?_, ?_, ?_, ?_⟩
    · rw [Model.value, takes.holds.value, if_pos own.1, Highs.valueUnder, unsaid]
      rfl
    · rw [Model.value, takes.holds.value, if_pos own.2, Highs.valueUnder, said]
      rfl
    · rw [takes.holds.row, if_pos row, held]
    · rw [reported]
      decide +kernel

/-- Nothing is reported of a response if the constant of the objective is too large to be added to
the objective value: there is no result then. -/
theorem distant_decode_reports_nothing :
    Sample.distant.Reachable ∧ Sample.distant.session.IsCleared ∧
      Sample.strayAnswer.hasDistinctKeys = true ∧
      (∃ r, Glpk.Response.read Sample.strayAnswer = .ok r ∧
        Glpk.statusOfCode r.status = .optimal ∧ Glpk.unmatched Sample.distant r = [.column "w"]) ∧
      ∀ n result, Bridge.glpk.decode Sample.distant Sample.strayAnswer ≠ (n, .ok result) := by
  have cleared : Sample.distant.session.IsCleared :=
    .of_empty (by decide +kernel) (by decide +kernel) (by decide +kernel) (by decide +kernel)
      (by decide +kernel)
  have fails : (Bridge.glpk.decode Sample.distant Sample.strayAnswer).2.toOption.isNone = true := by
    decide +kernel
  let r : Glpk.Response := {
    status := 5
    objectiveValue := some (Number.double 1)
    values := [("w", Number.double 2)]
    duals := none }
  have understood : Glpk.Response.read Sample.strayAnswer = .ok r :=
    toOption_eq_some.1 (by decide +kernel)
  refine ⟨⟨0, _, rfl⟩, cleared, by decide +kernel, ⟨r, understood, rfl, by decide +kernel⟩, ?_⟩
  intro n result decoded
  rw [decoded] at fails
  cases fails

end Model

end LinOpt
