import LinOpt.Proofs.Bridge.Decoded
import LinOpt.Proofs.Engine.Agreement

namespace LinOpt

namespace Highs

theorem value_of_absent {m n : Model} {call : Model.Call} {response : Value} {result : SolveResult}
    (heard : call.heard m = some (.highs, response)) (taken : call.on m = (n, .ok result))
    {v : Variable}
    (absent : ∀ r, Response.read response = .ok r → v.name ∉ r.columns.names) :
    n.value v = .null := by
  obtain ⟨answer, kept, read, values⟩ := Model.Call.value_eq taken heard
  rw [values, Bridge.found]
  obtain ⟨r, understood, -, ⟨-, -, nothing⟩ | ⟨-, -, all⟩⟩ := Bridge.readHighs_eq_ok read
  · rw [nothing]
    rfl
  · rw [all]
    exact value_decode_of_absent (absent r understood) _

open LinearProgram in
theorem value_of_unmentioned {m n : Model} (sound : m.WellFormed) {p : LinearProgram}
    (readFrom : p.ReadFrom m) {text : String} (written : m.toLp = .ok text) {options : Value}
    {settings : Settings} {elsewhere : Valuation}
    (run : Engine.readRun .highs (.text text) (Model.solveOptions options) = .ok (p, settings))
    {solver : Query → Except Error Outcome} {result : SolveResult}
    (solved : m.solveThrough solver options elsewhere .highs = (n, .ok result)) {v : Variable}
    (own : v ∈ m.registry.vars) (unmentioned : ¬ m.Mentions v) : n.value v = .null := by
  obtain ⟨request, response, heard, encoded, answered⟩ := Model.Call.heard_reference solved
  have isText : Bridge.highs.encode m.reset (Model.solveOptions options) elsewhere =
      .ok (.text text) := map_eq_ok.2 ⟨text, written, rfl⟩
  obtain rfl : Value.text text = request := Except.ok.inj (isText.symm.trans encoded)
  obtain ⟨_, again, answered⟩ := bind_eq_ok.1 answered
  obtain rfl := Except.ok.inj (run.symm.trans again)
  obtain ⟨s, -, answered⟩ := bind_eq_ok.1 answered
  refine value_of_absent heard solved fun r understood column => unmentioned ?_
  have among := Engine.names_highsAnswer answered understood _ column
  obtain ⟨w, member, mentioned, same⟩ := (readFrom.columns v.name).1 among
  exact sound.registry.eq_of_name member own same ▸ mentioned

open LinearProgram in
/-- A solve through LP text that ends with a best point gives a value to the variables that the text
mentions, and to no others. -/
theorem solve_values_iff_mentions {m : Model} (reachable : m.Reachable) (portable : m.IsPortable)
    (linear : ¬ m.HasQuadraticTerm)
    (safe : ∀ v ∈ m.registry.vars, LpText.isSafeName v.name = true)
    (single : ∀ v ∈ m.registry.vars, v.name.map Char.toLower ∉ ["subject", "such"])
    {options : Value} {settings : Settings}
    (read : Settings.ofOptions (Model.solveOptions options) = .ok settings)
    (elsewhere : Valuation) :
    ∃ text p,
      m.requestThrough options elsewhere .highs = .ok (.text text) ∧
      Engine.readRun .highs (.text text) (Model.solveOptions options) = .ok (p, settings) ∧
      ∀ solver outcome point, solver (p.query settings) = .ok outcome →
        outcome.GivesPoint m.constraints p.columnCount point → outcome.code = 0 →
        ((∃ v ∈ m.registry.vars, m.Mentions v) →
          ∃ n result, m.solveThrough solver options elsewhere .highs = (n, .ok result) ∧
            n.session.status = some .optimal) ∧
        ∀ n result, m.solveThrough solver options elsewhere .highs = (n, .ok result) →
          ∀ v ∈ m.registry.vars, n.value v ≠ .null ↔ m.Mentions v := by
  have sound := reachable.wellFormed
  rw [← Model.isQuadratic_iff, Bool.not_eq_true] at linear
  obtain ⟨text, p, written, program, readFrom⟩ :=
    LpText.exists_readFrom sound portable linear safe single
  have run := readRun_text program read
  refine ⟨text, p, (Model.requestThrough_eq .highs).trans (map_eq_ok.2 ⟨text, written, rfl⟩), run,
    fun solver outcome point answers gives code => ?_⟩
  have takesOver (mentions : ∃ v ∈ m.registry.vars, m.Mentions v) :
      ∃ n result, m.solveThrough solver options elsewhere .highs = (n, .ok result) ∧
        SolvedBy m p outcome point n result :=
    solve_eq_ok mentions readFrom run answers gives sound written elsewhere
  refine ⟨fun mentions => ?_, fun n result solved v own => ⟨fun valued => ?_, fun mentioned => ?_⟩⟩
  · obtain ⟨n, result, solved, by_point⟩ := takesOver mentions
    exact ⟨n, result, solved, by rw [by_point.status, code]; rfl⟩
  · by_contra unmentioned
    exact valued (value_of_unmentioned sound readFrom written run solved own unmentioned)
  · -- A variable that is mentioned makes the solve succeed, and has a column in it.
    obtain ⟨n', result', again, by_point⟩ := takesOver ⟨v, own, mentioned⟩
    cases solved.symm.trans again
    have named : v ∈ m.named p.columnNames :=
      (Model.mem_named sound).2 ⟨own, (readFrom.columns v.name).2 ⟨v, own, mentioned, rfl⟩⟩
    have among := List.mem_map_of_mem (f := n.value) named
    rw [by_point.values] at among
    obtain ⟨x, -, same⟩ := List.mem_map.1 among
    rw [← same]
    exact nofun

theorem sample_solve_values_iff_mentions :
    ∃ n result, Model.Sample.model.solveThrough (fun _ => .ok .sample) .null (fun _ => .null) .highs =
        (n, .ok result) ∧
      n.session.status = some .optimal ∧ n.value Model.Sample.y ≠ .null := by
  have exact : Model.Sample.model.IsExact := by decide +kernel
  have linear : ¬ Model.Sample.model.HasQuadraticTerm := by decide +kernel
  have mentioned : Model.Sample.model.Mentions Model.Sample.y := .inr (.inr (by decide))
  have own : Model.Sample.y ∈ Model.Sample.model.registry.vars := by decide +kernel
  have unset : Settings.ofOptions (Model.solveOptions .null) = .ok {} := rfl
  obtain ⟨text, p, requested, run, answered⟩ := solve_values_iff_mentions Model.Sample.reachable
    exact.isPortable linear (by decide +kernel) (by decide +kernel) unset fun _ => .null
  have columns := Model.sample_columnsThrough .highs
  rw [Model.columnsThrough, requested, Except.toOption, Option.bind_some, run] at columns
  have count : p.columnCount = 2 := congrArg List.length (Option.some.inj columns)
  obtain ⟨optimal, valued⟩ := answered (fun _ => .ok .sample) .sample _ rfl
    (count.symm ▸ LinearProgram.Outcome.sample_givesPoint _) rfl
  obtain ⟨n, result, solved, status⟩ := optimal ⟨_, own, mentioned⟩
  exact ⟨n, result, solved, status, (valued n result solved _ own).2 mentioned⟩

end Highs

namespace Model

def Sample.spare : Model :=
  let x : Variable := { name := "x", id := ⟨0, 0⟩ }
  (empty 0).run [
    .addVar { name := .text "x" },
    .addVar { name := .text "y" },
    .setObjective (.list [.var x]) (.text "minimize"),
    .addConstraint (.list [.var x]) (.text ">=") (.number 1)]

def Sample.ones : LinearProgram.Query → Except Error LinearProgram.Outcome
  | .linear costs .. => .ok (outcome 0 (some (costs.map fun _ => 1)))
  | .integer costs .. => .ok (outcome 0 (some (costs.map fun _ => 1)))

/-- The spare variable has a value after a solve through any format but LP text. -/
theorem spare_variable_without_value :
    Format.all.map (fun format =>
      let left := (Sample.spare.solveThrough Sample.ones .null (fun _ => .null) format).1
      (left.session.status, left.registry.vars.map fun v => (left.value v).isNull)) =
        [(some .optimal, [false, false]), (some .optimal, [false, true]),
          (some .optimal, [false, false])] := by
  decide +kernel

end Model

end LinOpt
