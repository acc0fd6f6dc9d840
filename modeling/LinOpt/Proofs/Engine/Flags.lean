import LinOpt.Proofs.Engine.Agreement
import LinOpt.Proofs.Model.Heard

namespace LinOpt

namespace Jslp

theorem rational_taken {x : Binary64} (finite : x.isFinite = true) :
    (taken x).rational = x.rational := by
  unfold taken
  split
  next zero => exact (((Binary64.rational_eq_zero_iff finite).2 zero).trans Int.cast_zero.symm).symm
  · rfl

theorem Response.unflagged_of_read {response : Value} {r : Response}
    (read : Response.read response = .ok r) : ∀ x ∈ r.values.names, x ∉ flags := by
  obtain ⟨entries, -, read⟩ := bind_eq_ok.1 read
  obtain ⟨parts, -, rfl⟩ := map_eq_ok.1 read
  intro x member flagged
  obtain ⟨entry, among, rfl⟩ := List.mem_map.1 member
  obtain ⟨⟨key, value⟩, -, kept⟩ := List.mem_filterMap.1 among
  dsimp only at kept
  split at kept
  · split at kept
    · cases kept
    next unflagged =>
      cases kept
      exact unflagged (List.contains_iff_mem.2 flagged)
  · cases kept

theorem value_of_flagged {m n : Model} (sound : m.WellFormed) {call : Model.Call} {response : Value}
    {result : SolveResult} (heard : call.heard m = some (.jslp, response))
    (taken : call.on m = (n, .ok result)) {v : Variable} (own : v ∈ m.registry.vars)
    (flagged : v.name ∈ Response.flags) : n.value v = .null ∨ n.value v = .int 0 := by
  obtain ⟨answer, kept, read, values⟩ := Model.Call.value_eq taken heard
  rw [values, Bridge.found]
  obtain ⟨r, understood, -, ⟨-, -, nothing⟩ | ⟨-, -, all⟩⟩ := Bridge.readJslp_eq_ok read
  · rw [nothing]
    exact .inl rfl
  · have absent : r.values.get? v.name = none :=
      Entries.get?_eq_none.2 fun member => Response.unflagged_of_read understood _ member flagged
    have here := List.map_inj_left.1 (decode_values sound r
      { response := kept, status := some answer.status }
      { status := answer.status, kind := Bridge.jslp.kind } rfl).1 v own
    rw [valueIn, absent] at here
    rw [all]
    exact .inr here

theorem value_of_flagged_solve {m n : Model} (sound : m.WellFormed)
    {solver : LinearProgram.Query → Except Error LinearProgram.Outcome} {options : Value}
    {elsewhere : Valuation} {result : SolveResult}
    (solved : m.solveThrough solver options elsewhere .jslp = (n, .ok result)) {v : Variable}
    (own : v ∈ m.registry.vars) (flagged : v.name ∈ Response.flags) :
    n.value v = .null ∨ n.value v = .int 0 := by
  obtain ⟨request, response, heard, -, -⟩ := Model.Call.heard_reference solved
  exact value_of_flagged sound heard solved own flagged

open LinearProgram LinearProgram.Builder in
/-- A model without quadratic terms is asked about in a form in which a point comes back to it,
coordinate by coordinate and with the constant of the objective once, exactly if it is zero wherever
a variable has the name of a flag. -/
theorem solve_takes_over_point_iff_flagsAtZero {m : Model} (reachable : m.Reachable)
    (exact : m.IsExact) (linear : ¬ m.HasQuadraticTerm) (nonempty : m.registry.vars ≠ [])
    {options : Value} {settings : Settings} {elsewhere : Valuation} {plain : Entries Value}
    (embedded : readPlain (Model.solveOptions options) (m.reset.valueOr elsewhere) = .ok plain)
    (read : Settings.ofOptions (Model.solveOptions options) = .ok settings) :
    ∃ request p,
      m.requestThrough options elsewhere .jslp = .ok request ∧
      Engine.readRun .jslp request (Model.solveOptions options) = .ok (p, settings) ∧
      ∀ solver outcome point, solver (p.query settings) = .ok outcome → outcome.Fits p →
        outcome.code = 0 → outcome.point = some point →
        point.length = m.registry.vars.length → (∀ x ∈ point, x.isFinite = true) →
        (FlagsAtZero m point →
          ∃ n result, m.solveThrough solver options elsewhere .jslp = (n, .ok result) ∧
            SolvedBy m point n result ∧
            (m.objective.expression.IsSummedExactly m.registry.vars
                (fun v => (n.value v).rational) →
              n.session.objectiveValue >>= Binary64.toRat? =
                some (m.objective.expression.rationalAt fun v => (n.value v).rational))) ∧
        ∀ n result, m.solveThrough solver options elsewhere .jslp = (n, .ok result) →
          (m.registry.vars.map (fun v => (n.value v).rational) = point.map Binary64.rational ↔
            FlagsAtZero m point) := by
  have sound := reachable.wellFormed
  rw [← Model.isQuadratic_iff, Bool.not_eq_true] at linear
  have request : m.requestThrough options elsewhere .jslp = .ok (requestOf m plain).toValue := by
    rw [Model.requestThrough_eq]
    exact encode_requestOf sound exact.isFinite linear embedded
  refine ⟨_, _, request, readRun_requestOf embedded read,
    fun solver outcome point answers fits code isPoint length finite => ?_⟩
  have takesOver (unflagged : FlagsAtZero m point) :
      ∃ n result, m.solveThrough solver options elsewhere .jslp = (n, .ok result) ∧
        SolvedBy m point n result ∧
        m.registry.vars.map (fun v => (n.value v).rational) = point.map Binary64.rational := by
    obtain ⟨n, result, solved, by_point⟩ := solve_eq_ok sound exact.isFinite linear nonempty embedded
      read answers unflagged fits (.inl code) isPoint length
    have coordinates := Value.map_rational by_point.values
    rw [List.map_congr_left fun x member => rational_taken (finite x member)] at coordinates
    exact ⟨n, result, solved, by_point, coordinates⟩
  refine ⟨fun unflagged => ?_, fun n result solved => ⟨fun same => ?_, fun unflagged => ?_⟩⟩
  · obtain ⟨n, result, solved, by_point, coordinates⟩ := takesOver unflagged
    refine ⟨n, result, solved, by_point, fun summed => ?_⟩
    rw [by_point.objectiveValue]
    refine toRat?_objective sound.registry.nodup sound.owned.linear sound.canonical exact.objective
      (Bool.or_eq_false_iff.1 linear).1 finite coordinates.symm summed ?_
        exact.objective.constant.toRat?_double
    rw [Binary64.add_comm, Binary64.zero_add, Binary64.toRat?_settled]
    rfl
  · -- A variable with the name of a flag has come out as null or zero, whatever its coordinate is.
    intro entry member flagged
    rw [Registry.names, List.zip_map_left] at member
    obtain ⟨⟨v, x⟩, among, rfl⟩ := List.mem_map.1 member
    obtain ⟨own, coordinate⟩ := List.of_mem_zip among
    rw [← List.forall₂_eq_eq_eq, List.forall₂_map_left_iff, List.forall₂_map_right_iff,
      List.forall₂_iff_zip] at same
    have value : (n.value v).rational = x.rational := same.2 among
    have none := value_of_flagged_solve sound solved own flagged
    refine (Binary64.rational_eq_zero_iff (finite x coordinate)).1 (value.symm.trans ?_)
    rcases none with none | none <;> rw [none]
    · rfl
    · exact Int.cast_zero
  · obtain ⟨n', result', again, -, coordinates⟩ := takesOver unflagged
    cases solved.symm.trans again
    exact coordinates

theorem sample_solve_takes_over_point_iff :
    ∃ n result, Model.Sample.model.solveThrough (fun _ => .ok .sample) .null (fun _ => .null) .jslp =
        (n, .ok result) ∧
      (n.value Model.Sample.x).rational = 1 ∧ (n.value Model.Sample.y).rational = 1 ∧
      n.session.objectiveValue >>= Binary64.toRat? = some 4 := by
  have exact : Model.Sample.model.IsExact := by decide +kernel
  have linear : ¬ Model.Sample.model.HasQuadraticTerm := by decide +kernel
  have embedded : readPlain (Model.solveOptions .null)
      (Model.Sample.model.reset.valueOr fun _ => .null) = .ok [] := rfl
  have unset : Settings.ofOptions (Model.solveOptions .null) = .ok {} := rfl
  obtain ⟨request, p, -, -, answered⟩ := solve_takes_over_point_iff_flagsAtZero
    Model.Sample.reachable exact linear (LinearProgram.sample_vars ▸ List.cons_ne_nil _ _) embedded
    unset
  rw [LinearProgram.sample_vars] at answered
  have one : (Number.double 1).isFinite = true := Number.isExact_one.isFinite_double
  have finite : ∀ x ∈ [Number.double 1, Number.double 1], x.isFinite = true := by simp [one]
  obtain ⟨takesOver, unflagged⟩ := answered (fun _ => .ok .sample) .sample
    [Number.double 1, Number.double 1] rfl ⟨nofun, nofun, nofun, nofun⟩ rfl rfl (by simp) finite
  have free : FlagsAtZero Model.Sample.model [Number.double 1, Number.double 1] :=
    flagsAtZero_of_unflagged (by decide +kernel) _
  obtain ⟨n, result, solved, -, objective⟩ := takesOver free
  have values := (unflagged n result solved).2 free
  injection values with first rest
  injection rest with second
  rw [Number.rational_double_one] at first second
  refine ⟨n, result, solved, first, second,
    (objective (LinearProgram.sample_isSummedExactly first second)).trans ?_⟩
  rw [LinearProgram.sample_rationalAt first second]

open Model Sample in
/-- Of a variable with the name of the objective value the value is lost, and the objective has it;
with the name of another flag there may be no solution at all. -/
theorem flagged_points_do_not_come_back :
    let left := (alone "result" 5).solveThrough (fun _ => .ok (Sample.outcome 0 (some [3]))) .null
      (fun _ => .null) .jslp
    left.2.toOption.map (·.status) = some .optimal ∧
      left.1.registry.vars.map (fun v => (left.1.value v).rational) = [0] ∧
      left.1.session.objectiveValue = some (Number.double 3) ∧
      ((alone "feasible" 5).solveThrough (fun _ => .ok (Sample.outcome 0 (some [3]))) .null
        (fun _ => .null) .jslp).2.toOption.isNone = true := by
  decide +kernel

end Jslp

end LinOpt
