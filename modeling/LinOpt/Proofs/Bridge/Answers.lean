import LinOpt.Proofs.Model.Solve
import LinOpt.Proofs.Number.Exact

namespace LinOpt

namespace Session

/-- Sessions that differ at most in values and rows. -/
structure Keeps (s t : Session) : Prop where
  status : t.status = s.status
  objectiveValue : t.objectiveValue = s.objectiveValue
  response : t.response = s.response
  diagnostics : t.diagnostics = s.diagnostics

namespace Keeps

variable {s t u : Session}

theorem refl (s : Session) : s.Keeps s :=
  ⟨rfl, rfl, rfl, rfl⟩

theorem trans (first : s.Keeps t) (second : t.Keeps u) : s.Keeps u :=
  ⟨second.status.trans first.status, second.objectiveValue.trans first.objectiveValue,
    second.response.trans first.response, second.diagnostics.trans first.diagnostics⟩

theorem assign (s : Session) (v : Variable) (x : Value) : s.Keeps (s.assign v x) :=
  ⟨rfl, rfl, rfl, rfl⟩

theorem assignRow (s : Session) (i : Nat) (result : RowResult) : s.Keeps (s.assignRow i result) :=
  ⟨rfl, rfl, rfl, rfl⟩

end Keeps

end Session

structure FoundKeeps (here there : Session × SolveResult) : Prop where
  session : here.1.Keeps there.1
  status : there.2.status = here.2.status
  kind : there.2.kind = here.2.kind
  objectiveValue : there.2.objectiveValue = here.2.objectiveValue

namespace FoundKeeps

variable {here there : Session × SolveResult}

theorem refl (found : Session × SolveResult) : FoundKeeps found found :=
  ⟨.refl found.1, rfl, rfl, rfl⟩

theorem trans {found : Session × SolveResult} (first : FoundKeeps here there)
    (second : FoundKeeps there found) : FoundKeeps here found :=
  ⟨first.session.trans second.session, second.status.trans first.status,
    second.kind.trans first.kind, second.objectiveValue.trans first.objectiveValue⟩

theorem foldl {step : Session × SolveResult → ι → Session × SolveResult}
    (keeps : ∀ found i, FoundKeeps found (step found i)) (items : List ι)
    (found : Session × SolveResult) : FoundKeeps found (items.foldl step found) := by
  induction items generalizing found with
  | nil => exact refl found
  | cons i items ih => exact (keeps found i).trans (ih (step found i))

end FoundKeeps

section Decoders

variable (m : Model) (found : Session × SolveResult)

theorem Glpk.decodeValue_keeps (entry : String × Binary64) :
    FoundKeeps found (decodeValue m found entry) := by
  unfold decodeValue
  dsimp only
  split
  · exact ⟨.assign .., rfl, rfl, rfl⟩
  · exact ⟨.refl _, rfl, rfl, rfl⟩

theorem Glpk.decodeRows_keeps (duals : Option (Entries Binary64)) :
    FoundKeeps found (decodeRows m duals found) := by
  cases duals with
  | none => exact .refl _
  | some duals =>
    refine ⟨?_, rfl, rfl, rfl⟩
    change found.1.Keeps (decodeDuals m duals found.1)
    unfold decodeDuals
    refine List.foldlRecOn _ _ (.refl _) fun session kept i _ => kept.trans ?_
    split
    · exact .assignRow ..
    · exact .refl _

theorem Highs.decodeColumn_keeps (entry : String × Column) :
    FoundKeeps found (decodeColumn m found entry) := by
  unfold decodeColumn
  dsimp only
  split
  · exact ⟨.assign .., rfl, rfl, rfl⟩
  · exact ⟨.refl _, rfl, rfl, rfl⟩

theorem Highs.decodeRow_keeps (indexed : Row × Nat) :
    FoundKeeps found (decodeRow m found indexed) := by
  unfold decodeRow
  dsimp only
  split
  · exact ⟨.assignRow .., rfl, rfl, rfl⟩
  · exact ⟨.refl _, rfl, rfl, rfl⟩

theorem Jslp.decodeVariable_keeps (response : Response) (v : Variable) :
    FoundKeeps found (decodeVariable response found v) :=
  ⟨.assign .., rfl, rfl, rfl⟩

theorem Jslp.decode_keeps (response : Response) : FoundKeeps found (decode m response found) := by
  have all := FoundKeeps.foldl (fun found v => decodeVariable_keeps found response v)
    m.registry.vars found
  exact ⟨all.session, all.status, all.kind, all.objectiveValue⟩

end Decoders

namespace Jslp

variable {feasible bounded : Option Bool}

theorem status_eq_unbounded :
    status feasible bounded = .unbounded ↔ feasible = some true ∧ bounded = some false := by
  rcases feasible with _ | _ | _ <;> rcases bounded with _ | _ | _ <;> decide

theorem status_of_feasible (isFeasible : feasible = some true)
    (bare : (status feasible bounded).hasSolution = false) :
    status feasible bounded = .unbounded := by
  subst isFeasible
  rcases bounded with _ | _ | _
  · cases bare
  · rfl
  · cases bare

end Jslp

@[simp] theorem Bridge.format_ofFormat (format : Format) : (ofFormat format).format = format := by
  cases format <;> rfl

@[simp] theorem Bridge.kind_ofFormat (format : Format) : (ofFormat format).kind = format.kind := by
  cases format <;> rfl

theorem Bridges.find_standard {kind : Value} {b : Bridge} (found : standard.find kind = .ok b) :
    ∃ format, b = .ofFormat format := by
  unfold find get? at found
  split at found
  next b' known =>
    cases found
    split at known
    · obtain ⟨entry, first, rfl⟩ := Option.map_eq_some_iff.1 known
      obtain ⟨format, -, rfl⟩ := List.mem_map.1 (List.mem_of_find?_eq_some first)
      exact ⟨format, rfl⟩
    · cases known
  · cases found

namespace Bridge

variable {b : Bridge} {m n : Model} {response : Value} {answer : Answer}

theorem readGlpk_eq_ok (read : readGlpk m response = .ok answer) :
    ∃ r, Glpk.Response.read response = .ok r ∧ answer.status = Glpk.statusOfCode r.status ∧
      (answer.status.hasSolution = false ∧ answer.reported = none ∧ answer.take = id ∨
        answer.status.hasSolution = true ∧ answer.reported = some r.objectiveValue ∧
          answer.take = fun found =>
            Glpk.decodeRows m r.duals (r.values.foldl (Glpk.decodeValue m) found)) := by
  obtain ⟨r, understood, rest⟩ := bind_eq_ok.1 read
  refine ⟨r, mapError_eq_ok.1 understood, ?_⟩
  cases solution : (Glpk.statusOfCode r.status).hasSolution with
  | false =>
    simp only [solution] at rest
    cases rest
    exact ⟨rfl, .inl ⟨solution, rfl, rfl⟩⟩
  | true =>
    simp only [solution] at rest
    cases rest
    exact ⟨rfl, .inr ⟨solution, rfl, rfl⟩⟩

theorem readHighs_eq_ok (read : readHighs m response = .ok answer) :
    ∃ r, Highs.Response.read response = .ok r ∧ answer.status = Status.ofText r.status ∧
      (answer.status.hasSolution = false ∧ answer.reported = none ∧ answer.take = id ∨
        answer.status.hasSolution = true ∧ answer.reported = some r.objectiveValue ∧
          answer.take = Highs.decode m r) := by
  obtain ⟨r, understood, rest⟩ := bind_eq_ok.1 read
  refine ⟨r, mapError_eq_ok.1 understood, ?_⟩
  cases solution : (Status.ofText r.status).hasSolution with
  | false =>
    simp only [solution] at rest
    cases rest
    exact ⟨rfl, .inl ⟨solution, rfl, rfl⟩⟩
  | true =>
    simp only [solution] at rest
    cases rest
    exact ⟨rfl, .inr ⟨solution, rfl, rfl⟩⟩

theorem readJslp_eq_ok (read : readJslp m response = .ok answer) :
    ∃ r, Jslp.Response.read response = .ok r ∧ answer.status = Jslp.status r.feasible r.bounded ∧
      (r.feasible ≠ some true ∧ answer.reported = none ∧ answer.take = id ∨
        r.feasible = some true ∧ answer.reported = some r.objectiveValue ∧
          answer.take = Jslp.decode m r) := by
  obtain ⟨r, understood, rest⟩ := bind_eq_ok.1 read
  refine ⟨r, mapError_eq_ok.1 understood, ?_⟩
  by_cases feasible : r.feasible = some true
  · rw [if_neg (not_not_intro feasible)] at rest
    cases rest
    exact ⟨rfl, .inr ⟨feasible, rfl, rfl⟩⟩
  · rw [if_pos feasible] at rest
    cases rest
    exact ⟨rfl, .inl ⟨feasible, rfl, rfl⟩⟩

theorem read_keeps (read : b.read m response = .ok answer) (found : Session × SolveResult) :
    FoundKeeps found (answer.take found) := by
  unfold Bridge.read at read
  split at read
  · obtain ⟨r, -, -, ⟨-, -, nothing⟩ | ⟨-, -, all⟩⟩ := readGlpk_eq_ok read
    · rw [nothing]
      exact .refl _
    · rw [all]
      exact (FoundKeeps.foldl (Glpk.decodeValue_keeps m) _ found).trans
        (Glpk.decodeRows_keeps m _ _)
  · obtain ⟨r, -, -, ⟨-, -, nothing⟩ | ⟨-, -, all⟩⟩ := readHighs_eq_ok read
    · rw [nothing]
      exact .refl _
    · rw [all]
      exact (FoundKeeps.foldl (Highs.decodeColumn_keeps m) _ found).trans
        (FoundKeeps.foldl (Highs.decodeRow_keeps m) _ _)
  · obtain ⟨r, -, -, ⟨-, -, nothing⟩ | ⟨-, -, all⟩⟩ := readJslp_eq_ok read
    · rw [nothing]
      exact .refl _
    · rw [all]
      exact Jslp.decode_keeps m found r

def found (b : Bridge) (kept : Value) (answer : Answer) : Session × SolveResult :=
  answer.take ({ response := kept, status := some answer.status },
    { status := answer.status, kind := b.kind })

theorem found_keeps (read : b.read m response = .ok answer) (kept : Value) :
    FoundKeeps ({ response := kept, status := some answer.status },
      { status := answer.status, kind := b.kind }) (b.found kept answer) :=
  read_keeps read _

/-- Only a constant that is no double, and has yet to be added, has no objective value. -/
theorem objectiveValue_eq_error {reported : Option Binary64} {e : Error} :
    b.objectiveValue m reported = .error e ↔
      e = .overflow ∧ b.includesConstant = false ∧ reported ≠ none ∧
        m.objective.expression.constant.toBinary64? = none := by
  cases reported with
  | none => simp [objectiveValue]
  | some x =>
    unfold objectiveValue
    cases included : b.includesConstant with
    | true => simp
    | false =>
      have never (whole : Number) : (pure whole.toBinary64? : Except Error _) ≠ .error e := nofun
      simp only [Bool.false_eq_true, if_false, bind_eq_error, inRange_eq_error,
        Number.real_add_eq_none, never, and_false, exists_false, or_false]
      simp [and_comm, eq_comm]

/-- An answer without a solution has nothing to take over, but for that of an unbounded problem
where feasibility is a flag: it counts as feasible, and all that comes with it is read. -/
theorem read_bare (read : b.read m response = .ok answer)
    (bare : answer.status.hasSolution = false) :
    (¬ (b.format = .jslp ∧ answer.status = .unbounded) ∧ answer.reported = none ∧
        answer.take = id) ∨
      b.format = .jslp ∧ answer.status = .unbounded ∧
        ∃ r, Jslp.Response.read response = .ok r ∧ answer.reported = some r.objectiveValue ∧
          answer.take = Jslp.decode m r := by
  unfold Bridge.read at read
  split at read
  next format =>
    obtain ⟨r, -, -, ⟨-, said, nothing⟩ | ⟨solution, -⟩⟩ := readGlpk_eq_ok read
    · exact .inl ⟨by simp [format], said, nothing⟩
    · cases solution.symm.trans bare
  next format =>
    obtain ⟨r, -, -, ⟨-, said, nothing⟩ | ⟨solution, -⟩⟩ := readHighs_eq_ok read
    · exact .inl ⟨by simp [format], said, nothing⟩
    · cases solution.symm.trans bare
  next format =>
    obtain ⟨r, understood, status, ⟨infeasible, said, nothing⟩ | ⟨feasible, said, all⟩⟩ :=
      readJslp_eq_ok read
    · refine .inl ⟨fun unbounded => infeasible ?_, said, nothing⟩
      exact (Jslp.status_eq_unbounded.1 (status.symm.trans unbounded.2)).1
    · have unbounded := Jslp.status_of_feasible feasible (status ▸ bare)
      exact .inr ⟨format, status.trans unbounded, r, understood, said, all⟩

section

variable {kept : Value}

theorem decode_eq_error {e : Error}
    (failed : b.decode { m with session := { response := kept } } response = (n, .error e)) :
    b.read m response = .error e ∧ n = { m with session := { response := kept } } ∨
      ∃ answer, b.read m response = .ok answer ∧
        b.objectiveValue m answer.reported.join = .error e ∧
        n = { m with session := (b.found kept answer).1 } := by
  unfold decode at failed
  split at failed
  next e' refused =>
    cases failed
    exact .inl ⟨refused, rfl⟩
  next answer read =>
    unfold accept at failed
    dsimp only at failed
    split at failed
    · cases failed
    next reported said =>
      split at failed
      next e' large =>
        cases failed
        exact .inr ⟨answer, read, by rw [said]; exact large, rfl⟩
      · cases failed

theorem decode_eq_ok {result : SolveResult}
    (accepted : b.decode { m with session := { response := kept } } response = (n, .ok result)) :
    ∃ answer objectiveValue, b.read m response = .ok answer ∧
      b.objectiveValue m answer.reported.join = .ok objectiveValue ∧
      n = { m with session := { (b.found kept answer).1 with objectiveValue } } ∧
      result = { (b.found kept answer).2 with objectiveValue } := by
  unfold decode at accepted
  split at accepted
  · cases accepted
  next answer read =>
    have rest := found_keeps read kept
    unfold accept at accepted
    dsimp only at accepted
    split at accepted
    next said =>
      cases accepted
      have unset : (b.found kept answer).1.objectiveValue = none := rest.session.objectiveValue
      have unsaid : (b.found kept answer).2.objectiveValue = none := rest.objectiveValue
      have inSession : ({ (b.found kept answer).1 with objectiveValue := none } : Session) =
          (b.found kept answer).1 := by rw [← unset]
      have inResult : ({ (b.found kept answer).2 with objectiveValue := none } : SolveResult) =
          (b.found kept answer).2 := by rw [← unsaid]
      exact ⟨answer, none, read, by rw [said]; rfl, by rw [inSession]; rfl, inResult.symm⟩
    next reported said =>
      split at accepted
      · cases accepted
      next objectiveValue whole =>
        cases accepted
        exact ⟨answer, objectiveValue, read, by rw [said]; exact whole, rfl, rfl⟩

end

end Bridge

end LinOpt
