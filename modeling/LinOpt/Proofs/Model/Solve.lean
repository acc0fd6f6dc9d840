import LinOpt.Proofs.Model.WellFormed

namespace LinOpt

namespace Session

def assignAll (s : Session) (pairs : List (Variable × Value)) : Session :=
  { s with values := pairs.reverse ++ s.values }

theorem assignAll_cons (s : Session) (pair : Variable × Value) (pairs : List (Variable × Value)) :
    s.assignAll (pair :: pairs) = (s.assign pair.1 pair.2).assignAll pairs := by
  simp [assignAll, assign]

theorem value_assignAll_of_fresh {s : Session} {pairs : List (Variable × Value)} {v : Variable}
    (fresh : v ∉ pairs.map Prod.fst) : (s.assignAll pairs).value v = s.value v := by
  induction pairs generalizing s with
  | nil => rfl
  | cons pair pairs ih =>
    rw [List.map_cons, List.mem_cons, not_or] at fresh
    rw [assignAll_cons, ih fresh.2, value_assign, if_neg fun same => fresh.1 same.symm]

theorem value_assignAll {s : Session} {pairs : List (Variable × Value)}
    (nodup : (pairs.map Prod.fst).Nodup) {v : Variable} {x : Value} (member : (v, x) ∈ pairs) :
    (s.assignAll pairs).value v = x := by
  induction pairs generalizing s with
  | nil => cases member
  | cons pair pairs ih =>
    obtain ⟨alone, nodup⟩ := List.nodup_cons.1 nodup
    rw [assignAll_cons]
    rcases List.mem_cons.1 member with rfl | member
    · rw [value_assignAll_of_fresh alone, value_assign, if_pos rfl]
    · exact ih nodup member

theorem map_value_assignAll (s : Session) {vs : List Variable} (nodup : vs.Nodup)
    {values : List Value} (length : values.length = vs.length) :
    vs.map (s.assignAll (vs.zip values)).value = values := by
  have keys : (vs.zip values).map Prod.fst = vs := List.map_fst_zip length.ge
  rw [← List.forall₂_eq_eq_eq, List.forall₂_map_left_iff, List.forall₂_iff_zip]
  exact ⟨length.symm, fun member => value_assignAll (keys.symm ▸ nodup) member⟩

theorem foldl_assign {step : Session × SolveResult → ι → Session × SolveResult}
    {pair : ι → Variable × Value} {items : List ι}
    (assigns : ∀ i ∈ items, ∀ s r, ∃ values,
      step (s, r) i = (s.assign (pair i).1 (pair i).2, { r with values }))
    (s : Session) (r : SolveResult) : ∃ values,
      items.foldl step (s, r) = (s.assignAll (items.map pair), { r with values }) := by
  induction items generalizing s r with
  | nil => exact ⟨r.values, rfl⟩
  | cons i items ih =>
    obtain ⟨values, first⟩ := assigns i List.mem_cons_self s r
    rw [List.foldl_cons, first, List.map_cons, assignAll_cons]
    exact ih (fun j member => assigns j (List.mem_cons_of_mem i member)) _ _

end Session

namespace Bridge

variable {b : Bridge} {m : Model}

theorem decode_solved {response : Value} {status : Status} {reported : Option Binary64}
    {take : Session × SolveResult → Session × SolveResult}
    (read : b.read m response = .ok { status, reported := some reported, take })
    {objectiveValue : Option Binary64}
    (whole : b.objectiveValue m reported = .ok objectiveValue) {session : Session}
    {result : SolveResult}
    (taken : take ({ m.session with status := some status }, { status, kind := b.kind }) =
      (session, result)) :
    b.decode m response = ({ m with session := { session with objectiveValue } },
      .ok { result with objectiveValue }) := by
  simp only [decode, read, accept, taken, whole]

theorem decode_failed {response : Value} {status : Status} {reported : Option Binary64}
    {take : Session × SolveResult → Session × SolveResult}
    (read : b.read m response = .ok { status, reported := some reported, take }) {e : Error}
    (large : b.objectiveValue m reported = .error e) {session : Session} {result : SolveResult}
    (taken : take ({ m.session with status := some status }, { status, kind := b.kind }) =
      (session, result)) :
    b.decode m response = ({ m with session }, .error e) := by
  simp only [decode, read, accept, taken, large]

theorem decode_unsolved {response : Value} {status : Status}
    {take : Session × SolveResult → Session × SolveResult}
    (read : b.read m response = .ok { status, reported := none, take }) {session : Session}
    {result : SolveResult}
    (taken : take ({ m.session with status := some status }, { status, kind := b.kind }) =
      (session, result)) :
    b.decode m response = ({ m with session }, .ok result) := by
  simp only [decode, read, accept, taken]

end Bridge

namespace Model

theorem findBridge_eq_ok {m : Model} {bridges : Bridges} {kind : Value} {elsewhere : Valuation}
    {b : Bridge} : m.findBridge bridges kind elsewhere = .ok b ↔ bridges.find kind = .ok b :=
  mapError_eq_ok

theorem solve_eq_ok {m n : Model} {bridges : Bridges} {engine : Engine} {options kind : Value}
    {elsewhere : Valuation} {b : Bridge} {request response : Value} {result : SolveResult}
    (found : bridges.find (if kind.isNull then engine.kind else kind) = .ok b)
    (encoded : b.encode m.reset (solveOptions options) elsewhere = .ok request)
    (answered : engine.answer request (solveOptions options) = .ok response)
    (decoded : b.decode { m with session := { response } } response = (n, .ok result)) :
    m.solve bridges engine options kind elsewhere =
      ({ n with session := { n.session with diagnostics := result.diagnostics } }, .ok result) := by
  have prepared : m.reset.prepare bridges (if kind.isNull then engine.kind else kind)
      (solveOptions options) elsewhere = .ok (b, request) := by
    rw [prepare, findBridge_eq_ok.2 found]
    simp only [encoded, bind, Except.bind, pure, Except.pure]
  have decoded : b.decode { m.reset with session := { m.reset.session with response } } response =
      (n, .ok result) := decoded
  simp only [solve, prepared, answered, decoded]

theorem solve_bare {m : Model} {bridges : Bridges} {engine : Engine} {options kind : Value}
    {elsewhere : Valuation} {b : Bridge} {request response : Value} {status : Status}
    (found : bridges.find (if kind.isNull then engine.kind else kind) = .ok b)
    (encoded : b.encode m.reset (solveOptions options) elsewhere = .ok request)
    (answered : engine.answer request (solveOptions options) = .ok response)
    (read : b.read { m with session := { response } } response =
      .ok { status, reported := none, take := id }) :
    ∃ n result response, m.solve bridges engine options kind elsewhere = (n, .ok result) ∧
      n.session = { response, status := some status } :=
  ⟨_, _, response, solve_eq_ok found encoded answered (Bridge.decode_unsolved read rfl), rfl⟩

end Model

end LinOpt
