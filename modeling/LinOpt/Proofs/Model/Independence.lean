import LinOpt.Engine.Reference
import LinOpt.Proofs.Model.Ownership
import LinOpt.Proofs.Model.Unmarked
import LinOpt.Proofs.Schema.Requests
import LinOpt.Proofs.Value.Render

namespace LinOpt

open Schema Reading in
theorem Schema.seenAlike_readEntries {f g : Valuation} {entries : List (Value × Value)}
    {named : Entries Value} (seen : ∀ e ∈ entries, e.2.SeenAlike f g)
    (read : readEntries .ok (.map entries) = .ok named) : ∀ e ∈ named, e.2.SeenAlike f g := by
  induction entries generalizing named with
  | nil =>
    cases read
    exact fun _ member => absurd member List.not_mem_nil
  | cons entry entries ih =>
    obtain ⟨here, later⟩ := List.forall_mem_cons.1 seen
    obtain ⟨first, rest, isFirst, isRest, rfl⟩ := all_cons_eq_ok.1 read
    obtain ⟨-, value⟩ := both_eq_ok.1 (mapError_eq_ok.1 isFirst)
    have same : entry.2 = first.2 := Except.ok.inj value
    exact List.forall_mem_cons.2 ⟨same ▸ here, ih later isRest⟩

theorem Jslp.encode_seenAlike (b : Bridge) (m : Model) {options : Value} {f g : Valuation}
    (seen : options.SeenAlike f g) : encode b m options f = encode b m options g := by
  unfold encode
  refine bind_congr_ok fun _ _ => bind_congr_ok fun _ _ => bind_congr_ok fun _ _ => ?_
  refine bind_congr_ok fun entries read => bind_congr_ok fun (_, _, named) numbers => ?_
  obtain ⟨-, rest⟩ := Schema.both_eq_ok.1 (mapError_eq_ok.1 numbers)
  obtain ⟨-, isNamed⟩ := Schema.both_eq_ok.1 rest
  have known := Schema.seenAlike_readEntries (Settings.readOptions_seenAlike seen read)
    (mapError_eq_ok.1 isNamed)
  simp only [plainOptions, Value.plainEntries?_alike known]

namespace Bridge

variable {m n : Model}

theorem encode_alike (b : Bridge) (alike : m.Alike n) {options : Value} {elsewhere : Valuation}
    (seen : options.SeenAlike (m.valueOr elsewhere) (n.valueOr elsewhere)) :
    b.encode m options elsewhere = b.encode n options elsewhere := by
  have same := alike.unmarked_eq
  unfold encode
  split
  · rw [← Glpk.encode_unmarked b m, same, Glpk.encode_unmarked b n]
  · rw [← LpText.toLp_unmarked m, same, LpText.toLp_unmarked n]
  · rw [← Jslp.encode_unmarked b m, same, Jslp.encode_unmarked b n,
      Jslp.encode_seenAlike b n seen]

end Bridge

def Registry.Twins (r s : Registry) (v w : Variable) : Prop :=
  (v, w) ∈ r.vars.zip s.vars

/-- Two sessions that say the same, each about the variables of its registry. -/
structure Session.Alike (r s : Registry) (here there : Session) : Prop where
  status : here.status = there.status
  objectiveValue : here.objectiveValue = there.objectiveValue
  response : here.response = there.response
  diagnostics : here.diagnostics = there.diagnostics
  values : List.Forall₂ (fun a b => r.Twins s a.1 b.1 ∧ a.2 = b.2) here.values there.values
  rows : here.rows = there.rows

namespace Session.Alike

variable {r s : Registry} {here there : Session}

theorem empty (r s : Registry) : Alike r s {} {} :=
  ⟨rfl, rfl, rfl, rfl, .nil, rfl⟩

theorem assign (alike : Alike r s here there) {v w : Variable} (twins : r.Twins s v w)
    (x : Value) : Alike r s (here.assign v x) (there.assign w x) :=
  { alike with values := .cons ⟨twins, rfl⟩ alike.values }

theorem row (alike : Alike r s here there) (i : Nat) : here.row i = there.row i := by
  rw [Session.row, Session.row, alike.rows]

theorem assignRow (alike : Alike r s here there) (i : Nat) (result : RowResult) :
    Alike r s (here.assignRow i result) (there.assignRow i result) :=
  { alike with rows := congrArg ((i, result) :: ·) alike.rows }

end Session.Alike

def FoundAlike (r s : Registry) (here there : Session × SolveResult) : Prop :=
  Session.Alike r s here.1 there.1 ∧ here.2 = there.2

namespace Model.Alike

variable {m n : Model}

theorem get? (alike : m.Alike n) (x : String) :
    m.registry.get? x = none ∧ n.registry.get? x = none ∨
      ∃ v w, m.registry.get? x = some v ∧ n.registry.get? x = some w ∧
        m.registry.Twins n.registry v w := by
  have names := alike.names
  unfold Registry.names at names
  unfold Registry.get? Registry.Twins
  generalize m.registry.vars = vs at names
  generalize n.registry.vars = ws at names
  induction vs generalizing ws with
  | nil =>
    obtain rfl := List.map_eq_nil_iff.1 names.symm
    exact .inl ⟨rfl, rfl⟩
  | cons v vs ih =>
    obtain ⟨w, rest, rfl, same, later⟩ := List.map_eq_cons_iff.1 names.symm
    by_cases here : v.name = x
    · exact .inr ⟨v, w, by simp [here], by simp [same, here], List.mem_cons_self⟩
    · rcases ih rest later.symm with ⟨first, second⟩ | ⟨a, b, first, second, twins⟩
      · exact .inl ⟨by simpa [here] using first, by simpa [same, here] using second⟩
      · exact .inr ⟨a, b, by simpa [here] using first, by simpa [same, here] using second,
          List.mem_cons_of_mem _ twins⟩

theorem twins_name (alike : m.Alike n) {v w : Variable} (twins : m.registry.Twins n.registry v w) :
    v.name = w.name := by
  have names : List.Forall₂ Eq m.registry.names n.registry.names := by
    rw [List.forall₂_eq_eq_eq]
    exact alike.names
  rw [Registry.names, Registry.names, List.forall₂_map_left_iff, List.forall₂_map_right_iff] at names
  exact (List.forall₂_iff_zip.1 names).2 twins

theorem constraintCount (alike : m.Alike n) : m.constraints.length = n.constraints.length := by
  have counted := congrArg List.length alike.constraints
  rwa [List.length_map, List.length_map] at counted

theorem contains (alike : m.Alike n) (x : String) :
    m.registry.contains x = n.registry.contains x := by
  rw [Bool.eq_iff_iff, Registry.contains_iff, Registry.contains_iff, alike.names]

theorem constant (alike : m.Alike n) :
    m.objective.expression.constant = n.objective.expression.constant :=
  congrArg (·.expression.constant) alike.objective

end Model.Alike

section Decoders

variable {m n : Model} {here there : Session × SolveResult}

theorem Glpk.decodeValue_alike (alike : m.Alike n) (entry : String × Binary64)
    (found : FoundAlike m.registry n.registry here there) :
    FoundAlike m.registry n.registry (decodeValue m here entry) (decodeValue n there entry) := by
  obtain ⟨session, result⟩ := found
  unfold decodeValue
  rcases alike.get? entry.1 with ⟨first, second⟩ | ⟨v, w, first, second, twins⟩
  · simp only [first, second]
    exact ⟨session, by rw [result]⟩
  · simp only [first, second]
    exact ⟨session.assign twins _, by rw [result]⟩

theorem Glpk.decodeRows_alike (alike : m.Alike n) (duals : Option (Entries Binary64))
    (found : FoundAlike m.registry n.registry here there) :
    FoundAlike m.registry n.registry (decodeRows m duals here) (decodeRows n duals there) := by
  obtain ⟨session, result⟩ := found
  cases duals with
  | none => exact ⟨session, result⟩
  | some duals =>
    refine ⟨?_, by simp only [decodeRows, unknownRows, alike.constraintCount, result]⟩
    simp only [decodeRows, decodeDuals, alike.constraintCount]
    refine List.foldl_rel (r := Session.Alike m.registry n.registry) session
      fun i _ s t same => ?_
    split
    · rw [same.row]
      exact same.assignRow i _
    · exact same

theorem Highs.decodeColumn_alike (alike : m.Alike n) (entry : String × Column)
    (found : FoundAlike m.registry n.registry here there) :
    FoundAlike m.registry n.registry (decodeColumn m here entry) (decodeColumn n there entry) := by
  obtain ⟨session, result⟩ := found
  unfold decodeColumn
  rcases alike.get? entry.1 with ⟨first, second⟩ | ⟨v, w, first, second, twins⟩
  · simp only [first, second]
    exact ⟨session, by rw [result]⟩
  · simp only [first, second]
    exact ⟨session.assign twins _, by rw [result]⟩

theorem Highs.decodeRow_alike (alike : m.Alike n) (indexed : Row × Nat)
    (found : FoundAlike m.registry n.registry here there) :
    FoundAlike m.registry n.registry (decodeRow m here indexed) (decodeRow n there indexed) := by
  obtain ⟨session, result⟩ := found
  simp only [decodeRow, alike.constraintCount]
  split
  · exact ⟨session.assignRow _ _, result⟩
  · exact ⟨session, by rw [result]⟩

theorem Highs.decode_alike (alike : m.Alike n) (response : Response)
    (found : FoundAlike m.registry n.registry here there) :
    FoundAlike m.registry n.registry (decode m response here) (decode n response there) := by
  have columns := List.foldl_rel (r := FoundAlike m.registry n.registry) (l := response.columns)
    found fun entry _ _ _ => decodeColumn_alike alike entry
  exact List.foldl_rel (r := FoundAlike m.registry n.registry) columns
    fun indexed _ _ _ => decodeRow_alike alike indexed

theorem Jslp.decode_alike (alike : m.Alike n) (response : Response)
    (found : FoundAlike m.registry n.registry here there) :
    FoundAlike m.registry n.registry (decode m response here) (decode n response there) := by
  -- Both registries are gone through at once, as pairs of twins.
  have values : FoundAlike m.registry n.registry
      (m.registry.vars.foldl (decodeVariable response) here)
      (n.registry.vars.foldl (decodeVariable response) there) := by
    have first := @List.foldl_map _ _ _ Prod.fst (decodeVariable response)
      (m.registry.vars.zip n.registry.vars) here
    have second := @List.foldl_map _ _ _ Prod.snd (decodeVariable response)
      (m.registry.vars.zip n.registry.vars) there
    rw [List.map_fst_zip (Nat.le_of_eq alike.length)] at first
    rw [List.map_snd_zip (Nat.le_of_eq alike.length.symm)] at second
    rw [first, second]
    refine List.foldl_rel (r := FoundAlike m.registry n.registry) found
      fun pair twins p q same => ?_
    obtain ⟨session, result⟩ := same
    have named := alike.twins_name twins
    simp only [decodeVariable, named, result]
    exact ⟨session.assign twins _, rfl⟩
  obtain ⟨session, result⟩ := values
  exact ⟨session, by simp only [decode, unknownColumns, alike.contains, result]⟩

end Decoders

namespace Bridge

variable {m n : Model}

structure Answer.Alike (r s : Registry) (here there : Answer) : Prop where
  status : here.status = there.status
  reported : here.reported = there.reported
  take : ∀ p q, FoundAlike r s p q → FoundAlike r s (here.take p) (there.take q)

/-- Either both fail in the same way, or both succeed alike. -/
def BothAlike (Alike : α → β → Prop) : Except Error α → Except Error β → Prop
  | .ok a, .ok b => Alike a b
  | .error e, .error e' => e = e'
  | _, _ => False

theorem read_alike (b : Bridge) (alike : m.Alike n) (response : Value) :
    BothAlike (Answer.Alike m.registry n.registry) (b.read m response) (b.read n response) := by
  unfold read
  split
  · unfold readGlpk
    cases checked (Glpk.Response.read response) with
    | error e => rfl
    | ok r =>
      simp only [bind, Except.bind]
      split
      · exact ⟨rfl, rfl, fun _ _ found => found⟩
      · refine ⟨rfl, rfl, fun p q found => ?_⟩
        exact Glpk.decodeRows_alike alike _ (List.foldl_rel found fun entry _ _ _ =>
          Glpk.decodeValue_alike alike entry)
  · unfold readHighs
    cases checked (Highs.Response.read response) with
    | error e => rfl
    | ok r =>
      simp only [bind, Except.bind]
      split
      · exact ⟨rfl, rfl, fun _ _ found => found⟩
      · exact ⟨rfl, rfl, fun _ _ => Highs.decode_alike alike r⟩
  · unfold readJslp
    cases checked (Jslp.Response.read response) with
    | error e => rfl
    | ok r =>
      simp only [bind, Except.bind]
      split
      · exact ⟨rfl, rfl, fun _ _ found => found⟩
      · exact ⟨rfl, rfl, fun _ _ => Jslp.decode_alike alike r⟩

end Bridge

namespace Model

structure Twin (m n : Model) : Prop where
  alike : m.Alike n
  session : Session.Alike m.registry n.registry m.session n.session

theorem Alike.agrees {m n m' n' : Model} (alike : m.Alike n) (first : m.Agrees m')
    (second : n.Agrees n') : m'.Alike n' := by
  refine ⟨?_, ?_, ?_⟩
  · rw [first.registry, second.registry, alike.declarations]
  · rw [first.objective, second.objective, alike.objective]
  · rw [first.constraints, second.constraints, alike.constraints]

theorem Twin.agrees {m n m' n' : Model} (twin : m.Twin n) (first : m.Agrees m')
    (second : n.Agrees n')
    (session : Session.Alike m.registry n.registry m'.session n'.session) : m'.Twin n' :=
  ⟨twin.alike.agrees first second, first.registry.symm ▸ second.registry.symm ▸ session⟩

end Model

namespace Bridge

variable {m n : Model}

theorem objectiveValue_alike (b : Bridge) (alike : m.Alike n) (reported : Option Binary64) :
    b.objectiveValue m reported = b.objectiveValue n reported := by
  cases reported with
  | none => rfl
  | some x => simp only [objectiveValue, alike.constant]

theorem accept_alike (b : Bridge) (twin : m.Twin n) {here there : Answer}
    (answers : Answer.Alike m.registry n.registry here there) :
    (b.accept m here).1.Twin (b.accept n there).1 ∧
      (b.accept m here).2 = (b.accept n there).2 := by
  have started : FoundAlike m.registry n.registry
      ({ m.session with status := some here.status }, { status := here.status, kind := b.kind })
      ({ n.session with status := some there.status },
        { status := there.status, kind := b.kind }) :=
    ⟨{ twin.session with status := congrArg some answers.status }, by rw [answers.status]⟩
  obtain ⟨session, result⟩ := answers.take _ _ started
  have reported := answers.reported
  unfold accept
  dsimp only
  cases said : there.reported with
  | none =>
    simp only [reported.trans said]
    exact ⟨twin.agrees ⟨rfl, rfl, rfl⟩ ⟨rfl, rfl, rfl⟩ session, congrArg _ result⟩
  | some x =>
    simp only [reported.trans said, b.objectiveValue_alike twin.alike x]
    split
    · exact ⟨twin.agrees ⟨rfl, rfl, rfl⟩ ⟨rfl, rfl, rfl⟩ session, rfl⟩
    · refine ⟨twin.agrees ⟨rfl, rfl, rfl⟩ ⟨rfl, rfl, rfl⟩ ?_, by rw [result]⟩
      exact { session with objectiveValue := rfl }

theorem decode_alike (b : Bridge) (twin : m.Twin n) (response : Value) :
    (b.decode m response).1.Twin (b.decode n response).1 ∧
      (b.decode m response).2 = (b.decode n response).2 := by
  have answers := b.read_alike twin.alike response
  unfold decode
  revert answers
  cases b.read m response <;> cases b.read n response <;> intro answers
  · exact ⟨twin, congrArg Except.error answers⟩
  · exact answers.elim
  · exact answers.elim
  · exact b.accept_alike twin answers

end Bridge

namespace Model

variable {m n : Model}

theorem Alike.reset (alike : m.Alike n) : m.reset.Twin n.reset :=
  ⟨alike.agrees m.reset_agrees n.reset_agrees, Session.Alike.empty _ _⟩

def noted (note : SolveResult → Session → Session) :
    Model × Except Error SolveResult → Model × Except Error SolveResult
  | (m, .error e) => (m, .error e)
  | (m, .ok result) => ({ m with session := note result m.session }, .ok result)

theorem Twin.noted {here there : Model × Except Error SolveResult} (twin : here.1.Twin there.1)
    (same : here.2 = there.2) (note : SolveResult → Session → Session)
    (kept : ∀ result, Session.Alike here.1.registry there.1.registry
      (note result here.1.session) (note result there.1.session)) :
    (noted note here).1.Twin (noted note there).1 ∧ (noted note here).2 = (noted note there).2 := by
  obtain ⟨m', result⟩ := here
  obtain ⟨n', result'⟩ := there
  obtain rfl : result = result' := same
  cases result with
  | error e => exact ⟨twin, rfl⟩
  | ok result => exact ⟨twin.agrees ⟨rfl, rfl, rfl⟩ ⟨rfl, rfl, rfl⟩ (kept result), rfl⟩

theorem findBridge_alike {kind : Value} {elsewhere : Valuation}
    (seen : kind.SeenAlike (m.valueOr elsewhere) (n.valueOr elsewhere)) (bridges : Bridges) :
    m.findBridge bridges kind elsewhere = n.findBridge bridges kind elsewhere := by
  unfold findBridge Bridges.find
  cases bridges.get? kind with
  | some b => rfl
  | none => exact congrArg Except.error (Error.unknownEngine_alike seen bridges.kinds)

theorem readSolution_alike (alike : m.Alike n) (bridges : Bridges) {kind : Value} (response : Value)
    {elsewhere : Valuation}
    (seen : kind.SeenAlike (m.reset.valueOr elsewhere) (n.reset.valueOr elsewhere)) :
    (m.readSolution bridges kind response elsewhere).1.Twin
        (n.readSolution bridges kind response elsewhere).1 ∧
      (m.readSolution bridges kind response elsewhere).2 =
        (n.readSolution bridges kind response elsewhere).2 := by
  have found := findBridge_alike seen bridges
  unfold readSolution
  simp only [found]
  split
  · exact ⟨alike.reset, rfl⟩
  next b _ =>
    obtain ⟨twin, same⟩ := b.decode_alike alike.reset response
    let note (result : SolveResult) (s : Session) : Session :=
      { s with response, diagnostics := result.diagnostics }
    exact twin.noted same note fun result => { twin.session with response := rfl, diagnostics := rfl }

theorem solve_alike (alike : m.Alike n) (bridges : Bridges) {engine : Engine}
    {options kind : Value} {elsewhere : Valuation}
    (seen : options.SeenAlike (m.reset.valueOr elsewhere) (n.reset.valueOr elsewhere))
    (seenKind : (if kind.isNull then engine.kind else kind).SeenAlike
      (m.reset.valueOr elsewhere) (n.reset.valueOr elsewhere)) :
    (m.solve bridges engine options kind elsewhere).1.Twin
        (n.solve bridges engine options kind elsewhere).1 ∧
      (m.solve bridges engine options kind elsewhere).2 =
        (n.solve bridges engine options kind elsewhere).2 := by
  have seen : (solveOptions options).SeenAlike (m.reset.valueOr elsewhere)
      (n.reset.valueOr elsewhere) := by
    unfold solveOptions
    split
    · exact seen
    · exact ⟨fun _ => False, .map (fun _ member => absurd member List.not_mem_nil)
        (fun _ member => absurd member List.not_mem_nil), fun _ no => no.elim⟩
  -- Both models ask the same, so that they hear the same or fail in the same way.
  have prepared : m.reset.prepare bridges (if kind.isNull then engine.kind else kind)
      (solveOptions options) elsewhere = n.reset.prepare bridges
        (if kind.isNull then engine.kind else kind) (solveOptions options) elsewhere := by
    unfold prepare
    rw [findBridge_alike seenKind]
    refine bind_congr_ok fun b _ => ?_
    rw [b.encode_alike alike.reset.alike seen]
  unfold solve
  simp only [prepared]
  split
  · exact ⟨alike.reset, rfl⟩
  next b request _ =>
    split
    · exact ⟨alike.reset, rfl⟩
    next response _ =>
      have started : Twin { m.reset with session := { m.reset.session with response } }
          { n.reset with session := { n.reset.session with response } } :=
        alike.reset.agrees ⟨rfl, rfl, rfl⟩ ⟨rfl, rfl, rfl⟩
          { alike.reset.session with response := rfl }
      obtain ⟨twin, same⟩ := b.decode_alike started response
      let note (result : SolveResult) (s : Session) : Session :=
        { s with diagnostics := result.diagnostics }
      exact twin.noted same note fun result => { twin.session with diagnostics := rfl }

inductive Call
  | solve (bridges : Bridges) (engine : Engine) (options kind : Value) (elsewhere : Valuation)
  | readSolution (bridges : Bridges) (kind response : Value) (elsewhere : Valuation)

namespace Call

def on (m : Model) : Call → Model × Except Error SolveResult
  | solve bridges engine options kind elsewhere => m.solve bridges engine options kind elsewhere
  | readSolution bridges kind response elsewhere => m.readSolution bridges kind response elsewhere

def operation : Call → Operation
  | solve bridges engine options kind elsewhere => .solve bridges engine options kind elsewhere
  | readSolution bridges kind response elsewhere => .readSolution bridges kind response elsewhere

/-- Variables in the options and in the kind have the same values for both models; those of a model have none when
it asks a solver. -/
def SeenAlike (m n : Model) : Call → Prop
  | solve _ engine options kind elsewhere =>
    options.SeenAlike (m.reset.valueOr elsewhere) (n.reset.valueOr elsewhere) ∧
      (if kind.isNull then engine.kind else kind).SeenAlike (m.reset.valueOr elsewhere)
        (n.reset.valueOr elsewhere)
  | readSolution _ kind _ elsewhere =>
    kind.SeenAlike (m.reset.valueOr elsewhere) (n.reset.valueOr elsewhere)

theorem apply_operation (call : Call) (m : Model) : call.operation.apply m = (call.on m).1 := by
  cases call <;> rfl

theorem on_agrees (call : Call) (m : Model) : m.Agrees (call.on m).1 := by
  cases call with
  | solve bridges engine options kind elsewhere => exact m.solve_agrees ..
  | readSolution bridges kind response elsewhere => exact m.readSolution_agrees ..

theorem on_of_agrees (call : Call) (same : m.Agrees n) : call.on n = call.on m := by
  have forgotten : n.reset = m.reset := by
    simp only [reset, same.registry, same.constraints, same.objective]
  cases call with
  | solve bridges engine options kind elsewhere => simp only [on, Model.solve, forgotten]
  | readSolution bridges kind response elsewhere =>
    simp only [on, Model.readSolution, forgotten]

theorem on_alike (call : Call) (alike : m.Alike n) (seen : call.SeenAlike m n) :
    (call.on m).1.Twin (call.on n).1 ∧ (call.on m).2 = (call.on n).2 := by
  cases call with
  | solve bridges engine options kind elsewhere =>
    exact solve_alike alike bridges seen.1 seen.2
  | readSolution bridges kind response elsewhere =>
    exact readSolution_alike alike bridges response seen

end Call

theorem run_calls_agrees (m : Model) (calls : List Call) :
    m.Agrees (m.run (calls.map Call.operation)) := by
  induction calls generalizing m with
  | nil => exact .refl m
  | cons call calls ih =>
    have first := call.on_agrees m
    rw [← call.apply_operation] at first
    exact first.trans (ih _)

/-- The same problem, and the same said about it: a variable's value is that of the variable in the
same place. -/
structure SameState (m n : Model) : Prop where
  problem : m.Alike n
  status : m.session.status = n.session.status
  objectiveValue : m.session.objectiveValue = n.session.objectiveValue
  response : m.session.response = n.session.response
  diagnostics : m.session.diagnostics = n.session.diagnostics
  values : m.registry.vars.map m.value = n.registry.vars.map n.value
  rows : ∀ i, m.session.row i = n.session.row i

theorem Alike.twins_eq (alike : m.Alike n) (distinct : m.registry.names.Nodup)
    {v v' w w' : Variable} (twins : m.registry.Twins n.registry v w)
    (others : m.registry.Twins n.registry v' w') : v' = v ↔ w' = w := by
  have left : (m.registry.vars.map (·.name)).Nodup := distinct
  have right : n.registry.names.Nodup := alike.names ▸ distinct
  have here := alike.twins_name twins
  have there := alike.twins_name others
  obtain ⟨inFirst, inSecond⟩ := List.of_mem_zip twins
  obtain ⟨alsoFirst, alsoSecond⟩ := List.of_mem_zip others
  constructor
  · rintro rfl
    exact List.inj_on_of_nodup_map right alsoSecond inSecond (there.symm.trans here)
  · rintro rfl
    exact List.inj_on_of_nodup_map left alsoFirst inFirst (there.trans here.symm)

theorem Alike.find?_values (alike : m.Alike n) (distinct : m.registry.names.Nodup)
    {v w : Variable} (twins : m.registry.Twins n.registry v w)
    {here there : List (Variable × Value)}
    (values : List.Forall₂ (fun a b => m.registry.Twins n.registry a.1 b.1 ∧ a.2 = b.2)
      here there) :
    (here.find? (·.1 == v)).map Prod.snd = (there.find? (·.1 == w)).map Prod.snd := by
  induction values with
  | nil => rfl
  | @cons a b _ _ first _ ih =>
    have here := alike.twins_eq distinct twins first.1
    by_cases same : a.1 = v
    · simp [same, here.1 same, first.2]
    · simpa [same, mt here.2 same] using ih

theorem Twin.value (twin : m.Twin n) (distinct : m.registry.names.Nodup) {v w : Variable}
    (twins : m.registry.Twins n.registry v w) : m.value v = n.value w :=
  congrArg (·.getD .null) (twin.alike.find?_values distinct twins twin.session.values)

theorem Twin.sameState (twin : m.Twin n) (distinct : m.registry.names.Nodup) : m.SameState n where
  problem := twin.alike
  status := twin.session.status
  objectiveValue := twin.session.objectiveValue
  response := twin.session.response
  diagnostics := twin.session.diagnostics
  values := by
    rw [← List.forall₂_eq_eq_eq, List.forall₂_map_left_iff, List.forall₂_map_right_iff,
      List.forall₂_iff_zip]
    exact ⟨twin.alike.length, fun twins => twin.value distinct twins⟩
  rows := twin.session.row

/-- Whatever two models that are alike heard from solvers before, a call ends in the same way and
leaves the same state in both; and of several calls to a model only the last one counts. -/
theorem call_independent_of_earlier (alike : m.Alike n) (distinct : m.registry.names.Nodup)
    (earlier others : List Call) (call : Call) (seen : call.SeenAlike m n) :
    (call.on (m.run (earlier.map Call.operation))).2 =
        (call.on (n.run (others.map Call.operation))).2 ∧
      (call.on (m.run (earlier.map Call.operation))).1.SameState
        (call.on (n.run (others.map Call.operation))).1 ∧
      m.run ((earlier ++ [call]).map Call.operation) = m.run [call.operation] := by
  have first := call.on_of_agrees (m.run_calls_agrees earlier)
  have second := call.on_of_agrees (n.run_calls_agrees others)
  obtain ⟨twin, result⟩ := call.on_alike alike seen
  have names := (call.on_agrees m).registry.symm ▸ distinct
  refine ⟨by rw [first, second, result], first.symm ▸ second.symm ▸ twin.sameState names, ?_⟩
  have last (m : Model) : m.run [call.operation] = (call.on m).1 := call.apply_operation m
  rw [List.map_append, run_append, List.map_singleton, last, last, first]

def Sample.twin : Model :=
  let x : Variable := { Sample.x with id := ⟨1, 0⟩ }
  let y : Variable := { Sample.y with id := ⟨1, 1⟩ }
  ((empty 1).run [
    .addVar { name := .text "x", lower := Number.int (-1), upper := (4 : Number) },
    .addVar { name := .text "y", kind := .text "binary" },
    .setObjective (.list [.list [.number 2, .var x], .var y, .number 1]) (.text "maximize"),
    .addConstraint (.list [.var x, .list [.number 3, .var y]]) (.text "<=") (.number 5)]).setValue
      x (.number 3)

def Sample.call : Call :=
  .solve .standard (.reference .glpk fun _ => .ok { code := 2, message := "" }) .null .null
    fun _ => .null

theorem sample_call_independent_of_earlier :
    (Sample.call.on (Sample.model.run [Sample.call.operation])).1.SameState
      (Sample.call.on Sample.twin).1 := by
  have alike : Sample.model.Alike Sample.twin := by
    constructor <;> decide +kernel
  have distinct : Sample.model.registry.names.Nodup := by decide +kernel
  have seen : Sample.call.SeenAlike Sample.model Sample.twin :=
    ⟨⟨fun _ => False, .null, fun _ no => no.elim⟩, ⟨fun _ => False, .text _, fun _ no => no.elim⟩⟩
  exact (call_independent_of_earlier alike distinct [Sample.call] [] Sample.call seen).2.1

end Model

end LinOpt
