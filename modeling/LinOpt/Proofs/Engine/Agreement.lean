import LinOpt.Proofs.Engine.Glpk
import LinOpt.Proofs.Engine.Highs
import LinOpt.Proofs.Engine.Jslp

namespace LinOpt

open LinearProgram LinearProgram.Builder

/-- What a solver answers about a program: a code, and for each column, if for any, the value that
goes with its name. -/
structure LinearProgram.Outcome.Answers (p : LinearProgram) (code : Int)
    (value : Option (String → Binary64)) (outcome : Outcome) : Prop where
  isCode : outcome.code = code
  isPoint : outcome.point = value.map fun f => p.columnNames.map f
  finite : ∀ f, value = some f → ∀ x ∈ p.columnNames, (f x).isFinite = true
  fits : (statusOfCode code value.isSome).hasSolution = true → outcome.Fits p

/-- The status that a solve through a format leaves. Native words have none for undefined, and a
record of flags does not tell the best solution from any other. -/
def Format.statusSaid : Format → Status → Status
  | .glpk, status => status
  | .highs, status => Highs.statusSaid status
  | .jslp, .feasible => .optimal
  | .jslp, status => status

def Model.requestThrough (m : Model) (options : Value) (elsewhere : Valuation) (format : Format) :
    Except Error Value :=
  m.reset.toRequest .standard (.text format.kind) (solveOptions options) elsewhere

def Model.solveThrough (m : Model) (solver : Query → Except Error Outcome) (options : Value)
    (elsewhere : Valuation) (format : Format) : Model × Except Error SolveResult :=
  m.solve .standard (.reference format solver) options .null elsewhere

/-- What a solve leaves of an answer about columns with several names. The objective value is the
exact one if nothing is rounded when it is added up in the order of the columns. -/
structure Format.TakesOver (format : Format) (m : Model) (names : List String) (code : Int)
    (value : Option (String → Binary64)) (after : Model × Except Error SolveResult) : Prop where
  succeeds : ∃ result, after.2 = .ok result
  status : after.1.session.status = some (format.statusSaid (statusOfCode code value.isSome))
  noObjective : (statusOfCode code value.isSome).hasSolution = false →
    (format = .jslp → statusOfCode code value.isSome ≠ .unbounded) →
    after.1.session.objectiveValue = none
  objective : (statusOfCode code value.isSome).hasSolution = true → ∀ f, value = some f →
    m.objective.expression.inDoubles.IsSummedExactly (m.named names)
      (fun v => (f v.name).rational) →
    after.1.session.objectiveValue >>= Binary64.toRat? =
      some (m.objective.expression.inDoubles.rationalAt fun v => (f v.name).rational)

namespace LinearProgram.Outcome.Answers

variable {p : LinearProgram} {code : Int} {value : Option (String → Binary64)} {outcome : Outcome}
  (answer : outcome.Answers p code value)
include answer

theorem statusOfCode_eq :
    statusOfCode outcome.code outcome.point.isSome = statusOfCode code value.isSome := by
  rw [answer.isCode, answer.isPoint, Option.isSome_map]

theorem solved (found : code = 0 → value.isSome = true)
    (solution : (statusOfCode code value.isSome).hasSolution = true) :
    ∃ f, value = some f ∧ outcome.point = some (p.columnNames.map f) ∧
      (outcome.code = 0 ∨ outcome.code = 1) := by
  have isPoint := answer.isPoint
  rw [answer.isCode]
  cases value with
  | none =>
    have zero : code ≠ 0 := fun zero => Bool.noConfusion (found zero)
    unfold statusOfCode at solution
    rw [if_neg zero, Option.isSome_none, Bool.and_false] at solution
    split at solution
    · cases solution
    · split at solution <;> cases solution
  | some f =>
    have codes : code = 0 ∨ code = 1 := by
      by_contra other
      rw [not_or] at other
      unfold statusOfCode at solution
      rw [if_neg other.1, decide_eq_false other.2, Bool.false_and] at solution
      split at solution
      · cases solution
      · split at solution <;> cases solution
    exact ⟨f, rfl, isPoint, codes⟩

theorem isFinite_point {f : String → Binary64} (isValue : value = some f) :
    ∀ x ∈ p.columnNames.map f, x.isFinite = true :=
  List.forall_mem_map.2 (answer.finite f isValue)

theorem givesPoint {m : Model} (same : p.Represents m)
    (solution : (statusOfCode code value.isSome).hasSolution = true) {f : String → Binary64}
    (isValue : value = some f) (codes : outcome.code = 0 ∨ outcome.code = 1)
    (isPoint : outcome.point = some (p.columnNames.map f)) :
    outcome.GivesPoint m.constraints p.columnCount (p.columnNames.map f) :=
  same.givesPoint (answer.fits solution) codes isPoint (List.length_map _)
    (answer.isFinite_point isValue)

end LinearProgram.Outcome.Answers

namespace Format.TakesOver

variable {format : Format} {m n : Model} {names : List String} {code : Int}
  {value : Option (String → Binary64)} {after : Model × Except Error SolveResult}
  {result : SolveResult}

theorem of_bare (bare : (statusOfCode code value.isSome).hasSolution = false)
    (solved : after = (n, .ok result))
    (status : n.session.status = some (format.statusSaid (statusOfCode code value.isSome)))
    (noObjective : (format = .jslp → statusOfCode code value.isSome ≠ .unbounded) →
      n.session.objectiveValue = none) : format.TakesOver m names code value after := by
  subst solved
  exact {
    succeeds := ⟨result, rfl⟩
    status
    noObjective := fun _ => noObjective
    objective := fun solution => by
      rw [bare] at solution
      cases solution }

theorem of_point {f : String → Binary64}
    (solution : (statusOfCode code value.isSome).hasSolution = true) (isValue : value = some f)
    (solved : after = (n, .ok result))
    (status : n.session.status = some (format.statusSaid (statusOfCode code true)))
    (objective : m.objective.expression.inDoubles.IsSummedExactly (m.named names)
        (fun v => (f v.name).rational) →
      n.session.objectiveValue >>= Binary64.toRat? =
        some (m.objective.expression.inDoubles.rationalAt fun v => (f v.name).rational)) :
    format.TakesOver m names code value after := by
  subst solved isValue
  exact {
    succeeds := ⟨result, rfl⟩
    status
    noObjective := fun bare => by
      rw [bare] at solution
      cases solution
    objective := fun _ g same => by
      cases same
      exact objective }

end Format.TakesOver

theorem Model.named_names {m : Model} (sound : m.WellFormed) :
    m.named m.registry.names = m.registry.vars := by
  rw [named, Registry.names, List.filterMap_map]
  have found : ∀ v ∈ m.registry.vars, (m.registry.get? ∘ (·.name)) v = some v :=
    fun v member => Registry.get?_of_mem sound.registry.nodup member
  rw [List.filterMap_congr found, List.filterMap_some]

section

variable {m : Model} {solver : Query → Except Error Outcome} {options : Value} {settings : Settings}
  {elsewhere : Valuation} {code : Int} {value : Option (String → Binary64)} {outcome : Outcome}
  (sound : m.WellFormed) (portable : m.IsPortable) (linear : m.isQuadratic = false)
  (found : code = 0 → value.isSome = true)
include sound portable linear

theorem toRat?_objectiveAt {names : List String} (known : ∀ x ∈ names, x ∈ m.registry.names)
    (nodup : names.Nodup)
    (among : ∀ t ∈ m.objective.expression.linearTerms, t.2 ∈ m.named names)
    {f : String → Binary64} (finitePoint : ∀ x ∈ names.map f, x.isFinite = true)
    (summed : m.objective.expression.inDoubles.IsSummedExactly (m.named names)
      fun v => (f v.name).rational) {sum constant : Binary64}
    (isSum : sum.toRat? = (sumAt m.objective.expression names (names.map f)).toRat?)
    (isConstant : constant.toRat? = m.objective.expression.constant.double.toRat?) :
    (sum.add constant).toRat? =
      some (m.objective.expression.inDoubles.rationalAt fun v => (f v.name).rational) := by
  have named := Model.names_named known
  have coordinates : (names.map f).map Binary64.rational =
      (m.named names).map fun v => (f v.name).rational := by
    conv_lhs => rw [← named, List.map_map, List.map_map]
    rfl
  exact toRat?_total (named.symm ▸ nodup) among sound.canonical portable.objective
    (Bool.or_eq_false_iff.1 linear).1 finitePoint coordinates summed (named.symm ▸ isSum) isConstant

theorem toRat?_objectiveInOrder {f : String → Binary64}
    (finitePoint : ∀ x ∈ m.registry.names.map f, x.isFinite = true)
    (summed : m.objective.expression.inDoubles.IsSummedExactly (m.named m.registry.names)
      fun v => (f v.name).rational) :
    (((sumAt m.objective.expression m.registry.names (m.registry.names.map f)).add
        (Binary64.zero false)).add m.objective.expression.constant.double).toRat? =
      some (m.objective.expression.inDoubles.rationalAt fun v => (f v.name).rational) := by
  refine toRat?_objectiveAt sound portable linear (fun _ member => member) sound.registry.nodup ?_
    finitePoint summed ?_ rfl
  · rw [Model.named_names sound]
    exact sound.owned.linear
  · rw [Binary64.add_comm, Binary64.zero_add, Binary64.toRat?_settled]

include found

theorem takesOver_glpk (nonempty : m.registry.vars ≠ [])
    (read : Settings.ofOptions (Model.solveOptions options) = .ok settings)
    (answers : solver ((ofGlpk (Glpk.requestOf m)).query settings) = .ok outcome)
    (answer : outcome.Answers (ofGlpk (Glpk.requestOf m)) code value) :
    Format.glpk.TakesOver m (ofGlpk (Glpk.requestOf m)).columnNames code value
      (m.solveThrough solver options elsewhere .glpk) := by
  obtain ⟨same, names⟩ := represents_glpk sound portable.isFinite
  cases solution : (statusOfCode code value.isSome).hasSolution with
  | false =>
    have bare := answer.statusOfCode_eq ▸ solution
    obtain ⟨n, result, response, solved, session⟩ :=
      Glpk.solve_bare sound portable.isFinite nonempty read answers linear elsewhere bare
    rw [answer.statusOfCode_eq] at session
    exact .of_bare solution solved (session ▸ rfl) fun _ => session ▸ rfl
  | true =>
    obtain ⟨f, isValue, isPoint, codes⟩ := answer.solved found solution
    have gives := answer.givesPoint same solution isValue codes isPoint
    rw [Glpk.columnCount_requestOf sound portable.isFinite] at gives
    obtain ⟨n, result, solved, by_point⟩ :=
      Glpk.solve_eq_ok sound portable.isFinite nonempty read answers gives linear elsewhere
    refine .of_point solution isValue solved (answer.isCode ▸ by_point.status) fun summed => ?_
    have finitePoint := answer.isFinite_point isValue
    rw [names] at summed finitePoint by_point
    rw [by_point.objectiveValue]
    exact toRat?_objectiveInOrder sound portable linear finitePoint summed

theorem takesOver_highs {p : LinearProgram} {text : String}
    (mentions : ∃ v ∈ m.registry.vars, m.Mentions v) (readFrom : p.ReadFrom m)
    (written : m.toLp = .ok text)
    (run : Engine.readRun .highs (.text text) (Model.solveOptions options) = .ok (p, settings))
    (answers : solver (p.query settings) = .ok outcome) (answer : outcome.Answers p code value) :
    Format.highs.TakesOver m p.columnNames code value
      (m.solveThrough solver options elsewhere .highs) := by
  cases solution : (statusOfCode code value.isSome).hasSolution with
  | false =>
    have bare := answer.statusOfCode_eq ▸ solution
    obtain ⟨n, result, response, solved, session⟩ :=
      Highs.solve_bare mentions readFrom run answers written elsewhere bare
    rw [answer.statusOfCode_eq] at session
    exact .of_bare solution solved (session ▸ rfl) fun _ => session ▸ rfl
  | true =>
    obtain ⟨f, isValue, isPoint, codes⟩ := answer.solved found solution
    have gives := answer.givesPoint readFrom.represents solution isValue codes isPoint
    obtain ⟨n, result, solved, by_point⟩ :=
      Highs.solve_eq_ok mentions readFrom run answers gives sound written elsewhere
    have status : n.session.status =
        some (Format.highs.statusSaid (statusOfCode code true)) := by
      rw [by_point.status, ← answer.isCode]
      rcases codes with isCode | isCode <;> rw [isCode] <;> rfl
    refine .of_point solution isValue solved status fun summed => ?_
    rw [by_point.objectiveValue]
    refine toRat?_objectiveAt sound portable linear readFrom.mem_names readFrom.nodup
      (Highs.linear_named sound readFrom List.mem_cons_self) (answer.isFinite_point isValue) summed
      rfl ?_
    rw [← Binary64.toRat?_settled, readFrom.offset, Binary64.toRat?_settled]

theorem takesOver_jslp {plain : Entries Value} (nonempty : m.registry.vars ≠ [])
    (unflagged : ∀ v ∈ m.registry.vars, v.name ∉ Jslp.Response.flags)
    (embedded : Jslp.readPlain (Model.solveOptions options) (m.reset.valueOr elsewhere) = .ok plain)
    (read : Settings.ofOptions (Model.solveOptions options) = .ok settings)
    (answers : solver ((ofJslp (Jslp.requestOf m plain)).query settings) = .ok outcome)
    (answer : outcome.Answers (ofJslp (Jslp.requestOf m plain)) code value) :
    Format.jslp.TakesOver m (ofJslp (Jslp.requestOf m plain)).columnNames code value
      (m.solveThrough solver options elsewhere .jslp) := by
  have names : (ofJslp (Jslp.requestOf m plain)).columnNames = m.registry.names :=
    Jslp.columnNames_requestOf sound
  cases solution : (statusOfCode code value.isSome).hasSolution with
  | false =>
    have bare := answer.statusOfCode_eq ▸ solution
    obtain ⟨n, result, solved, status, noValue⟩ :=
      Jslp.solve_bare sound portable.isFinite linear nonempty embedded read answers bare
    rw [answer.statusOfCode_eq] at status noValue
    have said : Format.jslp.statusSaid (statusOfCode code value.isSome) =
        statusOfCode code value.isSome := by
      revert solution
      cases statusOfCode code value.isSome <;> first | exact fun _ => rfl | exact nofun
    exact .of_bare solution solved (said.symm ▸ status) fun bounded => noValue (bounded rfl)
  | true =>
    obtain ⟨f, isValue, isPoint, codes⟩ := answer.solved found solution
    have length : ((ofJslp (Jslp.requestOf m plain)).columnNames.map f).length =
        m.registry.vars.length := by
      rw [names, Registry.names, List.length_map, List.length_map]
    obtain ⟨n, result, solved, by_point⟩ := Jslp.solve_eq_ok sound portable.isFinite linear nonempty embedded
      read answers (Jslp.flagsAtZero_of_unflagged unflagged _) (answer.fits solution) codes isPoint length
    have status : n.session.status =
        some (Format.jslp.statusSaid (statusOfCode code true)) := by
      rw [by_point.status, ← answer.isCode]
      rcases codes with isCode | isCode <;> rw [isCode] <;> rfl
    refine .of_point solution isValue solved status fun summed => ?_
    have finitePoint := answer.isFinite_point isValue
    rw [names] at summed finitePoint by_point
    rw [by_point.objectiveValue]
    exact toRat?_objectiveInOrder sound portable linear finitePoint summed

end

namespace Model

variable {m : Model} {options : Value} {elsewhere : Valuation}

theorem requestThrough_eq (format : Format) : m.requestThrough options elsewhere format =
    (Bridge.ofFormat format).encode m.reset (solveOptions options) elsewhere := by
  cases format <;> rfl

theorem linear_of_requestThrough {request : Value}
    (encoded : m.requestThrough options elsewhere .glpk = .ok request) : m.isQuadratic = false := by
  by_contra quadratic
  rw [requestThrough_eq] at encoded
  obtain ⟨_, written, -⟩ := map_eq_ok.1 encoded
  have refused : Glpk.encode Bridge.glpk m.reset = .error (.quadraticUnsupported Bridge.glpk.name) :=
    Glpk.encode_quadratic (Bool.not_eq_false _ ▸ quadratic)
  cases refused.symm.trans written

theorem safe_of_requestThrough {request : Value}
    (encoded : m.requestThrough options elsewhere .highs = .ok request) :
    ∀ v ∈ m.registry.vars, LpText.isSafeName v.name = true := by
  rw [requestThrough_eq] at encoded
  obtain ⟨text, written, -⟩ := map_eq_ok.1 encoded
  obtain ⟨lines, listed, -⟩ := bind_eq_ok.1 written
  obtain ⟨_, names, -⟩ := bind_eq_ok.1 listed
  exact LpText.safe_of_checkNames names

theorem readPlain_of_requestThrough (sound : m.WellFormed) (finite : m.IsFinite)
    (linear : m.isQuadratic = false) {request : Value}
    (encoded : m.requestThrough options elsewhere .jslp = .ok request) :
    ∃ plain, Jslp.readPlain (solveOptions options) (m.reset.valueOr elsewhere) = .ok plain := by
  rw [requestThrough_eq] at encoded
  obtain ⟨r, written, -⟩ := map_eq_ok.1 encoded
  have parts := Jslp.encode_eq (sound.agrees m.reset_agrees) finite.reset linear
    (solveOptions options) (m.reset.valueOr elsewhere)
  obtain ⟨plain, read, -⟩ := map_eq_ok.1 (parts.symm.trans written)
  exact ⟨plain, read⟩

def programOf (m : Model) (read : LinearProgram) (plain : Entries Value) : Format → LinearProgram
  | .glpk => ofGlpk (Glpk.requestOf m)
  | .highs => read
  | .jslp => ofJslp (Jslp.requestOf m plain)

/-- A model with finite numbers for which there are requests in all formats is solved through each
of them. Whatever a solver answers alike, each solve leaves the status that the format has a word
for, and the same objective value: the exact one, or none without a solution. -/
theorem solve_alike_through_formats {m : Model} (reachable : m.Reachable) (portable : m.IsPortable)
    {options : Value} {elsewhere : Valuation} {settings : Settings}
    (requests : ∀ format, ∃ request, m.requestThrough options elsewhere format = .ok request)
    (read : Settings.ofOptions (solveOptions options) = .ok settings)
    (single : ∀ v ∈ m.registry.vars, v.name.map Char.toLower ∉ ["subject", "such"])
    (unflagged : ∀ v ∈ m.registry.vars, v.name ∉ Jslp.Response.flags)
    (mentions : ∃ v ∈ m.registry.vars, m.Mentions v) :
    ∃ p : Format → LinearProgram,
      (∀ format, ∃ request, m.requestThrough options elsewhere format = .ok request ∧
        Engine.readRun format request (solveOptions options) = .ok (p format, settings)) ∧
      ∀ (solver : Query → Except Error Outcome) (code : Int) (value : Option (String → Binary64)),
        (∀ format, ∃ outcome, solver ((p format).query settings) = .ok outcome ∧
          outcome.Answers (p format) code value) →
        (code = 0 → value.isSome = true) →
        ∀ format : Format, format.TakesOver m (p format).columnNames code value
          (m.solveThrough solver options elsewhere format) := by
  have sound := reachable.wellFormed
  -- A request tells what its format refuses: products, names, or options with variables.
  obtain ⟨_, encoded⟩ := requests .glpk
  have linear := linear_of_requestThrough encoded
  obtain ⟨_, encoded⟩ := requests .highs
  have safe := safe_of_requestThrough encoded
  obtain ⟨_, encoded⟩ := requests .jslp
  obtain ⟨plain, embedded⟩ := readPlain_of_requestThrough sound portable.isFinite linear encoded
  obtain ⟨text, q, written, program, readFrom⟩ :=
    LpText.exists_readFrom sound portable linear safe single
  have run := Highs.readRun_text program read
  have nonempty : m.registry.vars ≠ [] := by
    obtain ⟨v, member, -⟩ := mentions
    exact List.ne_nil_of_mem member
  refine ⟨m.programOf q plain, fun format => ?_, fun solver code value answers found format => ?_⟩
  · cases format with
    | glpk =>
      exact ⟨_, (requestThrough_eq .glpk).trans (Glpk.encode_requestOf sound portable.isFinite linear _ _),
        Glpk.readRun_requestOf read⟩
    | highs =>
      exact ⟨_, (requestThrough_eq .highs).trans (map_eq_ok.2 ⟨text, written, rfl⟩), run⟩
    | jslp =>
      exact ⟨_, (requestThrough_eq .jslp).trans (Jslp.encode_requestOf sound portable.isFinite linear embedded),
        Jslp.readRun_requestOf embedded read⟩
  · obtain ⟨outcome, answered, answer⟩ := answers format
    cases format with
    | glpk => exact takesOver_glpk sound portable linear found nonempty read answered answer
    | highs =>
      exact takesOver_highs sound portable linear found mentions readFrom written run answered answer
    | jslp =>
      exact takesOver_jslp sound portable linear found nonempty unflagged embedded read answered answer

def statusesThrough (m : Model) (outcome : Outcome) : List (Option Status) :=
  Format.all.map fun format =>
    (m.solveThrough (fun _ => .ok outcome) .null (fun _ => .null) format).1.session.status

def objectivesThrough (m : Model) (outcome : Outcome) : List (Option Binary64) :=
  Format.all.map fun format =>
    (m.solveThrough (fun _ => .ok outcome) .null (fun _ => .null) format).1.session.objectiveValue

def columnsThrough (m : Model) (format : Format) : Option (List String) :=
  (m.requestThrough .null (fun _ => .null) format).toOption.bind fun request =>
    (Engine.readRun format request (solveOptions .null)).toOption.map fun run => run.1.columnNames

theorem sample_columnsThrough (format : Format) :
    Sample.model.columnsThrough format = some ["x", "y"] := by
  have all : Format.all.map Sample.model.columnsThrough =
      [some ["x", "y"], some ["x", "y"], some ["x", "y"]] := by decide +kernel
  injection all with glpk rest
  injection rest with highs rest
  injection rest with jslp
  cases format with
  | glpk => exact glpk
  | highs => exact highs
  | jslp => exact jslp

theorem sample_answers {p : LinearProgram} (columns : p.columnNames = ["x", "y"]) :
    Outcome.sample.Answers p 0 (some fun _ => Number.double 1) where
  isCode := rfl
  isPoint := by
    rw [columns]
    rfl
  finite := by
    intro f same x _
    rw [← Option.some.inj same]
    exact Number.isExact_one.isFinite_double
  fits := fun _ => ⟨nofun, nofun, nofun, nofun⟩

theorem sample_solve_alike_through_formats :
    Sample.model.statusesThrough .sample = [some .optimal, some .optimal, some .optimal] ∧
      (Sample.model.objectivesThrough .sample).map (· >>= Binary64.toRat?) =
        [some 4, some 4, some 4] := by
  have exact : Sample.model.IsExact := by decide +kernel
  have mentions : Sample.model.Mentions Sample.y := .inr (.inr (by decide))
  have unset : Settings.ofOptions (solveOptions .null) = .ok {} := rfl
  have requests (format : Format) : ∃ request,
      Sample.model.requestThrough .null (fun _ => .null) format = .ok request := by
    have columns := sample_columnsThrough format
    unfold columnsThrough at columns
    cases encoded : Sample.model.requestThrough .null (fun _ => .null) format with
    | ok request => exact ⟨request, rfl⟩
    | error e =>
      rw [encoded] at columns
      cases columns
  obtain ⟨p, asked, taken⟩ := solve_alike_through_formats Sample.reachable exact.isPortable requests
    unset (by decide +kernel) (by decide +kernel) ⟨Sample.y, by decide +kernel, mentions⟩
  have names (format : Format) : (p format).columnNames = ["x", "y"] := by
    obtain ⟨request, encoded, run⟩ := asked format
    have columns := sample_columnsThrough format
    unfold columnsThrough at columns
    rw [encoded, Except.toOption, Option.bind_some, run] at columns
    exact Option.some.inj columns
  have each (format : Format) := taken (fun _ => .ok .sample) 0 (some fun _ => Number.double 1)
    (fun other => ⟨.sample, rfl, sample_answers (names other)⟩) (fun _ => rfl) format
  have one : (Number.double 1).rational = 1 := by
    simpa [Number.rational] using Binary64.rational_eq Number.isExact_one.toRat?_double
  have vars : Sample.model.named ["x", "y"] = [Sample.x, Sample.y] := by decide +kernel
  have objective (format : Format) := (each format).objective rfl _ rfl (by
    rw [names, vars]
    exact exact.objective.isSummedExactly_inDoubles (sample_isSummedExactly one one))
  have total : Sample.model.objective.expression.inDoubles.rationalAt
      (fun _ => (Number.double 1).rational) = 4 :=
    (exact.objective.rationalAt_inDoubles _).trans (sample_rationalAt one one)
  simp only [total] at objective
  constructor
  · exact List.map_congr_left fun format _ => (each format).status
  · rw [objectivesThrough, List.map_map]
    exact List.map_congr_left fun format _ => objective format

namespace Sample

def alone (name : String) (limit : Number) : Model :=
  let v : Variable := { name, id := ⟨0, 0⟩ }
  (empty 0).run [
    .addVar { name := .text name },
    .setObjective (.list [.list [.number 2, .var v]]) (.text "minimize"),
    .addConstraint (.list [.var v]) (.text "<=") (.number limit)]

def idle : Model :=
  (empty 0).run [.addVar { name := .text "x" }]

def keyword : Model :=
  (empty 0).run [
    .addVar { name := .text "subject", kind := .text "integer" },
    .addVar { name := .text "to", kind := .text "integer" }]

def outcome (code : Int) (point : Option (List Number)) : Outcome :=
  { code, message := "", point := point.map (·.map Number.double) }

end Sample

def isCarried (m : Model) : Bool :=
  !m.isQuadratic && !m.registry.vars.isEmpty && Format.all.all fun format =>
    (m.requestThrough .null (fun _ => .null) format).toBool

open Sample in
/-- Where the formats do not agree: a solution that is not known to be the best one, an outcome that
is not known at all, a best value without a point or a problem without one; the name of a flag, a
limit that is no number, a keyword made of names, and a text without variables. -/
theorem formats_differ :
    ((alone "x" 5).isCarried = true ∧
      (alone "x" 5).statusesThrough (outcome 1 (some [3])) =
        [some .feasible, some .feasible, some .optimal] ∧
      (alone "x" 5).statusesThrough (outcome 4 none) =
        [some .undefined, some (.other "Unknown"), some .undefined] ∧
      (alone "x" 5).statusesThrough (outcome 0 none) =
        [some .optimal, some .optimal, some .undefined] ∧
      (alone "x" 5).objectivesThrough (outcome 3 none) = [none, none, some (.infinite true)]) ∧
    ((alone "result" 5).isCarried = true ∧
      (alone "result" 5).objectivesThrough (outcome 0 (some [3])) =
        [some (Number.double 6), some (Number.double 6), some (Number.double 3)]) ∧
    ((alone "x" .infinity).isCarried = true ∧
      (alone "x" .infinity).statusesThrough (outcome 0 (some [3])) =
        [some .optimal, none, some .optimal]) ∧
    (keyword.isCarried = true ∧
      keyword.statusesThrough (outcome 0 (some [0, 0])) = [some .optimal, none, some .optimal]) ∧
    (idle.isCarried = true ∧
      idle.statusesThrough (outcome 2 none) =
        [some .infeasible, some .optimal, some .infeasible]) := by
  decide +kernel

end Model

end LinOpt
