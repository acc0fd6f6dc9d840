import LinOpt.Model.Building
import LinOpt.Proofs.Entries
import LinOpt.Proofs.Model.Run

namespace LinOpt

@[simp]
theorem Store.model_ofModel (m : Model) : (Store.ofModel m).model = m :=
  rfl

theorem LpText.Document.reset_resolve {d : Document} {r : Registry} {m : Model}
    (h : d.resolve r = .ok m) : m.reset = m := by
  obtain ⟨s, -, h⟩ := bind_eq_ok.1 h
  obtain ⟨e, -, h⟩ := bind_eq_ok.1 h
  obtain ⟨cs, -, h⟩ := bind_eq_ok.1 h
  cases h
  rfl

namespace Building

section steps

variable (s : Store)

theorem on_bind (x : Building α) (f : α → Building β) : (x >>= f).on s = match x.on s with
    | (.ok a, t) => (f a).on t
    | (.error e, t) => (.error e, t) := by
  show (ExceptT.bindCont f (x.run.run s).1).run (x.run.run s).2 = _
  unfold on
  cases x.run.run s with
  | mk outcome t => cases outcome <;> rfl

theorem on_get (f : Store → Building β) : (get >>= f).on s = (f s).on s :=
  rfl

theorem on_modify (g : Store → Store) (f : Unit → Building β) :
    (modify g >>= f).on s = (f ()).on (g s) :=
  rfl

theorem on_check (outcome : Except Error α) (f : α → Building β) :
    (check outcome >>= f).on s = match outcome with
      | .ok a => (f a).on s
      | .error e => (.error e, s) := by
  rw [on_bind]
  cases outcome <;> rfl

theorem on_raising (values : Model → Valuation) (x : Building α) :
    (raising values x).on s =
      ((x.on s).1.mapError (·.shownBy (values (x.on s).2.model).shown), (x.on s).2) :=
  rfl

theorem on_isTaken (name : String) (f : Bool → Building β) :
    (isTaken name >>= f).on s = (f (Entries.get? s.index name).isSome).on s :=
  rfl

end steps

/-- How steps end on the store of a model that change nothing but its registry. -/
def registering (m : Model) (added : Registry × Except Error α) : Except Error α × Store :=
  (added.2, .ofModel { m with registry := added.1 })

variable {m : Model} {names : List String} {s : Store}

theorem isSome_get?_zipIdx (names : List String) (x : String) :
    (Entries.get? names.zipIdx x).isSome = names.contains x := by
  have absent : Entries.get? names.zipIdx x = none ↔ x ∉ names := by
    rw [Entries.get?_eq_none, Entries.names, List.zipIdx_map_fst]
  rw [Bool.eq_iff_iff, Option.isSome_iff_ne_none, ne_eq, absent, not_not, List.contains_iff_mem]

theorem on_nextName (index : s.index = names.zipIdx) (steps : Nat) :
    (nextName steps).on s =
      (.ok (Registry.autoName (Registry.firstFree names steps s.model.registry.counter)),
        s.setRegistry { s.model.registry with
          counter := Registry.firstFree names steps s.model.registry.counter + 1 }) := by
  induction steps generalizing s with
  | zero => rfl
  | succ steps ih =>
    let r := s.model.registry
    let next := s.setRegistry { r with counter := r.counter + 1 }
    have counted : countName.on s = (.ok (Registry.autoName r.counter), next) := rfl
    have taken : (Entries.get? next.index (Registry.autoName r.counter)).isSome =
        names.contains (Registry.autoName r.counter) := by
      rw [← isSome_get?_zipIdx, ← index]
      rfl
    rw [nextName, on_bind, counted]
    show (isTaken _ >>= _).on next = _
    rw [on_isTaken, taken, Registry.firstFree]
    split
    · exact ih index
    · rfl

theorem on_insert {d : Declaration} (fresh : d.name ∉ m.registry.names) :
    (insert d).on (.ofModel m) = registering m (m.registry.enter d) := by
  have absent : d.name ∉ Entries.names m.registry.names.zipIdx := by
    rwa [Entries.names, List.zipIdx_map_fst]
  have index : Entries.put d.name m.registry.vars.length m.registry.names.zipIdx =
      (m.registry.register d).1.names.zipIdx := by
    rw [Entries.put_of_fresh absent, Registry.names_register, List.zipIdx_append, Registry.names,
      List.length_map, Nat.zero_add]
    rfl
  have store : Store.mk { m with registry := (m.registry.register d).1 }
      (Entries.put d.name m.registry.vars.length m.registry.names.zipIdx) =
        .ofModel { m with registry := (m.registry.register d).1 } := by
    rw [index]
    rfl
  unfold insert Registry.enter
  rw [on_modify, on_get, on_modify]
  cases d.notice with
  | some line => exact congrArg (Except.ok (m.registry.register d).2, ·) store
  | none => exact congrArg (Except.error Error.wrongValue, ·) store

theorem on_inserts {ds : List Declaration} (distinct : (ds.map Declaration.name).Nodup)
    (fresh : ∀ d ∈ ds, d.name ∉ m.registry.names) :
    (ds.mapM insert).on (.ofModel m) = registering m (m.registry.enterAll ds) := by
  induction ds generalizing m with
  | nil => rfl
  | cons d ds ih =>
    obtain ⟨alone, distinct⟩ := List.nodup_cons.1 distinct
    obtain ⟨isFresh, fresh⟩ := List.forall_mem_cons.1 fresh
    let n : Model := { m with registry := (m.registry.register d).1 }
    have others : ∀ e ∈ ds, e.name ∉ n.registry.names := by
      intro e member taken
      rw [Registry.names_register] at taken
      rcases List.mem_append.1 taken with old | new
      · exact fresh e member old
      · exact alone (List.mem_map.2 ⟨e, member, List.mem_singleton.1 new⟩)
    rw [List.mapM_cons, on_bind, on_insert isFresh, Registry.enterAll]
    by_cases untold : d.notice = none
    · rw [Registry.enter_untold untold]
      rfl
    · rw [Registry.enter_eq untold]
      show (ds.mapM insert >>= _).on (.ofModel n) = _
      rw [on_bind, ih distinct others]
      dsimp only
      rcases n.registry.enterAll ds with ⟨r, _ | vs⟩ <;> rfl

theorem on_addVar (m : Model) (spec : Spec) :
    (addVar spec).on (.ofModel m) = registering m (m.registry.add spec) := by
  unfold addVar Registry.add
  split
  · rw [on_check]
    cases checked : ({ spec with name := .text "_" } : Spec).check with
    | error e => rfl
    | ok d =>
      let r : Registry := { m.registry with counter := m.registry.nextNumber + 1 }
      have named := on_nextName (s := .ofModel m) rfl m.registry.names.length
      have length : (Store.ofModel m).index.length = m.registry.names.length :=
        List.length_zipIdx
      dsimp only
      -- The index has not changed when the counter has, so the store is still that of a model.
      rw [on_get, length, on_bind, named]
      exact on_insert (m := { m with registry := r }) m.registry.autoName_nextNumber_fresh
  · rw [on_check]
    cases checked : spec.check with
    | error e => rfl
    | ok d =>
      dsimp only
      have taken : (Entries.get? (Store.ofModel m).index d.name).isSome =
          m.registry.contains d.name := by
        rw [Store.ofModel, isSome_get?_zipIdx, Bool.eq_iff_iff, List.contains_iff_mem,
          Registry.contains_iff]
      rw [on_isTaken, taken]
      cases known : m.registry.contains d.name with
      | true => rfl
      | false =>
        have fresh : d.name ∉ m.registry.names := by
          rw [← Registry.contains_iff, known]
          exact Bool.false_ne_true
        exact on_insert fresh

theorem on_freshNames (m : Model) (seen : List String) (given : List Value) :
    (freshNames seen given).on (.ofModel m) =
      (Registry.freshNames (seen ++ m.registry.names) given, .ofModel m) := by
  induction given generalizing seen with
  | nil => rfl
  | cons value given ih =>
    cases value with
    | text x =>
      have taken : ((Entries.get? (Store.ofModel m).index x).isSome || seen.contains x) =
          (seen ++ m.registry.names).contains x := by
        rw [Store.ofModel, isSome_get?_zipIdx, Bool.or_comm, List.contains_eq_any_beq,
          List.contains_eq_any_beq, List.contains_eq_any_beq, List.any_append]
      rw [freshNames, Registry.freshNames, on_isTaken, taken]
      split
      · rfl
      · rw [on_bind, ih, List.cons_append]
        cases Registry.freshNames (x :: (seen ++ m.registry.names)) given <;> rfl
    | _ => rfl

theorem on_addVars (m : Model) (names lower upper kind : Value) :
    (addVars names lower upper kind).on (.ofModel m) =
      registering m (m.registry.addMany names lower upper kind) := by
  unfold addVars Registry.addMany
  cases declared : m.registry.declareMany names lower upper kind with
  | error e =>
    unfold Registry.declareMany at declared
    cases given : names.items? with
    | none =>
      rw [given] at declared
      cases declared
      rfl
    | some items =>
      rw [given] at declared
      dsimp only
      rw [on_bind, on_freshNames, List.nil_append]
      rcases bind_eq_error.1 declared with refused | ⟨fresh, free, refused⟩
      · rw [refused]
        rfl
      · rw [free]
        show (check (fresh.mapM fun x => Spec.check { name := .text x, lower, upper, kind }) >>= _).on
          _ = _
        rw [on_check, refused]
        rfl
  | ok ds =>
    obtain ⟨-, different, notTaken⟩ := Registry.declareMany_sound declared
    unfold Registry.declareMany at declared
    cases given : names.items? with
    | none =>
      rw [given] at declared
      cases declared
    | some items =>
      rw [given] at declared
      obtain ⟨fresh, free, checked⟩ := bind_eq_ok.1 declared
      dsimp only
      rw [on_bind, on_freshNames, List.nil_append, free]
      -- All declarations have been checked before the first one is inserted.
      show (check (fresh.mapM fun x => Spec.check { name := .text x, lower, upper, kind }) >>= _).on
        _ = _
      rw [on_check, checked]
      exact on_inserts different notTaken

theorem on_setObjective (m : Model) (expression sense : Value) :
    (setObjective expression sense).on (.ofModel m) =
      match Objective.build m.registry expression sense with
      | .ok objective => (.ok (), .ofModel { m with objective })
      | .error e => (.error e, .ofModel m) := by
  unfold setObjective
  rw [on_get, on_check, Store.model_ofModel]
  cases Objective.build m.registry expression sense <;> rfl

theorem on_addConstraint (m : Model) (lhs comparison rhs : Value) :
    (addConstraint lhs comparison rhs).on (.ofModel m) =
      match Constraint.build (some m.registry) lhs comparison rhs with
      | .ok c => (.ok c, .ofModel { m with constraints := m.constraints ++ [c] })
      | .error e => (.error e, .ofModel m) := by
  unfold addConstraint
  rw [on_get, on_check, Store.model_ofModel]
  cases Constraint.build (some m.registry) lhs comparison rhs <;> rfl

theorem on_readLp (m : Model) (text : String) :
    (readLp text).on (.ofModel m) =
      match m.readLp text with
      | .ok n => (.ok (), .ofModel n)
      | .error e => (.error e, .ofModel m) := by
  unfold readLp Model.readLp
  rw [on_check]
  cases LpText.Document.ofText text with
  | error e => rfl
  | ok d =>
    dsimp only [bind, Except.bind]
    show (get >>= fun s => check (d.resolve s.model.registry.clear) >>= _).on _ = _
    rw [on_get, on_check, Store.model_ofModel]
    cases resolved : d.resolve m.registry.clear with
    | error e => rfl
    | ok fresh =>
      have unsolved : fresh.reset = fresh := LpText.Document.reset_resolve resolved
      exact congrArg (fun n => (Except.ok (), Store.mk n (Store.ofModel fresh).index)) unsolved

end Building

inductive Edit
  | addVar (spec : Spec) (elsewhere : Valuation := fun _ => .null)
  | addVars (names lower upper kind : Value) (elsewhere : Valuation := fun _ => .null)
  | setObjective (expression sense : Value) (elsewhere : Valuation := fun _ => .null)
  | addConstraint (lhs comparison rhs : Value) (elsewhere : Valuation := fun _ => .null)
  | readLp (text : String)

namespace Edit

open Building

def perform : Edit → Building Unit
  | addVar spec elsewhere => raising (·.valueOr elsewhere) do
    let _ ← Building.addVar spec
  | addVars names lower upper kind elsewhere => raising (·.valueOr elsewhere) do
    let _ ← Building.addVars names lower upper kind
  | setObjective expression sense elsewhere =>
    raising (·.valueOr elsewhere) (Building.setObjective expression sense)
  | addConstraint lhs comparison rhs elsewhere => raising (·.valueOr elsewhere) do
    let _ ← Building.addConstraint lhs comparison rhs
  | readLp text => Building.readLp text

def attempt (m : Model) : Except Error Model → Model × Except Error Unit
  | .ok n => (n, .ok ())
  | .error e => (m, .error e)

def result (m : Model) : Edit → Model × Except Error Unit
  | addVar spec elsewhere =>
    let (n, added) := m.addVar spec elsewhere
    (n, added.map fun _ => ())
  | addVars names lower upper kind elsewhere =>
    let (n, added) := m.addVars names lower upper kind elsewhere
    (n, added.map fun _ => ())
  | setObjective expression sense elsewhere =>
    attempt m (m.setObjective expression sense elsewhere)
  | addConstraint lhs comparison rhs elsewhere =>
    attempt m (Prod.fst <$> m.addConstraint lhs comparison rhs elsewhere)
  | readLp text => attempt m (m.readLp text)

theorem on_registered {m : Model} {x : Building α} {added : Registry × Except Error α}
    (run : x.on (.ofModel m) = registering m added) (elsewhere : Valuation) :
    let n : Model := { m with registry := added.1 }
    (raising (·.valueOr elsewhere) (x >>= fun _ => pure ())).on (.ofModel m) =
      ((added.2.mapError (n.raised elsewhere)).map fun _ => (), .ofModel n) := by
  rw [on_raising, on_bind, run, registering]
  rcases added with ⟨r, _ | a⟩ <;> rfl

/-- Made in steps, an edit of a model comes out as the operation on the whole model. -/
theorem on_perform (m : Model) (edit : Edit) :
    edit.perform.on (.ofModel m) = ((edit.result m).2, .ofModel (edit.result m).1) := by
  cases edit with
  | addVar spec elsewhere => exact on_registered (on_addVar m spec) elsewhere
  | addVars names lower upper kind elsewhere =>
    exact on_registered (on_addVars m names lower upper kind) elsewhere
  | setObjective expression sense elsewhere =>
    rw [perform, on_raising, on_setObjective, result, Model.setObjective]
    cases Objective.build m.registry expression sense <;> rfl
  | addConstraint lhs comparison rhs elsewhere =>
    rw [perform, on_raising, on_bind, on_addConstraint, result, Model.addConstraint]
    cases Constraint.build (some m.registry) lhs comparison rhs <;> rfl
  | readLp text =>
    rw [perform, on_readLp, result]
    cases m.readLp text <;> rfl

def operation : Edit → Model.Operation
  | addVar spec elsewhere => .addVar spec elsewhere
  | addVars names lower upper kind elsewhere => .addVars names lower upper kind elsewhere
  | setObjective expression sense elsewhere => .setObjective expression sense elsewhere
  | addConstraint lhs comparison rhs elsewhere => .addConstraint lhs comparison rhs elsewhere
  | readLp text => .readLp text

theorem fst_attempt (m : Model) (outcome : Except Error Model) :
    (attempt m outcome).1 = m.orKeep outcome := by
  cases outcome <;> rfl

theorem apply_operation (m : Model) (edit : Edit) :
    edit.operation.apply m = (edit.result m).1 := by
  cases edit with
  | addVar spec elsewhere => rfl
  | addVars names lower upper kind elsewhere => rfl
  | _ => exact (fst_attempt m _).symm

/-- The first declaration that an edit enters, all of them having been accepted, and the registry
that it enters it in. -/
inductive Enters (m : Model) : Edit → Registry → Declaration → Prop
  | named {spec : Spec} {elsewhere : Valuation} {d : Declaration}
      (given : spec.name.isNull = false) (checked : spec.check = .ok d)
      (free : d.name ∉ m.registry.names) : Enters m (addVar spec elsewhere) m.registry d
  | unnamed {spec : Spec} {elsewhere : Valuation} {d : Declaration}
      (isNull : spec.name.isNull = true)
      (checked : { spec with name := .text "_" }.check = .ok d) :
      Enters m (addVar spec elsewhere) { m.registry with counter := m.registry.nextNumber + 1 }
        { d with name := Registry.autoName m.registry.nextNumber }
  | several {names lower upper kind : Value} {elsewhere : Valuation} {d : Declaration}
      {ds : List Declaration}
      (declared : m.registry.declareMany names lower upper kind = .ok (d :: ds)) :
      Enters m (addVars names lower upper kind elsewhere) m.registry d

/-- An edit that fails leaves a model as it was, unless it has entered a variable and then cannot
tell of it. That variable is all it has changed. -/
def FailsTo (m : Model) (edit : Edit) (e : Error) (n : Model) : Prop :=
  (∀ r d, ¬ edit.Enters m r d) ∧ n = m ∨
    ∃ r d, edit.Enters m r d ∧ d.notice = none ∧ e = .wrongValue ∧
      n = { m with registry := (r.register d).1 }

/-- What an edit does that enters a variable, according to whether it can tell of it. -/
structure Entered (m : Model) (edit : Edit) (r : Registry) (d : Declaration) : Prop where
  untold : d.notice = none →
    edit.result m = ({ m with registry := (r.register d).1 }, .error .wrongValue)
  told : d.notice ≠ none → (edit.result m).2 = .ok ()

variable {m : Model} {spec : Spec} {names lower upper kind : Value} {elsewhere : Valuation}
  {r : Registry} {d : Declaration}

theorem entered_of_add (entered : m.registry.add spec = r.enter d) :
    Entered m (addVar spec elsewhere) r d := by
  constructor
  · intro untold
    rw [result, Model.addVar, entered, Registry.enter_untold untold]
    rfl
  · intro told
    rw [result, Model.addVar, entered, Registry.enter_eq told]
    rfl

theorem add_refused (never : ∀ r d, ¬ Enters m (addVar spec elsewhere) r d) :
    ∃ e, m.registry.add spec = (m.registry, .error e) := by
  rcases m.registry.add_cases spec with
    refused | ⟨d, given, checked, free, -⟩ | ⟨d, isNull, checked, -⟩
  · exact refused
  · exact absurd (.named given checked free) (never _ _)
  · exact absurd (.unnamed isNull checked) (never _ _)

theorem entered_of_addMany {ds : List Declaration}
    (declared : m.registry.declareMany names lower upper kind = .ok (d :: ds)) :
    Entered m (addVars names lower upper kind elsewhere) m.registry d := by
  constructor
  · intro isUntold
    rcases Registry.addMany_of_declared declared with ⟨told, -⟩ | ⟨e, rest, same, -, untold⟩
    · exact absurd isUntold (told d List.mem_cons_self)
    · cases same
      rw [result, Model.addVars, untold]
      rfl
  · intro isTold
    rcases Registry.addMany_of_declared declared with ⟨-, added⟩ | ⟨e, rest, same, untold, -⟩
    · rw [result, Model.addVars, added]
      rfl
    · cases same
      exact absurd untold isTold

theorem Enters.entered {edit : Edit} (enters : edit.Enters m r d) : Entered m edit r d := by
  cases enters with
  | named given checked free => exact entered_of_add (Registry.add_named given checked free)
  | unnamed isNull checked => exact entered_of_add (Registry.add_unnamed isNull checked)
  | several declared => exact entered_of_addMany declared

theorem refused_of_not_enters {edit : Edit} (never : ∀ r d, ¬ edit.Enters m r d) {e : Error}
    (failed : (edit.result m).2 = .error e) : (edit.result m).1 = m := by
  have attempted {outcome : Except Error Model} (failed : (attempt m outcome).2 = .error e) :
      (attempt m outcome).1 = m := by
    cases outcome with
    | ok n => cases failed
    | error e => rfl
  cases edit with
  | addVar spec elsewhere =>
    obtain ⟨e, refused⟩ := add_refused never
    rw [result, Model.addVar, refused]
  | addVars names lower upper kind elsewhere =>
    cases declared : m.registry.declareMany names lower upper kind with
    | error e => rw [result, Model.addVars, Registry.addMany, declared]
    | ok ds =>
      cases ds with
      | nil =>
        rw [result, Model.addVars, Registry.addMany, declared]
        rfl
      | cons d ds => exact absurd (.several declared) (never _ _)
  | _ => exact attempted failed

/-- Made in steps, an edit of a model comes out as the operation on the whole model. If it fails, all
is as it was: the variables in their order with bounds, kinds and marks, their index, the counter of
automatic names, the objective, the rows, and all that was heard from solvers. Only a variable that
has been entered and cannot be told of stays behind, and an edit that enters one so always fails. -/
theorem failed_edit_leaves (m : Model) (edit : Edit) :
    edit.perform.on (.ofModel m) = ((edit.result m).2, .ofModel (edit.result m).1) ∧
      edit.operation.apply m = (edit.result m).1 ∧
      (∀ e, (edit.result m).2 = .error e → edit.FailsTo m e (edit.result m).1) ∧
      ∀ r d, edit.Enters m r d → ((edit.result m).2 = .ok () ↔ d.notice ≠ none) := by
  refine ⟨on_perform m edit, apply_operation m edit, fun e failed => ?_, fun r d enters => ?_⟩
  · by_cases never : ∀ r d, ¬ edit.Enters m r d
    · exact .inl ⟨never, refused_of_not_enters never failed⟩
    · simp only [not_forall, not_not] at never
      obtain ⟨r, d, enters⟩ := never
      by_cases untold : d.notice = none
      · have ended := enters.entered.untold untold
        rw [ended] at failed ⊢
        exact .inr ⟨r, d, enters, untold, (Except.error.inj failed).symm, rfl⟩
      · have ended := enters.entered.told untold
        rw [ended] at failed
        cases failed
  · constructor
    · intro done untold
      rw [enters.entered.untold untold] at done
      cases done
    · exact enters.entered.told

namespace Sample

def sliver : Number :=
  .ratio (mkRat 1 (tenPower 5000))

def slivers : Edit :=
  .addVars (.list [.text "a", .text "b"]) sliver Number.infinity (.text "CONTINUOUS") fun _ => .null

end Sample

/-- The first name stays, and the second one is never entered. -/
theorem failed_addVars_leaves_first :
    ∃ n, Sample.slivers.perform.on (.ofModel (.empty 0)) = (.error .wrongValue, .ofModel n) ∧
      (Model.empty 0).registry.names = [] ∧ n.registry.names = ["a"] := by
  have failed : (Sample.slivers.result (.empty 0)).2 = .error .wrongValue := by decide +kernel
  have left : (Sample.slivers.result (.empty 0)).1.registry.names = ["a"] := by decide +kernel
  refine ⟨_, ?_, rfl, left⟩
  rw [on_perform, failed]

end Edit

end LinOpt
