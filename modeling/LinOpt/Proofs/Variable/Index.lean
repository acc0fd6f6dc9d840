import LinOpt.Proofs.Model.Building

namespace LinOpt

theorem Number.IsBound.sided {n : Number} {negative : Bool}
    (h : IsBound (.real (.infinite negative)) n) :
    n.isNaN = false ∧ n.same (.real (.infinite !negative)) = false := by
  obtain ⟨x, read, number, infinite⟩ := h
  cases n with
  | int k =>
    refine ⟨rfl, ?_⟩
    cases negative <;> rfl
  | ratio q =>
    refine ⟨rfl, ?_⟩
    cases negative <;> rfl
  | real y =>
    cases read
    refine ⟨number, ?_⟩
    cases x with
    | nan => cases number
    | infinite s =>
      have own : s = negative := by simpa using infinite rfl
      subst own
      cases s <;> rfl
    | finite s quanta short bound => cases negative <;> rfl

namespace Declaration

structure IsValid (d : Declaration) : Prop where
  named : d.name ≠ ""
  kind : d.kind.text = "CONTINUOUS" ∨ d.kind.text = "BINARY" ∨ d.kind.text = "INTEGER"
  lower : d.lower.isNaN = false ∧ d.lower.same .infinity = false
  upper : d.upper.isNaN = false ∧ d.upper.same .negativeInfinity = false

theorem WellFormed.isValid {d : Declaration} (h : d.WellFormed) : d.IsValid where
  named := h.named
  kind := by cases d.kind <;> decide
  lower := h.lower.sided
  upper := h.upper.sided

end Declaration

namespace Spec

theorem check_renamed {spec : Spec} {d : Declaration} (checked : spec.check = .ok d) {x : String}
    (named : x ≠ "") : { spec with name := .text x }.check = .ok { d with name := x } := by
  obtain ⟨name, -, checked⟩ := bind_eq_ok.1 checked
  obtain ⟨kind, isKind, checked⟩ := bind_eq_ok.1 checked
  obtain ⟨lower, isLower, checked⟩ := bind_eq_ok.1 checked
  obtain ⟨upper, isUpper, checked⟩ := bind_eq_ok.1 checked
  cases checked
  have read : readName (.text x) = .ok x := by
    rw [readName, if_neg (by simpa using named)]
  rw [check, read, isKind, isLower, isUpper]
  rfl

end Spec

namespace Registry

/-- `values` are those that variables have when a call is made. -/
inductive Call
  | add (spec : Spec) (values : Valuation)
  | addMany (names lower upper kind : Value) (values : Valuation)
  | clear

namespace Call

def result (r : Registry) : Call → Registry × Except Error (List Variable)
  | add spec values =>
    let (s, added) := r.add spec
    (s, (added.map fun v => [v]).mapError (·.shownBy values.shown))
  | addMany names lower upper kind values =>
    let (s, added) := r.addMany names lower upper kind
    (s, added.mapError (·.shownBy values.shown))
  | clear => (r.clear, .ok [])

def run (r : Registry) (calls : List Call) : Registry :=
  calls.foldl (fun r call => (call.result r).1) r

def perform : Call → Building (List Variable)
  | add spec values => Building.raising (fun _ => values) do
    let v ← Building.addVar spec
    return [v]
  | addMany names lower upper kind values =>
    Building.raising (fun _ => values) (Building.addVars names lower upper kind)
  | clear => do
    Building.clearVars
    return []

def leave (calls : List Call) (s : Store) : Store :=
  calls.foldl (fun s call => (call.perform.on s).2) s

/-- The variables that are added come behind those that are there, in the given order, each under its
name and as it is declared. -/
def Adds (r s : Registry) (vs : List Variable) : Call → Prop
  | add spec _ => ∃ v, vs = [v] ∧ s.vars = r.vars ++ [v] ∧
      (spec.name = .null ∧ v.name = autoName r.nextNumber ∨ spec.name = .text v.name) ∧
      { spec with name := .text v.name }.check = .ok v.toDeclaration
  | addMany names lower upper kind _ => s.vars = r.vars ++ vs ∧
      names.items? = some (vs.map fun v => .text v.name) ∧
      ∀ v ∈ vs, Spec.check { name := .text v.name, lower, upper, kind } = .ok v.toDeclaration
  | clear => vs = [] ∧ s.vars = []

variable {r s : Registry} {vs : List Variable}

theorem vars_registerAll (r : Registry) (ds : List Declaration) :
    (r.registerAll ds).1.vars = r.vars ++ (r.registerAll ds).2 := by
  induction ds generalizing r with
  | nil => exact (List.append_nil _).symm
  | cons d ds ih =>
    have rest := ih (r.register d).1
    have first : (r.register d).1.vars = r.vars ++ [(r.register d).2] := rfl
    rw [first, List.append_assoc] at rest
    exact rest

theorem declarations_new (r : Registry) (ds : List Declaration) :
    (r.registerAll ds).2.map Variable.toDeclaration = ds := by
  have all := declarations_registerAll r ds
  rw [vars_registerAll, List.map_append] at all
  exact List.append_cancel_left all

theorem freshNames_given {taken : List String} {given : List Value} {names : List String}
    (fresh : freshNames taken given = .ok names) : given = names.map .text := by
  induction given generalizing taken names with
  | nil =>
    cases fresh
    rfl
  | cons value given ih =>
    cases value with
    | text x =>
      unfold freshNames at fresh
      split at fresh
      · cases fresh
      · obtain ⟨rest, others, fresh⟩ := bind_eq_ok.1 fresh
        cases fresh
        rw [List.map_cons, ← ih others]
    | _ => cases fresh

theorem adds_of_add {spec : Spec} {values : Valuation} {v : Variable}
    (added : r.add spec = (s, .ok v)) : (add spec values).Adds r s [v] := by
  rcases r.add_cases spec with
    ⟨e, refused⟩ | ⟨d, -, checked, -, entered⟩ | ⟨d, given, checked, entered⟩
  · rw [refused] at added
    cases added
  · have registered := enter_eq_ok (entered.symm.trans added)
    cases registered
    have named := Spec.check_name checked
    have same : ({ spec with name := .text d.name } : Spec) = spec := by rw [← named]
    refine ⟨_, rfl, rfl, .inr named, ?_⟩
    exact same ▸ checked
  · have registered := enter_eq_ok (entered.symm.trans added)
    cases registered
    have isNull : spec.name = .null := by
      cases name : spec.name <;> rw [name] at given <;> first | rfl | cases given
    refine ⟨_, rfl, rfl, .inl ⟨isNull, rfl⟩, ?_⟩
    exact Spec.check_renamed checked (autoName_ne_empty r.nextNumber)

theorem adds_of_addMany {names lower upper kind : Value} {values : Valuation}
    (added : r.addMany names lower upper kind = (s, .ok vs)) :
    (addMany names lower upper kind values).Adds r s vs := by
  cases declared : r.declareMany names lower upper kind with
  | error e =>
    rw [Registry.addMany, declared] at added
    cases added
  | ok ds =>
    rcases addMany_of_declared declared with ⟨-, all⟩ | ⟨d, rest, -, -, first⟩
    · rw [all] at added
      cases added
      unfold declareMany at declared
      cases given : names.items? with
      | none =>
        rw [given] at declared
        cases declared
      | some items =>
        rw [given] at declared
        obtain ⟨fresh, free, checked⟩ := bind_eq_ok.1 declared
        have new := declarations_new r ds
        have named : fresh.map Value.text = ds.map fun d => .text d.name :=
          (map_of_mapM (fun _ _ checked => (Spec.check_name checked).symm) checked).symm
        refine ⟨vars_registerAll r ds, ?_, ?_⟩
        · show names.items? = some ((r.registerAll ds).2.map fun v => .text v.toDeclaration.name)
          have byName : (r.registerAll ds).2.map (fun v => Value.text v.toDeclaration.name) =
              ds.map fun d => .text d.name := by
            conv_rhs => rw [← new]
            rw [List.map_map]
            rfl
          rw [given, byName, ← named, freshNames_given free]
        · intro v member
          have among : v.toDeclaration ∈ ds := new ▸ List.mem_map_of_mem member
          obtain ⟨x, -, isDeclaration⟩ := exists_of_mem_mapM checked among
          cases Spec.check_name isDeclaration
          exact isDeclaration
    · rw [first] at added
      cases added

theorem result_adds {call : Call} (done : call.result r = (s, .ok vs)) : call.Adds r s vs := by
  cases call with
  | add spec values =>
    cases added : r.add spec with
    | mk t outcome =>
      rw [result, added] at done
      cases outcome <;> cases done
      exact adds_of_add added
  | addMany names lower upper kind values =>
    cases added : r.addMany names lower upper kind with
    | mk t outcome =>
      rw [result, added] at done
      cases outcome <;> cases done
      exact adds_of_addMany added
  | clear =>
    cases done
    exact ⟨rfl, rfl⟩

/-- What a call leaves that fails: the registry as it was, unless a variable has been registered that
cannot be told of. -/
def Leaves (r s : Registry) (e : Error) : Prop :=
  s = r ∨ e = .wrongValue ∧ ∃ v : Variable, v.notice = none ∧ s.vars = r.vars ++ [v]

theorem leaves_enter {d : Declaration} {counter : Nat} {outcome : Except Error Variable} {e : Error}
    (entered : { r with counter }.enter d = (s, outcome)) (failed : outcome = .error e) :
    e = .wrongValue ∧ ∃ v : Variable, v.notice = none ∧ s.vars = r.vars ++ [v] := by
  by_cases untold : d.notice = none
  · rw [enter_untold untold] at entered
    cases entered
    cases failed
    exact ⟨rfl, ({ r with counter }.register d).2, untold, rfl⟩
  · rw [enter_eq untold] at entered
    cases entered
    cases failed

theorem result_leaves {call : Call} {e : Error} (failed : call.result r = (s, .error e)) :
    Leaves r s e := by
  cases call with
  | add spec values =>
    cases added : r.add spec with
    | mk t outcome =>
      rw [result, added] at failed
      cases outcome with
      | ok v => cases failed
      | error first =>
        cases failed
        rcases r.add_cases spec with
          ⟨e, refused⟩ | ⟨d, -, -, -, entered⟩ | ⟨d, -, -, entered⟩
        · rw [refused] at added
          cases added
          exact .inl rfl
        · obtain ⟨rfl, one⟩ := leaves_enter (entered.symm.trans added) rfl
          exact .inr ⟨rfl, one⟩
        · obtain ⟨rfl, one⟩ := leaves_enter (entered.symm.trans added) rfl
          exact .inr ⟨rfl, one⟩
  | addMany names lower upper kind values =>
    cases declared : r.declareMany names lower upper kind with
    | error e =>
      rw [result, Registry.addMany, declared] at failed
      cases failed
      exact .inl rfl
    | ok ds =>
      rcases addMany_of_declared declared with ⟨-, all⟩ | ⟨d, rest, rfl, untold, first⟩
      · rw [result, all] at failed
        cases failed
      · rw [result, first] at failed
        cases failed
        exact .inr ⟨rfl, (r.register d).2, untold, rfl⟩
  | clear => cases failed

/-- A registry after calls: its marks are all different, and none is older than `start`. -/
structure Sound (start owner : Nat) (r : Registry) : Prop extends r.Rebuilt start owner where
  apart : (r.vars.map (·.id)).Nodup

theorem apart_register {start : Nat} (since : r.Since start) (apart : (r.vars.map (·.id)).Nodup)
    (d : Declaration) : ((r.register d).1.vars.map (·.id)).Nodup := by
  show ((r.vars ++ [(r.register d).2]).map (·.id)).Nodup
  rw [List.map_append, List.nodup_append]
  refine ⟨apart, List.nodup_singleton _, ?_⟩
  intro id old new isNew same
  obtain ⟨v, member, rfl⟩ := List.mem_map.1 old
  rw [List.map_singleton, List.mem_singleton] at isNew
  have older := (since.marked v member).2.2
  have last : v.id.serial = r.issued := congrArg Variable.Id.serial (same.trans isNew)
  omega

variable {start owner : Nat}

theorem Sound.grown (h : Sound start owner r) (more : r.Grown s) : Sound start owner s where
  toRebuilt := h.toRebuilt.grown more
  apart := by
    cases more with
    | of ds counter sound distinct fresh forward =>
      apply And.right (a := ({ r with counter }.registerAll ds).1.Since start)
      apply register_keeps (P := fun r => r.Since start ∧ (r.vars.map (·.id)).Nodup)
      · exact fun r d kept => ⟨kept.1.register d, apart_register kept.1 kept.2 d⟩
      · exact ⟨⟨h.since.start_le, h.since.marked⟩, h.apart⟩

theorem Sound.clear (h : Sound start owner r) : Sound start owner r.clear where
  wellFormed := r.clear_rebuilt.wellFormed
  since := ⟨h.since.start_le, fun _ member => absurd member List.not_mem_nil⟩
  owner := h.owner
  apart := List.nodup_nil

theorem grown_result (r : Registry) {call : Call} (grows : call ≠ .clear) :
    r.Grown (call.result r).1 := by
  cases call with
  | add spec values => exact r.grown_add spec
  | addMany names lower upper kind values => exact r.grown_addMany names lower upper kind
  | clear => exact absurd rfl grows

theorem Sound.result (h : Sound start owner r) (call : Call) :
    Sound start owner (call.result r).1 := by
  by_cases clears : call = .clear
  · subst clears
    exact h.clear
  · exact h.grown (grown_result r clears)

theorem run_cons (r : Registry) (call : Call) (calls : List Call) :
    run r (call :: calls) = run (call.result r).1 calls :=
  rfl

/-- What every call keeps is kept by any calls, those that fail among them. -/
theorem run_keeps {P : Registry → Prop} {calls : List Call}
    (step : ∀ call ∈ calls, ∀ r, P r → P (call.result r).1) (h : P r) : P (run r calls) := by
  induction calls generalizing r with
  | nil => exact h
  | cons call calls ih =>
    rw [run_cons]
    apply ih fun later member => step later (List.mem_cons_of_mem call member)
    exact step call List.mem_cons_self r h

theorem Sound.run (h : Sound start owner r) (calls : List Call) :
    Sound start owner (run r calls) :=
  run_keeps (fun call _ _ kept => kept.result call) h

theorem issued_run (r : Registry) (calls : List Call) : r.issued ≤ (run r calls).issued := by
  apply run_keeps (P := fun s => r.issued ≤ s.issued) ?_ (Nat.le_refl _)
  intro call _ s least
  by_cases clears : call = .clear
  · subst clears
    exact least
  · exact Nat.le_trans least (grown_result s clears).extends.issued

theorem run_extends {calls : List Call} (grow : .clear ∉ calls) : r.Extends (run r calls) := by
  apply run_keeps ?_ (.refl r)
  intro call member s extended
  apply extended.trans (grown_result s ?_).extends
  rintro rfl
  exact grow member

theorem run_append (r : Registry) (first later : List Call) :
    run r (first ++ later) = run (run r first) later :=
  List.foldl_append

theorem not_mem_run {calls : List Call} (cleared : .clear ∈ calls) (h : Sound start owner r)
    {v : Variable} (held : v ∈ r.vars) : v ∉ (run r calls).vars := by
  obtain ⟨first, later, rfl⟩ := List.append_of_mem cleared
  rw [run_append, run_cons]
  intro back
  have restarted : Sound (run r first).issued (run r first).owner (run r first).clear :=
    ⟨clear_rebuilt _, List.nodup_nil⟩
  -- Marks are never given twice, not even by a registry that has been cleared.
  have young := ((restarted.run later).since.marked v back).2.1
  have old := (h.since.marked v held).2.2
  have between := issued_run r first
  omega

end Call

end Registry

namespace Store

variable {m : Model}

/-- The index of a store is the inverse of its list of variables, all of which are valid and known
by their own marks. -/
structure IsIndexed (s : Store) : Prop where
  position : ∀ x i, s.indexOf? x = some i ↔ ∃ v, s.model.registry.vars[i]? = some v ∧ v.name = x
  search : ∀ x, s.indexOf? x = s.model.registry.indexOf? x ∧ s.get? x = s.model.registry.get? x
  nodup : s.model.registry.names.Nodup
  valid : ∀ v ∈ s.model.registry.vars, v.toDeclaration.IsValid
  apart : (s.model.registry.vars.map (·.id)).Nodup
  owns : ∀ v, s.owns v = true ↔ v ∈ s.model.registry.vars

theorem indexOf?_ofModel (nodup : m.registry.names.Nodup) {x : String} {i : Nat} :
    (ofModel m).indexOf? x = some i ↔ ∃ v, m.registry.vars[i]? = some v ∧ v.name = x := by
  have names : (Entries.names m.registry.names.zipIdx).Nodup := by
    rwa [Entries.names, List.zipIdx_map_fst]
  have found : (ofModel m).indexOf? x = some i ↔ (x, i) ∈ m.registry.names.zipIdx :=
    ⟨Entries.mem_of_get?, Entries.get?_of_mem names⟩
  rw [found, List.mk_mem_zipIdx_iff_getElem?, Registry.names, List.getElem?_map,
    Option.map_eq_some_iff]

theorem get?_ofModel (nodup : m.registry.names.Nodup) (x : String) :
    (ofModel m).get? x = m.registry.get? x := by
  cases found : (ofModel m).indexOf? x with
  | some i =>
    obtain ⟨v, place, rfl⟩ := (indexOf?_ofModel nodup).1 found
    have member := List.mem_of_getElem? place
    rw [Registry.get?_of_mem nodup member, get?, found]
    exact place
  | none =>
    rw [get?, found]
    cases known : m.registry.get? x with
    | none => rfl
    | some v =>
      obtain ⟨member, rfl⟩ := Registry.get?_eq_some known
      obtain ⟨i, place⟩ := List.mem_iff_getElem?.1 member
      rw [(indexOf?_ofModel nodup).2 ⟨v, place, rfl⟩] at found
      cases found

theorem search_ofModel (nodup : m.registry.names.Nodup) (x : String) :
    (ofModel m).indexOf? x = m.registry.indexOf? x := by
  apply Option.ext
  intro i
  rw [indexOf?_ofModel nodup, Registry.indexOf?, List.findIdx?_eq_some_iff_getElem]
  constructor
  · rintro ⟨v, place, rfl⟩
    obtain ⟨inside, rfl⟩ := List.getElem?_eq_some_iff.1 place
    refine ⟨inside, beq_self_eq_true _, ?_⟩
    intro j before same
    have lengths : m.registry.names.length = m.registry.vars.length := List.length_map _
    have names : m.registry.names[j] = m.registry.names[i] := by
      simpa only [Registry.names, List.getElem_map] using eq_of_beq same
    have places := (nodup.getElem_inj_iff).1 names
    omega
  · rintro ⟨inside, same, -⟩
    exact ⟨m.registry.vars[i], List.getElem?_eq_getElem inside, eq_of_beq same⟩

theorem owns_ofModel (nodup : m.registry.names.Nodup) (v : Variable) :
    (ofModel m).owns v = true ↔ v ∈ m.registry.vars := by
  rw [owns, get?_ofModel nodup]
  exact Registry.owns_iff nodup

theorem isIndexed_ofModel {start owner : Nat} (h : Registry.Call.Sound start owner m.registry) :
    (ofModel m).IsIndexed where
  position := fun _ _ => indexOf?_ofModel h.wellFormed.nodup
  search := fun x =>
    ⟨search_ofModel h.wellFormed.nodup x, get?_ofModel h.wellFormed.nodup x⟩
  nodup := h.wellFormed.nodup
  valid := fun v member => (h.wellFormed.declared v member).isValid
  apart := h.apart
  owns := owns_ofModel h.wellFormed.nodup

end Store

namespace Registry.Call

open Building

theorem on_perform (m : Model) (call : Call) :
    call.perform.on (.ofModel m) = registering m (call.result m.registry) := by
  cases call with
  | add spec values =>
    rw [perform, on_raising, on_bind, on_addVar, registering, result]
    rcases m.registry.add spec with ⟨r, _ | v⟩ <;> rfl
  | addMany names lower upper kind values =>
    rw [perform, on_raising, on_addVars, registering, result]
    rfl
  | clear => rfl

theorem leave_ofModel (m : Model) (calls : List Call) :
    leave calls (.ofModel m) = .ofModel { m with registry := run m.registry calls } := by
  induction calls generalizing m with
  | nil => rfl
  | cons call calls ih =>
    have step : (call.perform.on (.ofModel m)).2 =
        .ofModel { m with registry := run m.registry [call] } := by
      rw [on_perform]
      rfl
    rw [leave, List.foldl_cons, step]
    exact ih { m with registry := run m.registry [call] }

/-- A call that succeeds adds its variables at the end. One that fails changes nothing, unless it has
registered a variable that it then cannot tell of. -/
structure Appends (s : Store) (call : Call) : Prop where
  added : ∀ t vs, call.perform.on s = (.ok vs, t) →
    call.Adds s.model.registry t.model.registry vs
  failed : ∀ t e, call.perform.on s = (.error e, t) →
    t = s ∨ e = .wrongValue ∧ ∃ v : Variable, v.notice = none ∧
      t.model.registry.vars = s.model.registry.vars ++ [v]

/-- Until a clearing a variable stays in its place, and after it the registry never owns it again. -/
structure Stays (s : Store) (more : List Call) : Prop where
  place : .clear ∉ more → ∀ i v, s.model.registry.vars[i]? = some v →
    (leave more s).model.registry.vars[i]? = some v ∧ (leave more s).indexOf? v.name = some i
  owned : ∀ v, s.owns v = true → ((leave more s).owns v = true ↔ .clear ∉ more)

theorem appends_ofModel (m : Model) (call : Call) : Appends (.ofModel m) call where
  added := by
    intro t vs run
    rw [on_perform, registering] at run
    cases done : call.result m.registry with
    | mk r outcome =>
      rw [done] at run
      cases run
      exact result_adds done
  failed := by
    intro t e run
    rw [on_perform, registering] at run
    cases done : call.result m.registry with
    | mk r outcome =>
      rw [done] at run
      cases run
      rcases result_leaves done with rfl | more
      · exact .inl rfl
      · exact .inr more

theorem stays_ofModel {start owner : Nat} {m : Model} (h : Sound start owner m.registry)
    (more : List Call) : Stays (.ofModel m) more where
  place := by
    intro grow i v place
    have held : m.registry.vars[i]? = some v := place
    obtain ⟨inside, -⟩ := List.getElem?_eq_some_iff.1 held
    obtain ⟨later, vars⟩ := (run_extends grow).vars
    have still : (run m.registry more).vars[i]? = some v := by
      rw [← vars, List.getElem?_append_left inside, held]
    rw [leave_ofModel]
    exact ⟨still, (Store.indexOf?_ofModel (h.run more).wellFormed.nodup).2 ⟨v, still, rfl⟩⟩
  owned := by
    intro v owned
    rw [Store.owns_ofModel h.wellFormed.nodup] at owned
    rw [leave_ofModel, Store.owns_ofModel (h.run more).wellFormed.nodup]
    constructor
    · exact fun still cleared => not_mem_run cleared h owned still
    · exact fun grow => (run_extends grow).vars.subset owned

/-- After any calls on an empty registry, successful or not, the index is the inverse of the list of
the variables. The next call appends or changes nothing, and until a clearing no index moves. -/
theorem calls_keep_index (owner : Nat) (calls : List Call) :
    (leave calls (.ofModel (.empty owner))).IsIndexed ∧
      (∀ call, Appends (leave calls (.ofModel (.empty owner))) call) ∧
      ∀ more, Stays (leave calls (.ofModel (.empty owner))) more := by
  have empty : Sound 0 owner { owner } :=
    ⟨(clear_rebuilt { owner }), List.nodup_nil⟩
  have kept := empty.run calls
  rw [leave_ofModel]
  exact ⟨Store.isIndexed_ofModel kept, appends_ofModel _, stays_ofModel kept⟩

end Registry.Call

end LinOpt
