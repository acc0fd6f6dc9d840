import LinOpt.Proofs.Variable.Index
import Mathlib.Order.Bounds.Basic

namespace LinOpt

namespace Spec

variable {spec : Spec}

theorem check_unnamed {kind : Kind} {lower upper : Number} (isKind : readKind spec.kind = .ok kind)
    (isLower : readLower spec.lower = .ok lower) (isUpper : readUpper spec.upper = .ok upper) :
    { spec with name := .text "_" }.check = .ok { name := "_", lower, upper, kind } := by
  have named : readName (.text "_") = .ok "_" := rfl
  rw [check, named, isKind, isLower, isUpper]
  rfl

def NotDuplicate (e : Error) : Prop :=
  ∀ x, e ≠ .duplicateName x

theorem readBound_failsOnly (fault : Value → SpecFault) (words : List String) (own other : Number)
    (given : Value) : FailsOnly NotDuplicate (readBound fault words own other given) := by
  intro e failed
  unfold readBound at failed
  split at failed
  · split at failed
    · cases failed
    · cases failed
      exact nofun
  · rcases bind_eq_error.1 failed with distant | ⟨x, -, refused⟩
    · obtain ⟨-, rfl⟩ := inRange_eq_error.1 distant
      exact nofun
    · split at refused <;> cases refused
      exact nofun
  · cases failed
    exact nofun

theorem check_failsOnly (spec : Spec) : FailsOnly NotDuplicate spec.check := by
  have name : FailsOnly NotDuplicate (readName spec.name) := by
    intro e failed
    unfold readName at failed
    split at failed
    · split at failed <;> cases failed
      exact nofun
    · cases failed
      exact nofun
  have kind : FailsOnly NotDuplicate (readKind spec.kind) := by
    intro e failed
    unfold readKind at failed
    split at failed
    · split at failed <;> cases failed
      exact nofun
    · cases failed
      exact nofun
  exact name.bind fun _ _ => kind.bind fun _ _ => (readBound_failsOnly _ _ _ _ _).bind fun _ _ =>
    (readBound_failsOnly _ _ _ _ _).bind fun _ _ => .ok _

end Spec

namespace Registry

/-- The search from a number on. A name that is taken is passed over, and the first one that is not
ends it. -/
inductive Search (taken : List String) : Nat → Nat → Prop
  | stop {n : Nat} (free : autoName n ∉ taken) : Search taken n n
  | next {n m : Nat} (known : autoName n ∈ taken) (rest : Search taken (n + 1) m) :
      Search taken n m

variable {taken : List String} {steps n m : Nat}

theorem Search.isLeast (h : Search taken n m) :
    IsLeast {k | n ≤ k ∧ autoName k ∉ taken} m := by
  induction h with
  | stop free => exact ⟨⟨Nat.le_refl _, free⟩, fun _ later => later.1⟩
  | next known _ ih =>
    obtain ⟨⟨past, free⟩, least⟩ := ih
    refine ⟨⟨Nat.le_of_succ_le past, free⟩, ?_⟩
    rintro k ⟨bound, isFree⟩
    rcases Nat.eq_or_lt_of_le bound with rfl | later
    · exact absurd known isFree
    · exact least ⟨later, isFree⟩

theorem search_firstFree (free : autoName (firstFree taken steps n) ∉ taken) :
    Search taken n (firstFree taken steps n) := by
  induction steps generalizing n with
  | zero => exact .stop free
  | succ steps ih =>
    by_cases known : autoName n ∈ taken
    · have later : firstFree taken (steps + 1) n = firstFree taken steps (n + 1) := by
        rw [firstFree, if_pos (List.contains_iff_mem.2 known)]
      rw [later] at free ⊢
      exact .next known (ih free)
    · have here : firstFree taken (steps + 1) n = n := by
        rw [firstFree, if_neg fun found => known (List.contains_iff_mem.1 found)]
      rw [here]
      exact .stop known

theorem search_nextNumber (r : Registry) : Search r.names r.counter r.nextNumber :=
  search_firstFree r.autoName_nextNumber_fresh

theorem search_iff {r : Registry} : Search r.names r.counter n ↔ n = r.nextNumber := by
  constructor
  · exact fun h => h.isLeast.unique r.search_nextNumber.isLeast
  · rintro rfl
    exact r.search_nextNumber

theorem counter_registerAll (r : Registry) (ds : List Declaration) :
    (r.registerAll ds).1.counter = r.counter :=
  register_keeps (P := fun s => s.counter = r.counter) (fun _ _ same => same) rfl

theorem Grown.counter_le {r s : Registry} (h : r.Grown s) : r.counter ≤ s.counter := by
  cases h with
  | of ds counter sound distinct fresh forward =>
    rw [counter_registerAll]
    exact forward

theorem unnamed_not_duplicate {r s : Registry} {spec : Spec} {e : Error}
    (isNull : spec.name.isNull = true) (failed : r.add spec = (s, .error e)) :
    Spec.NotDuplicate e := by
  cases checked : ({ spec with name := .text "_" } : Spec).check with
  | error fault =>
    simp only [add, isNull, checked, if_true] at failed
    cases failed
    exact Spec.check_failsOnly _ e checked
  | ok d =>
    rw [add_unnamed isNull checked] at failed
    by_cases untold : Declaration.notice { d with name := autoName r.nextNumber } = none
    · rw [enter_untold untold] at failed
      cases failed
      intro x same
      cases same
    · rw [enter_eq untold] at failed
      cases failed

theorem notDuplicate_shownBy {e : Error} (h : Spec.NotDuplicate e) (shown : Showing) :
    Spec.NotDuplicate (e.shownBy shown) := by
  rcases e.shownBy_cases shown with same | other | other
  · rw [same]
    exact h
  · rw [other]
    intro x same
    cases same
  · rw [other]
    intro x same
    cases same

namespace Call

/-- The automatic names under which a call has registered variables, those included that it cannot
tell of. -/
def namesGiven (r s : Registry) : Call → List String
  | add spec _ =>
    if spec.name.isNull then (s.vars.drop r.vars.length).map (·.name) else []
  | _ => []

def handedOut (s : Store) : List Call → List String
  | [] => []
  | call :: calls =>
    let t := (call.perform.on s).2
    call.namesGiven s.model.registry t.model.registry ++ handedOut t calls

theorem namesGiven_result (r : Registry) (call : Call) :
    call.namesGiven r (call.result r).1 = [] ∨
      ∃ n, call.namesGiven r (call.result r).1 = [autoName n] ∧ r.counter ≤ n ∧
        n < (call.result r).1.counter := by
  cases call with
  | add spec values =>
    rcases r.add_cases spec with
      ⟨e, refused⟩ | ⟨d, given, -, -, -⟩ | ⟨d, isNull, -, entered⟩
    · refine .inl ?_
      simp [namesGiven, result, refused]
    · refine .inl ?_
      simp [namesGiven, given]
    · refine .inr ⟨r.nextNumber, ?_, r.counter_le_nextNumber, ?_⟩
      · simp [namesGiven, result, entered, fst_enter, register, isNull]
      · simp [result, entered, fst_enter, register]
  | addMany names lower upper kind values => exact .inl rfl
  | clear => exact .inl rfl

theorem exists_numbers (m : Model) {calls : List Call} (grow : .clear ∉ calls) :
    ∃ numbers : List Nat, handedOut (.ofModel m) calls = numbers.map autoName ∧
      numbers.Pairwise (· < ·) ∧ ∀ n ∈ numbers, m.registry.counter ≤ n := by
  induction calls generalizing m with
  | nil => exact ⟨[], rfl, .nil, fun _ member => absurd member List.not_mem_nil⟩
  | cons call calls ih =>
    have grows : call ≠ .clear := fun same => grow (same ▸ List.mem_cons_self)
    have later : .clear ∉ calls := fun member => grow (List.mem_cons_of_mem call member)
    rw [handedOut, on_perform]
    obtain ⟨numbers, rest, sorted, past⟩ := ih { m with registry := (call.result m.registry).1 } later
    have forward := (grown_result m.registry grows).counter_le
    show ∃ numbers, call.namesGiven m.registry (call.result m.registry).1 ++
      handedOut (.ofModel { m with registry := (call.result m.registry).1 }) calls = _ ∧ _
    -- Later numbers start at the new counter, which is past the number that is given now.
    rcases call.namesGiven_result m.registry with nothing | ⟨n, one, least, before⟩
    · rw [nothing, rest]
      exact ⟨numbers, rfl, sorted, fun k member => Nat.le_trans forward (past k member)⟩
    · rw [one, rest]
      refine ⟨n :: numbers, rfl, List.pairwise_cons.2 ⟨fun k member => ?_, sorted⟩, ?_⟩
      · exact Nat.lt_of_lt_of_le before (past k member)
      · intro k member
        rcases List.mem_cons.1 member with rfl | member
        · exact least
        · exact Nat.le_trans forward (past k member)

theorem handedOut_nodup (m : Model) {calls : List Call} (grow : .clear ∉ calls) :
    (handedOut (.ofModel m) calls).Nodup := by
  obtain ⟨numbers, same, sorted, -⟩ := exists_numbers m grow
  rw [same]
  exact List.Nodup.map autoName_injective (sorted.imp Nat.ne_of_lt)

end Call

end Registry

namespace Store

open Registry Building

/-- The search for an automatic name ends at a number, the least one from the counter on whose name
is not registered. Its name is given out, and the counter goes on behind it. -/
structure NamesNext (s : Store) (n : Nat) : Prop where
  search : ∀ k, Search s.index.names s.model.registry.counter k ↔ k = n
  least : IsLeast {k | s.model.registry.counter ≤ k ∧ autoName k ∉ s.model.registry.names} n
  named : (nextName s.index.length).on s =
    (.ok (autoName n), s.setRegistry { s.model.registry with counter := n + 1 })

/-- With a proper kind and proper bounds a variable without a name is registered under the name of a
number, and the call succeeds unless it cannot tell of it. In any other case nothing happens. The
error is never that the name is taken. -/
structure AddsUnnamed (s : Store) (n : Nat) (spec : Spec) (values : Valuation) : Prop where
  added : ∀ kind lower upper, Spec.readKind spec.kind = .ok kind →
    Spec.readLower spec.lower = .ok lower → Spec.readUpper spec.upper = .ok upper →
    ∃ v outcome t, (Call.add spec values).perform.on s = (outcome, t) ∧
      v.toDeclaration = { name := autoName n, lower, upper, kind } ∧
      t.model.registry.vars = s.model.registry.vars ++ [v] ∧ t.model.registry.counter = n + 1 ∧
      (v.notice ≠ none ∧ outcome = .ok [v] ∨ v.notice = none ∧ outcome = .error .wrongValue)
  failed : ∀ e t, (Call.add spec values).perform.on s = (.error e, t) →
    (∀ x, e ≠ .duplicateName x) ∧ (t = s ∨ ∃ v : Variable, v.notice = none ∧
      t.model.registry.vars = s.model.registry.vars ++ [v])

theorem names_index (m : Model) : (ofModel m).index.names = m.registry.names := by
  rw [ofModel, Entries.names, List.zipIdx_map_fst]

theorem namesNext_ofModel (m : Model) : (ofModel m).NamesNext m.registry.nextNumber where
  search := by
    rw [names_index]
    exact fun k => search_iff
  least := m.registry.search_nextNumber.isLeast
  named := by
    have length : (ofModel m).index.length = m.registry.names.length := List.length_zipIdx
    rw [length]
    exact on_nextName rfl _

theorem addsUnnamed_ofModel (m : Model) {spec : Spec} (unnamed : spec.name = .null)
    (values : Valuation) : (ofModel m).AddsUnnamed m.registry.nextNumber spec values where
  added := by
    intro kind lower upper isKind isLower isUpper
    have isNull : spec.name.isNull = true := by
      rw [unnamed]
      rfl
    have entered := add_unnamed (r := m.registry) isNull (Spec.check_unnamed isKind isLower isUpper)
    let r : Registry := { m.registry with counter := m.registry.nextNumber + 1 }
    let d : Declaration := { name := autoName m.registry.nextNumber, lower, upper, kind }
    rw [Call.on_perform, Call.result, entered]
    by_cases untold : d.notice = none
    · rw [enter_untold untold]
      exact ⟨(r.register d).2, _, _, rfl, rfl, rfl, rfl, .inr ⟨untold, rfl⟩⟩
    · rw [enter_eq untold]
      exact ⟨(r.register d).2, _, _, rfl, rfl, rfl, rfl, .inl ⟨untold, rfl⟩⟩
  failed := by
    intro e t run
    have isNull : spec.name.isNull = true := by
      rw [unnamed]
      rfl
    refine ⟨?_, ?_⟩
    · rw [Call.on_perform, registering, Call.result] at run
      cases added : m.registry.add spec with
      | mk s outcome =>
        rw [added] at run
        cases outcome with
        | ok v => cases run
        | error first =>
          cases run
          exact notDuplicate_shownBy (unnamed_not_duplicate isNull added) values.shown
    · rcases (Call.appends_ofModel m (.add spec values)).failed t e run with same | ⟨-, more⟩
      · exact .inl same
      · exact .inr more

end Store

namespace Registry.Call

/-- After any calls on an empty registry, successful or not, the next automatic name is found, is
new and moves the counter past it; a variable without a name is refused only for its kind or its
bounds; and until the next clearing no automatic name is handed out twice. -/
theorem automatic_names_are_new (owner : Nat) (calls : List Call) :
    ∃ n, (leave calls (.ofModel (.empty owner))).NamesNext n ∧
      (∀ spec : Spec, spec.name = .null → ∀ values,
        (leave calls (.ofModel (.empty owner))).AddsUnnamed n spec values) ∧
      ∀ more, .clear ∉ more → (handedOut (leave calls (.ofModel (.empty owner))) more).Nodup := by
  rw [leave_ofModel]
  exact ⟨_, Store.namesNext_ofModel _, fun _ unnamed => Store.addsUnnamed_ofModel _ unnamed,
    fun _ grow => handedOut_nodup _ grow⟩

/-- With accepted bounds a variable takes the name that is next, and the call fails. -/
theorem add_takes_name_and_fails :
    Spec.readLower Edit.Sample.sliver = .ok Edit.Sample.sliver ∧
      ∃ t, (add { name := .null, lower := Edit.Sample.sliver } fun _ => .null).perform.on
          (.ofModel (.empty 0)) = (.error .wrongValue, t) ∧
        t.model.registry.names = ["Var0"] ∧ t.model.registry.counter = 1 := by
  have accepted : (Spec.readLower Edit.Sample.sliver).toOption = some Edit.Sample.sliver := by
    decide +kernel
  let call : Call := add { name := .null, lower := Edit.Sample.sliver } fun _ => .null
  have failed : ((call.perform.on (.ofModel (.empty 0))).1) = .error .wrongValue := by
    decide +kernel
  have taken : (call.perform.on (.ofModel (.empty 0))).2.model.registry.names = ["Var0"] ∧
      (call.perform.on (.ofModel (.empty 0))).2.model.registry.counter = 1 := by decide +kernel
  exact ⟨toOption_eq_some.1 accepted, _, Prod.ext failed rfl, taken⟩

end Registry.Call

end LinOpt
