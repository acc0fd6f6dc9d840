import LinOpt.Proofs.Outcome
import LinOpt.Proofs.Text.Digits
import LinOpt.Variable.Registry
import Mathlib.Data.List.Nodup
import Mathlib.Data.List.Perm.Subperm

namespace LinOpt

/-- A number that a bound can be: an infinity only on its own side, and never NaN. -/
def Number.IsBound (own n : Number) : Prop :=
  ∃ x, n.toBinary64? = some x ∧ x.isNaN = false ∧ (x.isInfinite = true → n = own)

theorem Number.text?_real (x : Binary64) : (real x).text? ≠ none :=
  Option.some_ne_none _

theorem Number.text?_zero : (0 : Number).text? ≠ none := by
  have short : (0 : Int).natAbs < tenPower greatestLength := tenPower_pos _
  change digits? 0 ≠ none
  rw [digits?, if_pos short]
  exact Option.some_ne_none _

theorem Declaration.notice_eq_none {d : Declaration} :
    d.notice = none ↔ d.lower.text? = none ∨ d.upper.text? = none := by
  unfold notice
  cases d.lower.text? <;> cases d.upper.text? <;> simp

theorem Declaration.notice_ne_none {d : Declaration} (lower : d.lower.text? ≠ none)
    (upper : d.upper.text? ≠ none) : d.notice ≠ none :=
  fun untold => (notice_eq_none.1 untold).elim lower upper

structure Declaration.WellFormed (d : Declaration) : Prop where
  named : d.name ≠ ""
  lower : Number.IsBound .negativeInfinity d.lower
  upper : Number.IsBound .infinity d.upper

namespace Spec

theorem readName_eq_ok {given : Value} {s : String} (h : readName given = .ok s) : s ≠ "" := by
  unfold readName at h
  split at h
  · split at h
    · cases h
    · rename_i nonempty
      cases h
      simpa using nonempty
  · cases h

theorem readBound_isBound {fault : Value → SpecFault} {words : List String} {own other n : Number}
    {given : Value} (isBound : Number.IsBound own own)
    (h : readBound fault words own other given = .ok n) : Number.IsBound own n := by
  unfold readBound at h
  split at h
  · split at h
    · cases h
      exact isBound
    · cases h
  · rename_i given
    obtain ⟨x, double, h⟩ := bind_eq_ok.1 h
    rw [inRange_eq_ok] at double
    split at h
    · cases h
    · rename_i allowed
      simp only [Bool.or_eq_true, not_or, Bool.not_eq_true] at allowed
      split at h
      · cases h
        exact isBound
      · rename_i finite
        cases h
        exact ⟨x, double, allowed.1, fun infinite => absurd infinite finite⟩
  · cases h

theorem check_wellFormed {spec : Spec} {d : Declaration} (h : spec.check = .ok d) :
    d.WellFormed := by
  obtain ⟨name, named, h⟩ := bind_eq_ok.1 h
  obtain ⟨kind, -, h⟩ := bind_eq_ok.1 h
  obtain ⟨lower, isLower, h⟩ := bind_eq_ok.1 h
  obtain ⟨upper, isUpper, h⟩ := bind_eq_ok.1 h
  cases h
  exact {
    named := readName_eq_ok named
    lower := readBound_isBound ⟨.infinite true, rfl, rfl, fun _ => rfl⟩ isLower
    upper := readBound_isBound ⟨.infinite false, rfl, rfl, fun _ => rfl⟩ isUpper }

theorem check_bounds {spec : Spec} {d : Declaration} (h : spec.check = .ok d) :
    readLower spec.lower = .ok d.lower ∧ readUpper spec.upper = .ok d.upper := by
  obtain ⟨name, -, h⟩ := bind_eq_ok.1 h
  obtain ⟨kind, -, h⟩ := bind_eq_ok.1 h
  obtain ⟨lower, isLower, h⟩ := bind_eq_ok.1 h
  obtain ⟨upper, isUpper, h⟩ := bind_eq_ok.1 h
  cases h
  exact ⟨isLower, isUpper⟩

theorem check_name {spec : Spec} {d : Declaration} (h : spec.check = .ok d) :
    spec.name = .text d.name := by
  obtain ⟨name, named, h⟩ := bind_eq_ok.1 h
  obtain ⟨kind, -, h⟩ := bind_eq_ok.1 h
  obtain ⟨lower, -, h⟩ := bind_eq_ok.1 h
  obtain ⟨upper, -, h⟩ := bind_eq_ok.1 h
  cases h
  unfold readName at named
  split at named
  · rename_i given
    split at named
    · cases named
    · cases named
      exact given
  · cases named

end Spec

namespace Registry

structure WellFormed (r : Registry) : Prop where
  nodup : r.names.Nodup
  declared : ∀ v ∈ r.vars, v.WellFormed

/-- All variables have marks of the registry's own, none of them older than `start`. -/
structure Since (start : Nat) (r : Registry) : Prop where
  start_le : start ≤ r.issued
  marked : ∀ v ∈ r.vars, v.id.owner = r.owner ∧ start ≤ v.id.serial ∧ v.id.serial < r.issued

structure Extends (r s : Registry) : Prop where
  owner : s.owner = r.owner
  issued : r.issued ≤ s.issued
  vars : r.vars <+: s.vars

theorem Extends.refl (r : Registry) : r.Extends r :=
  ⟨rfl, Nat.le_refl _, List.prefix_refl _⟩

theorem Extends.trans {r s t : Registry} (first : r.Extends s) (second : s.Extends t) :
    r.Extends t :=
  ⟨second.owner.trans first.owner, Nat.le_trans first.issued second.issued,
    first.vars.trans second.vars⟩

@[simp]
theorem mem_names {r : Registry} {x : String} : x ∈ r.names ↔ ∃ v ∈ r.vars, v.name = x :=
  List.mem_map

theorem contains_iff {r : Registry} {x : String} : r.contains x = true ↔ x ∈ r.names := by
  simp [contains, List.any_eq_true]

theorem get?_eq_some {r : Registry} {x : String} {v : Variable} (h : r.get? x = some v) :
    v ∈ r.vars ∧ v.name = x := by
  have found := List.find?_some (p := fun w : Variable => w.name == x) h
  exact ⟨List.mem_of_find?_eq_some h, eq_of_beq found⟩

theorem get?_eq_none {r : Registry} {x : String} : r.get? x = none ↔ x ∉ r.names := by
  simp [get?, List.find?_eq_none]

theorem get?_of_mem {r : Registry} (nodup : r.names.Nodup) {v : Variable} (member : v ∈ r.vars) :
    r.get? v.name = some v := by
  cases found : r.get? v.name with
  | none =>
    have absent := List.find?_eq_none.1 found v member
    simp at absent
  | some w =>
    obtain ⟨other, same⟩ := get?_eq_some found
    exact congrArg some (List.inj_on_of_nodup_map nodup other member same)

theorem owns_iff {r : Registry} (nodup : r.names.Nodup) {v : Variable} :
    r.owns v = true ↔ v ∈ r.vars := by
  simp only [owns, beq_iff_eq]
  exact ⟨fun found => (get?_eq_some found).1, get?_of_mem nodup⟩

theorem mem_of_owns {r : Registry} {v : Variable} (h : r.owns v = true) : v ∈ r.vars := by
  simp only [owns, beq_iff_eq] at h
  exact (get?_eq_some h).1

theorem Extends.owns {r s : Registry} (h : r.Extends s) {v : Variable} (owned : r.owns v = true) :
    s.owns v = true := by
  obtain ⟨more, vars⟩ := h.vars
  simp only [Registry.owns, beq_iff_eq] at owned ⊢
  have found : r.vars.find? (·.name == v.name) = some v := owned
  rw [get?, ← vars, List.find?_append, found, Option.some_or]

theorem names_register (r : Registry) (d : Declaration) :
    (r.register d).1.names = r.names ++ [d.name] :=
  List.map_append

theorem register_extends (r : Registry) (d : Declaration) : r.Extends (r.register d).1 :=
  ⟨rfl, Nat.le_succ _, List.prefix_append _ _⟩

theorem WellFormed.register {r : Registry} {d : Declaration} (h : r.WellFormed)
    (sound : d.WellFormed) (fresh : d.name ∉ r.names) : (r.register d).1.WellFormed where
  nodup := by
    rw [names_register]
    refine List.nodup_append.2 ⟨h.nodup, List.nodup_singleton _, ?_⟩
    rintro x taken y new rfl
    exact fresh (List.mem_singleton.1 new ▸ taken)
  declared := by
    intro v member
    rcases List.mem_append.1 member with member | member
    · exact h.declared v member
    · rw [List.mem_singleton.1 member]
      exact sound

theorem Since.register {start : Nat} {r : Registry} (h : r.Since start) (d : Declaration) :
    (r.register d).1.Since start where
  start_le := Nat.le_succ_of_le h.start_le
  marked := by
    intro v member
    rcases List.mem_append.1 member with member | member
    · obtain ⟨owner, least, below⟩ := h.marked v member
      exact ⟨owner, least, Nat.lt_succ_of_lt below⟩
    · rw [List.mem_singleton.1 member]
      exact ⟨rfl, h.start_le, Nat.lt_succ_self _⟩

theorem register_keeps {P : Registry → Prop} (step : ∀ r d, P r → P (r.register d).1)
    {r : Registry} {ds : List Declaration} (h : P r) : P (r.registerAll ds).1 := by
  induction ds generalizing r with
  | nil => exact h
  | cons d ds ih => exact ih (step r d h)

theorem registerAll_extends (r : Registry) (ds : List Declaration) :
    r.Extends (r.registerAll ds).1 :=
  register_keeps (fun s d h => h.trans (s.register_extends d)) (.refl r)

theorem Since.registerAll {start : Nat} {r : Registry} (h : r.Since start)
    (ds : List Declaration) : (r.registerAll ds).1.Since start :=
  register_keeps (fun _ d since => since.register d) h

theorem declarations_registerAll (r : Registry) (ds : List Declaration) :
    (r.registerAll ds).1.vars.map Variable.toDeclaration =
      r.vars.map Variable.toDeclaration ++ ds := by
  induction ds generalizing r with
  | nil => exact (List.append_nil _).symm
  | cons d ds ih =>
    have first : (r.register d).1.vars.map Variable.toDeclaration =
        r.vars.map Variable.toDeclaration ++ [d] := List.map_append
    rw [List.append_cons, ← first]
    exact ih (r.register d).1

theorem WellFormed.registerAll {r : Registry} {ds : List Declaration} (h : r.WellFormed)
    (sound : ∀ d ∈ ds, d.WellFormed) (distinct : (ds.map Declaration.name).Nodup)
    (fresh : ∀ d ∈ ds, d.name ∉ r.names) : (r.registerAll ds).1.WellFormed := by
  induction ds generalizing r with
  | nil => exact h
  | cons d ds ih =>
    obtain ⟨alone, distinct⟩ := List.nodup_cons.1 distinct
    have first := h.register (sound d List.mem_cons_self) (fresh d List.mem_cons_self)
    refine ih first (fun e member => sound e (List.mem_cons_of_mem d member)) distinct ?_
    intro e member taken
    have among : e.name ∈ r.names ++ [d.name] := names_register r d ▸ taken
    rcases List.mem_append.1 among with taken | taken
    · exact fresh e (List.mem_cons_of_mem d member) taken
    · exact alone (List.mem_map.2 ⟨e, member, List.mem_singleton.1 taken⟩)

theorem fst_enter (r : Registry) (d : Declaration) : (r.enter d).1 = (r.register d).1 := by
  unfold enter
  dsimp only
  split <;> rfl

theorem enter_eq_ok {r s : Registry} {d : Declaration} {v : Variable}
    (h : r.enter d = (s, .ok v)) : (s, v) = r.register d := by
  unfold enter at h
  dsimp only at h
  split at h <;> cases h
  rfl

theorem enter_eq {r : Registry} {d : Declaration} (told : d.notice ≠ none) :
    r.enter d = ((r.register d).1, .ok (r.register d).2) := by
  obtain ⟨line, notice⟩ := Option.ne_none_iff_exists'.1 told
  simp only [enter, notice]

theorem enter_untold {r : Registry} {d : Declaration} (untold : d.notice = none) :
    r.enter d = ((r.register d).1, .error .wrongValue) := by
  simp only [enter, untold]

theorem enterAll_eq {r : Registry} {ds : List Declaration} (told : ∀ d ∈ ds, d.notice ≠ none) :
    r.enterAll ds = ((r.registerAll ds).1, .ok (r.registerAll ds).2) := by
  induction ds generalizing r with
  | nil => rfl
  | cons d ds ih =>
    obtain ⟨first, others⟩ := List.forall_mem_cons.1 told
    rw [enterAll, enter_eq first]
    dsimp only
    rw [ih others]
    rfl

theorem autoName_injective : Function.Injective autoName :=
  append_toString_injective "Var"

theorem autoName_ne_empty (n : Nat) : autoName n ≠ "" := by
  intro empty
  have lists := congrArg String.toList empty
  simp [autoName] at lists

theorem le_firstFree (taken : List String) (steps n : Nat) : n ≤ firstFree taken steps n := by
  induction steps generalizing n with
  | zero => exact Nat.le_refl n
  | succ steps ih =>
    unfold firstFree
    split
    · exact Nat.le_of_succ_le (ih (n + 1))
    · exact Nat.le_refl n

theorem counter_le_nextNumber (r : Registry) : r.counter ≤ r.nextNumber :=
  le_firstFree r.names r.names.length r.counter

theorem taken_of_firstFree_taken {taken : List String} {steps n : Nat}
    (h : autoName (firstFree taken steps n) ∈ taken) :
    ∀ i ≤ steps, autoName (n + i) ∈ taken := by
  induction steps generalizing n with
  | zero =>
    intro i bound
    rw [Nat.le_zero.1 bound]
    exact h
  | succ steps ih =>
    unfold firstFree at h
    split at h
    · rename_i here
      intro i bound
      match i with
      | 0 => exact List.contains_iff_mem.1 here
      | i + 1 =>
        have later := ih h i (Nat.le_of_succ_le_succ bound)
        rwa [Nat.add_right_comm] at later
    · rename_i free
      exact absurd (List.contains_iff_mem.2 h) free

theorem autoName_nextNumber_fresh (r : Registry) : autoName r.nextNumber ∉ r.names := by
  intro taken
  have all := taken_of_firstFree_taken taken
  let candidates := (List.range (r.names.length + 1)).map fun i => autoName (r.counter + i)
  have distinct : candidates.Nodup := by
    refine List.nodup_range.map ?_
    intro i j same
    exact Nat.add_left_cancel (autoName_injective same)
  have among : candidates ⊆ r.names := by
    intro x member
    obtain ⟨i, bound, rfl⟩ := List.mem_map.1 member
    exact all i (Nat.le_of_lt_succ (List.mem_range.1 bound))
  have few := (List.subperm_of_subset distinct among).length_le
  simp only [candidates, List.length_map, List.length_range] at few
  omega

theorem add_named {r : Registry} {spec : Spec} {d : Declaration} (given : spec.name.isNull = false)
    (checked : spec.check = .ok d) (free : d.name ∉ r.names) : r.add spec = r.enter d := by
  have notTaken : r.contains d.name = false := by
    rw [← Bool.not_eq_true, contains_iff]
    exact free
  simp only [add, given, checked, notTaken, Bool.false_eq_true, if_false]

theorem add_unnamed {r : Registry} {spec : Spec} {d : Declaration} (isNull : spec.name.isNull = true)
    (checked : { spec with name := .text "_" }.check = .ok d) :
    r.add spec = { r with counter := r.nextNumber + 1 }.enter
      { d with name := autoName r.nextNumber } := by
  simp only [add, isNull, checked, if_true]

theorem add_cases (r : Registry) (spec : Spec) :
    (∃ e, r.add spec = (r, .error e)) ∨
      (∃ d, spec.name.isNull = false ∧ spec.check = .ok d ∧ d.name ∉ r.names ∧
        r.add spec = r.enter d) ∨
      ∃ d, spec.name.isNull = true ∧ { spec with name := .text "_" }.check = .ok d ∧
        r.add spec = { r with counter := r.nextNumber + 1 }.enter
          { d with name := autoName r.nextNumber } := by
  cases given : spec.name.isNull with
  | true =>
    cases checked : ({ spec with name := .text "_" } : Spec).check with
    | error e => exact .inl ⟨e, by simp only [add, given, checked, if_true]⟩
    | ok d => exact .inr (.inr ⟨d, rfl, rfl, add_unnamed given checked⟩)
  | false =>
    cases checked : spec.check with
    | error e => exact .inl ⟨e, by simp only [add, given, checked, Bool.false_eq_true, if_false]⟩
    | ok d =>
      by_cases taken : d.name ∈ r.names
      · refine .inl ⟨.duplicateName d.name, ?_⟩
        simp only [add, given, checked, contains_iff.2 taken, Bool.false_eq_true, if_false, if_true]
      · exact .inr (.inl ⟨d, rfl, rfl, taken, add_named given checked taken⟩)

/-- What adding makes of a registry, even where it fails: sound declarations under new names have
been registered, perhaps none, and the counter may have gone on. -/
inductive Grown (r : Registry) : Registry → Prop
  | of (ds : List Declaration) (counter : Nat) (sound : ∀ d ∈ ds, d.WellFormed)
      (distinct : (ds.map Declaration.name).Nodup) (fresh : ∀ d ∈ ds, d.name ∉ r.names)
      (forward : r.counter ≤ counter) : Grown r ({ r with counter }.registerAll ds).1

theorem Grown.refl (r : Registry) : r.Grown r :=
  .of [] r.counter (fun _ member => absurd member List.not_mem_nil) List.nodup_nil
    (fun _ member => absurd member List.not_mem_nil) (Nat.le_refl _)

theorem Grown.one {r : Registry} {d : Declaration} {counter : Nat} (sound : d.WellFormed)
    (fresh : d.name ∉ r.names) (forward : r.counter ≤ counter) :
    r.Grown ({ r with counter }.register d).1 :=
  .of [d] counter (List.forall_mem_singleton.2 sound) (List.nodup_singleton _)
    (List.forall_mem_singleton.2 fresh) forward

theorem Grown.extends {r s : Registry} (h : r.Grown s) : r.Extends s := by
  cases h with
  | of ds counter sound distinct fresh forward =>
    have more := registerAll_extends { r with counter } ds
    exact ⟨more.owner, more.issued, more.vars⟩

theorem grown_add (r : Registry) (spec : Spec) : r.Grown (r.add spec).1 := by
  rcases r.add_cases spec with
    ⟨e, refused⟩ | ⟨d, -, checked, free, entered⟩ | ⟨d, -, checked, entered⟩
  · rw [refused]
    exact .refl r
  · rw [entered, fst_enter]
    exact .one (Spec.check_wellFormed checked) free (Nat.le_refl _)
  · have sound := Spec.check_wellFormed checked
    have named : ({ d with name := autoName r.nextNumber } : Declaration).WellFormed :=
      ⟨autoName_ne_empty _, sound.lower, sound.upper⟩
    rw [entered, fst_enter]
    exact .one named r.autoName_nextNumber_fresh (Nat.le_succ_of_le r.counter_le_nextNumber)

theorem add_given {r s : Registry} {spec : Spec} {v : Variable} (given : spec.name.isNull = false)
    (h : r.add spec = (s, .ok v)) :
    ∃ d, spec.check = .ok d ∧ d.name ∉ r.names ∧ (s, v) = r.register d := by
  rcases r.add_cases spec with
    ⟨e, refused⟩ | ⟨d, -, checked, free, entered⟩ | ⟨d, isNull, -, -⟩
  · rw [refused] at h
    cases h
  · exact ⟨d, checked, free, enter_eq_ok (entered.symm.trans h)⟩
  · rw [given] at isNull
    cases isNull

theorem freshNames_eq_ok {taken : List String} {given : List Value} {names : List String}
    (h : freshNames taken given = .ok names) : names.Nodup ∧ ∀ x ∈ names, x ∉ taken := by
  induction given generalizing taken names with
  | nil =>
    cases h
    exact ⟨List.nodup_nil, fun _ member => absurd member List.not_mem_nil⟩
  | cons value given ih =>
    cases value with
    | text s =>
      unfold freshNames at h
      split at h
      · cases h
      · rename_i free
        obtain ⟨rest, others, h⟩ := bind_eq_ok.1 h
        cases h
        obtain ⟨nodup, fresh⟩ := ih others
        refine ⟨List.nodup_cons.2 ⟨fun again => fresh s again List.mem_cons_self, nodup⟩, ?_⟩
        intro x member
        rcases List.mem_cons.1 member with rfl | member
        · exact fun there => free (List.contains_iff_mem.2 there)
        · exact fun there => fresh x member (List.mem_cons_of_mem s there)
    | _ => cases h

theorem freshNames_of_nodup {taken names : List String} (distinct : names.Nodup)
    (free : ∀ x ∈ names, x ∉ taken) : freshNames taken (names.map .text) = .ok names := by
  induction names generalizing taken with
  | nil => rfl
  | cons x names ih =>
    obtain ⟨alone, distinct⟩ := List.nodup_cons.1 distinct
    obtain ⟨isFree, others⟩ := List.forall_mem_cons.1 free
    have rest : freshNames (x :: taken) (names.map .text) = .ok names := by
      apply ih distinct
      intro y member known
      rcases List.mem_cons.1 known with rfl | known
      · exact alone member
      · exact others y member known
    rw [List.map_cons, freshNames, if_neg fun known => isFree (List.contains_iff_mem.1 known), rest]
    rfl

theorem freshNames_declared {taken fresh : List String} {given : List Value}
    {lower upper kind : Value} {ds : List Declaration} (free : freshNames taken given = .ok fresh)
    (declared : (fresh.mapM fun name => Spec.check { name := .text name, lower, upper, kind }) =
      .ok ds) :
    (∀ d ∈ ds, d.WellFormed) ∧ (ds.map Declaration.name).Nodup ∧ ∀ d ∈ ds, d.name ∉ taken := by
  have sameNames : fresh = ds.map Declaration.name := by
    rw [← List.forall₂_eq_eq_eq, List.forall₂_map_right_iff]
    refine (forall₂_of_mapM declared).imp ?_
    intro x d checked
    have named := Spec.check_name checked
    injection named
  obtain ⟨nodup, free⟩ := freshNames_eq_ok free
  refine ⟨fun d member => ?_, sameNames ▸ nodup, fun d member => ?_⟩
  · obtain ⟨x, -, checked⟩ := exists_of_mem_mapM declared member
    exact Spec.check_wellFormed checked
  · exact free d.name (sameNames ▸ List.mem_map_of_mem member)

theorem declareMany_sound {r : Registry} {names lower upper kind : Value} {ds : List Declaration}
    (h : r.declareMany names lower upper kind = .ok ds) :
    (∀ d ∈ ds, d.WellFormed) ∧ (ds.map Declaration.name).Nodup ∧ ∀ d ∈ ds, d.name ∉ r.names := by
  unfold declareMany at h
  split at h
  · obtain ⟨fresh, free, declared⟩ := bind_eq_ok.1 h
    exact freshNames_declared free declared
  · cases h

theorem declareMany_bounds {r : Registry} {names lower upper kind : Value} {ds : List Declaration}
    (h : r.declareMany names lower upper kind = .ok ds) :
    ∀ d ∈ ds, Spec.readLower lower = .ok d.lower ∧ Spec.readUpper upper = .ok d.upper := by
  unfold declareMany at h
  split at h
  · obtain ⟨fresh, free, declared⟩ := bind_eq_ok.1 h
    intro d member
    obtain ⟨x, -, checked⟩ := exists_of_mem_mapM declared member
    exact Spec.check_bounds checked
  · cases h

theorem addMany_of_declared {r : Registry} {names lower upper kind : Value} {ds : List Declaration}
    (declared : r.declareMany names lower upper kind = .ok ds) :
    ((∀ d ∈ ds, d.notice ≠ none) ∧ r.addMany names lower upper kind =
        ((r.registerAll ds).1, .ok (r.registerAll ds).2)) ∨
      ∃ d rest, ds = d :: rest ∧ d.notice = none ∧
        r.addMany names lower upper kind = ((r.register d).1, .error .wrongValue) := by
  have entered : r.addMany names lower upper kind = r.enterAll ds := by rw [addMany, declared]
  have bounds := declareMany_bounds declared
  rw [entered]
  cases ds with
  | nil => exact .inl ⟨fun _ member => absurd member List.not_mem_nil, rfl⟩
  | cons d ds =>
    by_cases untold : d.notice = none
    · refine .inr ⟨d, ds, rfl, untold, ?_⟩
      rw [enterAll, enter_untold untold]
    · -- All have the bounds of the first one, so that all can be told of.
      have told : ∀ e ∈ d :: ds, e.notice ≠ none := by
        intro e member alsoUntold
        obtain ⟨lower, upper⟩ := bounds d List.mem_cons_self
        obtain ⟨sameLower, sameUpper⟩ := bounds e member
        rw [lower] at sameLower
        rw [upper] at sameUpper
        rw [Declaration.notice_eq_none, ← Except.ok.inj sameLower, ← Except.ok.inj sameUpper,
          ← Declaration.notice_eq_none] at alsoUntold
        exact untold alsoUntold
      exact .inl ⟨told, enterAll_eq told⟩

theorem grown_addMany (r : Registry) (names lower upper kind : Value) :
    r.Grown (r.addMany names lower upper kind).1 := by
  cases declared : r.declareMany names lower upper kind with
  | error e =>
    rw [addMany, declared]
    exact .refl r
  | ok ds =>
    obtain ⟨sound, distinct, fresh⟩ := declareMany_sound declared
    rcases addMany_of_declared declared with ⟨-, all⟩ | ⟨d, rest, rfl, -, first⟩
    · rw [all]
      exact .of ds r.counter sound distinct fresh (Nat.le_refl _)
    · rw [first]
      exact .one (sound d List.mem_cons_self) (fresh d List.mem_cons_self) (Nat.le_refl _)

end Registry

end LinOpt
