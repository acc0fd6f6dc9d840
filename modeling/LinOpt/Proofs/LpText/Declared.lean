import LinOpt.Proofs.LpText.Reading
import LinOpt.Proofs.Model.WellFormed

namespace LinOpt

namespace Registry

def declared? (r : Registry) (x : String) : Option Declaration :=
  (r.get? x).map Variable.toDeclaration

variable {r s : Registry} {d : Declaration} {x y : String}

theorem contains_eq_isSome (r : Registry) (x : String) :
    r.contains x = (r.declared? x).isSome := by
  rw [declared?, Option.isSome_map, contains, get?, Bool.eq_iff_iff, List.find?_isSome,
    List.any_eq_true]

theorem declared?_clear (r : Registry) (x : String) : r.clear.declared? x = none :=
  rfl

theorem declared?_register (fresh : r.declared? d.name = none) (x : String) :
    (r.register d).1.declared? x = if x = d.name then some d else r.declared? x := by
  have absent : r.get? d.name = none := Option.map_eq_none_iff.1 fresh
  unfold declared? get?
  rw [register, List.find?_append]
  by_cases same : x = d.name
  · subst same
    rw [get?] at absent
    rw [if_pos rfl, absent]
    simp
  · have other : (d.name == x) = false := beq_eq_false_iff_ne.2 (Ne.symm same)
    rw [if_neg same]
    simp [other]

theorem declared?_setKind (r : Registry) (x : String) (kind : Kind) (y : String) :
    (r.setKind x kind).declared? y =
      if y = x then (r.declared? y).map ({ · with kind }) else r.declared? y := by
  have names : (fun v : Variable => (if v.name == x then { v with kind } else v).name == y) =
      fun v => v.name == y := by
    funext v
    split <;> rfl
  unfold declared? get? setKind
  rw [List.find?_map]
  show ((r.vars.find? (fun v => (if v.name == x then { v with kind } else v).name == y)).map _).map
    _ = _
  rw [names]
  cases found : r.vars.find? (·.name == y) with
  | none => simp
  | some v =>
    obtain rfl : v.name = y := (get?_eq_some found).2
    by_cases same : v.name = x <;> simp [same]

theorem add_of_check {spec : Spec} (named : spec.name.isNull = false)
    (checked : spec.check = .ok d) (fresh : r.declared? d.name = none) (told : d.notice ≠ none) :
    r.add spec = ((r.register d).1, .ok (r.register d).2) := by
  have free : r.contains d.name = false := by
    rw [contains_eq_isSome, fresh]
    rfl
  rw [add, if_neg (by rw [named]; exact Bool.false_ne_true), checked]
  dsimp only
  rw [free, if_neg Bool.false_ne_true, enter_eq told]

end Registry

namespace Spec

theorem readName_ok {x : String} (named : x ≠ "") : readName (.text x) = .ok x := by
  rw [readName, if_neg (by simpa using named)]

theorem ofText?_text (kind : Kind) : Kind.ofText? kind.text = some kind := by
  cases kind <;> decide +kernel

theorem readKind_ok (kind : Kind) : readKind (.text kind.text) = .ok kind := by
  rw [readKind, ofText?_text]

theorem check_ok {spec : Spec} {x : String} {lower upper : Number} {kind : Kind}
    (isName : spec.name = .text x) (named : x ≠ "") (isKind : spec.kind = .text kind.text)
    (isLower : readLower spec.lower = .ok lower) (isUpper : readUpper spec.upper = .ok upper) :
    spec.check = .ok { name := x, lower, upper, kind } := by
  rw [check, isName, readName_ok named, isKind, readKind_ok, isLower, isUpper]
  rfl

variable {fault : Value → SpecFault} {words : List String} {own other n : Number} {x : Binary64}

theorem readBound_finite (read : n.toBinary64? = some x) (finite : x.isFinite = true)
    (inside : n.same other = false) :
    readBound fault words own other (.number n) = .ok n := by
  apply bind_eq_ok.2 ⟨x, inRange_eq_ok.2 read, _⟩
  rw [inside]
  cases x with
  | nan => cases finite
  | infinite negative => cases finite
  | finite negative quanta short bound => rfl

theorem finite_ne_infinite {x : Binary64} (finite : x.isFinite = true) (negative : Bool) :
    (Number.real x).same (.real (.infinite negative)) = false := by
  cases x with
  | nan => cases finite
  | infinite negative => cases finite
  | finite s quanta short bound => cases negative <;> rfl

theorem readLower_zero : readLower (.number 0) = .ok 0 := by
  have read : (0 : Number).toBinary64? = some (Binary64.zero false) := by
    rw [← Number.double_zero]
    exact Number.isExact_zero.toBinary64?
  exact readBound_finite read rfl rfl

theorem readUpper_infinity : readUpper (.number .infinity) = .ok .infinity :=
  rfl

theorem readLower_settled {d : Declaration} (declared : d.WellFormed) :
    readLower (.number (.real d.lower.double.settled)) = .ok (.real d.lower.double.settled) := by
  rcases declared.lower.eq_or_isFinite with infinite | finite
  · rw [infinite]
    rfl
  · have isFinite : d.lower.double.settled.isFinite = true := by
      rw [Binary64.isFinite_settled]
      exact finite
    exact readBound_finite rfl isFinite (finite_ne_infinite isFinite false)

theorem readUpper_settled {d : Declaration} (declared : d.WellFormed) :
    readUpper (.number (.real d.upper.double.settled)) = .ok (.real d.upper.double.settled) := by
  rcases declared.upper.eq_or_isFinite with infinite | finite
  · rw [infinite]
    rfl
  · have isFinite : d.upper.double.settled.isFinite = true := by
      rw [Binary64.isFinite_settled]
      exact finite
    exact readBound_finite rfl isFinite (finite_ne_infinite isFinite true)

end Spec

namespace LpText

open Registry

def bounded (v : Variable) : Declaration where
  name := v.name
  lower := .real v.lower.double.settled
  upper := .real v.upper.double.settled

variable {r : Registry} {x y : String}

theorem declareBound_ok {v : Variable} (named : v.name ≠ "") (declared : v.WellFormed)
    (fresh : r.declared? v.name = none) :
    declareBound r (describedBound v) = .ok (r.register (bounded v)).1 := by
  have checked : (describedBound v).spec.check = .ok (bounded v) :=
    Spec.check_ok rfl named rfl (Spec.readLower_settled declared) (Spec.readUpper_settled declared)
  have told : (bounded v).notice ≠ none :=
    Declaration.notice_ne_none (Number.text?_real _) (Number.text?_real _)
  exact register_eq_ok.2 ⟨_, add_of_check rfl checked fresh told⟩

theorem default_told (x : String) (kind : Kind) :
    ({ name := x, kind } : Declaration).notice ≠ none :=
  Declaration.notice_ne_none Number.text?_zero (Number.text?_real _)

theorem check_default (named : x ≠ "") (kind : Kind) :
    Spec.check { name := .text x, kind := .text kind.text } = .ok { name := x, kind } :=
  Spec.check_ok rfl named rfl Spec.readLower_zero Spec.readUpper_infinity

/-- A step that declares something under one name, in view of what is declared there already. -/
def Declares (step : Registry → String → Except Error Registry)
    (update : String → Option Declaration → Declaration) (x : String) : Prop :=
  ∀ r, ∃ s, step r x = .ok s ∧
    ∀ y, s.declared? y = if y = x then some (update x (r.declared? x)) else r.declared? y

theorem declareKind_declares (named : x ≠ "") (kind : Kind) :
    Declares (declareKind kind) (fun x d => { d.getD { name := x } with kind }) x := by
  intro r
  unfold declareKind
  rw [contains_eq_isSome]
  cases before : r.declared? x with
  | none =>
    have added := add_of_check (r := r) rfl (check_default named kind) before (default_told x kind)
    refine ⟨_, register_eq_ok.2 ⟨_, added⟩, fun y => ?_⟩
    exact declared?_register before y
  | some d =>
    refine ⟨_, rfl, fun y => ?_⟩
    rw [declared?_setKind]
    by_cases same : y = x
    · rw [if_pos same, if_pos same, same, before]
      rfl
    · rw [if_neg same, if_neg same]

theorem declareName_declares (named : x ≠ "") :
    Declares declareName (fun x d => d.getD { name := x }) x := by
  intro r
  unfold declareName
  rw [contains_eq_isSome]
  cases before : r.declared? x with
  | none =>
    have checked : Spec.check { name := .text x } = .ok { name := x } :=
      check_default named .continuous
    have added := add_of_check (r := r) rfl checked before (default_told x .continuous)
    refine ⟨_, register_eq_ok.2 ⟨_, added⟩, fun y => ?_⟩
    exact declared?_register before y
  | some d =>
    refine ⟨r, rfl, fun y => ?_⟩
    by_cases same : y = x
    · rw [if_pos same, same, before]
      rfl
    · rw [if_neg same]

theorem declareAll {step : Registry → String → Except Error Registry}
    {update : String → Option Declaration → Declaration} {names : List String}
    (declares : ∀ x ∈ names, Declares step update x)
    (again : ∀ x d, update x (some (update x d)) = update x d) (r : Registry) :
    ∃ s, names.foldlM step r = .ok s ∧ ∀ y, s.declared? y =
      if y ∈ names then some (update y (r.declared? y)) else r.declared? y := by
  induction names generalizing r with
  | nil => exact ⟨r, rfl, fun y => by simp⟩
  | cons x names ih =>
    obtain ⟨s, first, changed⟩ := declares x List.mem_cons_self r
    obtain ⟨t, others, final⟩ := ih (fun y member => declares y (List.mem_cons_of_mem x member)) s
    refine ⟨t, foldlM_cons_eq_ok.2 ⟨s, first, others⟩, fun y => ?_⟩
    rw [final, changed]
    by_cases same : y = x
    · subst same
      simp [again]
    · simp [same]

theorem declareBounds {vs : List Variable} (named : ∀ v ∈ vs, v.name ≠ "")
    (declared : ∀ v ∈ vs, v.WellFormed) (distinct : (vs.map (·.name)).Nodup)
    (fresh : ∀ v ∈ vs, r.declared? v.name = none) :
    ∃ s, (vs.map describedBound).foldlM declareBound r = .ok s ∧ ∀ x, s.declared? x =
      ((vs.find? (·.name == x)).map bounded).or (r.declared? x) := by
  induction vs generalizing r with
  | nil => exact ⟨r, rfl, fun x => rfl⟩
  | cons v vs ih =>
    obtain ⟨alone, distinct⟩ := List.nodup_cons.1 distinct
    have isFresh := fresh v List.mem_cons_self
    have first := declareBound_ok (named v List.mem_cons_self) (declared v List.mem_cons_self)
      isFresh
    have changed := declared?_register (d := bounded v) isFresh
    have others : ∀ w ∈ vs, (r.register (bounded v)).1.declared? w.name = none := by
      intro w member
      have different : w.name ≠ v.name := fun same => alone (List.mem_map.2 ⟨w, member, same⟩)
      rw [changed, bounded, if_neg different]
      exact fresh w (List.mem_cons_of_mem v member)
    obtain ⟨s, rest, final⟩ := ih (fun w member => named w (List.mem_cons_of_mem v member))
      (fun w member => declared w (List.mem_cons_of_mem v member)) distinct others
    refine ⟨s, foldlM_cons_eq_ok.2 ⟨_, first, rest⟩, fun x => ?_⟩
    rw [final, changed, List.find?_cons]
    by_cases same : v.name = x
    · subst same
      have absent : vs.find? (·.name == v.name) = none := by
        rw [List.find?_eq_none]
        intro w member found
        exact alone (List.mem_map.2 ⟨w, member, eq_of_beq found⟩)
      rw [absent, beq_self_eq_true]
      simp [bounded]
    · rw [beq_eq_false_iff_ne.2 same, if_neg fun other => same other.symm]

theorem addBound_fresh {entry : BoundEntry} {entries : List BoundEntry}
    (fresh : entry.name ∉ entries.map BoundEntry.name) :
    addBound entry entries = entries ++ [entry] := by
  induction entries with
  | nil => rfl
  | cons e entries ih =>
    rw [List.map_cons, List.mem_cons, not_or] at fresh
    rw [addBound, if_neg (Ne.symm fresh.1), ih fresh.2]
    rfl

theorem mergeBounds_distinct {entries : List BoundEntry}
    (distinct : (entries.map BoundEntry.name).Nodup) : mergeBounds entries = entries := by
  have all (merged : List BoundEntry) (distinct : ((merged ++ entries).map BoundEntry.name).Nodup) :
      entries.foldl (fun merged entry => addBound entry merged) merged = merged ++ entries := by
    induction entries generalizing merged with
    | nil => exact (List.append_nil merged).symm
    | cons e entries ih =>
      have fresh : e.name ∉ merged.map BoundEntry.name := by
        rw [List.map_append, List.map_cons] at distinct
        exact fun member => (List.nodup_append.1 distinct).2.2 _ member _ List.mem_cons_self rfl
      have moved : merged ++ e :: entries = merged ++ [e] ++ entries := by simp
      rw [List.foldl_cons, addBound_fresh fresh, moved]
      rw [moved] at distinct
      apply ih _ _ distinct
      rw [List.map_append] at distinct
      exact (List.nodup_append.1 distinct).2.1
  exact all [] distinct

end LpText

/-- The text of a model says something about a variable: a term, bounds or a kind. -/
def Model.Mentions (m : Model) (v : Variable) : Prop :=
  (∃ e ∈ m.expressions, ∃ t ∈ e.terms, v ∈ t.vars) ∨ v.hasDefaultBounds = false ∨
    v.kind ≠ .continuous

theorem Registry.WellFormed.eq_of_name {r : Registry} (h : r.WellFormed) {v w : Variable}
    (first : w ∈ r.vars) (second : v ∈ r.vars) (same : w.name = v.name) : w = v :=
  List.inj_on_of_nodup_map h.nodup first second same

namespace LpText

open Registry

variable {m : Model}

theorem names_written (e : Expression) (withConstant : Bool) :
    ((writtenItems e withConstant).map summand).flatMap Summand.names =
      e.terms.flatMap fun t => t.vars.map (·.name) := by
  have terms : ((e.terms.map Item.term).map summand).flatMap Summand.names =
      e.terms.flatMap fun t => t.vars.map (·.name) := by
    rw [List.map_map, List.flatMap_map]
    apply List.flatMap_congr
    intro t _
    cases t <;> rfl
  rw [writtenItems, List.map_append, List.flatMap_append, terms]
  split <;> rfl

theorem usedNames_described (m : Model) :
    (described m).usedNames =
      m.expressions.flatMap fun e => e.terms.flatMap fun t => t.vars.map (·.name) := by
  have rows : ((m.constraints.zipIdx.map describedRow).flatMap Row.summands).flatMap Summand.names =
      (m.constraints.map Constraint.lhs).flatMap fun e =>
        e.terms.flatMap fun t => t.vars.map (·.name) := by
    rw [List.flatMap_assoc, List.flatMap_map, List.flatMap_map]
    nth_rewrite 2 [← List.zipIdx_map_fst 0 m.constraints]
    rw [List.flatMap_map]
    apply List.flatMap_congr
    intro i _
    exact names_written i.1.lhs false
  rw [Document.usedNames, List.flatMap_append]
  show (((writtenItems m.objective.expression true).map summand).flatMap Summand.names) ++
    ((m.constraints.zipIdx.map describedRow).flatMap Row.summands).flatMap Summand.names = _
  rw [names_written, rows]
  rfl

theorem mem_usedNames {x : String} : x ∈ (described m).usedNames ↔
    ∃ e ∈ m.expressions, ∃ t ∈ e.terms, ∃ v ∈ t.vars, v.name = x := by
  rw [usedNames_described]
  simp only [List.mem_flatMap, List.mem_map]

theorem name_mem_usedNames (sound : m.WellFormed) {v : Variable} (member : v ∈ m.registry.vars) :
    v.name ∈ (described m).usedNames ↔ ∃ e ∈ m.expressions, ∃ t ∈ e.terms, v ∈ t.vars := by
  rw [mem_usedNames]
  constructor
  · rintro ⟨e, among, t, isTerm, w, ofTerm, same⟩
    have owned := mem_of_owns ((sound.expressions e among).2 t isTerm w ofTerm)
    obtain rfl := sound.registry.eq_of_name owned member same
    exact ⟨e, among, t, isTerm, ofTerm⟩
  · rintro ⟨e, among, t, isTerm, ofTerm⟩
    exact ⟨e, among, t, isTerm, v, ofTerm, rfl⟩

theorem name_mem_namesOfKind (sound : m.WellFormed) {v : Variable} (member : v ∈ m.registry.vars)
    (kind : Kind) : v.name ∈ namesOfKind m kind ↔ v.kind = kind := by
  rw [namesOfKind, List.mem_map]
  constructor
  · rintro ⟨w, among, same⟩
    obtain ⟨other, isKind⟩ := List.mem_filter.1 among
    obtain rfl := sound.registry.eq_of_name other member same
    exact eq_of_beq isKind
  · intro isKind
    exact ⟨v, List.mem_filter.2 ⟨member, beq_iff_eq.2 isKind⟩, rfl⟩

theorem find?_boundedVars (sound : m.WellFormed) {v : Variable} (member : v ∈ m.registry.vars) :
    (boundedVars m).find? (·.name == v.name) = if v.hasDefaultBounds then none else some v := by
  by_cases isDefault : v.hasDefaultBounds = true
  · rw [if_pos isDefault, List.find?_eq_none]
    intro w among found
    obtain ⟨other, notDefault⟩ := List.mem_filter.1 among
    rw [sound.registry.eq_of_name other member (eq_of_beq found), isDefault] at notDefault
    cases notDefault
  · rw [if_neg isDefault]
    have among : v ∈ boundedVars m := List.mem_filter.2 ⟨member, by simp [isDefault]⟩
    cases found : (boundedVars m).find? (·.name == v.name) with
    | none =>
      have absent := List.find?_eq_none.1 found v among
      simp at absent
    | some w =>
      have other := (List.mem_filter.1 (List.mem_of_find?_eq_some found)).1
      have same : (w.name == v.name) = true := by
        apply List.find?_some found
      rw [sound.registry.eq_of_name other member (eq_of_beq same)]

def redeclared (v : Variable) : Declaration :=
  if v.hasDefaultBounds then { name := v.name, kind := v.kind } else { bounded v with kind := v.kind }

theorem kind_redeclared (v : Variable) : (redeclared v).kind = v.kind := by
  unfold redeclared
  split <;> rfl

theorem name_redeclared (v : Variable) : (redeclared v).name = v.name := by
  unfold redeclared
  split <;> rfl

theorem boundedVars_distinct (sound : m.WellFormed) : ((boundedVars m).map (·.name)).Nodup :=
  sound.registry.nodup.sublist (List.filter_sublist.map _)

theorem mergeBounds_described (sound : m.WellFormed) :
    mergeBounds (described m).bounds = (boundedVars m).map describedBound := by
  apply mergeBounds_distinct
  show (((boundedVars m).map describedBound).map BoundEntry.name).Nodup
  rw [List.map_map]
  exact boundedVars_distinct sound

theorem own_of_mem_namesOfKind {kind : Kind} {x : String} (member : x ∈ namesOfKind m kind) :
    x ∈ m.registry.names := by
  obtain ⟨v, among, rfl⟩ := List.mem_map.1 member
  exact mem_names.2 ⟨v, List.mem_of_mem_filter among, rfl⟩

theorem own_of_mem_usedNames (sound : m.WellFormed) {x : String}
    (member : x ∈ (described m).usedNames) : x ∈ m.registry.names := by
  obtain ⟨e, among, t, isTerm, v, ofTerm, rfl⟩ := mem_usedNames.1 member
  exact mem_names.2 ⟨v, mem_of_owns ((sound.expressions e among).2 t isTerm v ofTerm), rfl⟩

theorem declare_described (sound : m.WellFormed) {r : Registry}
    (empty : ∀ x, r.declared? x = none) :
    ∃ s, (described m).declare r = .ok s ∧
      (∀ v ∈ m.registry.vars, (m.Mentions v → s.declared? v.name = some (redeclared v)) ∧
        (¬m.Mentions v → s.declared? v.name = none)) ∧
      ∀ x, x ∉ m.registry.names → s.declared? x = none := by
  have isBounded : ∀ v ∈ boundedVars m, v ∈ m.registry.vars := fun v => List.mem_of_mem_filter
  have named : ∀ x ∈ m.registry.names, x ≠ "" := by
    intro x member
    obtain ⟨v, among, rfl⟩ := mem_names.1 member
    exact (sound.registry.declared v among).named
  have declares (kind : Kind) : ∀ x ∈ namesOfKind m kind,
      Declares (declareKind kind) (fun x d => { d.getD { name := x } with kind }) x :=
    fun x member => declareKind_declares (named x (own_of_mem_namesOfKind member)) kind
  -- Each of the four passes changes what is declared under the names of its own list only.
  obtain ⟨first, bounds, afterBounds⟩ := declareBounds
    (fun v among => (sound.registry.declared v (isBounded v among)).named)
    (fun v among => sound.registry.declared v (isBounded v among)) (boundedVars_distinct sound)
    fun v _ => empty v.name
  obtain ⟨second, binaries, afterBinaries⟩ := declareAll (declares .binary) (fun _ _ => rfl) first
  obtain ⟨third, generals, afterGenerals⟩ := declareAll (declares .integer) (fun _ _ => rfl) second
  obtain ⟨s, names, final⟩ := declareAll (fun x member =>
    declareName_declares (named x (own_of_mem_usedNames sound member))) (fun _ _ => rfl) third
  refine ⟨s, ?_, fun v member => ?_, fun x unknown => ?_⟩
  · unfold Document.declare
    rw [mergeBounds_described sound]
    have lists : (described m).binary = namesOfKind m .binary ∧
        (described m).general = namesOfKind m .integer := ⟨rfl, rfl⟩
    rw [bounds, ok_bind, lists.1, binaries, ok_bind, lists.2, generals, ok_bind, names]
  · have atName := final v.name
    rw [afterGenerals, afterBinaries, afterBounds, empty, find?_boundedVars sound member] at atName
    simp only [name_mem_usedNames sound member, name_mem_namesOfKind sound member] at atName
    unfold Model.Mentions redeclared
    rw [atName]
    by_cases isUsed : ∃ e ∈ m.expressions, ∃ t ∈ e.terms, v ∈ t.vars <;>
      cases kind : v.kind <;> cases isDefault : v.hasDefaultBounds <;>
      simp [isUsed, bounded]
  · have absent : ∀ v ∈ boundedVars m, ¬(v.name == x) = true := fun v among found =>
      unknown (mem_names.2 ⟨v, isBounded v among, eq_of_beq found⟩)
    rw [final, if_neg fun member => unknown (own_of_mem_usedNames sound member), afterGenerals,
      if_neg fun member => unknown (own_of_mem_namesOfKind member), afterBinaries,
      if_neg fun member => unknown (own_of_mem_namesOfKind member), afterBounds, empty,
      List.find?_eq_none.2 absent]
    rfl

end LpText

end LinOpt
