import LinOpt.Proofs.Constraint.Sides
import LinOpt.Proofs.Expression.Reread
import LinOpt.Proofs.LpText.Registered

namespace LinOpt

open Registry

theorem Sense.read_text (sense : Sense) : Sense.read (.text sense.text) = .ok sense := by
  have found : [maximize, minimize].find? (·.text == Text.basicUpper sense.text) = some sense := by
    cases sense <;> decide +kernel
  rw [Sense.read, found]

namespace Spec

theorem readBound_given {fault : Value → SpecFault} {words : List String} {negative : Bool}
    {x : Binary64} {n : Number}
    (read : readBound fault words (.real (.infinite negative)) (.real (.infinite !negative))
      (.number (.real x)) = .ok n) : n = .real x := by
  cases x with
  | nan => cases read
  | infinite s =>
    cases s <;> cases negative <;> cases read <;> rfl
  | finite s quanta short bound =>
    rw [readBound_finite rfl rfl (finite_ne_infinite rfl _)] at read
    cases read
    rfl

end Spec

namespace LpText

def BoundEntry.declaration (entry : BoundEntry) : Declaration where
  name := entry.name
  lower := (entry.lower.map Number.real).getD 0
  upper := (entry.upper.map Number.real).getD .infinity

/-- What a document declares under a name. -/
def Document.declaration (d : Document) (x : String) : Declaration where
  name := x
  lower := ((lastSet BoundEntry.lower d.bounds x).map Number.real).getD 0
  upper := ((lastSet BoundEntry.upper d.bounds x).map Number.real).getD .infinity
  kind := if x ∈ d.general then .integer else if x ∈ d.binary then .binary else .continuous

theorem check_spec {entry : BoundEntry} {d : Declaration} (checked : entry.spec.check = .ok d) :
    d = entry.declaration := by
  have named := Spec.check_name checked
  obtain ⟨name, -, checked⟩ := bind_eq_ok.1 checked
  obtain ⟨kind, isKind, checked⟩ := bind_eq_ok.1 checked
  obtain ⟨lower, isLower, checked⟩ := bind_eq_ok.1 checked
  obtain ⟨upper, isUpper, checked⟩ := bind_eq_ok.1 checked
  cases checked
  cases named
  have continuous : kind = .continuous := by
    rw [BoundEntry.spec, Spec.readKind_ok .continuous] at isKind
    cases isKind
    rfl
  have least : lower = (entry.lower.map Number.real).getD 0 := by
    unfold BoundEntry.spec at isLower
    cases given : entry.lower with
    | none =>
      rw [given] at isLower
      cases isLower.symm.trans Spec.readLower_zero
      rfl
    | some x =>
      rw [given] at isLower
      exact Spec.readBound_given isLower
  have greatest : upper = (entry.upper.map Number.real).getD .infinity := by
    unfold BoundEntry.spec at isUpper
    cases given : entry.upper with
    | none =>
      rw [given] at isUpper
      cases isUpper.symm.trans Spec.readUpper_infinity
      rfl
    | some x =>
      rw [given] at isUpper
      exact Spec.readBound_given isUpper
  rw [continuous, least, greatest]
  rfl

variable {r s : Registry} {d : Document}

theorem declared?_eq_none {x : String} (absent : x ∉ r.names) : r.declared? x = none :=
  Option.map_eq_none_iff.2 (get?_eq_none.2 absent)

theorem declareBound_declared {entry : BoundEntry} (run : declareBound r entry = .ok s)
    (x : String) :
    s.declared? x = if x = entry.name then some entry.declaration else r.declared? x := by
  obtain ⟨v, added⟩ := register_eq_ok.1 run
  obtain ⟨declaration, checked, fresh, registered⟩ := add_given rfl added
  obtain rfl := check_spec checked
  obtain rfl : s = _ := congrArg Prod.fst registered
  exact declared?_register (declared?_eq_none fresh) x

theorem declareBounds_declared {entries : List BoundEntry}
    (distinct : (entries.map BoundEntry.name).Nodup)
    (run : entries.foldlM declareBound r = .ok s) :
    (∀ entry ∈ entries, s.declared? entry.name = some entry.declaration) ∧
      ∀ x ∉ entries.map BoundEntry.name, s.declared? x = r.declared? x := by
  induction entries generalizing r with
  | nil =>
    cases run
    exact ⟨fun _ member => absurd member List.not_mem_nil, fun _ _ => rfl⟩
  | cons e entries ih =>
    obtain ⟨alone, distinct⟩ := List.nodup_cons.1 distinct
    obtain ⟨t, first, rest⟩ := foldlM_cons_eq_ok.1 run
    obtain ⟨known, others⟩ := ih distinct rest
    constructor
    · intro entry member
      rcases List.mem_cons.1 member with rfl | member
      · rw [others _ alone, declareBound_declared first, if_pos rfl]
      · exact known entry member
    · intro x absent
      rw [List.map_cons, List.mem_cons, not_or] at absent
      rw [others x absent.2, declareBound_declared first, if_neg absent.1]

def Document.continuous (d : Document) (x : String) : Declaration :=
  { d.declaration x with kind := .continuous }

theorem continuous_unbounded {x : String} (absent : x ∉ d.bounds.map BoundEntry.name) :
    d.continuous x = { name := x } := by
  rw [Document.continuous, Document.declaration, lastSet_eq_none absent, lastSet_eq_none absent]
  rfl

theorem declared?_bounds (empty : r.vars = [])
    (run : (mergeBounds d.bounds).foldlM declareBound r = .ok s) (x : String) :
    s.declared? x =
      if x ∈ d.bounds.map BoundEntry.name then some (d.continuous x) else none := by
  have merges := merges_mergeBounds d.bounds
  obtain ⟨known, others⟩ := declareBounds_declared merges.distinct run
  by_cases bounded : x ∈ d.bounds.map BoundEntry.name
  · obtain ⟨entry, member, rfl⟩ := List.mem_map.1 ((merges.names x).2 bounded)
    rw [if_pos bounded, known entry member, BoundEntry.declaration, merges.lower entry member,
      merges.upper entry member]
    rfl
  · rw [if_neg bounded, others x (fun member => bounded ((merges.names x).1 member)), declared?,
      get?, empty]
    rfl

def declaredOr (r : Registry) (x : String) : Declaration :=
  (r.declared? x).getD { name := x }

theorem declaredOr_all (change : Declaration → Declaration)
    {step : Registry → String → Except Error Registry} {names : List String}
    (declares : ∀ x ∈ names, Declares step (fun x d => change (d.getD { name := x })) x)
    (again : ∀ d, change (change d) = change d) (run : names.foldlM step r = .ok s) (y : String) :
    declaredOr s y = if y ∈ names then change (declaredOr r y) else declaredOr r y := by
  obtain ⟨t, same, declared⟩ := declareAll declares (fun _ _ => again _) r
  cases run.symm.trans same
  rw [declaredOr, declared]
  by_cases listed : y ∈ names
  · rw [if_pos listed, if_pos listed]
    rfl
  · rw [if_neg listed, if_neg listed]
    rfl

theorem rebuilt_of_empty (empty : r.vars = []) : r.Rebuilt r.issued r.owner where
  wellFormed := by
    constructor
    · rw [Registry.names, empty]
      exact List.nodup_nil
    · rw [empty]
      exact fun _ member => absurd member List.not_mem_nil
  since := by
    refine ⟨Nat.le_refl _, ?_⟩
    rw [empty]
    exact fun _ member => absurd member List.not_mem_nil
  owner := rfl

theorem declaredOr_bounds (empty : r.vars = [])
    (run : (mergeBounds d.bounds).foldlM declareBound r = .ok s) (x : String) :
    declaredOr s x = d.continuous x := by
  rw [declaredOr, declared?_bounds empty run]
  by_cases bounded : x ∈ d.bounds.map BoundEntry.name
  · rw [if_pos bounded]
    rfl
  · rw [if_neg bounded, continuous_unbounded bounded]
    rfl

theorem declared?_declare (empty : r.vars = []) (run : d.declare r = .ok s) {x : String}
    (mentioned : x ∈ d.mentioned) : s.declared? x = some (d.declaration x) := by
  have names := names_declare empty run
  have sound := (declare_rebuilt (rebuilt_of_empty empty) run).wellFormed
  have named : ∀ y ∈ d.mentioned, y ≠ "" := by
    intro y member
    obtain ⟨v, held, rfl⟩ := mem_names.1 (names ▸ List.mem_eraseDups.2 member)
    exact (sound.declared v held).named
  simp only [Document.mentioned, List.mem_append] at named
  obtain ⟨first, bounds, steps⟩ := bind_eq_ok.1 run
  obtain ⟨second, binaries, steps⟩ := bind_eq_ok.1 steps
  obtain ⟨third, generals, used⟩ := bind_eq_ok.1 steps
  have afterBounds := declaredOr_bounds empty bounds x
  have afterBinaries := declaredOr_all ({ · with kind := .binary }) (fun y member =>
    declareKind_declares (named y (.inl (.inl (.inr member)))) .binary) (fun _ => rfl) binaries x
  have afterGenerals := declaredOr_all ({ · with kind := .integer }) (fun y member =>
    declareKind_declares (named y (.inl (.inr member))) .integer) (fun _ => rfl) generals x
  have afterNames := declaredOr_all id (fun y member =>
    declareName_declares (named y (.inr member))) (fun _ => rfl) used x
  -- Whole-number names are declared after binary ones, and have the last word.
  have final : declaredOr s x = d.declaration x := by
    rw [afterNames, id, ite_self, afterGenerals, afterBinaries, afterBounds]
    by_cases general : x ∈ d.general <;> by_cases binary : x ∈ d.binary <;>
      simp [Document.continuous, Document.declaration, general, binary]
  cases known : s.declared? x with
  | some declaration =>
    rw [declaredOr, known] at final
    exact congrArg some final
  | none =>
    have registered : x ∈ s.names := names ▸ List.mem_eraseDups.2 mentioned
    rw [← contains_iff, contains_eq_isSome, known] at registered
    cases registered

def Summand.written (r : Registry) : Summand → Option Value
  | .constant c => some (.real c)
  | .linear c x => do return .tuple [.real c, .var (← r.get? x)]
  | .quadratic c x y => do return .tuple [.real c, .var (← r.get? x), .var (← r.get? y)]

/-- A constraint is the one that callers get for a row. -/
def Row.Gives (r : Registry) (row : Row) (c : Constraint) : Prop :=
  ∃ items, row.summands.mapM (Summand.written r) = some items ∧
    Constraint.build (some r) (.list items) (.text row.comparison.text) (.real row.rhs) = .ok c

theorem find_eq_ok {x : String} {v : Variable} (found : Summand.resolve.find r x = .ok v) :
    r.get? x = some v := by
  unfold Summand.resolve.find at found
  split at found
  next known =>
    cases found
    exact known
  next => cases found

theorem written_reads {summand : Summand} {i : Item} (resolved : summand.resolve r = .ok i) :
    ∃ value, summand.written r = some value ∧ Item.Reads (some r) value i := by
  cases summand with
  | constant c =>
    cases resolved
    exact ⟨_, rfl, .number _⟩
  | linear c x =>
    obtain ⟨v, found, resolved⟩ := bind_eq_ok.1 resolved
    cases resolved
    have known := find_eq_ok found
    exact ⟨_, by rw [Summand.written, known]; rfl, .linear _ v rfl (owns_of_get? known)⟩
  | quadratic c x y =>
    obtain ⟨v, foundFirst, resolved⟩ := bind_eq_ok.1 resolved
    obtain ⟨w, foundSecond, resolved⟩ := bind_eq_ok.1 resolved
    cases resolved
    have first := find_eq_ok foundFirst
    have second := find_eq_ok foundSecond
    exact ⟨_, by rw [Summand.written, first, second]; rfl,
      .quadratic _ v w rfl (owns_of_get? first) (owns_of_get? second)⟩

theorem resolveSum_eq_ok {summands : List Summand} {e : Expression}
    (resolved : resolveSum r summands = .ok e) :
    ∃ items, summands.mapM (Summand.written r) = some items ∧
      Expression.canonicalize (some r) (.list items) = .ok e := by
  obtain ⟨is, run, summed⟩ := bind_eq_ok.1 resolved
  have all : ∃ items, summands.mapM (Summand.written r) = some items ∧
      List.Forall₂ (Item.Reads (some r)) items is := by
    clear resolved summed
    induction summands generalizing is with
    | nil =>
      cases run
      exact ⟨[], rfl, .nil⟩
    | cons summand summands ih =>
      obtain ⟨i, others, first, rest, rfl⟩ := mapM_cons_eq_ok.1 run
      obtain ⟨value, isWritten, reads⟩ := written_reads first
      obtain ⟨items, areWritten, allRead⟩ := ih others rest
      exact ⟨value :: items, by simp [isWritten, areWritten], .cons reads allRead⟩
  obtain ⟨items, written, reads⟩ := all
  exact ⟨items, written, (Expression.sum_reads reads).trans summed⟩

theorem row_resolve_gives {row : Row} {c : Constraint} (resolved : row.resolve r = .ok c) :
    row.Gives r c := by
  obtain ⟨left, isLeft, resolved⟩ := bind_eq_ok.1 resolved
  obtain ⟨right, isRight, sides⟩ := bind_eq_ok.1 resolved
  obtain ⟨items, written, summed⟩ := resolveSum_eq_ok isLeft
  obtain ⟨constant, isConstant, summedRight⟩ := resolveSum_eq_ok isRight
  cases isConstant
  have comparison : Comparison.read (.text row.comparison.text) = .ok row.comparison := by
    cases row.comparison <;> rfl
  refine ⟨items, written, ?_⟩
  have onRight : Expression.canonicalize (some r) (Value.real row.rhs).asItems = .ok right :=
    summedRight
  rw [Constraint.build_eq, comparison, ok_bind, summed, ok_bind, onRight, ok_bind, sides]

def ObjectiveLine.Gives (r : Registry) (line : ObjectiveLine) (o : Objective) : Prop :=
  ∃ items, line.summands.mapM (Summand.written r) = some items ∧
    Objective.build r (.list items) (.text line.sense.text) = .ok o

/-- What a document makes of an empty registry: its names in the order in which they are mentioned
first, each declared once, and a constraint for each of its rows, in their order. -/
structure Reconstructs (d : Document) (m : Model) : Prop where
  names : m.registry.names = d.mentioned.eraseDups
  nodup : m.registry.names.Nodup
  declarations : ∀ v ∈ m.registry.vars, v.toDeclaration = d.declaration v.name
  objective : d.objective.Gives m.registry m.objective
  rows : List.Forall₂ (Row.Gives m.registry) d.rows m.constraints

theorem resolve_reconstructs {m : Model} (empty : r.vars = []) (h : d.resolve r = .ok m) :
    Reconstructs d m := by
  obtain ⟨registry, declared, h⟩ := bind_eq_ok.1 h
  obtain ⟨expression, sum, h⟩ := bind_eq_ok.1 h
  obtain ⟨constraints, rows, h⟩ := bind_eq_ok.1 h
  cases h
  have names := names_declare empty declared
  have nodup : registry.names.Nodup := names ▸ nodup_eraseDups d.mentioned
  constructor
  · exact names
  · exact nodup
  · intro v member
    have mentioned : v.name ∈ d.mentioned := by
      rw [← List.mem_eraseDups, ← names]
      exact mem_names.2 ⟨v, member, rfl⟩
    have known := declared?_declare empty declared mentioned
    rw [declared?, get?_of_mem nodup member] at known
    exact Option.some.inj known
  · obtain ⟨items, written, summed⟩ := resolveSum_eq_ok sum
    have sense := Sense.read_text d.objective.sense
    refine ⟨items, written, ?_⟩
    rw [Objective.build, sense, ok_bind, summed]
    rfl
  · exact (forall₂_of_mapM rows).imp fun _ _ => row_resolve_gives

namespace Sample

def repeating : Document where
  objective := { sense := .maximize, label := none, summands := [
    .linear (.ofInt 2) "w", .quadratic (.ofInt 1) "y" "x", .constant (.ofInt 3)] }
  rows := [
    { label := none, summands := [.linear (.ofInt 1) "z", .linear (.ofInt 1) "x"],
      comparison := .le, rhs := .ofInt 4 },
    { label := none, summands := [.linear (.ofInt 1) "z"], comparison := .ge, rhs := .ofInt 1 }]
  bounds := [
    { name := "x", lower := some (.ofInt (-2)) },
    { name := "v", upper := some (.ofInt 5) },
    { name := "x", upper := some (.ofInt 6) },
    { name := "x", lower := some (.ofInt (-1)) }]
  general := ["y"]
  binary := ["y", "v"]

end Sample

theorem sample_resolve_reconstructs :
    ∃ m, Sample.repeating.resolve { owner := 0 } = .ok m ∧
      ({ owner := 0 : Registry }).vars = [] ∧ Reconstructs Sample.repeating m ∧
      m.registry.names = ["x", "v", "y", "w", "z"] := by
  have succeeds : (Sample.repeating.resolve { owner := 0 }).toOption.isSome = true := by
    decide +kernel
  obtain ⟨m, built⟩ := Option.isSome_iff_exists.1 succeeds
  have resolved := toOption_eq_some.1 built
  have reconstructed := resolve_reconstructs rfl resolved
  have order : Sample.repeating.mentioned.eraseDups = ["x", "v", "y", "w", "z"] := by
    decide
  exact ⟨m, resolved, rfl, reconstructed, reconstructed.names.trans order⟩

end LpText

end LinOpt
