import LinOpt.Proofs.Model.Exact
import LinOpt.Proofs.Program.Builder
import LinOpt.Proofs.Outcome

namespace LinOpt

namespace Model

def HasQuadraticTerm (m : Model) : Prop :=
  (∃ t ∈ m.objective.expression.terms, t.isQuadratic = true) ∨
    ∃ c ∈ m.constraints, ∃ t ∈ c.lhs.terms, t.isQuadratic = true

theorem isQuadratic_iff {m : Model} : m.isQuadratic = true ↔ m.HasQuadraticTerm := by
  simp only [isQuadratic, Expression.isQuadratic, Bool.or_eq_true, List.any_eq_true]
  exact Iff.rfl

instance (m : Model) : Decidable m.HasQuadraticTerm :=
  decidable_of_iff _ isQuadratic_iff

end Model

namespace LinearProgram

namespace Builder

theorem change_change {columns : List Column} {x : String} {f g : Column → Column}
    (keeps : ∀ c, (f c).name = c.name) :
    change x g (change x f columns) = change x (g ∘ f) columns := by
  induction columns with
  | nil => simp [change, keeps]
  | cons c columns ih =>
    unfold change
    by_cases here : c.name = x
    · simp [change, keeps, here]
    · simp [change, here, ih]

def integralColumn (c : Column) : Column :=
  { c with isIntegral := true }

def binaryColumn (c : Column) : Column :=
  { c with
    isIntegral := true
    lower := larger c.lower (Binary64.zero false)
    upper := smaller c.upper (Binary64.ofInt 1) }

def kindColumn (v : Variable) (c : Column) : Column :=
  if v.isBinary then binaryColumn c else if v.isIntegral then integralColumn c else c

@[simp]
theorem name_kindColumn (v : Variable) (c : Column) : (kindColumn v c).name = c.name := by
  unfold kindColumn
  split
  · rfl
  · split <;> rfl

@[simp]
theorem cost_kindColumn (v : Variable) (c : Column) : (kindColumn v c).cost = c.cost := by
  unfold kindColumn
  split
  · rfl
  · split <;> rfl

theorem lower_kindColumn (v : Variable) (c : Column) : (kindColumn v c).lower =
    if v.isBinary then larger c.lower (Binary64.zero false) else c.lower := by
  by_cases binary : v.isBinary = true
  · simp only [kindColumn, binary, if_true, binaryColumn]
  · simp only [kindColumn, binary, Bool.false_eq_true, if_false]
    split <;> rfl

theorem upper_kindColumn (v : Variable) (c : Column) : (kindColumn v c).upper =
    if v.isBinary then smaller c.upper (Binary64.ofInt 1) else c.upper := by
  by_cases binary : v.isBinary = true
  · simp only [kindColumn, binary, if_true, binaryColumn]
  · simp only [kindColumn, binary, Bool.false_eq_true, if_false]
    split <;> rfl

theorem isIntegral_kindColumn (v : Variable) (c : Column) :
    (kindColumn v c).isIntegral = (v.isIntegral || c.isIntegral) := by
  unfold kindColumn Declaration.isBinary Declaration.isIntegral Kind.isIntegral
  cases v.kind <;> rfl

def priced (costs : List (String × Binary64)) (c : Column) : Column :=
  { c with cost := costUnder costs c.name c.cost }

def byName (terms : List (Number × Variable)) : Entries Number :=
  terms.map fun t => (t.2.name, t.1)

theorem byName_known {r : Registry} {e : Expression} (owned : e.OwnedBy r) :
    ∀ t ∈ e.linearTerms, t.2.name ∈ r.names := by
  intro t member
  have own := owned _ (Expression.linearTerms_mem.1 member) t.2 List.mem_cons_self
  exact List.mem_map_of_mem (Registry.mem_of_owns own)

theorem byName_nodup {e : Expression} (canonical : e.IsCanonical) :
    (byName e.linearTerms).names.Nodup := by
  have general : ∀ terms : List Term, (terms.map Term.key).Nodup →
      (byName (Expression.linearTerms { terms })).names.Nodup := by
    intro terms keys
    induction terms with
    | nil => exact List.nodup_nil
    | cons t terms ih =>
      obtain ⟨alone, rest⟩ := List.nodup_cons.1 keys
      cases t with
      | quadratic c v w => exact ih rest
      | linear c v =>
        refine List.nodup_cons.2 ⟨fun member => alone ?_, ih rest⟩
        obtain ⟨entry, among, named⟩ := List.mem_map.1 member
        obtain ⟨⟨d, w⟩, listed, rfl⟩ := List.mem_map.1 among
        have known := Expression.linearTerms_mem (e := { terms }).1 listed
        exact List.mem_map.2 ⟨Term.linear d w, known, congrArg Term.Key.single named⟩
  exact general e.terms canonical.keys_nodup

def doubles (e : Expression) : Entries Binary64 :=
  (byName e.linearTerms).map fun entry => (entry.1, entry.2.double)

theorem names_doubles (e : Expression) :
    (doubles e).map Prod.fst = (byName e.linearTerms).names := by
  rw [doubles, List.map_map]
  rfl

theorem doubles_nodup {e : Expression} (canonical : e.IsCanonical) :
    ((doubles e).map Prod.fst).Nodup :=
  names_doubles e ▸ byName_nodup canonical

theorem doubles_known {r : Registry} {e : Expression} (owned : e.OwnedBy r) :
    ∀ entry ∈ doubles e, entry.1 ∈ r.names := by
  intro entry member
  have listed := List.mem_map_of_mem (f := Prod.fst) member
  rw [names_doubles, byName, Entries.names, List.map_map] at listed
  obtain ⟨t, among, same⟩ := List.mem_map.1 listed
  exact same ▸ byName_known owned t among

theorem get?_doubles (e : Expression) (x : String) :
    (doubles e).get? x = ((byName e.linearTerms).get? x).map Number.double :=
  Entries.get?_map (byName e.linearTerms) Number.double x

theorem coefficients_eq_ok {e : Expression} (finite : e.IsFinite) :
    coefficients e = .ok (doubles e) := by
  have read : coefficients e = .ok (e.linearTerms.map fun t => (t.2.name, t.1.double)) := by
    refine mapM_eq_ok fun term member => ?_
    have double := (finite.linear term member).toBinary64?
    exact bind_eq_ok.2 ⟨term.1.double, inRange_eq_ok.2 double, rfl⟩
  rw [read, doubles, byName, List.map_map]
  rfl

def columnOf (v : Variable) : Column :=
  kindColumn v { name := v.name, lower := v.lower.double, upper := v.upper.double }

theorem addVariable_eq_ok {v : Variable} (declared : v.WellFormed) (b : Builder) :
    addVariable b v = .ok (b.onColumn v.name fun c =>
      kindColumn v { c with lower := v.lower.double, upper := v.upper.double }) := by
  have kept : ∀ c : Column,
      ({ c with lower := v.lower.double, upper := v.upper.double } : Column).name = c.name :=
    fun _ => rfl
  simp only [addVariable, declared.lower.toBinary64?, declared.upper.toBinary64?, inRange, bind,
    Except.bind, pure, Except.pure, setBounds, markBinary, markIntegral, onColumn, kindColumn]
  split
  · simp only [change_change kept]
    rfl
  · split
    · simp only [change_change kept]
      rfl
    · rfl

def rowOf (indexed : Constraint × Nat) : Row where
  name := "c" ++ toString (indexed.2 + 1)
  coefficients := sumByName (doubles indexed.1.lhs)
  lower := (range indexed.1.comparison indexed.1.rhs.double).1
  upper := (range indexed.1.comparison indexed.1.rhs.double).2

theorem addConstraint_eq_ok {c : Constraint} (lhs : c.lhs.IsFinite) (rhs : c.rhs.IsFinite)
    (index : Nat) (b : Builder) :
    addConstraint b (c, index) = .ok (b.addRow (rowOf (c, index)).name (doubles c.lhs)
      (rowOf (c, index)).lower (rowOf (c, index)).upper) := by
  simp only [addConstraint, coefficients_eq_ok lhs, rhs.toBinary64?, inRange, bind, Except.bind,
    pure, Except.pure]
  rfl

theorem names_columns {r : Registry} {g : Variable → Column}
    (named : ∀ v, (g v).name = v.name) (rows : List Row) :
    Builder.names ⟨r.vars.map g, rows⟩ = r.names := by
  simp only [Builder.names, List.map_map, Registry.names]
  exact List.map_congr_left fun v _ => named v

def columnsOf (m : Model) : List Column :=
  (m.registry.vars.map columnOf).map (priced (doubles m.objective.expression))

theorem names_columnsOf (m : Model) (rows : List Row) :
    Builder.names ⟨columnsOf m, rows⟩ = m.registry.names := by
  rw [columnsOf, List.map_map]
  exact names_columns (fun v => name_kindColumn v _) rows

section columns

variable {m : Model} {g : Variable → Column}

theorem map_cost_columnsOf (named : ∀ v, (g v).name = v.name)
    (free : ∀ v, (g v).cost = Binary64.zero false) :
    (m.registry.vars.map fun v => kindColumn v (priced (doubles m.objective.expression)
      (g v))).map (·.cost) = (columnsOf m).map (·.cost) := by
  simp only [columnsOf, List.map_map]
  refine List.map_congr_left fun v _ => ?_
  simp [priced, columnOf, named, free]

theorem map_isIntegral_columnsOf (unmarked : ∀ v, (g v).isIntegral = false) :
    (m.registry.vars.map fun v => kindColumn v (priced (doubles m.objective.expression)
      (g v))).map (fun c => if c.isIntegral then (1 : Int) else 0) =
      (columnsOf m).map fun c => if c.isIntegral then 1 else 0 := by
  simp only [columnsOf, List.map_map]
  refine List.map_congr_left fun v _ => ?_
  simp [priced, columnOf, isIntegral_kindColumn, unmarked]

end columns

theorem foldl_addCost_doubles {m : Model} (sound : m.WellFormed) {b : Builder}
    (names : b.names = m.registry.names) :
    (doubles m.objective.expression).foldl (fun b e => b.addCost e.1 e.2) b =
      { b with columns := b.columns.map (priced (doubles m.objective.expression)) } :=
  foldl_addCost (names ▸ sound.registry.nodup) (names ▸ doubles_known sound.owned)

theorem mem_names_filter {r : Registry} (nodup : r.names.Nodup) {v : Variable}
    (member : v ∈ r.vars) (p : Variable → Bool) :
    v.name ∈ (r.vars.filter p).map (·.name) ↔ p v = true := by
  constructor
  · intro named
    obtain ⟨w, among, same⟩ := List.mem_map.1 named
    obtain ⟨other, holds⟩ := List.mem_filter.1 among
    obtain rfl : w = v := List.inj_on_of_nodup_map nodup other member same
    exact holds
  · intro holds
    exact List.mem_map_of_mem (f := (·.name)) (List.mem_filter.2 ⟨member, holds⟩)

def namesOfKind (r : Registry) (kind : Kind) : List String :=
  (r.vars.filter (·.kind == kind)).map (·.name)

theorem mem_namesOfKind {r : Registry} (nodup : r.names.Nodup) {v : Variable}
    (member : v ∈ r.vars) (kind : Kind) : v.name ∈ namesOfKind r kind ↔ v.kind = kind :=
  (mem_names_filter nodup member (·.kind == kind)).trans beq_iff_eq

theorem foldl_mark_kind {r : Registry} (nodup : r.names.Nodup) (kind : Kind)
    {f : Column → Column} (keeps : ∀ c, (f c).name = c.name) {column : Variable → Column}
    (named : ∀ v, (column v).name = v.name) (rows : List Row) :
    (namesOfKind r kind).foldl (fun b x => onColumn b x f) ⟨r.vars.map column, rows⟩ =
      ⟨r.vars.map fun v => if v.kind = kind then f (column v) else column v, rows⟩ := by
  have names := names_columns (r := r) named rows
  have sub : (namesOfKind r kind).Sublist r.names := List.filter_sublist.map _
  have marked := foldl_mark (names.symm ▸ nodup) (fun x member => names.symm ▸ sub.subset member)
    (nodup.sublist sub) keeps
  simp only [marked, List.map_map, Builder.mk.injEq, and_true]
  refine List.map_congr_left fun v member => ?_
  simp only [Function.comp, named, mem_namesOfKind nodup member]

theorem foldl_mark_kinds {r : Registry} (nodup : r.names.Nodup) {g : Variable → Column}
    (named : ∀ v, (g v).name = v.name) (rows : List Row) :
    (namesOfKind r .binary).foldl markBinary
        ((namesOfKind r .integer).foldl markIntegral ⟨r.vars.map g, rows⟩) =
      ⟨r.vars.map fun v => kindColumn v (g v), rows⟩ := by
  have integral : (namesOfKind r .integer).foldl markIntegral ⟨r.vars.map g, rows⟩ = _ :=
    foldl_mark_kind nodup .integer (f := integralColumn) (fun _ => rfl) named rows
  have renamed (v : Variable) :
      (if v.kind = .integer then integralColumn (g v) else g v).name = v.name := by
    split <;> exact named v
  have binary := foldl_mark_kind nodup .binary (f := binaryColumn) (fun _ => rfl) renamed rows
  rw [integral]
  refine Eq.trans binary ?_
  simp only [Builder.mk.injEq, and_true]
  refine List.map_congr_left fun v _ => ?_
  unfold kindColumn Declaration.isBinary Declaration.isIntegral Kind.isIntegral
  cases v.kind <;> rfl

end Builder

open Builder

theorem ofModel_eq_ok {m : Model} (sound : m.WellFormed) (finite : m.IsFinite)
    (linear : m.isQuadratic = false) (engine : String) :
    ofModel m engine = .ok (Builder.build ⟨columnsOf m, m.constraints.zipIdx.map rowOf⟩
      m.objective.isMaximize m.objective.expression.constant) := by
  have declared : m.registry.vars.foldlM addVariable {} =
      .ok ⟨m.registry.vars.map columnOf, []⟩ := by
    rw [foldlM_eq_ok fun v member b => addVariable_eq_ok (sound.registry.declared v member) b]
    have fresh : ((⟨[], []⟩ : Builder).names ++ m.registry.vars.map (·.name)).Nodup :=
      sound.registry.nodup
    have columns := foldl_onColumn_of_fresh fresh fun v c => name_kindColumn v
      { c with lower := v.lower.double, upper := v.upper.double }
    exact congrArg Except.ok columns
  have costs := coefficients_eq_ok finite.objective
  have names : Builder.names ⟨m.registry.vars.map columnOf, []⟩ = m.registry.names := by
    simp only [Builder.names, List.map_map, Registry.names]
    exact List.map_congr_left fun v _ => name_kindColumn v _
  have costly : (doubles m.objective.expression).foldl (fun (b : Builder) e => b.addCost e.1 e.2)
      ⟨m.registry.vars.map columnOf, []⟩ = ⟨columnsOf m, []⟩ :=
    foldl_addCost_doubles sound names
  have limited : m.constraints.zipIdx.foldlM addConstraint ⟨columnsOf m, []⟩ =
      .ok ⟨columnsOf m, m.constraints.zipIdx.map rowOf⟩ := by
    rw [foldlM_eq_ok (g := fun b indexed => b.addRow (rowOf indexed).name
      (doubles indexed.1.lhs) (rowOf indexed).lower (rowOf indexed).upper)]
    · have names := names_columnsOf m []
      have nodup := names.symm ▸ sound.registry.nodup
      have rows := foldl_addRow rowOf (fun indexed => doubles indexed.1.lhs) nodup
        (fun _ _ => rfl) (fun _ _ => rfl) fun indexed (member : indexed ∈ m.constraints.zipIdx)
          e among => ?_
      · exact congrArg Except.ok rows
      · have owned := (sound.constraints _ (List.fst_mem_of_mem_zipIdx member)).owned
        exact names.symm ▸ doubles_known owned e among
    · rintro ⟨c, index⟩ member b
      have known := List.fst_mem_of_mem_zipIdx member
      exact addConstraint_eq_ok (finite.lhs c known) (finite.rhs c known) index b
  simp only [ofModel, linear, Bool.false_eq_true, if_false]
  rw [declared, ok_bind, costs, ok_bind]
  simp only [costly]
  rw [limited]
  rfl

end LinearProgram

end LinOpt
