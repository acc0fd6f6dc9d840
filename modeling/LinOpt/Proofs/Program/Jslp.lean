import LinOpt.Bridge.Codec
import LinOpt.Engine.Reference
import LinOpt.Proofs.Bridge.Jslp
import LinOpt.Proofs.Model.Run
import LinOpt.Proofs.Program.Solution

namespace LinOpt.Jslp

open LinearProgram LinearProgram.Builder Draft

theorem get?_entered {terms : List (Number × Variable)} {key : String} {value : Number → Number}
    {v : Variable} : (entered terms key value v).get? key =
      ((byName terms).get? v.name).map value := by
  unfold entered
  cases (byName terms).get? v.name with
  | none => rfl
  | some c => simp [Entries.get?]

theorem get?_entered_of_ne {terms : List (Number × Variable)} {key other : String}
    {value : Number → Number} {v : Variable} (differs : other ≠ key) :
    (entered terms key value v).get? other = none :=
  Entries.get?_eq_none.2 fun member => differs (mem_names_entered member)

theorem mem_names_rowEntries {rows : List (Constraint × Nat)} {v : Variable} {x : String}
    (member : x ∈ (rowEntries rows v).names) : ∃ i ∈ rows, x = rowName i.2 := by
  obtain ⟨e, among, rfl⟩ := List.mem_map.1 member
  obtain ⟨i, isRow, isEntry⟩ := List.mem_flatMap.1 among
  exact ⟨i, isRow, mem_names_entered (List.mem_map_of_mem (f := Prod.fst) isEntry)⟩

theorem get?_rowEntries {rows : List (Constraint × Nat)} (places : (rows.map Prod.snd).Nodup)
    {i : Constraint × Nat} (member : i ∈ rows) (v : Variable) :
    (rowEntries rows v).get? (rowName i.2) =
      ((byName i.1.lhs.linearTerms).get? v.name).map Number.settled := by
  induction rows with
  | nil => cases member
  | cons j rows ih =>
    obtain ⟨alone, places⟩ := List.nodup_cons.1 places
    have parts : rowEntries (j :: rows) v =
        entered j.1.lhs.linearTerms (rowName j.2) Number.settled v ++ rowEntries rows v := rfl
    rw [parts, Entries.get?_append]
    rcases List.mem_cons.1 member with rfl | member
    · have later : (rowEntries rows v).get? (rowName i.2) = none := by
        refine Entries.get?_eq_none.2 fun known => ?_
        obtain ⟨k, isRow, same⟩ := mem_names_rowEntries known
        exact alone (List.mem_map.2 ⟨k, isRow, (append_toString_injective "c" same).symm⟩)
      rw [get?_entered, later, Option.or_none]
    · have differs : rowName i.2 ≠ rowName j.2 := fun same =>
        alone (List.mem_map.2 ⟨i, member, append_toString_injective "c" same⟩)
      rw [get?_entered_of_ne differs, Option.none_or, ih places member]

theorem get?_boundEntries (v : Variable) (x : String) :
    (boundEntries v).get? x = ((boundRows v).get? x).map fun _ => 1 :=
  Entries.get?_map (boundRows v) (fun _ => (1 : Number)) x

section entriesOf

variable {m : Model} {v w : Variable}

theorem get?_objective : (entriesOf m v).get? "objective" =
    (byName m.objective.expression.linearTerms).get? v.name := by
  have bound : (boundEntries v).get? "objective" = none := by
    refine Entries.get?_eq_none.2 ?_
    rw [names_boundEntries]
    exact label_not_mem_boundRows (l := .objective) (by decide) v
  have rows : (rowEntries m.constraints.zipIdx v).get? "objective" = none := by
    refine Entries.get?_eq_none.2 fun known => ?_
    obtain ⟨i, -, same⟩ := mem_names_rowEntries known
    have label : Label.objective = .row i.2 := Label.text_injective same
    cases label
  rw [entriesOf, Entries.get?_append, Entries.get?_append, bound, rows, get?_entered,
    Option.none_or, Option.or_none, Option.map_id, id]

theorem get?_row {i : Constraint × Nat} (member : i ∈ m.constraints.zipIdx) :
    (entriesOf m v).get? (rowName i.2) =
      ((byName i.1.lhs.linearTerms).get? v.name).map Number.settled := by
  have bound : (boundEntries v).get? (rowName i.2) = none := by
    refine Entries.get?_eq_none.2 ?_
    rw [names_boundEntries]
    exact label_not_mem_boundRows (l := .row i.2) (by simp [Label.sort]) v
  have cost : rowName i.2 ≠ "objective" := fun same => by
    have label : Label.row i.2 = .objective := Label.text_injective same
    cases label
  have places : (m.constraints.zipIdx.map Prod.snd).Nodup := by
    rw [List.zipIdx_map_snd]
    exact List.nodup_range'
  rw [entriesOf, Entries.get?_append, Entries.get?_append, bound, get?_entered_of_ne cost,
    Option.none_or, Option.none_or, get?_rowEntries places member]

theorem get?_ownBound {row : String} (member : row ∈ (boundRows v).names) :
    (entriesOf m v).get? row = some 1 := by
  have bound : (boundEntries v).get? row = some 1 := by
    rw [get?_boundEntries]
    cases found : (boundRows v).get? row with
    | none => exact absurd member (Entries.get?_eq_none.1 found)
    | some limits => rfl
  rw [entriesOf, Entries.get?_append, Entries.get?_append, bound, Option.some_or, Option.some_or]

theorem get?_otherBound {row : String} (member : row ∈ (boundRows v).names)
    (differs : w.name ≠ v.name) : (entriesOf m w).get? row = none := by
  obtain ⟨l, rfl, sort, own⟩ : ∃ l : Label, l.text = row ∧ l.sort = 1 ∧
      (l = .lower v.name ∨ l = .upper v.name) := by
    rcases mem_names_boundRows member with rfl | rfl
    · exact ⟨.lower v.name, rfl, rfl, .inl rfl⟩
    · exact ⟨.upper v.name, rfl, rfl, .inr rfl⟩
  -- The labels tell rows for bounds, rows of the model and the objective apart.
  have bound : l.text ∉ (boundEntries w).names := by
    rw [names_boundEntries]
    intro known
    rcases mem_names_boundRows known with same | same
    · have label : l = .lower w.name := Label.text_injective same
      rcases own with rfl | rfl
      · exact differs (Label.lower.inj label).symm
      · cases label
    · have label : l = .upper w.name := Label.text_injective same
      rcases own with rfl | rfl
      · cases label
      · exact differs (Label.upper.inj label).symm
  have cost : l.text ≠ "objective" := fun same => by
    have label : l = .objective := Label.text_injective same
    rw [label] at sort
    cases sort
  have rows : l.text ∉ (rowEntries m.constraints.zipIdx w).names := fun known => by
    obtain ⟨i, -, same⟩ := mem_names_rowEntries known
    have label : l = .row i.2 := Label.text_injective same
    rw [label] at sort
    cases sort
  rw [entriesOf, Entries.get?_append, Entries.get?_append, Entries.get?_eq_none.2 bound,
    get?_entered_of_ne cost, Entries.get?_eq_none.2 rows]
  rfl

end entriesOf

section ofJslp

variable {m : Model} {options : Entries Value}

theorem get?_ones (names : List String) (x : String) :
    (ones names).get? x = if x ∈ names then some 1 else none := by
  induction names with
  | nil => rfl
  | cons y names ih =>
    have parts : ones (y :: names) = (y, 1) :: ones names := rfl
    rw [parts, Entries.get?_cons, ih]
    by_cases here : y = x
    · simp [here]
    · simp [here, Ne.symm here]

theorem flagged_ones (names : List String) : flagged (ones names) = names := by
  rw [flagged, ones, List.filterMap_map]
  simp

theorem jslpLower_requestOf (nodup : m.registry.names.Nodup) {v : Variable}
    (member : v ∈ m.registry.vars) : jslpLower (requestOf m options) v.name =
      if v.lower.lt 0 then .infinite true else Binary64.zero false := by
  have listed : v.name ∈ namesWhere m (fun v => v.lower.lt 0) ↔ v.lower.lt 0 = true :=
    mem_names_filter nodup member fun v => v.lower.lt 0
  simp only [jslpLower, requestOf, get?_ones, listed]
  split <;> simp

def limited (v : Variable) : Column :=
  { name := v.name
    lower := if v.lower.lt 0 then .infinite true else Binary64.zero false
    upper := .infinite false }

def numbersOf (m : Model) (v : Variable) : Entries Binary64 :=
  (entriesOf m v).map fun n => (n.1, n.2.double)

theorem vars_requestOf : (requestOf m options).vars =
    m.registry.vars.map fun v => (v.name, numbersOf m v) := by
  simp only [requestOf, inDoubles, draftOf, List.map_map]
  rfl

theorem get?_numbersOf (v : Variable) (x : String) :
    (numbersOf m v).get? x = ((entriesOf m v).get? x).map Number.double :=
  Entries.get?_map (entriesOf m v) Number.double x

def coefficientsUnder (m : Model) (x : String) : List (String × Binary64) :=
  m.registry.vars.filterMap fun v => ((numbersOf m v).get? x).map fun c => (v.name, c)

theorem names_coefficientsUnder (m : Model) (x : String) :
    ((coefficientsUnder m x).map Prod.fst).Sublist m.registry.names := by
  unfold coefficientsUnder Registry.names
  induction m.registry.vars with
  | nil => exact List.Sublist.refl _
  | cons v vs ih =>
    cases here : (numbersOf m v).get? x with
    | none => simpa [here] using ih.cons v.name
    | some c => simpa [here] using ih.cons_cons v.name

theorem get?_coefficientsUnder (nodup : m.registry.names.Nodup) {v : Variable}
    (member : v ∈ m.registry.vars) (x : String) :
    Entries.get? (coefficientsUnder m x) v.name = ((entriesOf m v).get? x).map Number.double := by
  rw [← get?_numbersOf]
  exact Entries.get?_indexed_some nodup (fun v => (numbersOf m v).get? x) member

theorem foldl_setBounds (nodup : m.registry.names.Nodup) :
    (requestOf m options).vars.foldl (fun b e => setBounds b e.1
      (jslpLower (requestOf m options) e.1) (.infinite false)) {} =
      ⟨m.registry.vars.map limited, []⟩ := by
  have fresh : ((⟨[], []⟩ : Builder).names ++ m.registry.vars.map (·.name)).Nodup := nodup
  have columns := foldl_onColumn_of_fresh (f := fun v column =>
    { column with lower := jslpLower (requestOf m options) v.name, upper := .infinite false })
    fresh fun _ _ => rfl
  rw [vars_requestOf, List.foldl_map]
  refine columns.trans ?_
  simp only [List.nil_append, Builder.mk.injEq, and_true]
  refine List.map_congr_left fun v member => ?_
  rw [jslpLower_requestOf nodup member]
  rfl

theorem foldl_costs (sound : m.WellFormed) :
    (requestOf m options).vars.foldl (fun b e =>
        ((Entries.get? e.2 (requestOf m options).objective).map (addCost b e.1)).getD b)
      ⟨m.registry.vars.map limited, []⟩ = ⟨m.registry.vars.map fun v =>
        priced (doubles m.objective.expression) (limited v), []⟩ := by
  have nodup := sound.registry.nodup
  have names := names_columns (r := m.registry) (g := limited) (fun _ => rfl) []
  have sub := names_coefficientsUnder m "objective"
  have added := foldl_addCost (b := ⟨m.registry.vars.map limited, []⟩)
    (names.symm ▸ nodup) fun e (member : e ∈ coefficientsUnder m "objective") =>
      names.symm ▸ sub.subset (List.mem_map_of_mem member)
  have step : (requestOf m options).vars.foldl (fun b e =>
      ((Entries.get? e.2 (requestOf m options).objective).map (addCost b e.1)).getD b)
      ⟨m.registry.vars.map limited, []⟩ = (coefficientsUnder m "objective").foldl
        (fun b e => addCost b e.1 e.2) ⟨m.registry.vars.map limited, []⟩ := by
    rw [vars_requestOf, coefficientsUnder, List.foldl_map, List.foldl_filterMap]
    congr 1
    funext b v
    simp only [requestOf]
    cases (numbersOf m v).get? "objective" <;> rfl
  rw [step, added, List.map_map]
  refine congrArg (Builder.mk · []) (List.map_congr_left fun v member => ?_)
  have costs : costUnder (coefficientsUnder m "objective") v.name (Binary64.zero false) =
      costUnder (doubles m.objective.expression) v.name (Binary64.zero false) := by
    rw [costUnder_of_nodup (nodup.sublist sub), costUnder_of_nodup (doubles_nodup sound.canonical),
      get?_coefficientsUnder nodup member, get?_objective, get?_doubles]
  exact congrArg (fun cost => ({ limited v with cost } : Column)) costs

def programRow (m : Model) (row : String × Entries Binary64) : Row where
  name := row.1
  coefficients := sumByName (coefficientsUnder m row.1)
  lower := (jslpRange row.2).1
  upper := (jslpRange row.2).2

theorem names_constraints {row : String × Entries Binary64}
    (member : row ∈ (requestOf m options).constraints) :
    (∃ v ∈ m.registry.vars, row.1 ∈ (boundRows v).names) ∨
      ∃ i ∈ m.constraints.zipIdx, row.1 = rowName i.2 := by
  obtain ⟨limits, among, rfl⟩ := List.mem_map.1 member
  rcases List.mem_append.1 among with bound | isRow
  · obtain ⟨v, isVar, isBound⟩ := List.mem_flatMap.1 bound
    exact .inl ⟨v, isVar, List.mem_map_of_mem isBound⟩
  · obtain ⟨i, listed, rfl⟩ := List.mem_map.1 isRow
    exact .inr ⟨i, listed, rfl⟩

theorem jslpCoefficients_requestOf {row : String × Entries Binary64}
    (member : row ∈ (requestOf m options).constraints) :
    jslpCoefficients (requestOf m options) row.1 = coefficientsUnder m row.1 := by
  have notObjective : row.1 ≠ (requestOf m options).objective := by
    intro same
    rcases names_constraints member with ⟨v, -, bound⟩ | ⟨i, -, isRow⟩
    · rw [same] at bound
      exact label_not_mem_boundRows (l := .objective) (by decide) v bound
    · have label : Label.row i.2 = .objective := Label.text_injective (isRow.symm.trans same)
      cases label
  rw [jslpCoefficients, if_neg notObjective, vars_requestOf, List.filterMap_map]
  rfl

theorem foldl_rows (sound : m.WellFormed) {b : Builder} (names : b.names = m.registry.names) :
    (requestOf m options).constraints.foldl (fun b row =>
        b.addRow row.1 (jslpCoefficients (requestOf m options) row.1) (jslpRange row.2).1
          (jslpRange row.2).2) b =
      { b with rows := b.rows ++ (requestOf m options).constraints.map (programRow m) } := by
  refine foldl_addRow _ _ (names.symm ▸ sound.registry.nodup) (fun _ _ => rfl) ?_ ?_
  · intro row member
    rw [jslpCoefficients_requestOf member]
    rfl
  · intro row member e among
    rw [jslpCoefficients_requestOf member] at among
    rw [names]
    exact (names_coefficientsUnder m row.1).subset (List.mem_map_of_mem among)

theorem ofJslp_requestOf (sound : m.WellFormed) :
    ofJslp (requestOf m options) = Builder.build
      ⟨m.registry.vars.map fun v =>
          kindColumn v (priced (doubles m.objective.expression) (limited v)),
        (requestOf m options).constraints.map (programRow m)⟩
      m.objective.isMaximize (.real (Binary64.zero false)) := by
  have columns := @foldl_setBounds m options sound.registry.nodup
  have costs := @foldl_costs m options sound
  have rows := @foldl_rows m options sound _ (names_columns (r := m.registry)
    (g := fun v => priced (doubles m.objective.expression) (limited v)) (fun _ => rfl) [])
  have marks := foldl_mark_kinds sound.registry.nodup
    (g := fun v => priced (doubles m.objective.expression) (limited v)) (fun _ => rfl)
    ((requestOf m options).constraints.map (programRow m))
  have integers : flagged (requestOf m options).ints = namesOfKind m.registry .integer :=
    flagged_ones _
  have binaries : flagged (requestOf m options).binaries = namesOfKind m.registry .binary :=
    flagged_ones _
  have whole : ofJslp (requestOf m options) = Builder.build
      ((flagged (requestOf m options).binaries).foldl markBinary
        ((flagged (requestOf m options).ints).foldl markIntegral
          ((requestOf m options).constraints.foldl (fun b row =>
              b.addRow row.1 (jslpCoefficients (requestOf m options) row.1) (jslpRange row.2).1
                (jslpRange row.2).2)
            ((requestOf m options).vars.foldl (fun b e =>
                ((Entries.get? e.2 (requestOf m options).objective).map (addCost b e.1)).getD b)
              ((requestOf m options).vars.foldl (fun b e => setBounds b e.1
                (jslpLower (requestOf m options) e.1) (.infinite false)) {})))))
      m.objective.isMaximize (.real (Binary64.zero false)) := rfl
  rw [whole, columns, costs, rows, integers, binaries, List.nil_append, marks]

end ofJslp

section bounds

variable {v : Variable} {y : ℚ}

def RowsHold (rows : Entries (Entries Number)) (y : ℚ) : Prop :=
  ∀ row ∈ inDoubles rows, Within (jslpRange row.2).1 (jslpRange row.2).2 y

theorem jslpRange_min (x : Binary64) : jslpRange [("min", x)] = (x, .infinite false) := by
  simp [jslpRange, Entries.get?]

theorem jslpRange_max (x : Binary64) : jslpRange [("max", x)] = (.infinite true, x) := by
  simp [jslpRange, Entries.get?]

theorem lower_zero_of_not_lt (exact : v.IsExact) (notNegative : ¬ v.lower.lt 0 = true)
    (h : v.lower.double.IsLower y) : (Binary64.zero false).IsLower y := by
  have same := Number.lt_congr (Number.same_symm exact.lower_same) (Number.same_symm Number.zero_same)
  exact h.of_not_lt (same ▸ notNegative) (Number.isNaN_of_same exact.lower_same) rfl

theorem lower_iff (exact : v.IsExact) :
    (limited v).lower.IsLower y ∧ RowsHold (lowerRows v) y ↔ v.lower.double.IsLower y := by
  have nothing : RowsHold [] y := fun _ member => absurd member List.not_mem_nil
  unfold lowerRows
  -- Zero is the limit of the column itself, an infinite bound frees it, and any other has a row.
  by_cases zero : v.lower.same 0 = true
  · have notNegative := Number.not_lt_of_same zero
    have same := Number.same_trans (Number.same_symm exact.lower_same)
      (Number.same_trans zero Number.zero_same)
    simp only [limited, notNegative, zero, Bool.true_or, if_true, Bool.false_eq_true, if_false,
      nothing, and_true]
    exact (Binary64.isLower_congr same).symm
  · by_cases infinite : v.lower.double.isInfinite = true
    · have negative : v.lower.lt 0 = true := by
        rw [exact.lower_eq infinite]
        exact Number.infinite_lt_zero
      simp only [infinite, Bool.or_true, if_true, nothing, and_true, limited, negative]
      rw [exact.lower_infinite infinite]
    · simp only [zero, infinite, Bool.or_self, Bool.false_eq_true, if_false, RowsHold, inDoubles,
        List.map_cons, List.map_nil, List.forall_mem_singleton, jslpRange_min, Within]
      refine ⟨fun h => h.2.1, fun h => ⟨?_, h, rfl⟩⟩
      simp only [limited]
      split
      · rfl
      · rename_i notNegative
        exact lower_zero_of_not_lt exact notNegative h

theorem upper_iff (exact : v.IsExact) :
    RowsHold (upperRows v) y ↔ v.upper.double.IsUpper y := by
  unfold upperRows
  split
  next infinite =>
    rw [exact.upper_infinite infinite]
    exact iff_of_true (fun _ member => absurd member List.not_mem_nil) rfl
  next finite =>
    simp only [RowsHold, inDoubles, List.map_cons, List.map_nil, List.forall_mem_singleton,
      jslpRange_max, Within]
    exact and_iff_right rfl

theorem isLower_kindColumn {c : Column} (number : c.lower.isNaN = false) :
    (kindColumn v c).lower.IsLower y ↔
      c.lower.IsLower y ∧ (v.isBinary = true → (Binary64.zero false).IsLower y) := by
  rw [lower_kindColumn]
  split
  next binary => rw [isLower_larger number rfl, forall_prop_of_true binary]
  next other => exact (and_iff_left fun binary => absurd binary other).symm

theorem isUpper_kindColumn {c : Column} (number : c.upper.isNaN = false) :
    (kindColumn v c).upper.IsUpper y ↔
      c.upper.IsUpper y ∧ (v.isBinary = true → (Binary64.ofInt 1).IsUpper y) := by
  rw [upper_kindColumn]
  split
  next binary =>
    rw [isUpper_smaller number (Number.isNaN_of_same (Number.ofInt_same 1)),
      forall_prop_of_true binary]
  next other => exact (and_iff_left fun binary => absurd binary other).symm

theorem regroup {below above zero one rowsBelow rowsAbove least most : Prop} (free : above)
    (lower : below ∧ rowsBelow ↔ least) (upper : rowsAbove ↔ most) :
    ((below ∧ zero) ∧ above ∧ one) ∧ rowsBelow ∧ rowsAbove ↔
      (least ∧ zero) ∧ most ∧ one := by
  tauto

theorem within_iff (exact : v.IsExact) (costs : List (String × Binary64)) :
    Within (kindColumn v (priced costs (limited v))).lower
        (kindColumn v (priced costs (limited v))).upper y ∧ RowsHold (boundRows v) y ↔
      Within (LinearProgram.Builder.columnOf v).lower
        (LinearProgram.Builder.columnOf v).upper y := by
  have rows : RowsHold (boundRows v) y ↔ RowsHold (lowerRows v) y ∧ RowsHold (upperRows v) y := by
    simp only [RowsHold, boundRows, inDoubles, List.map_append, List.mem_append, or_imp,
      forall_and]
  have number : (limited v).lower.isNaN = false := by
    unfold limited
    dsimp only
    split <;> rfl
  have lower := lower_iff (y := y) exact
  have upper := upper_iff (y := y) exact
  have below := isLower_kindColumn (v := v) (y := y) (c := priced costs (limited v)) number
  have above := isUpper_kindColumn (v := v) (y := y) (c := priced costs (limited v)) rfl
  have declaredBelow := isLower_kindColumn (v := v) (y := y)
    (c := { name := v.name, lower := v.lower.double, upper := v.upper.double })
    (Number.isNaN_of_same exact.lower_same)
  have declaredAbove := isUpper_kindColumn (v := v) (y := y)
    (c := { name := v.name, lower := v.lower.double, upper := v.upper.double })
    (Number.isNaN_of_same exact.upper_same)
  have free : (priced costs (limited v)).upper.IsUpper y := rfl
  exact (and_congr (and_congr below above) rows).trans
    ((regroup free lower upper).trans (and_congr declaredBelow declaredAbove).symm)

end bounds

section solutions

variable {m : Model} {options : Entries Value} {point : List ℚ}

theorem get?_programRow (nodup : m.registry.names.Nodup) {v : Variable}
    (member : v ∈ m.registry.vars) (row : String × Entries Binary64) :
    (programRow m row).coefficients.get? v.name =
      ((entriesOf m v).get? row.1).map fun n => n.double.settled := by
  have distinct := nodup.sublist (names_coefficientsUnder m row.1)
  rw [programRow, get?_sumByName distinct, get?_coefficientsUnder nodup member, Option.map_map]
  rfl

theorem activity?_boundRow (nodup : m.registry.names.Nodup) {v : Variable} {y : ℚ}
    (here : (v, y) ∈ m.registry.vars.zip point) {row : String × Entries Binary64}
    (isBound : row.1 ∈ (boundRows v).names) :
    activity? ((programRow m row).at m.registry.names) point = some y := by
  have member := (List.of_mem_zip here).1
  have place : (v.name, y) ∈ m.registry.names.zip point := by
    rw [Registry.names, List.zip_map_left]
    exact List.mem_map_of_mem (f := Prod.map (·.name) id) here
  refine activity?_single nodup place ?_ fun x known differs => ?_
  · rw [get?_programRow nodup member, get?_ownBound isBound, Option.map_some, Option.getD_some,
      Binary64.toRat?_one]
  · obtain ⟨w, among, rfl⟩ := Registry.mem_names.1 known
    rw [get?_programRow nodup among, get?_otherBound isBound differs, Option.map_none,
      Option.getD_none, Binary64.toRat?_zero]

theorem at_limitRow (sound : m.WellFormed) {i : Constraint × Nat}
    (member : i ∈ m.constraints.zipIdx) (limits : Entries Binary64) :
    (programRow m (rowName i.2, limits)).at m.registry.names =
      (rowOf i).at m.registry.names := by
  have nodup := sound.registry.nodup
  have canonical := (sound.constraints i.1 (List.fst_mem_of_mem_zipIdx member)).canonical
  refine List.map_congr_left fun x known => congrArg (Option.getD · _) ?_
  obtain ⟨v, among, rfl⟩ := Registry.mem_names.1 known
  rw [get?_programRow nodup among, get?_row member, rowOf,
    get?_sumByName (doubles_nodup canonical), get?_doubles, Option.map_map, Option.map_map]
  exact congrArg (Option.map · _) (funext Number.settled_double_settled)

theorem jslpRange_limitRow (i : Constraint × Nat) :
    jslpRange [(limitKey i.1.comparison, i.1.rhs.double)] = ((rowOf i).lower, (rowOf i).upper) := by
  unfold rowOf
  cases i.1.comparison <;> simp [limitKey, jslpRange, Entries.get?, range]

theorem rowHolds_bound (nodup : m.registry.names.Nodup) {v : Variable} {y : ℚ}
    (here : (v, y) ∈ m.registry.vars.zip point) :
    (∀ row ∈ inDoubles (boundRows v), RowHolds (programRow m row).lower (programRow m row).upper
      ((programRow m row).at m.registry.names) point) ↔ RowsHold (boundRows v) y := by
  refine forall₂_congr fun row member => ?_
  have isBound : row.1 ∈ (boundRows v).names := by
    obtain ⟨limits, among, rfl⟩ := List.mem_map.1 member
    exact List.mem_map_of_mem among
  rw [RowHolds, activity?_boundRow nodup here isBound]
  constructor
  · rintro ⟨total, same, within⟩
    cases same
    exact within
  · exact fun within => ⟨y, rfl, within⟩

theorem exists_mem_zip {v : Variable} {vs : List Variable} (length : point.length = vs.length)
    (member : v ∈ vs) : ∃ y, (v, y) ∈ vs.zip point := by
  obtain ⟨i, bound, rfl⟩ := List.getElem_of_mem member
  have inPoint : i < point.length := length ▸ bound
  have inZip : i < (vs.zip point).length := by
    rw [List.length_zip]
    exact lt_min bound inPoint
  refine ⟨point[i], ?_⟩
  rw [← List.getElem_zip (h := inZip)]
  exact List.getElem_mem inZip

theorem bounds_iff (nodup : m.registry.names.Nodup) (exact : ∀ v ∈ m.registry.vars, v.IsExact)
    (length : point.length = m.registry.vars.length) (costs : List (String × Binary64)) :
    ((∀ t ∈ m.registry.vars.zip point, Within (kindColumn t.1 (priced costs (limited t.1))).lower
          (kindColumn t.1 (priced costs (limited t.1))).upper t.2) ∧
        ∀ v ∈ m.registry.vars, ∀ row ∈ inDoubles (boundRows v), RowHolds (programRow m row).lower
          (programRow m row).upper ((programRow m row).at m.registry.names) point) ↔
      ∀ t ∈ m.registry.vars.zip point, Within (LinearProgram.Builder.columnOf t.1).lower
        (LinearProgram.Builder.columnOf t.1).upper t.2 := by
  constructor
  · rintro ⟨columns, rows⟩ ⟨v, y⟩ here
    have member := (List.of_mem_zip here).1
    have own := (rowHolds_bound nodup here).1 (rows v member)
    exact (within_iff (exact v member) costs).1 ⟨columns _ here, own⟩
  · intro declared
    constructor
    · rintro ⟨v, y⟩ here
      exact ((within_iff (exact v (List.of_mem_zip here).1) costs).2 (declared _ here)).1
    · intro v member
      obtain ⟨y, here⟩ := exists_mem_zip length member
      exact (rowHolds_bound nodup here).2
        ((within_iff (exact v member) costs).2 (declared _ here)).2

theorem forall_constraints {P : String × Entries Binary64 → Prop} :
    (∀ row ∈ (requestOf m options).constraints, P row) ↔
      (∀ v ∈ m.registry.vars, ∀ row ∈ inDoubles (boundRows v), P row) ∧
        ∀ i ∈ m.constraints.zipIdx,
          P (rowName i.2, [(limitKey i.1.comparison, i.1.rhs.double)]) := by
  simp only [requestOf, draftOf, inDoubles, List.map_append, List.forall_mem_append,
    List.map_flatMap, List.forall_mem_flatMap, List.map_map, List.forall_mem_map]
  rfl

theorem satisfies_iff (sound : m.WellFormed) (exact : m.IsExact) :
    (ofJslp (requestOf m options)).Satisfies point ↔
      (Builder.build ⟨columnsOf m, m.constraints.zipIdx.map rowOf⟩ m.objective.isMaximize
        m.objective.expression.constant).Satisfies point := by
  have nodup := sound.registry.nodup
  have names := names_columns (r := m.registry) (g := fun v =>
    kindColumn v (priced (doubles m.objective.expression) (limited v)))
    (fun v => name_kindColumn v _) ((requestOf m options).constraints.map (programRow m))
  rw [ofJslp_requestOf sound, satisfies_build, satisfies_build, names, names_columnsOf]
  have limits : (∀ i ∈ m.constraints.zipIdx,
      RowHolds (programRow m (rowName i.2, [(limitKey i.1.comparison, i.1.rhs.double)])).lower
        (programRow m (rowName i.2, [(limitKey i.1.comparison, i.1.rhs.double)])).upper
        ((programRow m (rowName i.2, [(limitKey i.1.comparison, i.1.rhs.double)])).at
          m.registry.names) point) ↔
      ∀ i ∈ m.constraints.zipIdx,
        RowHolds (rowOf i).lower (rowOf i).upper ((rowOf i).at m.registry.names) point := by
    refine forall₂_congr fun i member => ?_
    rw [at_limitRow sound member, programRow, jslpRange_limitRow]
  simp only [columnsOf, List.zip_map_left, List.forall_mem_map, forall_constraints, limits,
    List.length_map, Prod.map_fst, Prod.map_snd, id]
  refine and_congr_right fun length => ?_
  rw [← and_assoc]
  exact and_congr_left' (bounds_iff nodup exact.bounds length _)

end solutions

theorem readOptions_error {given : Value} {e : Error} (h : Settings.readOptions given = .error e) :
    e = .wrongSort ∨ e = .wrongValue := by
  unfold Settings.readOptions at h
  split at h
  · cases h
  · split at h
    · cases h
    · split at h
      · cases h
        exact .inl rfl
      · rcases bind_eq_error.1 h with pairs | ⟨pairs, -, rest⟩
        · obtain ⟨item, -, step⟩ := exists_of_mapM_error pairs
          unfold Settings.readPair at step
          split at step
          · cases step
            exact .inl rfl
          · split at step
            · cases step
            · cases step
              exact .inl rfl
          · cases step
            exact .inr rfl
        · cases rest

theorem readPlain_error {options : Value} {values : Valuation} {e : Error}
    (h : readPlain options values = .error e) (bridge : String) :
    e ≠ .quadraticUnsupported bridge := by
  rintro rfl
  rcases bind_eq_error.1 h with unread | ⟨read, -, h⟩
  · rcases readOptions_error unread with wrong | wrong <;> cases wrong
  · rcases bind_eq_error.1 h with unchecked | ⟨entries, -, h⟩
    · unfold checked at unchecked
      cases reading : (Schema.readEntries .ok (.map read)).under (.field "options") with
      | ok entries =>
        rw [reading] at unchecked
        cases unchecked
      | error issues =>
        rw [reading] at unchecked
        cases unchecked
    · unfold plainOptions at h
      split at h <;> cases h

theorem encode_quadratic {m : Model} (quadratic : m.isQuadratic = true) (options : Value)
    (values : Valuation) : encode Bridge.jslp m options values =
      .error (.quadraticUnsupported Bridge.jslp.name) := by
  have refused : Bridge.jslp.checkSupported m =
      .error (.quadraticUnsupported Bridge.jslp.name) := by
    simp [Bridge.checkSupported, quadratic, Bridge.jslp]
  exact bind_eq_error.2 (.inl refused)

/-- The request of a model is refused if and only if a term is quadratic; otherwise it has the
columns, the objective and the solutions of the model. Rows that are made up for it, whatever
variables are called, have names that are all different, and none of them is the objective's. -/
theorem request_has_same_solutions {m : Model} (reachable : m.Reachable) (exact : m.IsExact)
    (options : Value) (elsewhere : Valuation) (engine : String) :
    (Bridge.jslp.encode m options elsewhere = .error (.quadraticUnsupported Bridge.jslp.name) ↔
      m.HasQuadraticTerm) ∧
    (¬ m.HasQuadraticTerm →
      (∃ request, Bridge.jslp.encode m .null elsewhere = .ok request) ∧
      ∀ request, Bridge.jslp.encode m options elsewhere = .ok request → ∃ p q,
        Engine.readProgram .jslp request = .ok p ∧ ofModel m engine = .ok q ∧
        p.columnNames = q.columnNames ∧ p.integrality = q.integrality ∧
        p.objective = q.objective ∧ p.maximize = q.maximize ∧
        ∀ point, p.Satisfies point ↔ q.Satisfies point) ∧
    Function.Injective Label.text := by
  have sound := reachable.wellFormed
  have encoded (linear : m.isQuadratic = false) (options : Value) :
      Bridge.jslp.encode m options elsewhere = Request.toValue <$>
        (requestOf m <$> readPlain options (m.valueOr elsewhere)) :=
    congrArg (Request.toValue <$> ·) (encode_eq sound exact.isFinite linear options _)
  rw [← Model.isQuadratic_iff, Bool.not_eq_true]
  refine ⟨⟨fun refused => ?_, fun quadratic => ?_⟩, fun linear => ⟨?_, fun request succeeds => ?_⟩,
    Label.text_injective⟩
  · -- Options that cannot be embedded are refused for a reason of their own.
    by_contra linear
    rw [encoded (Bool.not_eq_true _ ▸ linear)] at refused
    cases reading : readPlain options (m.valueOr elsewhere) with
    | ok plain =>
      rw [reading] at refused
      cases refused
    | error e =>
      rw [reading] at refused
      cases refused
      exact readPlain_error reading _ rfl
  · exact congrArg (Except.map Request.toValue) (encode_quadratic quadratic options _)
  · exact ⟨_, encoded linear .null⟩
  · rw [encoded linear, map_eq_ok] at succeeds
    obtain ⟨r, isRequest, rfl⟩ := succeeds
    obtain ⟨plain, -, rfl⟩ := map_eq_ok.1 isRequest
    have reads : Engine.readProgram .jslp (requestOf m plain).toValue =
        .ok (ofJslp (requestOf m plain)) := by
      simp only [Engine.readProgram, Request.read_toValue]
      rfl
    refine ⟨_, _, reads, ofModel_eq_ok sound exact.isFinite linear engine, ?_, ?_, ?_, ?_,
      fun point => satisfies_iff sound exact⟩
    all_goals rw [ofJslp_requestOf sound]
    · exact (names_columns (fun v => name_kindColumn v _) _).trans (names_columnsOf m _).symm
    · exact map_isIntegral_columnsOf fun _ => rfl
    · exact map_cost_columnsOf (fun _ => rfl) fun _ => rfl
    · rfl

theorem sample_request_has_same_solutions :
    ∃ request p q, Bridge.jslp.encode Model.Sample.model .null (fun _ => .null) = .ok request ∧
      Engine.readProgram .jslp request = .ok p ∧ ofModel Model.Sample.model "scipy" = .ok q ∧
      ∀ point, p.Satisfies point ↔ q.Satisfies point := by
  have exact : Model.Sample.model.IsExact := by decide +kernel
  have linear : ¬ Model.Sample.model.HasQuadraticTerm := by decide +kernel
  obtain ⟨⟨request, encoded⟩, describes⟩ := (request_has_same_solutions Model.Sample.reachable exact
    .null (fun _ => .null) "scipy").2.1 linear
  obtain ⟨p, q, read, compiled, -, -, -, -, same⟩ := describes request encoded
  exact ⟨request, p, q, encoded, read, compiled, same⟩

end LinOpt.Jslp
