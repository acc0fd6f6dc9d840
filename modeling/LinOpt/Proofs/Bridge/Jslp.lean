import LinOpt.Bridge.Jslp
import LinOpt.Proofs.Entries
import LinOpt.Proofs.Outcome
import LinOpt.Proofs.Program.OfModel
import LinOpt.Proofs.Schema.Requests
import LinOpt.Proofs.Text.Digits

namespace LinOpt.Jslp

open LinearProgram.Builder (byName byName_known byName_nodup)

/-- What stands under a name among the coefficients of a variable. -/
inductive Label
  | objective
  | lower (x : String)
  | upper (x : String)
  | row (index : Nat)

def Label.text : Label → String
  | objective => "objective"
  | lower x => lowerRow x
  | upper x => upperRow x
  | row index => rowName index

namespace Label

theorem lowerRow_injective : Function.Injective lowerRow := by
  intro x y same
  have lists := congrArg String.toList same
  simp only [lowerRow, String.toList_append, List.append_cancel_right_eq] at lists
  exact String.toList_injective lists

theorem upperRow_injective : Function.Injective upperRow := by
  intro x y same
  have lists := congrArg String.toList same
  simp only [upperRow, String.toList_append, List.append_cancel_right_eq] at lists
  exact String.toList_injective lists

theorem lowerRow_ne_upperRow (x y : String) : lowerRow x ≠ upperRow y := by
  intro same
  have lists := congrArg String.toList same
  simp only [lowerRow, upperRow, String.toList_append] at lists
  have ends := (List.append_inj' lists (by simp)).2
  simp at ends

def sort : Label → Nat
  | objective => 0
  | lower _ | upper _ => 1
  | row _ => 2

def sortOf (c : Char) : Nat :=
  if c.isDigit then 2 else if c = 'b' then 1 else 0

theorem last_text (l : Label) : ∃ c, l.text.toList.getLast? = some c ∧ sortOf c = l.sort := by
  cases l with
  | objective => exact ⟨'e', by simp [text], by decide⟩
  | lower x => exact ⟨'b', by simp [text, lowerRow], by simp only [sort]; decide⟩
  | upper x => exact ⟨'b', by simp [text, upperRow], by simp only [sort]; decide⟩
  | row index =>
    obtain ⟨c, isLast, digit⟩ := exists_digit_last "c" index
    refine ⟨c, isLast, ?_⟩
    simp only [sortOf, digit, if_true, sort]

theorem text_injective : Function.Injective text := by
  intro a b same
  obtain ⟨c, isLast, first⟩ := last_text a
  obtain ⟨d, alsoLast, second⟩ := last_text b
  rw [same, alsoLast] at isLast
  cases isLast
  -- The last character of a label tells its sort.
  have sorts : a.sort = b.sort := first.symm.trans second
  cases a with
  | objective =>
    cases b with
    | objective => rfl
    | _ => cases sorts
  | lower x =>
    cases b with
    | lower y => rw [lowerRow_injective same]
    | upper y => exact absurd same (lowerRow_ne_upperRow x y)
    | _ => cases sorts
  | upper x =>
    cases b with
    | lower y => exact absurd same.symm (lowerRow_ne_upperRow y x)
    | upper y => rw [upperRow_injective same]
    | _ => cases sorts
  | row i =>
    cases b with
    | row j => rw [append_toString_injective "c" same]
    | _ => cases sorts

end Label

namespace Draft

def lowerRows (v : Variable) : Entries (Entries Number) :=
  if v.lower.same 0 || v.lower.double.isInfinite then []
  else [(lowerRow v.name, [("min", v.lower)])]

def upperRows (v : Variable) : Entries (Entries Number) :=
  if v.upper.double.isInfinite then [] else [(upperRow v.name, [("max", v.upper)])]

def boundRows (v : Variable) : Entries (Entries Number) :=
  lowerRows v ++ upperRows v

def boundEntries (v : Variable) : Entries Number :=
  (boundRows v).map fun row => (row.1, 1)

theorem limit_of_fresh {d : Draft} {row : String} (fresh : row ∉ d.constraints.names)
    (key : String) (n : Number) :
    d.limit row key n = ⟨d.constraints ++ [(row, [(key, n)])], d.vars⟩ := by
  rw [limit, Entries.put_of_fresh fresh]

theorem enter_last {constraints : Entries (Entries Number)} {vars : Entries (Entries Number)}
    {x : String} (fresh : x ∉ vars.names) {entries : Entries Number} {key : String}
    (unset : key ∉ entries.names) (n : Number) :
    enter ⟨constraints, vars ++ [(x, entries)]⟩ x key n =
      ⟨constraints, vars ++ [(x, entries ++ [(key, n)])]⟩ := by
  have found : Entries.get? (vars ++ [(x, entries)]) x = some entries := by
    rw [Entries.get?_append, Entries.get?_eq_none.2 fresh, Option.none_or, Entries.get?_cons,
      if_pos rfl]
  have put : Entries.put x (entries ++ [(key, n)]) [(x, entries)] =
      [(x, entries ++ [(key, n)])] := by
    rw [Entries.put, if_pos rfl]
  rw [enter, found, Option.getD_some, Entries.put_of_fresh unset,
    Entries.put_append_of_fresh fresh, put]

theorem bound_row {d : Draft} {x row : String} {entries : Entries Number}
    (fresh : x ∉ d.vars.names) (freshRow : row ∉ d.constraints.names)
    (unset : row ∉ entries.names) (key : String) (n : Number) :
    (limit ⟨d.constraints, d.vars ++ [(x, entries)]⟩ row key n).enter x row 1 =
      ⟨d.constraints ++ [(row, [(key, n)])], d.vars ++ [(x, entries ++ [(row, 1)])]⟩ := by
  rw [limit_of_fresh (d := ⟨d.constraints, d.vars ++ [(x, entries)]⟩) freshRow,
    enter_last fresh unset]

section addVariable

variable {d : Draft} {v : Variable}

theorem lower_step (fresh : v.name ∉ d.vars.names)
    (freshLower : lowerRow v.name ∉ d.constraints.names) :
    (if v.lower.same 0 || v.lower.double.isInfinite then
        (⟨d.constraints, d.vars ++ [(v.name, [])]⟩ : Draft)
      else (limit ⟨d.constraints, d.vars ++ [(v.name, [])]⟩ (lowerRow v.name) "min" v.lower).enter
        v.name (lowerRow v.name) 1) =
      ⟨d.constraints ++ lowerRows v,
        d.vars ++ [(v.name, (lowerRows v).map fun row => (row.1, 1))]⟩ := by
  unfold lowerRows
  split
  · simp
  · exact bound_row fresh freshLower List.not_mem_nil "min" v.lower

theorem upper_step (fresh : v.name ∉ d.vars.names)
    (freshUpper : upperRow v.name ∉ d.constraints.names) :
    (if v.upper.double.isInfinite then
        (⟨d.constraints ++ lowerRows v,
          d.vars ++ [(v.name, (lowerRows v).map fun row => (row.1, 1))]⟩ : Draft)
      else (limit ⟨d.constraints ++ lowerRows v,
          d.vars ++ [(v.name, (lowerRows v).map fun row => (row.1, 1))]⟩ (upperRow v.name) "max"
          v.upper).enter v.name (upperRow v.name) 1) =
      ⟨d.constraints ++ boundRows v, d.vars ++ [(v.name, boundEntries v)]⟩ := by
  have differs := (Label.lowerRow_ne_upperRow v.name v.name).symm
  have freshAbove : upperRow v.name ∉ Entries.names (d.constraints ++ lowerRows v) := by
    unfold lowerRows
    split
    · simpa using freshUpper
    · simpa [Entries.names, differs] using freshUpper
  have unsetAbove : upperRow v.name ∉
      Entries.names ((lowerRows v).map fun row => (row.1, (1 : Number))) := by
    unfold lowerRows
    split <;> simp [Entries.names, differs]
  simp only [boundEntries, boundRows, upperRows, List.map_append]
  split
  · simp
  · rw [bound_row (d := ⟨d.constraints ++ lowerRows v, d.vars⟩) fresh freshAbove unsetAbove]
    simp

theorem addVariable_eq_ok (declared : v.WellFormed) (fresh : v.name ∉ d.vars.names)
    (freshLower : lowerRow v.name ∉ d.constraints.names)
    (freshUpper : upperRow v.name ∉ d.constraints.names) :
    addVariable d v = .ok ⟨d.constraints ++ boundRows v, d.vars ++ [(v.name, boundEntries v)]⟩ := by
  rw [← upper_step fresh freshUpper, ← lower_step fresh freshLower]
  simp only [addVariable, declared.lower.toBinary64?, declared.upper.toBinary64?, inRange,
    Entries.put_of_fresh fresh]
  by_cases zero : v.lower.same 0 = true
  · simp only [zero, if_true, Bool.true_or]
    rfl
  · simp only [zero, Bool.false_eq_true, if_false, Bool.false_or]
    rfl

theorem mem_names_boundRows {row : String} (member : row ∈ (boundRows v).names) :
    row = lowerRow v.name ∨ row = upperRow v.name := by
  rw [boundRows, Entries.names, List.map_append, List.mem_append] at member
  rcases member with below | above
  · left
    unfold lowerRows at below
    split at below
    · cases below
    · exact List.mem_singleton.1 below
  · right
    unfold upperRows at above
    split at above
    · cases above
    · exact List.mem_singleton.1 above

theorem foldlM_addVariable {vs : List Variable} (declared : ∀ v ∈ vs, v.WellFormed)
    (nodup : (d.vars.names ++ vs.map (·.name)).Nodup)
    (fresh : ∀ v ∈ vs, lowerRow v.name ∉ d.constraints.names ∧
      upperRow v.name ∉ d.constraints.names) :
    vs.foldlM addVariable d = .ok ⟨d.constraints ++ vs.flatMap boundRows,
      d.vars ++ vs.map fun v => (v.name, boundEntries v)⟩ := by
  induction vs generalizing d with
  | nil => simp [pure, Except.pure]
  | cons v vs ih =>
    have unnamed : v.name ∉ d.vars.names := fun member =>
      (List.nodup_append.1 nodup).2.2 _ member _ List.mem_cons_self rfl
    obtain ⟨freshLower, freshUpper⟩ := fresh v List.mem_cons_self
    have first := addVariable_eq_ok (declared v List.mem_cons_self) unnamed freshLower freshUpper
    obtain ⟨alone, -⟩ := List.nodup_cons.1 (List.nodup_append.1 nodup).2.1
    -- Rows for bounds of different variables have different names.
    have later : ∀ w ∈ vs, lowerRow w.name ∉ Entries.names (d.constraints ++ boundRows v) ∧
        upperRow w.name ∉ Entries.names (d.constraints ++ boundRows v) := by
      intro w member
      have differs : v.name ≠ w.name := fun same =>
        alone (List.mem_map.2 ⟨w, member, same.symm⟩)
      obtain ⟨below, above⟩ := fresh w (List.mem_cons_of_mem v member)
      simp only [Entries.names, List.map_append, List.mem_append, not_or]
      refine ⟨⟨below, fun known => ?_⟩, above, fun known => ?_⟩
      · rcases mem_names_boundRows known with same | same
        · exact differs (Label.lowerRow_injective same).symm
        · exact Label.lowerRow_ne_upperRow _ _ same
      · rcases mem_names_boundRows known with same | same
        · exact Label.lowerRow_ne_upperRow _ _ same.symm
        · exact differs (Label.upperRow_injective same).symm
    have rest := ih (d := ⟨d.constraints ++ boundRows v, d.vars ++ [(v.name, boundEntries v)]⟩)
      (fun w member => declared w (List.mem_cons_of_mem v member))
      (by simpa [Entries.names] using nodup) later
    refine foldlM_cons_eq_ok.2 ⟨_, first, rest.trans ?_⟩
    simp

end addVariable

def entered (terms : List (Number × Variable)) (key : String) (value : Number → Number)
    (v : Variable) : Entries Number :=
  (((byName terms).get? v.name).map fun c => (key, value c)).toList

section entered

variable {key : String} {value : Number → Number} {terms : List (Number × Variable)}

theorem entered_cons (t : Number × Variable) (v : Variable) :
    entered (t :: terms) key value v =
      if t.2.name = v.name then [(key, value t.1)] else entered terms key value v := by
  have look := Entries.get?_cons (t.2.name, t.1) (byName terms) v.name
  unfold entered
  rw [byName, List.map_cons]
  split
  · rename_i same
    rw [if_pos same] at look
    rw [← byName, look]
    rfl
  · rename_i differs
    rw [if_neg differs] at look
    rw [← byName, look]

theorem entered_of_absent {v : Variable} (absent : v.name ∉ (byName terms).names) :
    entered terms key value v = [] := by
  rw [entered, Entries.get?_eq_none.2 absent]
  rfl

theorem mem_names_entered {v : Variable} {other : String}
    (member : other ∈ (entered terms key value v).names) : other = key := by
  unfold entered at member
  cases found : (byName terms).get? v.name with
  | none =>
    rw [found] at member
    cases member
  | some c =>
    rw [found] at member
    exact List.mem_singleton.1 member

end entered

theorem foldlM_enter {vs : List Variable} (nodup : (vs.map (·.name)).Nodup) {key : String}
    (value : Number → Number) (step : Draft → Number × Variable → Except Error Draft)
    {terms : List (Number × Variable)}
    (enters : ∀ d, ∀ t ∈ terms, ((d.vars.get? t.2.name).getD []).get? key = none →
      step d t = .ok (d.enter t.2.name key (value t.1)))
    (distinct : (byName terms).names.Nodup) (known : ∀ t ∈ terms, t.2.name ∈ vs.map (·.name))
    (constraints : Entries (Entries Number)) {a : Variable → Entries Number}
    (unset : ∀ v ∈ vs, v.name ∈ (byName terms).names → key ∉ (a v).names) :
    terms.foldlM step ⟨constraints, vs.map fun v => (v.name, a v)⟩ =
      .ok ⟨constraints, vs.map fun v => (v.name, a v ++ entered terms key value v)⟩ := by
  induction terms generalizing a with
  | nil => simp [entered, byName, Entries.get?, pure, Except.pure]
  | cons t terms ih =>
    obtain ⟨alone, distinct⟩ := List.nodup_cons.1 distinct
    have here := known t List.mem_cons_self
    obtain ⟨w, member, same⟩ := List.mem_map.1 here
    have found : Entries.get? (vs.map fun v => (v.name, a v)) t.2.name = some (a w) :=
      same ▸ Entries.get?_indexed nodup a member
    have free : key ∉ (a w).names := unset w member (same ▸ List.mem_cons_self)
    have first := enters ⟨constraints, vs.map fun v => (v.name, a v)⟩ t List.mem_cons_self (by
      rw [found, Option.getD_some, Entries.get?_eq_none]
      exact free)
    rw [enter, found, Option.getD_some, Entries.put_of_fresh free,
      Entries.put_indexed nodup a here] at first
    have later : ∀ v ∈ vs, v.name ∈ (byName terms).names →
        key ∉ Entries.names (if v.name = t.2.name then a w ++ [(key, value t.1)] else a v) := by
      intro v among named
      have differs : v.name ≠ t.2.name := fun equal => by
        rw [equal] at named
        exact alone named
      rw [if_neg differs]
      exact unset v among (List.mem_cons_of_mem _ named)
    have rest := ih (fun d u among => enters d u (List.mem_cons_of_mem t among)) distinct
      (fun u among => known u (List.mem_cons_of_mem t among)) later
    refine foldlM_cons_eq_ok.2 ⟨_, first, rest.trans ?_⟩
    simp only [Except.ok.injEq, Draft.mk.injEq, true_and]
    refine List.map_congr_left fun v among => congrArg (Prod.mk v.name) ?_
    rw [entered_cons]
    -- Only the variable of this term has gained something under the key.
    by_cases this : v.name = t.2.name
    · obtain rfl : v = w := List.inj_on_of_nodup_map nodup among member (this.trans same.symm)
      have absent : v.name ∉ (byName terms).names := same ▸ alone
      rw [if_pos this, if_pos same.symm, entered_of_absent absent, List.append_nil]
    · rw [if_neg this, if_neg fun equal => this equal.symm]

theorem foldl_addCost {vs : List Variable} (nodup : (vs.map (·.name)).Nodup)
    {terms : List (Number × Variable)} (distinct : (byName terms).names.Nodup)
    (known : ∀ t ∈ terms, t.2.name ∈ vs.map (·.name)) (constraints : Entries (Entries Number))
    {a : Variable → Entries Number} (unset : ∀ v ∈ vs, "objective" ∉ (a v).names) :
    terms.foldl addCost ⟨constraints, vs.map fun v => (v.name, a v)⟩ =
      ⟨constraints, vs.map fun v => (v.name, a v ++ entered terms "objective" id v)⟩ := by
  have entering := foldlM_enter nodup id (fun d t => .ok (addCost d t))
    (fun _ _ _ _ => rfl) distinct known constraints fun v member _ => unset v member
  rw [foldlM_eq_ok fun _ _ _ => rfl] at entering
  exact Except.ok.inj entering

theorem addCoefficient_of_unset {row : String} {d : Draft} {t : Number × Variable}
    (unset : ((d.vars.get? t.2.name).getD []).get? row = none) :
    addCoefficient row d t = .ok (d.enter t.2.name row t.1.settled) := by
  simp only [addCoefficient, unset, Option.getD_none, Number.zero_add]
  rfl

def limitRow (indexed : Constraint × Nat) : String × Entries Number :=
  (rowName indexed.2, [(limitKey indexed.1.comparison, indexed.1.rhs)])

def rowEntries (rows : List (Constraint × Nat)) (v : Variable) : Entries Number :=
  rows.flatMap fun indexed =>
    entered indexed.1.lhs.linearTerms (rowName indexed.2) Number.settled v

theorem foldlM_addConstraint {vs : List Variable} (nodup : (vs.map (·.name)).Nodup)
    {rows : List (Constraint × Nat)}
    (distinct : ∀ i ∈ rows, (byName i.1.lhs.linearTerms).names.Nodup)
    (known : ∀ i ∈ rows, ∀ t ∈ i.1.lhs.linearTerms, t.2.name ∈ vs.map (·.name))
    (places : (rows.map Prod.snd).Nodup) {constraints : Entries (Entries Number)}
    (fresh : ∀ i ∈ rows, rowName i.2 ∉ constraints.names) {a : Variable → Entries Number}
    (unset : ∀ i ∈ rows, ∀ v ∈ vs, rowName i.2 ∉ (a v).names) :
    rows.foldlM addConstraint ⟨constraints, vs.map fun v => (v.name, a v)⟩ =
      .ok ⟨constraints ++ rows.map limitRow,
        vs.map fun v => (v.name, a v ++ rowEntries rows v)⟩ := by
  induction rows generalizing constraints a with
  | nil => simp [rowEntries, pure, Except.pure]
  | cons i rows ih =>
    obtain ⟨alone, places⟩ := List.nodup_cons.1 places
    have differs : ∀ j ∈ rows, rowName j.2 ≠ rowName i.2 := fun j member same =>
      alone (List.mem_map.2 ⟨j, member, append_toString_injective "c" same⟩)
    have limited := limit_of_fresh (d := ⟨constraints, vs.map fun v => (v.name, a v)⟩)
      (fresh i List.mem_cons_self) (limitKey i.1.comparison) i.1.rhs
    have first : addConstraint ⟨constraints, vs.map fun v => (v.name, a v)⟩ i =
        .ok ⟨constraints ++ [limitRow i], vs.map fun v =>
          (v.name, a v ++ entered i.1.lhs.linearTerms (rowName i.2) Number.settled v)⟩ := by
      rw [addConstraint, limited]
      exact foldlM_enter nodup _ _ (fun d t _ => addCoefficient_of_unset)
        (distinct i List.mem_cons_self) (known i List.mem_cons_self) _
        fun v member _ => unset i List.mem_cons_self v member
    -- A row is named for its place, so that no later name has been used yet.
    have laterFresh : ∀ j ∈ rows, rowName j.2 ∉ Entries.names (constraints ++ [limitRow i]) := by
      intro j member
      have before := fresh j (List.mem_cons_of_mem i member)
      simpa [Entries.names, limitRow, differs j member] using before
    have laterUnset : ∀ j ∈ rows, ∀ v ∈ vs, rowName j.2 ∉ Entries.names
        (a v ++ entered i.1.lhs.linearTerms (rowName i.2) Number.settled v) := by
      intro j member v among known
      rw [Entries.names, List.map_append, List.mem_append] at known
      rcases known with before | now
      · exact unset j (List.mem_cons_of_mem i member) v among before
      · exact differs j member (mem_names_entered now)
    have rest := ih (fun j member => distinct j (List.mem_cons_of_mem i member))
      (fun j member => known j (List.mem_cons_of_mem i member)) places laterFresh laterUnset
    refine foldlM_cons_eq_ok.2 ⟨_, first, rest.trans ?_⟩
    simp [rowEntries]

def entriesOf (m : Model) (v : Variable) : Entries Number :=
  boundEntries v ++ entered m.objective.expression.linearTerms "objective" id v ++
    rowEntries m.constraints.zipIdx v

def draftOf (m : Model) : Draft where
  constraints := m.registry.vars.flatMap boundRows ++ m.constraints.zipIdx.map limitRow
  vars := m.registry.vars.map fun v => (v.name, entriesOf m v)

section draftOf

variable {m : Model}

theorem names_boundEntries (v : Variable) : (boundEntries v).names = (boundRows v).names := by
  rw [boundEntries, Entries.names, List.map_map]
  rfl

theorem label_not_mem_boundRows {l : Label} (other : l.sort ≠ 1) (v : Variable) :
    l.text ∉ (boundRows v).names := by
  intro member
  rcases mem_names_boundRows member with same | same
  · have label : l = .lower v.name := Label.text_injective same
    exact other (label ▸ rfl)
  · have label : l = .upper v.name := Label.text_injective same
    exact other (label ▸ rfl)

theorem foldlM_addVariable_empty (sound : m.WellFormed) :
    m.registry.vars.foldlM addVariable {} = .ok ⟨m.registry.vars.flatMap boundRows,
      m.registry.vars.map fun v => (v.name, boundEntries v)⟩ :=
  foldlM_addVariable sound.registry.declared sound.registry.nodup fun _ _ =>
    ⟨List.not_mem_nil, List.not_mem_nil⟩

theorem draft_eq_ok (sound : m.WellFormed) :
    m.constraints.zipIdx.foldlM addConstraint (m.objective.expression.linearTerms.foldl addCost
      ⟨m.registry.vars.flatMap boundRows,
        m.registry.vars.map fun v => (v.name, boundEntries v)⟩) = .ok (draftOf m) := by
  have nodup : (m.registry.vars.map (·.name)).Nodup := sound.registry.nodup
  have costs := foldl_addCost nodup (byName_nodup sound.canonical) (byName_known sound.owned)
    (m.registry.vars.flatMap boundRows) (a := boundEntries) fun v _ => by
      rw [names_boundEntries]
      exact label_not_mem_boundRows (l := .objective) (by decide) v
  have row (i) (member : i ∈ m.constraints.zipIdx) :=
    sound.constraints i.1 (List.fst_mem_of_mem_zipIdx member)
  have places : (m.constraints.zipIdx.map Prod.snd).Nodup := by
    rw [List.zipIdx_map_snd]
    exact List.nodup_range'
  have fresh : ∀ i ∈ m.constraints.zipIdx,
      rowName i.2 ∉ Entries.names (m.registry.vars.flatMap boundRows) := by
    intro i _ known
    obtain ⟨e, among, named⟩ := List.mem_map.1 known
    obtain ⟨v, -, isRow⟩ := List.mem_flatMap.1 among
    refine label_not_mem_boundRows (l := .row i.2) (by simp [Label.sort]) v ?_
    exact List.mem_map.2 ⟨e, isRow, named⟩
  have unset : ∀ i ∈ m.constraints.zipIdx, ∀ v ∈ m.registry.vars,
      rowName i.2 ∉ Entries.names (boundEntries v ++
        entered m.objective.expression.linearTerms "objective" id v) := by
    intro i _ v _ known
    rw [Entries.names, List.map_append, List.mem_append] at known
    rcases known with bound | cost
    · rw [← Entries.names, names_boundEntries] at bound
      exact label_not_mem_boundRows (l := .row i.2) (by simp [Label.sort]) v bound
    · have label : Label.row i.2 = .objective := Label.text_injective (mem_names_entered cost)
      cases label
  have rows := foldlM_addConstraint nodup (fun i member => byName_nodup (row i member).canonical)
    (fun i member => byName_known (row i member).owned) places fresh unset
  rw [costs]
  exact rows

theorem mem_entered {key : String} {value : Number → Number} {terms : List (Number × Variable)}
    {v : Variable} {e : String × Number} (member : e ∈ entered terms key value v) :
    ∃ t ∈ terms, e = (key, value t.1) := by
  obtain ⟨c, found, rfl⟩ := Option.map_eq_some_iff.1 (Option.mem_toList.1 member)
  obtain ⟨entry, isEntry, rfl⟩ := Option.map_eq_some_iff.1 found
  obtain ⟨t, among, rfl⟩ := List.mem_map.1 (List.mem_of_find?_eq_some isEntry)
  exact ⟨t, among, rfl⟩

theorem boundRows_toBinary64? {v : Variable} (declared : v.WellFormed) :
    ∀ row ∈ boundRows v, ∀ n ∈ row.2, n.2.toBinary64? = some n.2.double := by
  intro row member n isNumber
  rcases List.mem_append.1 member with below | above
  · unfold lowerRows at below
    split at below
    · cases below
    · obtain rfl := List.mem_singleton.1 below
      obtain rfl := List.mem_singleton.1 isNumber
      exact declared.lower.toBinary64?
  · unfold upperRows at above
    split at above
    · cases above
    · obtain rfl := List.mem_singleton.1 above
      obtain rfl := List.mem_singleton.1 isNumber
      exact declared.upper.toBinary64?

theorem constraints_toBinary64? (sound : m.WellFormed) (finite : m.IsFinite) :
    ∀ row ∈ (draftOf m).constraints, ∀ n ∈ row.2, n.2.toBinary64? = some n.2.double := by
  intro row member n isNumber
  rcases List.mem_append.1 member with bound | limit
  · obtain ⟨v, among, isRow⟩ := List.mem_flatMap.1 bound
    exact boundRows_toBinary64? (sound.registry.declared v among) row isRow n isNumber
  · obtain ⟨i, among, rfl⟩ := List.mem_map.1 limit
    obtain rfl := List.mem_singleton.1 isNumber
    exact (finite.rhs i.1 (List.fst_mem_of_mem_zipIdx among)).toBinary64?

theorem entriesOf_toBinary64? (finite : m.IsFinite) (v : Variable) :
    ∀ n ∈ entriesOf m v, n.2.toBinary64? = some n.2.double := by
  intro n member
  rcases List.mem_append.1 member with front | row
  · rcases List.mem_append.1 front with bound | cost
    · obtain ⟨row, -, rfl⟩ := List.mem_map.1 bound
      exact Number.isExact_one.isFinite.toBinary64?
    · obtain ⟨t, among, rfl⟩ := mem_entered cost
      exact (finite.objective.linear t among).toBinary64?
  · obtain ⟨i, isRow, inRow⟩ := List.mem_flatMap.1 row
    obtain ⟨t, among, rfl⟩ := mem_entered inRow
    have lhs := finite.lhs i.1 (List.fst_mem_of_mem_zipIdx isRow)
    exact (lhs.linear t among).settled.toBinary64?

end draftOf

end Draft

open Schema Reading

def inDoubles (entries : Entries (Entries Number)) : Entries (Entries Binary64) :=
  entries.map fun e => (e.1, e.2.map fun n => (n.1, n.2.double))

theorem readNumbers_eq_ok {entries : Entries (Entries Number)}
    (read : ∀ e ∈ entries, ∀ n ∈ e.2, n.2.toBinary64? = some n.2.double) :
    readNumbers entries = .ok (inDoubles entries) := by
  refine all_map_ok fun e member => ?_
  have numbers : all (e.2.map fun n => ((readFloat n.2).under (.field n.1)).map fun x => (n.1, x)) =
      .ok (e.2.map fun n => (n.1, n.2.double)) := by
    refine all_map_ok fun n among => ?_
    simp only [readFloat, read e member n among, under_ok, map_ok]
  obtain ⟨name, entries⟩ := e
  dsimp only at numbers ⊢
  rw [numbers]
  rfl

/-- The request for a model, with options that have been read. -/
def requestOf (m : Model) (options : Entries Value) : Request where
  maximize := m.objective.isMaximize
  constraints := inDoubles (Draft.draftOf m).constraints
  vars := inDoubles (Draft.draftOf m).vars
  ints := ones (LinearProgram.Builder.namesOfKind m.registry .integer)
  binaries := ones (LinearProgram.Builder.namesOfKind m.registry .binary)
  unrestricted := ones (namesWhere m fun v => v.lower.lt 0)
  options := options

def readPlain (options : Value) (values : Valuation) : Except Error (Entries Value) := do
  let options ← Settings.readOptions options
  let options ← checked ((readEntries .ok (.map options)).under (.field "options"))
  plainOptions values options

theorem encode_eq {m : Model} (sound : m.WellFormed) (finite : m.IsFinite)
    (linear : m.isQuadratic = false) (options : Value) (values : Valuation) :
    encode Bridge.jslp m options values = requestOf m <$> readPlain options values := by
  have supported : Bridge.jslp.checkSupported m = .ok () := by
    simp [Bridge.checkSupported, linear]
  have declared := Draft.foldlM_addVariable_empty sound
  have drafted := Draft.draft_eq_ok sound
  have constraints := readNumbers_eq_ok (Draft.constraints_toBinary64? sound finite)
  have vars : readNumbers (Draft.draftOf m).vars = .ok (inDoubles (Draft.draftOf m).vars) := by
    refine readNumbers_eq_ok fun e member => ?_
    obtain ⟨v, -, rfl⟩ := List.mem_map.1 member
    exact Draft.entriesOf_toBinary64? finite v
  simp only [encode, readPlain, supported, declared, drafted, constraints, vars, bind, Except.bind,
    under_ok]
  cases Settings.readOptions options with
  | error e => rfl
  | ok options =>
    dsimp only
    cases (readEntries .ok (.map options)).under (.field "options") with
    | error e => rfl
    | ok options =>
      simp only [checked, both_ok, Except.mapError]
      cases plainOptions values options <;> rfl

end LinOpt.Jslp
