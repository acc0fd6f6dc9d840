import LinOpt.Program.OfModel
import LinOpt.Proofs.Entries
import LinOpt.Proofs.Number.Exact

namespace LinOpt.LinearProgram.Builder

def names (b : Builder) : List String :=
  b.columns.map (·.name)

theorem matrix_build (b : Builder) (maximize : Bool) (offset : Number) :
    (b.build maximize offset).matrix = b.rows.map fun row =>
      b.names.map fun x => (row.coefficients.get? x).getD (Binary64.zero false) := by
  simp only [build, names, List.map_map]
  rfl

theorem change_of_fresh {columns : List Column} {x : String}
    (fresh : x ∉ columns.map (·.name)) (f : Column → Column) :
    change x f columns = columns ++ [f { name := x }] := by
  induction columns with
  | nil => rfl
  | cons c columns ih =>
    have differs : c.name ≠ x := fun same => fresh (same ▸ List.mem_cons_self)
    have rest := ih fun member => fresh (List.mem_cons_of_mem c.name member)
    simp only [change, differs, if_false, rest, List.cons_append]

theorem change_of_mem {columns : List Column} {x : String}
    (nodup : (columns.map (·.name)).Nodup) (known : x ∈ columns.map (·.name))
    (f : Column → Column) :
    change x f columns = columns.map fun c => if c.name = x then f c else c := by
  induction columns with
  | nil => cases known
  | cons c columns ih =>
    obtain ⟨alone, nodup⟩ := List.nodup_cons.1 nodup
    unfold change
    split
    · rename_i here
      have others : columns.map (fun d => if d.name = x then f d else d) = columns := by
        refine (List.map_congr_left fun d member => if_neg fun same => ?_).trans (List.map_id _)
        exact alone (List.mem_map.2 ⟨d, member, same.trans here.symm⟩)
      rw [List.map_cons, if_pos here, others]
    · rename_i differs
      rcases List.mem_cons.1 known with here | known
      · exact absurd here.symm differs
      · rw [List.map_cons, if_neg differs, ih nodup known]

theorem foldl_onColumn {items : List γ} (at? : γ → String) (f : γ → Column → Column) {b : Builder}
    (nodup : b.names.Nodup) (known : ∀ i ∈ items, at? i ∈ b.names)
    (keeps : ∀ i c, (f i c).name = c.name) :
    items.foldl (fun b i => b.onColumn (at? i) (f i)) b =
      { b with columns := b.columns.map fun c =>
          items.foldl (fun c i => if c.name = at? i then f i c else c) c } := by
  induction items generalizing b with
  | nil => simp
  | cons i items ih =>
    have changed := change_of_mem nodup (known i List.mem_cons_self) (f i)
    have sameNames : (b.onColumn (at? i) (f i)).names = b.names := by
      simp only [names, onColumn, changed, List.map_map]
      refine List.map_congr_left fun c _ => ?_
      simp only [Function.comp]
      split
      · exact keeps i c
      · rfl
    rw [List.foldl_cons, ih (sameNames ▸ nodup)
      fun j member => sameNames ▸ known j (List.mem_cons_of_mem i member)]
    simp only [onColumn, changed, List.map_map]
    rfl

theorem foldl_onColumn_of_fresh {items : List γ} {at? : γ → String} {f : γ → Column → Column}
    {b : Builder} (nodup : (b.names ++ items.map at?).Nodup)
    (keeps : ∀ i c, (f i c).name = c.name) :
    items.foldl (fun b i => b.onColumn (at? i) (f i)) b =
      { b with columns := b.columns ++ items.map fun i => f i { name := at? i } } := by
  induction items generalizing b with
  | nil => simp
  | cons i items ih =>
    have fresh : at? i ∉ b.columns.map (·.name) := fun member =>
      (List.nodup_append.1 nodup).2.2 _ member _ List.mem_cons_self rfl
    have changed := change_of_fresh fresh (f i)
    have moreNames : (b.onColumn (at? i) (f i)).names = b.names ++ [at? i] := by
      simp [names, onColumn, changed, keeps]
    have next : ((b.onColumn (at? i) (f i)).names ++ items.map at?).Nodup := by
      rw [moreNames, List.append_assoc]
      exact nodup
    rw [List.foldl_cons, ih next]
    simp [onColumn, changed]

theorem foldl_once {xs : List String} {f : Column → Column} (distinct : xs.Nodup)
    (keeps : ∀ c, (f c).name = c.name) (c : Column) :
    xs.foldl (fun c x => if c.name = x then f c else c) c = if c.name ∈ xs then f c else c := by
  induction xs generalizing c with
  | nil => simp
  | cons x xs ih =>
    obtain ⟨alone, distinct⟩ := List.nodup_cons.1 distinct
    rw [List.foldl_cons, ih distinct]
    by_cases here : c.name = x
    · subst here
      simp [keeps, alone]
    · simp [here]

theorem foldl_mark {xs : List String} {f : Column → Column} {b : Builder} (nodup : b.names.Nodup)
    (known : ∀ x ∈ xs, x ∈ b.names) (distinct : xs.Nodup) (keeps : ∀ c, (f c).name = c.name) :
    xs.foldl (fun b x => b.onColumn x f) b =
      { b with columns := b.columns.map fun c => if c.name ∈ xs then f c else c } := by
  refine (foldl_onColumn id (fun _ => f) nodup known fun _ => keeps).trans ?_
  simp only [id, foldl_once distinct keeps]

def costUnder (costs : List (String × Binary64)) (x : String) (start : Binary64) : Binary64 :=
  costs.foldl (fun cost e => if x = e.1 then cost.add e.2 else cost) start

theorem foldl_cost (costs : List (String × Binary64)) (c : Column) :
    costs.foldl (fun c e => if c.name = e.1 then { c with cost := c.cost.add e.2 } else c) c =
      { c with cost := costUnder costs c.name c.cost } := by
  induction costs generalizing c with
  | nil => rfl
  | cons e costs ih =>
    rw [List.foldl_cons, ih]
    simp only [costUnder, List.foldl_cons]
    split <;> rfl

theorem foldl_addCost {costs : List (String × Binary64)} {b : Builder} (nodup : b.names.Nodup)
    (known : ∀ e ∈ costs, e.1 ∈ b.names) :
    costs.foldl (fun b e => b.addCost e.1 e.2) b =
      { b with columns := b.columns.map fun c =>
          { c with cost := costUnder costs c.name c.cost } } := by
  refine (foldl_onColumn Prod.fst (fun e c => { c with cost := c.cost.add e.2 }) nodup known
    fun _ _ => rfl).trans ?_
  simp only [foldl_cost]

theorem costUnder_of_nodup {costs : List (String × Binary64)}
    (nodup : (costs.map Prod.fst).Nodup) (x : String) (start : Binary64) :
    costUnder costs x start = ((Entries.get? costs x).map start.add).getD start := by
  induction costs generalizing start with
  | nil => rfl
  | cons e costs ih =>
    obtain ⟨alone, nodup⟩ := List.nodup_cons.1 nodup
    have step : costUnder (e :: costs) x start =
        costUnder costs x (if x = e.1 then start.add e.2 else start) := rfl
    rw [step, ih nodup, Entries.get?_cons]
    by_cases here : x = e.1
    · have absent : Entries.get? costs x = none := Entries.get?_eq_none.2 (here ▸ alone)
      rw [if_pos here, if_pos here.symm, absent]
      rfl
    · rw [if_neg here, if_neg fun same => here same.symm]

theorem sumByName_of_nodup {coefficients : List (String × Binary64)}
    (nodup : (coefficients.map Prod.fst).Nodup) :
    sumByName coefficients = coefficients.map fun e => (e.1, e.2.settled) := by
  have general : ∀ entries : Entries Binary64,
      (Entries.names entries ++ coefficients.map Prod.fst).Nodup →
      coefficients.foldl accumulate entries =
        entries ++ coefficients.map fun e => (e.1, e.2.settled) := by
    clear nodup
    induction coefficients with
    | nil => simp
    | cons e coefficients ih =>
      intro entries nodup
      have fresh : e.1 ∉ entries.names := fun member =>
        (List.nodup_append.1 nodup).2.2 _ member _ List.mem_cons_self rfl
      have step : accumulate entries e = entries ++ [(e.1, e.2.settled)] := by
        rw [accumulate, Entries.get?_eq_none.2 fresh, Option.getD_none, Binary64.zero_add,
          Entries.put_of_fresh fresh]
      rw [List.foldl_cons, step, ih]
      · simp
      · simpa [Entries.names] using nodup
  exact general [] (by simpa [Entries.names] using nodup)

theorem get?_sumByName {coefficients : List (String × Binary64)}
    (nodup : (coefficients.map Prod.fst).Nodup) (x : String) :
    (sumByName coefficients).get? x = (Entries.get? coefficients x).map Binary64.settled := by
  rw [sumByName_of_nodup nodup]
  exact Entries.get?_map coefficients Binary64.settled x

theorem names_sumByName {coefficients : List (String × Binary64)}
    (nodup : (coefficients.map Prod.fst).Nodup) :
    (sumByName coefficients).map Prod.fst = coefficients.map Prod.fst := by
  rw [sumByName_of_nodup nodup, List.map_map]
  rfl

theorem sumByName_sumByName {coefficients : List (String × Binary64)}
    (nodup : (coefficients.map Prod.fst).Nodup) :
    sumByName (sumByName coefficients) = sumByName coefficients := by
  rw [sumByName_of_nodup (names_sumByName nodup ▸ nodup), sumByName_of_nodup nodup, List.map_map]
  simp only [Function.comp_def, Binary64.settled_settled]

theorem addRow_of_known {b : Builder} {x : String} {coefficients : List (String × Binary64)}
    {lower upper : Binary64} (nodup : b.names.Nodup) (known : ∀ e ∈ coefficients, e.1 ∈ b.names) :
    b.addRow x coefficients lower upper =
      { b with rows := b.rows ++ [⟨x, sumByName coefficients, lower, upper⟩] } := by
  have columns : coefficients.foldl (fun b e => b.onColumn e.1 id) b = b := by
    rw [foldl_onColumn Prod.fst (fun _ => id) nodup known fun _ _ => rfl]
    simp
  simp only [addRow, columns]

theorem foldl_addRow {items : List γ} (row : γ → Row) (coefficients : γ → List (String × Binary64))
    {step : Builder → γ → Builder} {b : Builder} (nodup : b.names.Nodup)
    (adds : ∀ b i, step b i = b.addRow (row i).name (coefficients i) (row i).lower (row i).upper)
    (sums : ∀ i ∈ items, (row i).coefficients = sumByName (coefficients i))
    (known : ∀ i ∈ items, ∀ e ∈ coefficients i, e.1 ∈ b.names) :
    items.foldl step b = { b with rows := b.rows ++ items.map row } := by
  induction items generalizing b with
  | nil => simp
  | cons i items ih =>
    have first : step b i = { b with rows := b.rows ++ [row i] } := by
      rw [adds, addRow_of_known nodup (known i List.mem_cons_self),
        ← sums i List.mem_cons_self]
    have rest := ih (b := { b with rows := b.rows ++ [row i] }) nodup
      (fun j member => sums j (List.mem_cons_of_mem i member))
      fun j member => known j (List.mem_cons_of_mem i member)
    rw [List.foldl_cons, first, rest]
    simp

end LinOpt.LinearProgram.Builder
