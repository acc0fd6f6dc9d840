import LinOpt.Proofs.Expression.Reread
import LinOpt.Proofs.FirstOccurrence
import LinOpt.Proofs.Program.Marginals
import LinOpt.Proofs.Program.OfModel

namespace LinOpt

namespace Binary64

def total (xs : List Binary64) : Binary64 :=
  xs.foldl add (zero false)

/-- The sum of numbers as doubles, which is not rounded if every sum on the way is a double. -/
def IsSum (sum : Binary64) (xs : List Binary64) : Prop :=
  sum = total xs ∧ (AddExactly 0 xs → sum.toRat? = some (xs.map rational).sum)

theorem isSum_total (xs : List Binary64) : (total xs).IsSum xs := by
  refine ⟨rfl, fun exact => ?_⟩
  simpa [total] using exact.toRat?_foldl toRat?_zero

theorem settled_total (xs : List Binary64) : (total xs).settled = total xs :=
  List.foldlRecOn xs add (motive := fun sum => sum.settled = sum) rfl
    fun _ settled x _ => settled_add settled x

theorem total_toList (x : Option Binary64) : total x.toList = (x.getD (zero false)).settled := by
  cases x with
  | none => rfl
  | some x => exact zero_add x

end Binary64

namespace LinearProgram.Builder

open Binary64 (total)

def under (coefficients : List (String × Binary64)) (x : String) : List Binary64 :=
  (coefficients.filter (·.1 == x)).map Prod.snd

theorem under_cons (e : String × Binary64) (coefficients : List (String × Binary64)) (x : String) :
    under (e :: coefficients) x =
      if e.1 = x then e.2 :: under coefficients x else under coefficients x := by
  by_cases here : e.1 = x <;> simp [under, here]

theorem under_of_nodup {coefficients : List (String × Binary64)}
    (nodup : (coefficients.map Prod.fst).Nodup) (x : String) :
    under coefficients x = (Entries.get? coefficients x).toList := by
  induction coefficients with
  | nil => rfl
  | cons e coefficients ih =>
    obtain ⟨alone, nodup⟩ := List.nodup_cons.1 nodup
    rw [under_cons, Entries.get?_cons, ih nodup]
    by_cases here : e.1 = x
    · have absent : Entries.get? coefficients x = none :=
        Entries.get?_eq_none.2 fun member => alone (here ▸ member)
      rw [if_pos here, if_pos here, absent]
      rfl
    · rw [if_neg here, if_neg here]

theorem getD_accumulate (entries : Entries Binary64) (e : String × Binary64) (x : String) :
    ((accumulate entries e).get? x).getD (Binary64.zero false) =
      if e.1 == x then ((entries.get? x).getD (Binary64.zero false)).add e.2
      else (entries.get? x).getD (Binary64.zero false) := by
  rw [accumulate, Entries.get?_put]
  by_cases here : e.1 = x
  · simp [here]
  · simp [here]

theorem getD_sumByName (coefficients : List (String × Binary64)) (x : String) :
    ((sumByName coefficients).get? x).getD (Binary64.zero false) =
      total (under coefficients x) := by
  have steps : coefficients.foldl (fun sum e => if e.1 == x then sum.add e.2 else sum)
      ((Entries.get? [] x).getD (Binary64.zero false)) =
        ((coefficients.foldl accumulate []).get? x).getD (Binary64.zero false) :=
    List.foldl_hom (fun entries : Entries Binary64 => (entries.get? x).getD (Binary64.zero false))
      fun entries e => (getD_accumulate entries e x).symm
  rw [sumByName, ← steps, total, under, List.foldl_map, List.foldl_filter]
  rfl

theorem names_sumByName_eq (coefficients : List (String × Binary64)) :
    (sumByName coefficients).names = (coefficients.map Prod.fst).eraseDups := by
  have empty : Entries.names ([] : Entries Binary64) = [].eraseDups := rfl
  have step (entries : Entries Binary64) (known : List String) (e : String × Binary64)
      (start : entries.names = known.eraseDups) :
      (accumulate entries e).names = (known ++ [e.1]).eraseDups :=
    Entries.names_put start e.1 _
  have names := foldl_eraseDups Entries.names _ step coefficients empty
  rwa [List.nil_append, ← List.map_eq_flatMap] at names

theorem total_under_sumByName (coefficients : List (String × Binary64)) (x : String) :
    total (under (sumByName coefficients) x) = total (under coefficients x) := by
  have nodup : (sumByName coefficients).names.Nodup :=
    names_sumByName_eq coefficients ▸ nodup_eraseDups _
  rw [under_of_nodup nodup, Binary64.total_toList, getD_sumByName, Binary64.settled_total]

/-- The column of a name: the one that is there, or the one that would be made. -/
def columnAt (b : Builder) (x : String) : Column :=
  (b.columns.find? (·.name == x)).getD { name := x }

theorem columns_eq {b : Builder} (nodup : b.names.Nodup) :
    b.columns = b.names.map b.columnAt := by
  have found : ∀ c ∈ b.columns, b.columnAt c.name = c := by
    intro c member
    have first : (b.columns.find? (·.name == c.name)).isSome :=
      List.find?_isSome.2 ⟨c, member, beq_iff_eq.2 rfl⟩
    obtain ⟨d, isFirst⟩ := Option.isSome_iff_exists.1 first
    have same := List.inj_on_of_nodup_map nodup (List.mem_of_find?_eq_some isFirst) member
      (beq_iff_eq.1 (List.find?_some (p := fun d : Column => d.name == c.name) isFirst))
    rw [columnAt, isFirst, same, Option.getD_some]
  rw [names, List.map_map]
  exact ((List.map_congr_left found).trans (List.map_id _)).symm

section change

variable {x y : String} {f : Column → Column} {columns : List Column}

theorem find?_change (keeps : ∀ c, (f c).name = c.name) :
    (change x f columns).find? (·.name == y) =
      if x == y then some (f ((columns.find? (·.name == y)).getD { name := y }))
      else columns.find? (·.name == y) := by
  induction columns with
  | nil => by_cases same : x = y <;> simp [change, keeps, same]
  | cons c columns ih =>
    by_cases here : c.name = x
    · by_cases same : x = y <;> simp [change, keeps, here, same]
    · by_cases same : c.name = y
      · have differs : x ≠ y := fun other => here (same.trans other.symm)
        simp [change, same, differs, Ne.symm differs]
      · simp [change, here, same, ih]

theorem names_change (keeps : ∀ c, (f c).name = c.name) : (change x f columns).map (·.name) =
    if x ∈ columns.map (·.name) then columns.map (·.name) else columns.map (·.name) ++ [x] := by
  induction columns with
  | nil => simp [change, keeps]
  | cons c columns ih =>
    by_cases here : c.name = x
    · simp [change, keeps, here]
    · simp only [change, here, if_false, List.map_cons, ih, List.mem_cons, Ne.symm here, false_or]
      split <;> rfl

end change

theorem columnAt_onColumn {f : Column → Column} (keeps : ∀ c, (f c).name = c.name) (b : Builder)
    (x y : String) :
    (b.onColumn x f).columnAt y = if x == y then f (b.columnAt y) else b.columnAt y := by
  simp only [columnAt, onColumn, find?_change keeps]
  split <;> rfl

theorem names_onColumn {f : Column → Column} (keeps : ∀ c, (f c).name = c.name) {b : Builder}
    {mentioned : List String} (x : String) (start : b.names = mentioned.eraseDups) :
    (b.onColumn x f).names = (mentioned ++ [x]).eraseDups := by
  have known : x ∈ b.columns.map (·.name) ↔ x ∈ mentioned := by
    rw [← List.mem_eraseDups (l := mentioned), ← start, names]
  rw [eraseDups_concat, ← start]
  simp only [names, onColumn, names_change keeps, known]

section onColumns

variable {γ : Type} (at? : γ → String) {f : γ → Column → Column} {b : Builder}
  {mentioned : List String}

theorem names_onColumns (keeps : ∀ i c, (f i c).name = c.name) (items : List γ)
    (start : b.names = mentioned.eraseDups) :
    (items.foldl (fun b i => b.onColumn (at? i) (f i)) b).names =
      (mentioned ++ items.map at?).eraseDups := by
  have names := foldl_eraseDups names _ (fun _ _ i => names_onColumn (keeps i) (at? i)) items start
  rwa [← List.map_eq_flatMap] at names

theorem columnAt_onColumns (keeps : ∀ i c, (f i c).name = c.name) (items : List γ) (x : String) :
    (items.foldl (fun b i => b.onColumn (at? i) (f i)) b).columnAt x =
      (items.filter (at? · == x)).foldl (fun c i => f i c) (b.columnAt x) := by
  have steps : items.foldl (fun c i => if at? i == x then f i c else c) (b.columnAt x) =
      (items.foldl (fun b i => b.onColumn (at? i) (f i)) b).columnAt x :=
    List.foldl_hom (fun b : Builder => b.columnAt x)
      fun b i => (columnAt_onColumn (keeps i) b (at? i) x).symm
  rw [← steps, List.foldl_filter]

theorem rows_onColumns (items : List γ) :
    (items.foldl (fun b i => b.onColumn (at? i) (f i)) b).rows = b.rows :=
  List.foldlRecOn items _ (motive := fun s : Builder => s.rows = b.rows) rfl fun _ same _ _ => same

end onColumns

section given

variable {γ : Type} (at? : γ → String) (range : γ → Binary64 × Binary64) (cost : γ → Binary64)

theorem names_setBounds {b : Builder} {mentioned : List String} (items : List γ)
    (start : b.names = mentioned.eraseDups) :
    (items.foldl (fun b i => b.setBounds (at? i) (range i).1 (range i).2) b).names =
      (mentioned ++ items.map at?).eraseDups :=
  names_onColumns at? (f := fun i c => { c with lower := (range i).1, upper := (range i).2 })
    (fun _ _ => rfl) items start

theorem names_addCosts {b : Builder} {mentioned : List String} (items : List γ)
    (start : b.names = mentioned.eraseDups) :
    (items.foldl (fun b i => b.addCost (at? i) (cost i)) b).names =
      (mentioned ++ items.map at?).eraseDups :=
  names_onColumns at? (f := fun i c => { c with cost := c.cost.add (cost i) }) (fun _ _ => rfl)
    items start

theorem rows_setBounds (b : Builder) (items : List γ) :
    (items.foldl (fun b i => b.setBounds (at? i) (range i).1 (range i).2) b).rows = b.rows :=
  rows_onColumns at? (f := fun i c => { c with lower := (range i).1, upper := (range i).2 }) items

theorem rows_addCosts (b : Builder) (items : List γ) :
    (items.foldl (fun b i => b.addCost (at? i) (cost i)) b).rows = b.rows :=
  rows_onColumns at? (f := fun i c => { c with cost := c.cost.add (cost i) }) items

theorem columnAt_addCosts (b : Builder) (items : List γ) (x : String) :
    (items.foldl (fun b i => b.addCost (at? i) (cost i)) b).columnAt x =
      { b.columnAt x with
        cost := ((items.filter (at? · == x)).map cost).foldl Binary64.add
          (b.columnAt x).cost } := by
  refine (columnAt_onColumns at? (f := fun i c => { c with cost := c.cost.add (cost i) })
    (fun _ _ => rfl) items x).trans ?_
  generalize b.columnAt x = c
  induction items.filter (at? · == x) generalizing c with
  | nil => rfl
  | cons i items ih =>
    rw [List.foldl_cons, ih]
    rfl

theorem columnAt_setBounds (b : Builder) (items : List γ) (x : String) :
    (items.foldl (fun b i => b.setBounds (at? i) (range i).1 (range i).2) b).columnAt x =
      match (items.filter (at? · == x)).getLast? with
      | some i => { b.columnAt x with lower := (range i).1, upper := (range i).2 }
      | none => b.columnAt x := by
  refine (columnAt_onColumns at?
    (f := fun i c => { c with lower := (range i).1, upper := (range i).2 })
    (fun _ _ => rfl) items x).trans ?_
  induction items.filter (at? · == x) using List.reverseRecOn with
  | nil => rfl
  | append_singleton items i ih =>
    rw [List.foldl_concat, ih, List.getLast?_concat]
    cases items.getLast? <;> rfl

end given

theorem columnAt_onNames {f : Column → Column} (keeps : ∀ c, (f c).name = c.name)
    (again : ∀ c, f (f c) = f c) (b : Builder) (xs : List String) (x : String) :
    (xs.foldl (fun b x => b.onColumn x f) b).columnAt x =
      if x ∈ xs then f (b.columnAt x) else b.columnAt x := by
  refine (columnAt_onColumns id (fun _ => keeps) xs x).trans ?_
  generalize b.columnAt x = c
  induction xs generalizing c with
  | nil => rfl
  | cons y xs ih =>
    by_cases here : y = x
    · subst here
      have rest := ih (f c)
      rw [List.filter_cons_of_pos (by simp), List.foldl_cons, rest, again,
        if_pos List.mem_cons_self]
      exact ite_self _
    · have rest := ih c
      rw [List.filter_cons_of_neg (by simpa using here), rest]
      simp only [List.mem_cons, Ne.symm here, false_or]

theorem larger_larger (x y : Binary64) : larger (larger x y) y = larger x y := by
  by_cases below : (Number.real x).lt (.real y) = true
  · rw [larger, larger, if_pos below]
    exact ite_self y
  · rw [larger, larger, if_neg below, if_neg below]

theorem smaller_smaller (x y : Binary64) : smaller (smaller x y) y = smaller x y := by
  by_cases above : (Number.real y).lt (.real x) = true
  · rw [smaller, smaller, if_pos above]
    exact ite_self y
  · rw [smaller, smaller, if_neg above, if_neg above]

/-- The column of a name after the columns of some names have been marked, and those of others have
been marked and bounded. -/
def marked (integral binary : List String) (x : String) (c : Column) : Column :=
  let c := if x ∈ integral then integralColumn c else c
  if x ∈ binary then binaryColumn c else c

theorem columnAt_marks (b : Builder) (integral binary : List String) (x : String) :
    (binary.foldl markBinary (integral.foldl markIntegral b)).columnAt x =
      marked integral binary x (b.columnAt x) := by
  have again (c : Column) : binaryColumn (binaryColumn c) = binaryColumn c := by
    simp only [binaryColumn, larger_larger, smaller_smaller]
  have first := columnAt_onNames (f := integralColumn) (fun _ => rfl) (fun _ => rfl) b integral x
  have second := columnAt_onNames (f := binaryColumn) (fun _ => rfl) again
    (integral.foldl markIntegral b) binary x
  refine second.trans ?_
  rw [marked, ← first]
  rfl

section marked

variable (integral binary : List String) (x : String) (c : Column)

theorem lower_marked : (marked integral binary x c).lower =
    if x ∈ binary then larger c.lower (Binary64.zero false) else c.lower := by
  simp only [marked, apply_ite Column.lower, binaryColumn, integralColumn, ite_self]

theorem upper_marked : (marked integral binary x c).upper =
    if x ∈ binary then smaller c.upper (Binary64.ofInt 1) else c.upper := by
  simp only [marked, apply_ite Column.upper, binaryColumn, integralColumn, ite_self]

theorem cost_marked : (marked integral binary x c).cost = c.cost := by
  simp only [marked, apply_ite Column.cost, binaryColumn, integralColumn, ite_self]

theorem isIntegral_marked : (marked integral binary x c).isIntegral = true ↔
    x ∈ integral ∨ x ∈ binary ∨ c.isIntegral = true := by
  by_cases isIntegral : x ∈ integral <;> by_cases isBinary : x ∈ binary <;>
    simp [marked, isIntegral, isBinary, binaryColumn, integralColumn]

end marked

theorem names_marks {b : Builder} {mentioned : List String} (integral binary : List String)
    (start : b.names = mentioned.eraseDups) :
    (binary.foldl markBinary (integral.foldl markIntegral b)).names =
      (mentioned ++ integral ++ binary).eraseDups := by
  have first := names_onColumns id (f := fun _ => integralColumn) (fun _ _ => rfl) integral start
  have second := names_onColumns id (f := fun _ => binaryColumn) (fun _ _ => rfl) binary first
  rwa [List.map_id, List.map_id] at second

theorem rows_marks (b : Builder) (integral binary : List String) :
    (binary.foldl markBinary (integral.foldl markIntegral b)).rows = b.rows :=
  (rows_onColumns id (f := fun _ => binaryColumn) binary).trans
    (rows_onColumns id (f := fun _ => integralColumn) integral)

theorem names_addRow {b : Builder} {mentioned : List String} (name : String)
    (coefficients : List (String × Binary64)) (lower upper : Binary64)
    (start : b.names = mentioned.eraseDups) :
    (b.addRow name coefficients lower upper).names =
      (mentioned ++ coefficients.map Prod.fst).eraseDups :=
  names_onColumns Prod.fst (f := fun _ => id) (fun _ _ => rfl) coefficients start

section addRows

variable {γ : Type} (name : γ → String) (coefficients : γ → List (String × Binary64))
  (lower upper : γ → Binary64) {b : Builder} (items : List γ)

theorem columnAt_addRows (x : String) :
    (items.foldl (fun b i => b.addRow (name i) (coefficients i) (lower i) (upper i)) b).columnAt x =
      b.columnAt x := by
  refine List.foldlRecOn items _ (motive := fun s : Builder => s.columnAt x = b.columnAt x) rfl
    fun s same i _ => ?_
  have unchanged := columnAt_onColumns (b := s) Prod.fst (f := fun _ => id)
    (fun _ _ => rfl) (coefficients i) x
  simp only [id_eq, List.foldl_fixed] at unchanged
  rw [← same]
  exact unchanged

theorem rows_addRows :
    (items.foldl (fun b i => b.addRow (name i) (coefficients i) (lower i) (upper i)) b).rows =
      b.rows ++ items.map fun i => ⟨name i, sumByName (coefficients i), lower i, upper i⟩ := by
  induction items generalizing b with
  | nil => exact (List.append_nil _).symm
  | cons i items ih =>
    have unchanged := rows_onColumns (b := b) Prod.fst (f := fun _ => id) (coefficients i)
    have first : (b.addRow (name i) (coefficients i) (lower i) (upper i)).rows =
        b.rows ++ [⟨name i, sumByName (coefficients i), lower i, upper i⟩] :=
      congrArg (· ++ _) unchanged
    rw [List.foldl_cons, ih, first, List.append_assoc]
    rfl

end addRows

theorem map_columns {b : Builder} (nodup : b.names.Nodup) {column : String → Column}
    (each : ∀ x, b.columnAt x = column x) {α : Type} (g : Column → α) :
    b.columns.map g = b.names.map fun x => g (column x) := by
  rw [columns_eq nodup, List.map_map]
  exact List.map_congr_left fun x _ => congrArg g (each x)

end LinearProgram.Builder

namespace LinearProgram

structure Sized (p : LinearProgram) : Prop where
  objective : p.objective.length = p.columnCount
  lower : p.lower.length = p.columnCount
  upper : p.upper.length = p.columnCount
  integrality : p.integrality.length = p.columnCount
  matrix : p.matrix.length = p.rowCount
  rows : ∀ row ∈ p.matrix, row.length = p.columnCount
  rowLower : p.rowLower.length = p.rowCount
  rowUpper : p.rowUpper.length = p.rowCount

theorem Builder.sized_build (b : Builder) (maximize : Bool) (offset : Number) :
    (b.build maximize offset).Sized where
  objective := by simp [build, columnCount]
  lower := by simp [build, columnCount]
  upper := by simp [build, columnCount]
  integrality := by simp [build, columnCount]
  matrix := (rectangular_build b maximize offset).matrix
  rows := (rectangular_build b maximize offset).rows
  rowLower := by simp [build, rowCount]
  rowUpper := by simp [build, rowCount]

end LinearProgram

end LinOpt
