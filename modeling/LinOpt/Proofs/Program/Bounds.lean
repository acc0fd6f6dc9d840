import LinOpt.Proofs.Number.Order
import LinOpt.Proofs.Program.Glpk
import LinOpt.Proofs.Program.Jslp
import LinOpt.Proofs.Program.Objective

namespace LinOpt

namespace Number

section cut

variable {a b : Number} {p q : Int × ℚ}

theorem cut_below_same (first : a.rank? = some p) (second : b.rank? = some q) :
    (if a.lt b then b else a).same b = true ↔ ¬ b.lt a = true := by
  split
  next below =>
    exact iff_of_true (same_iff.2 ⟨q, second, second⟩) (not_lt_of_lt first second below)
  next notBelow => exact (same_iff_not_lt first second).trans (and_iff_right notBelow)

theorem cut_above_same (first : a.rank? = some p) (second : b.rank? = some q) :
    (if b.lt a then b else a).same b = true ↔ ¬ a.lt b = true := by
  split
  next above =>
    exact iff_of_true (same_iff.2 ⟨q, second, second⟩) (not_lt_of_lt second first above)
  next notAbove => exact (same_iff_not_lt first second).trans (and_iff_left notAbove)

end cut

theorem same_double_of_same {n : Number} {x : Binary64} (h : n.same (.real x) = true) :
    n.same (.real n.double) = true := by
  obtain ⟨place, first, second⟩ := same_iff.1 h
  cases n with
  | real y => exact same_iff.2 ⟨place, first, first⟩
  | int k =>
    cases x with
    | nan => cases second
    | infinite negative =>
      rw [rank?_int] at first
      rw [rank?_infinite, ← first] at second
      cases negative <;> cases second
    | finite negative quanta short bound => exact IsExact.same_double ⟨_, rfl, h⟩
  | ratio r =>
    cases x with
    | nan => cases second
    | infinite negative =>
      rw [rank?_ratio] at first
      rw [rank?_infinite, ← first] at second
      cases negative <;> cases second
    | finite negative quanta short bound => exact IsExact.same_double ⟨_, rfl, h⟩

theorem same_congr_right {a b c : Number} (h : a.same c = true) :
    b.same c = true ↔ a.same b = true :=
  ⟨fun same => same_trans h (same_symm same), fun same => same_trans (same_symm same) h⟩

end Number

namespace Declaration

/-- The bounds that a program keeps: those of a binary variable are cut to [0, 1]. -/
def solvedBounds (d : Declaration) : Number × Number :=
  if d.isBinary then
    (if d.lower.lt 0 then 0 else d.lower, if (1 : Number).lt d.upper then 1 else d.upper)
  else (d.lower, d.upper)

/-- The declared bounds of a binary variable do not cut into [0, 1]. -/
def LeavesUnit (d : Declaration) : Prop :=
  d.isBinary = true → ¬ (0 : Number).lt d.lower = true ∧ ¬ d.upper.lt 1 = true

instance (d : Declaration) : Decidable d.LeavesUnit :=
  inferInstanceAs (Decidable (_ → _))

variable {d : Declaration}

theorem solvedBounds_same_iff (exact : d.IsExact) :
    d.solvedBounds.1.same d.effectiveBounds.1 = true ∧
      d.solvedBounds.2.same d.effectiveBounds.2 = true ↔ d.LeavesUnit := by
  obtain ⟨p, lower, -⟩ := Number.same_iff.1 exact.lower_same
  obtain ⟨q, upper, -⟩ := Number.same_iff.1 exact.upper_same
  unfold solvedBounds effectiveBounds LeavesUnit
  by_cases binary : d.isBinary = true
  · simp only [binary, if_true, forall_const]
    exact and_congr (Number.cut_below_same lower (Number.rank?_int 0))
      (Number.cut_above_same upper (Number.rank?_int 1))
  · simp only [binary, if_false, false_imp_iff, iff_true, Bool.false_eq_true]
    exact ⟨Number.same_iff.2 ⟨p, lower, lower⟩, Number.same_iff.2 ⟨q, upper, upper⟩⟩

end Declaration

namespace LinearProgram

def hasBounds (p : LinearProgram) (name : String) (bounds : Number × Number) : Bool :=
  (Entries.get? (p.columnNames.zip (p.lower.zip p.upper)) name).any fun own =>
    bounds.1.same (.real own.1) && bounds.2.same (.real own.2)

/-- A point keeps the bounds of the column of a name and the rows of some names. -/
structure Allows (p : LinearProgram) (name : String) (rows : List String) (point : List ℚ) :
    Prop where
  bounds : ∀ c ∈ p.columnNames.zip ((p.lower.zip p.upper).zip point), c.1 = name →
    Within c.2.1.1 c.2.1.2 c.2.2
  rows : ∀ r ∈ p.rowNames.zip (p.matrix.zip (p.rowLower.zip p.rowUpper)), r.1 ∈ rows →
    RowHolds r.2.2.1 r.2.2.2 r.2.1 point

namespace Builder

section build

variable {r : Registry} {g : Variable → Column} {rows : List Row} {maximize : Bool}
  {offset : Number} {v : Variable}

theorem get?_bounds (nodup : r.names.Nodup) (named : ∀ v, (g v).name = v.name)
    (member : v ∈ r.vars) :
    Entries.get? ((build ⟨r.vars.map g, rows⟩ maximize offset).columnNames.zip
        ((build ⟨r.vars.map g, rows⟩ maximize offset).lower.zip
          (build ⟨r.vars.map g, rows⟩ maximize offset).upper)) v.name =
      some ((g v).lower, (g v).upper) := by
  simp only [build, List.map_map, List.zip_map']
  have columns : (r.vars.map fun w => (((·.name) ∘ g) w, ((·.lower) ∘ g) w, ((·.upper) ∘ g) w)) =
      r.vars.map fun w => (w.name, (g w).lower, (g w).upper) :=
    List.map_congr_left fun w _ => congrArg (·, _) (named w)
  rw [columns]
  exact Entries.get?_indexed nodup (fun w => ((g w).lower, (g w).upper)) member

theorem hasBounds_build (nodup : r.names.Nodup) (named : ∀ v, (g v).name = v.name)
    (member : v ∈ r.vars) (rows : List Row) (maximize : Bool) (offset : Number)
    (bounds : Number × Number) :
    (build ⟨r.vars.map g, rows⟩ maximize offset).hasBounds v.name bounds = true ↔
      bounds.1.same (.real (g v).lower) = true ∧ bounds.2.same (.real (g v).upper) = true := by
  rw [hasBounds, get?_bounds nodup named member, Option.any_some, Bool.and_eq_true]

theorem forall_column (nodup : r.names.Nodup) (named : ∀ v, (g v).name = v.name)
    {point : List ℚ} (length : point.length = r.vars.length) {y : ℚ}
    (here : (v, y) ∈ r.vars.zip point) :
    (∀ t ∈ (r.vars.map g).zip point, t.1.name = v.name → Within t.1.lower t.1.upper t.2) ↔
      Within (g v).lower (g v).upper y := by
  have distinct : ((r.vars.zip point).map fun t => t.1.name).Nodup := by
    have first : (r.vars.zip point).map Prod.fst = r.vars := List.map_fst_zip length.ge
    have names : ((r.vars.zip point).map Prod.fst).map (·.name) = r.names := congrArg _ first
    rw [List.map_map] at names
    exact names.symm ▸ nodup
  rw [List.zip_map_left, List.forall_mem_map]
  constructor
  · exact fun columns => columns (v, y) here (named v)
  · intro own t among same
    obtain rfl : t = (v, y) :=
      List.inj_on_of_nodup_map distinct among here ((named _).symm.trans same)
    exact own

theorem zip_columns (columns : List Column) (point : List ℚ) :
    (columns.map (·.name)).zip ((columns.map fun c => (c.lower, c.upper)).zip point) =
      (columns.zip point).map fun t => (t.1.name, (t.1.lower, t.1.upper), t.2) := by
  induction columns generalizing point with
  | nil => rfl
  | cons c columns ih =>
    cases point with
    | nil => rfl
    | cons y point => exact congrArg _ (ih point)

theorem allows_build {b : Builder} {name : String} {names : List String} {point : List ℚ} :
    (b.build maximize offset).Allows name names point ↔
      (∀ t ∈ b.columns.zip point, t.1.name = name → Within t.1.lower t.1.upper t.2) ∧
      ∀ row ∈ b.rows, row.name ∈ names →
        RowHolds row.lower row.upper (row.at b.names) point := by
  have limits : (b.build maximize offset).lower.zip (b.build maximize offset).upper =
      b.columns.map fun c => (c.lower, c.upper) := List.zip_map' ..
  have columns : (b.build maximize offset).columnNames.zip
      ((b.columns.map fun c => (c.lower, c.upper)).zip point) = _ := zip_columns b.columns point
  have ranges : (b.build maximize offset).rowLower.zip (b.build maximize offset).rowUpper =
      b.rows.map fun row => (row.lower, row.upper) := List.zip_map' ..
  have rows : (b.build maximize offset).rowNames.zip ((b.build maximize offset).matrix.zip
      ((b.build maximize offset).rowLower.zip (b.build maximize offset).rowUpper)) =
      b.rows.map fun row => (row.name, row.at b.names, row.lower, row.upper) := by
    rw [matrix_build, ranges, List.zip_map']
    exact List.zip_map' ..
  constructor
  · rintro ⟨bounds, hold⟩
    rw [limits, columns, List.forall_mem_map] at bounds
    rw [rows, List.forall_mem_map] at hold
    exact ⟨bounds, hold⟩
  · rintro ⟨bounds, hold⟩
    refine ⟨?_, ?_⟩
    · rw [limits, columns, List.forall_mem_map]
      exact bounds
    · rw [rows, List.forall_mem_map]
      exact hold

end build

section columnOf

variable {v : Variable}

theorem lower_columnOf_same (exact : v.IsExact) :
    v.solvedBounds.1.same (.real (columnOf v).lower) = true := by
  have own := exact.lower_same
  rw [columnOf, lower_kindColumn]
  unfold Declaration.solvedBounds
  by_cases binary : v.isBinary = true
  · simp only [binary, if_true, larger, ← Number.lt_congr own Number.zero_same]
    split
    · exact Number.zero_same
    · exact own
  · simp only [binary, if_false, Bool.false_eq_true]
    exact own

theorem one_same : (1 : Number).same (.real (Binary64.ofInt 1)) = true := by
  rw [← Number.double_int (k := 1) Number.isExact_one.isFinite]
  exact Number.isExact_one.same_double

theorem upper_columnOf_same (exact : v.IsExact) :
    v.solvedBounds.2.same (.real (columnOf v).upper) = true := by
  have own := exact.upper_same
  rw [columnOf, upper_kindColumn]
  unfold Declaration.solvedBounds
  by_cases binary : v.isBinary = true
  · simp only [binary, if_true, smaller, ← Number.lt_congr one_same own]
    split
    · exact one_same
    · exact own
  · simp only [binary, if_false, Bool.false_eq_true]
    exact own

end columnOf

end Builder

def Contains (bounds : Number × Number) (y : ℚ) : Prop :=
  Within bounds.1.double bounds.2.double y

theorem contains_iff {bounds : Number × Number} {lower upper : Binary64} {y : ℚ}
    (below : bounds.1.same (.real lower) = true) (above : bounds.2.same (.real upper) = true) :
    Contains bounds y ↔ Within lower upper y := by
  have least := Number.same_trans (Number.same_symm (Number.same_double_of_same below)) below
  have most := Number.same_trans (Number.same_symm (Number.same_double_of_same above)) above
  exact and_congr (Binary64.isLower_congr least) (Binary64.isUpper_congr most)

theorem contains_unit {y : ℚ} : Contains (0, 1) y ↔ 0 ≤ y ∧ y ≤ 1 := by
  have zero : (0 : Number).double.toRat? = some 0 := by
    rw [Number.double_zero, Binary64.toRat?_zero]
  have one : (1 : Number).double.toRat? = some 1 := by
    rw [← Binary64.toRat?_settled, Binary64.toRat?_one]
  exact and_congr (Binary64.isLower_iff_of_toRat? zero) (Binary64.isUpper_iff_of_toRat? one)

theorem effectiveBounds_same {d : Declaration} (exact : d.IsExact) :
    d.effectiveBounds.1.same (.real d.effectiveBounds.1.double) = true ∧
      d.effectiveBounds.2.same (.real d.effectiveBounds.2.double) = true := by
  unfold Declaration.effectiveBounds
  split
  · exact ⟨Number.isExact_zero.same_double, Number.isExact_one.same_double⟩
  · exact ⟨exact.lower_same, exact.upper_same⟩

theorem contains_effectiveBounds_iff {v : Variable} (exact : v.IsExact) :
    (∀ y, Contains v.solvedBounds y ↔ Contains v.effectiveBounds y) ↔ v.LeavesUnit := by
  have columns (y : ℚ) := contains_iff (y := y) (Builder.lower_columnOf_same exact)
    (Builder.upper_columnOf_same exact)
  constructor
  · intro same binary
    have unit : v.effectiveBounds = (0, 1) := if_pos binary
    rw [unit] at same
    have atZero := (columns 0).1 ((same 0).2 (contains_unit.2 ⟨le_refl 0, zero_le_one⟩))
    have atOne := (columns 1).1 ((same 1).2 (contains_unit.2 ⟨zero_le_one, le_refl 1⟩))
    have lower := (Jslp.isLower_kindColumn (Number.isNaN_of_same exact.lower_same)).1 atZero.1
    have upper := (Jslp.isUpper_kindColumn (Number.isNaN_of_same exact.upper_same)).1 atOne.2
    exact ⟨(Number.not_lt_iff_isLower (a := 0) rfl exact.lower_same).2 lower.1,
      (Number.not_lt_iff_isUpper (a := 1) rfl exact.upper_same).2 upper.1⟩
  · intro leaves y
    obtain ⟨lower, upper⟩ := (Declaration.solvedBounds_same_iff exact).2 leaves
    obtain ⟨least, most⟩ := effectiveBounds_same exact
    exact contains_iff (Number.same_trans lower least) (Number.same_trans upper most)

theorem hasBounds_effectiveBounds_iff {d : Declaration} (exact : d.IsExact) {lower upper : Binary64}
    (below : d.solvedBounds.1.same (.real lower) = true)
    (above : d.solvedBounds.2.same (.real upper) = true) :
    d.effectiveBounds.1.same (.real lower) = true ∧ d.effectiveBounds.2.same (.real upper) = true ↔
      d.LeavesUnit := by
  rw [← Declaration.solvedBounds_same_iff exact, Number.same_congr_right below,
    Number.same_congr_right above]

end LinearProgram

namespace Jslp

open LinearProgram LinearProgram.Builder Draft

/-- The column of a name and the rows for its bounds keep exactly the points that are within these
bounds there. -/
def KeepsBounds (p : LinearProgram) (name : String) (bounds : Number × Number) : Prop :=
  ∀ point y, point.length = p.columnCount → (name, y) ∈ p.columnNames.zip point →
    (p.Allows name [lowerRow name, upperRow name] point ↔ Contains bounds y)

theorem boundRows_of_name {v w : Variable} {row : String} (isBound : row ∈ (boundRows w).names)
    (named : row ∈ [lowerRow v.name, upperRow v.name]) : w.name = v.name := by
  rcases mem_names_boundRows isBound with rfl | rfl
  · rcases List.mem_pair.1 named with same | same
    · exact Label.lowerRow_injective same
    · exact absurd same (Label.lowerRow_ne_upperRow _ _)
  · rcases List.mem_pair.1 named with same | same
    · exact absurd same.symm (Label.lowerRow_ne_upperRow _ _)
    · exact Label.upperRow_injective same

theorem rowName_not_mem (index : Nat) (x : String) : rowName index ∉ [lowerRow x, upperRow x] := by
  intro named
  rcases List.mem_pair.1 named with same | same
  · have label : Label.row index = .lower x := Label.text_injective same
    cases label
  · have label : Label.row index = .upper x := Label.text_injective same
    cases label

variable {m : Model} {options : Entries Value} {point : List ℚ} {v : Variable} {y : ℚ}

theorem rows_of_name (options : Entries Value) (nodup : m.registry.names.Nodup)
    (here : (v, y) ∈ m.registry.vars.zip point) :
    (∀ row ∈ (requestOf m options).constraints, row.1 ∈ [lowerRow v.name, upperRow v.name] →
      RowHolds (programRow m row).lower (programRow m row).upper
        ((programRow m row).at m.registry.names) point) ↔ RowsHold (boundRows v) y := by
  have member := (List.of_mem_zip here).1
  rw [← rowHolds_bound nodup here, forall_constraints]
  constructor
  · rintro ⟨bounds, -⟩ row isRow
    have isBound : row.1 ∈ (boundRows v).names := by
      obtain ⟨limits, among, rfl⟩ := List.mem_map.1 isRow
      exact List.mem_map_of_mem among
    exact bounds v member row isRow (List.mem_pair.2 (mem_names_boundRows isBound))
  · intro own
    refine ⟨fun w known row isRow named => ?_, fun i _ named => ?_⟩
    · have isBound : row.1 ∈ (boundRows w).names := by
        obtain ⟨limits, among, rfl⟩ := List.mem_map.1 isRow
        exact List.mem_map_of_mem among
      obtain rfl := List.inj_on_of_nodup_map nodup known member (boundRows_of_name isBound named)
      exact own row isRow
    · exact absurd named (rowName_not_mem i.2 v.name)

theorem allows_iff (sound : m.WellFormed) (exact : m.IsExact)
    (length : point.length = m.registry.vars.length) (here : (v, y) ∈ m.registry.vars.zip point) :
    (ofJslp (requestOf m options)).Allows v.name [lowerRow v.name, upperRow v.name] point ↔
      Contains v.solvedBounds y := by
  have nodup := sound.registry.nodup
  have own := exact.bounds v (List.of_mem_zip here).1
  have named (v : Variable) : (kindColumn v (priced (doubles m.objective.expression)
    (limited v))).name = v.name := name_kindColumn v _
  have names := names_columns (r := m.registry) named
    ((requestOf m options).constraints.map (programRow m))
  rw [ofJslp_requestOf sound, allows_build, names, forall_column nodup named length here,
    List.forall_mem_map]
  refine (and_congr_right' (rows_of_name options nodup here)).trans ?_
  exact (within_iff own _).trans
    (contains_iff (lower_columnOf_same own) (upper_columnOf_same own)).symm

theorem keepsBounds_iff {p : LinearProgram} {name : String} {own other : Number × Number}
    (known : name ∈ p.columnNames) (keeps : KeepsBounds p name own) :
    KeepsBounds p name other ↔ ∀ y, Contains own y ↔ Contains other y := by
  constructor
  · intro alsoKeeps y
    have length : (p.columnNames.map fun _ => y).length = p.columnCount := List.length_map _
    have here : (name, y) ∈ p.columnNames.zip (p.columnNames.map fun _ => y) := by
      rw [← List.map_prod_left_eq_zip]
      exact List.mem_map_of_mem known
    exact (keeps _ y length here).symm.trans (alsoKeeps _ y length here)
  · exact fun same point y length here => (keeps point y length here).trans (same y)

theorem keepsBounds_solvedBounds (sound : m.WellFormed) (exact : m.IsExact)
    (member : v ∈ m.registry.vars) (options : Entries Value) :
    (ofJslp (requestOf m options)).columnNames = m.registry.names ∧
      KeepsBounds (ofJslp (requestOf m options)) v.name v.solvedBounds := by
  have names : (ofJslp (requestOf m options)).columnNames = m.registry.names := by
    rw [ofJslp_requestOf sound]
    exact names_columns (fun v => name_kindColumn v _) _
  refine ⟨names, fun point y length here => ?_⟩
  rw [columnCount, names, Registry.names, List.length_map] at length
  rw [names, Registry.names, List.zip_map_left] at here
  obtain ⟨⟨w, z⟩, among, same⟩ := List.mem_map.1 here
  obtain ⟨named, rfl⟩ := Prod.mk.inj same
  obtain rfl := List.inj_on_of_nodup_map sound.registry.nodup (List.of_mem_zip among).1 member named
  exact allows_iff sound exact length among

theorem readProgram_of_encode (sound : m.WellFormed) (finite : m.IsFinite)
    (linear : m.isQuadratic = false) {options : Value} {elsewhere : Valuation} {request : Value}
    (encoded : Bridge.jslp.encode m options elsewhere = .ok request) :
    ∃ plain, Engine.readProgram .jslp request = .ok (ofJslp (requestOf m plain)) := by
  have parts : Bridge.jslp.encode m options elsewhere = Request.toValue <$>
      (requestOf m <$> readPlain options (m.valueOr elsewhere)) :=
    congrArg (Request.toValue <$> ·) (encode_eq sound finite linear options _)
  rw [parts, map_eq_ok] at encoded
  obtain ⟨r, isRequest, rfl⟩ := encoded
  obtain ⟨plain, -, rfl⟩ := map_eq_ok.1 isRequest
  refine ⟨plain, ?_⟩
  simp only [Engine.readProgram, Request.read_toValue]
  rfl

theorem column_bounds (sound : m.WellFormed) (exact : m.IsExact) (linear : m.isQuadratic = false)
    {options : Value} {elsewhere : Valuation} {request : Value} (member : v ∈ m.registry.vars)
    (encoded : Bridge.jslp.encode m options elsewhere = .ok request) :
    ∃ p, Engine.readProgram .jslp request = .ok p ∧ p.columnNames = m.registry.names ∧
      KeepsBounds p v.name v.solvedBounds ∧
      (KeepsBounds p v.name v.effectiveBounds ↔ v.LeavesUnit) := by
  obtain ⟨plain, read⟩ := readProgram_of_encode sound exact.isFinite linear encoded
  obtain ⟨names, keeps⟩ := keepsBounds_solvedBounds sound exact member plain
  have known : v.name ∈ (ofJslp (requestOf m plain)).columnNames :=
    names ▸ List.mem_map_of_mem member
  exact ⟨_, read, names, keeps,
    (keepsBounds_iff known keeps).trans (contains_effectiveBounds_iff (exact.bounds v member))⟩

theorem encode_null (sound : m.WellFormed) (finite : m.IsFinite) (linear : m.isQuadratic = false)
    (elsewhere : Valuation) :
    Bridge.jslp.encode m .null elsewhere = .ok (requestOf m []).toValue :=
  congrArg (Request.toValue <$> ·) (encode_eq sound finite linear .null _)

end Jslp

namespace Glpk

open LinearProgram LinearProgram.Builder

variable {m : Model} {v : Variable}

theorem column_same (exact : v.IsExact) (m : Model) :
    v.solvedBounds.1.same (.real (kindColumn v (costly m v)).lower) = true ∧
      v.solvedBounds.2.same (.real (kindColumn v (costly m v)).upper) = true := by
  have lower : (kindColumn v (costly m v)).lower = (LinearProgram.Builder.columnOf v).lower := by
    rw [LinearProgram.Builder.columnOf, lower_kindColumn, lower_kindColumn]
    simp only [costly, limited, priced, (range_limitsOf exact).1]
  exact ⟨lower ▸ lower_columnOf_same exact,
    Number.same_trans (upper_columnOf_same exact) (Number.same_symm (upper_same exact m))⟩

theorem readProgram_of_encode (sound : m.WellFormed) (finite : m.IsFinite)
    (linear : m.isQuadratic = false) (options : Value) (elsewhere : Valuation) :
    ∃ request, Bridge.glpk.encode m options elsewhere = .ok request ∧
      Engine.readProgram .glpk request = .ok (ofGlpk (requestOf m)) := by
  refine ⟨_, map_eq_ok.2 ⟨_, encode_eq_ok sound finite linear, rfl⟩, ?_⟩
  simp only [Engine.readProgram, Request.read_toValue]
  rfl

theorem column_bounds (sound : m.WellFormed) (exact : m.IsExact) (linear : m.isQuadratic = false)
    (options : Value) (elsewhere : Valuation) (member : v ∈ m.registry.vars) :
    ∃ request p, Bridge.glpk.encode m options elsewhere = .ok request ∧
      Engine.readProgram .glpk request = .ok p ∧ p.hasBounds v.name v.solvedBounds = true ∧
      (p.hasBounds v.name v.effectiveBounds = true ↔ v.LeavesUnit) := by
  obtain ⟨request, encoded, read⟩ :=
    readProgram_of_encode sound exact.isFinite linear options elsewhere
  obtain ⟨below, above⟩ := column_same (exact.bounds v member) m
  rw [ofGlpk_requestOf sound] at read
  have bounds := hasBounds_build sound.registry.nodup (g := fun v => kindColumn v (costly m v))
    (fun v => name_kindColumn v _) member (m.constraints.zipIdx.map programRow)
    m.objective.isMaximize (.real (Binary64.zero false))
  exact ⟨request, _, encoded, read, (bounds _).2 ⟨below, above⟩,
    (bounds _).trans (hasBounds_effectiveBounds_iff (exact.bounds v member) below above)⟩

end Glpk

namespace LinearProgram

open Builder

section

variable {m : Model} {v : Variable}

theorem column_bounds (sound : m.WellFormed) (exact : m.IsExact) (linear : m.isQuadratic = false)
    (engine : String) (member : v ∈ m.registry.vars) :
    ∃ p, ofModel m engine = .ok p ∧ p.hasBounds v.name v.solvedBounds = true ∧
      (p.hasBounds v.name v.effectiveBounds = true ↔ v.LeavesUnit) := by
  have below := lower_columnOf_same (exact.bounds v member)
  have above := upper_columnOf_same (exact.bounds v member)
  have bounds := hasBounds_build sound.registry.nodup
    (g := priced (doubles m.objective.expression) ∘ columnOf) (fun v => name_kindColumn v _) member
    (m.constraints.zipIdx.map rowOf) m.objective.isMaximize m.objective.expression.constant
  rw [← List.map_map] at bounds
  exact ⟨_, ofModel_eq_ok sound exact.isFinite linear engine, (bounds _).2 ⟨below, above⟩,
    (bounds _).trans (hasBounds_effectiveBounds_iff (exact.bounds v member) below above)⟩

end

/-- The bounds that a variable is solved within, natively, by GLPK and by jsLPSolver, are the
declared ones, of a binary variable cut to [0, 1]. They are its effective bounds if and only if the
declared bounds of a binary variable leave all of [0, 1]. -/
theorem solved_within_effectiveBounds_iff {m : Model} (reachable : m.Reachable) (exact : m.IsExact)
    (linear : ¬ m.HasQuadraticTerm) (options : Value) (elsewhere : Valuation) (engine : String)
    {v : Variable} (member : v ∈ m.registry.vars) :
    (∃ p, ofModel m engine = .ok p ∧ p.hasBounds v.name v.solvedBounds = true ∧
      (p.hasBounds v.name v.effectiveBounds = true ↔ v.LeavesUnit)) ∧
    (∃ request p, Bridge.glpk.encode m options elsewhere = .ok request ∧
      Engine.readProgram .glpk request = .ok p ∧ p.hasBounds v.name v.solvedBounds = true ∧
      (p.hasBounds v.name v.effectiveBounds = true ↔ v.LeavesUnit)) ∧
    (∃ request, Bridge.jslp.encode m .null elsewhere = .ok request) ∧
    ∀ request, Bridge.jslp.encode m options elsewhere = .ok request → ∃ p,
      Engine.readProgram .jslp request = .ok p ∧ p.columnNames = m.registry.names ∧
      Jslp.KeepsBounds p v.name v.solvedBounds ∧
      (Jslp.KeepsBounds p v.name v.effectiveBounds ↔ v.LeavesUnit) := by
  have sound := reachable.wellFormed
  rw [← Model.isQuadratic_iff, Bool.not_eq_true] at linear
  exact ⟨column_bounds sound exact linear engine member,
    Glpk.column_bounds sound exact linear options elsewhere member,
    ⟨_, Jslp.encode_null sound exact.isFinite linear elsewhere⟩,
    fun _ encoded => Jslp.column_bounds sound exact linear member encoded⟩

theorem sample_solved_within_effectiveBounds_iff :
    (∃ p, ofModel Model.Sample.model "scipy" = .ok p ∧
      p.hasBounds "y" Model.Sample.y.effectiveBounds = true) ∧
    ∃ request p, Bridge.jslp.encode Model.Sample.model .null (fun _ => .null) = .ok request ∧
      Engine.readProgram .jslp request = .ok p ∧
      Jslp.KeepsBounds p "y" Model.Sample.y.effectiveBounds := by
  have exact : Model.Sample.model.IsExact := by decide +kernel
  have linear : ¬ Model.Sample.model.HasQuadraticTerm := by decide +kernel
  have member : Model.Sample.y ∈ Model.Sample.model.registry.vars := by decide +kernel
  have leaves : Model.Sample.y.LeavesUnit := by decide +kernel
  obtain ⟨⟨p, compiled, -, native⟩, -, ⟨request, encoded⟩, jslp⟩ :=
    solved_within_effectiveBounds_iff Model.Sample.reachable exact linear .null (fun _ => .null)
      "scipy" member
  obtain ⟨q, read, -, -, kept⟩ := jslp request encoded
  exact ⟨⟨p, compiled, native.2 leaves⟩, request, q, encoded, read, kept.2 leaves⟩

namespace Sample

def raisedX : Variable :=
  { name := "x", lower := 1, kind := .binary, id := ⟨0, 0⟩ }

def raised : Model :=
  (Model.empty 0).run
    [.addVar { name := .text "x", lower := (1 : Number), kind := .text "binary" }]

end Sample

/-- A binary variable with the lower bound 1 is not solved within [0, 1] by any of the three. -/
theorem raised_binary_is_one :
    Sample.raised.Reachable ∧ Sample.raised.IsExact ∧ ¬ Sample.raised.HasQuadraticTerm ∧
    Sample.raisedX ∈ Sample.raised.registry.vars ∧ Sample.raisedX.effectiveBounds = (0, 1) ∧
    (∃ p, ofModel Sample.raised "scipy" = .ok p ∧ p.hasBounds "x" (1, 1) = true ∧
      ¬ p.hasBounds "x" Sample.raisedX.effectiveBounds = true) ∧
    (∃ request p, Bridge.glpk.encode Sample.raised .null (fun _ => .null) = .ok request ∧
      Engine.readProgram .glpk request = .ok p ∧ p.hasBounds "x" (1, 1) = true ∧
      ¬ p.hasBounds "x" Sample.raisedX.effectiveBounds = true) ∧
    ∃ request p, Bridge.jslp.encode Sample.raised .null (fun _ => .null) = .ok request ∧
      Engine.readProgram .jslp request = .ok p ∧ Jslp.KeepsBounds p "x" (1, 1) ∧
      ¬ Jslp.KeepsBounds p "x" Sample.raisedX.effectiveBounds := by
  have reachable : Sample.raised.Reachable := ⟨0, _, rfl⟩
  have sound := reachable.wellFormed
  have exact : Sample.raised.IsExact := by decide +kernel
  have linear : Sample.raised.isQuadratic = false := by decide +kernel
  have member : Sample.raisedX ∈ Sample.raised.registry.vars := by decide +kernel
  have cuts : ¬ Sample.raisedX.LeavesUnit := by decide +kernel
  have solved : Sample.raisedX.solvedBounds = (1, 1) := by decide +kernel
  obtain ⟨p, compiled, native, notUnit⟩ := column_bounds sound exact linear "scipy" member
  obtain ⟨request, q, encoded, read, glpk, notUnitGlpk⟩ :=
    Glpk.column_bounds sound exact linear .null (fun _ => .null) member
  have sent := Jslp.encode_null sound exact.isFinite linear fun _ => .null
  obtain ⟨r, readJslp, -, jslp, notUnitJslp⟩ := Jslp.column_bounds sound exact linear member sent
  rw [solved] at native glpk jslp
  exact ⟨reachable, exact, by decide +kernel, member, rfl,
    ⟨p, compiled, native, cuts ∘ notUnit.1⟩,
    ⟨request, q, encoded, read, glpk, cuts ∘ notUnitGlpk.1⟩,
    ⟨_, r, sent, readJslp, jslp, cuts ∘ notUnitJslp.1⟩⟩

end LinearProgram

end LinOpt
