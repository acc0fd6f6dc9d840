import LinOpt.Engine.Reference
import LinOpt.Proofs.Entries
import LinOpt.Proofs.Number.Exact
import LinOpt.Proofs.Schema.Requests

namespace LinOpt

namespace Schema

open Reading

theorem checkKeys_text (fields : List (String × Value)) :
    checkKeys (fields.map fun (name, value) => (.text name, value)) = .ok () := by
  have keys : all (fields.map fun _ => (.ok () : Reading Unit)) = .ok (fields.map fun _ => ()) :=
    all_map_ok fun _ _ => rfl
  simp only [checkKeys, List.map_map, Function.comp_def, keys]
  rfl

end Schema

namespace Engine

open Schema Reading

section Numbers

variable {names : List String} {xs : List Binary64} (nodup : names.Nodup)
  (length : xs.length = names.length)
include nodup length

theorem read_numbers : readEntries readFloat (numbers names xs) = .ok (names.zip xs) := by
  have keys : Entries.names ((names.zip xs).map fun e => (e.1, Value.real e.2)) = names := by
    rw [Entries.names, List.map_map]
    exact List.map_fst_zip (Nat.le_of_eq length.symm)
  rw [numbers, Entries.ofList_of_nodup (keys.symm ▸ nodup)]
  exact readEntries_same readFloat_real _

theorem readOptional_numbers :
    readOptional (readEntries readFloat) (numbers names xs) = .ok (some (names.zip xs)) := by
  have read := read_numbers nodup length
  unfold numbers Value.record at read ⊢
  simp only [readOptional, read]
  rfl

end Numbers

variable {p : LinearProgram} {s : LinearProgram.Solution} {point : List Binary64} {z : Binary64}

theorem read_glpkAnswer (columns : p.columnNames.Nodup) (rows : p.rowNames.Nodup)
    (hasPoint : s.hasPoint = true) (isPoint : s.point = some point)
    (length : point.length = p.columnNames.length)
    (duals : ∀ duals, s.rowDuals = some duals → duals.length = p.rowNames.length)
    (objectiveValue : s.objectiveValue = some (.real z)) (name : String) :
    Glpk.Response.read (glpkAnswer p s (.text name)) = .ok {
      status := Glpk.statusCode s.status
      objectiveValue := some z
      values := p.columnNames.zip point
      duals := s.rowDuals.map p.rowNames.zip } := by
  have values := read_numbers columns length
  have objective : readOptional readFloat (.number (.real z)) = .ok (some z) := rfl
  have result : Glpk.Response.readResult (.record (("status", .int (Glpk.statusCode s.status)) ::
      ([("z", .number (.real z)), ("vars", numbers p.columnNames point)] ++
        s.rowDuals.toList.map fun duals => ("dual", numbers p.rowNames duals)))) = .ok {
      status := Glpk.statusCode s.status
      objectiveValue := some z
      values := p.columnNames.zip point
      duals := s.rowDuals.map p.rowNames.zip } := by
    unfold Glpk.Response.readResult
    rw [readRecord_record]
    simp only [bind, Except.bind, checkKeys_text]
    cases given : s.rowDuals with
    | none => simp [required, defaulted, objective, values]
    | some ys =>
      have read := readOptional_numbers rows (duals ys given)
      simp [required, defaulted, objective, values, read]
  unfold Glpk.Response.read glpkAnswer
  rw [hasPoint, isPoint, objectiveValue, readRecord_record]
  simp only [bind, Except.bind, checkKeys_text]
  simp only [required, defaulted, List.map_cons, List.map_nil, findField_cons_text,
    String.reduceEq, if_false, if_true, Option.getD_some, Value.ofOption, result]
  rfl

theorem read_glpkAnswer_bare (noPoint : s.hasPoint = false) (name : String) :
    Glpk.Response.read (glpkAnswer p s (.text name)) = .ok {
      status := Glpk.statusCode s.status
      objectiveValue := some (Binary64.zero false)
      values := []
      duals := none } := by
  have objective : readOptional readFloat (.real (Binary64.zero false)) =
      .ok (some (Binary64.zero false)) := rfl
  have values : readEntries readFloat (.map []) = .ok [] := rfl
  have result : Glpk.Response.readResult (.record [("status", .int (Glpk.statusCode s.status)),
      ("z", .real (Binary64.zero false)), ("vars", .map [])]) = .ok {
      status := Glpk.statusCode s.status
      objectiveValue := some (Binary64.zero false)
      values := []
      duals := none } := by
    unfold Glpk.Response.readResult
    rw [readRecord_record]
    simp only [bind, Except.bind, checkKeys_text]
    simp [required, defaulted, objective, values]
  unfold Glpk.Response.read glpkAnswer
  rw [noPoint, readRecord_record]
  simp only [bind, Except.bind, checkKeys_text]
  simp only [required, defaulted, List.map_cons, List.map_nil, findField_cons_text,
    String.reduceEq, if_false, if_true, Bool.false_eq_true, result]
  rfl

def recordFields (duals : Option (List Binary64)) (indexed : (String × Binary64) × Nat) :
    List (String × Value) :=
  [("Index", .int indexed.2), ("Name", .text indexed.1.1), ("Primal", .real indexed.1.2)] ++
    (duals >>= fun duals => duals[indexed.2]?).toList.map fun dual => ("Dual", .real dual)

def columnOf (duals : Option (List Binary64)) (indexed : (String × Binary64) × Nat) :
    Highs.Column where
  primal := some indexed.1.2
  dual := duals >>= fun duals => duals[indexed.2]?
  index := some indexed.2
  name := some indexed.1.1

def rowOf (duals : Option (List Binary64)) (indexed : (String × Binary64) × Nat) : Highs.Row where
  name := some indexed.1.1
  primal := some indexed.1.2
  dual := duals >>= fun duals => duals[indexed.2]?
  index := some indexed.2

section Records

variable (duals : Option (List Binary64)) (indexed : (String × Binary64) × Nat)

theorem highsRecord_eq_ok (known : ∀ ys, duals = some ys → indexed.2 < ys.length) :
    highsRecord duals indexed = .ok (.record (recordFields duals indexed)) := by
  unfold highsRecord recordFields
  cases duals with
  | none => rfl
  | some ys =>
    have here : ys[indexed.2]? = some (ys.get ⟨indexed.2, known ys rfl⟩) := List.getElem?_eq_getElem _
    simp only [Option.map_some, here, bind, Option.bind_some]
    rfl

theorem read_recordFields {entries : List (Value × Value)}
    (fields : (recordFields duals indexed).map (fun (name, value) => (.text name, value)) = entries) :
    defaulted entries "Index" (readOptional readInt) none = .ok (some (indexed.2 : Int)) ∧
    defaulted entries "Name" (readOptional Schema.readText) none = .ok (some indexed.1.1) ∧
    defaulted entries "Primal" (readOptional readFloat) none = .ok (some indexed.1.2) ∧
    defaulted entries "Dual" (readOptional readFloat) none =
      .ok (duals >>= fun duals => duals[indexed.2]?) ∧
    checkKeys entries = .ok () := by
  have index : readOptional readInt (.int indexed.2) = .ok (some (indexed.2 : Int)) := rfl
  have name : readOptional Schema.readText (.text indexed.1.1) = .ok (some indexed.1.1) := rfl
  have number (x : Binary64) : readOptional readFloat (.real x) = .ok (some x) := rfl
  subst fields
  refine ⟨?_, ?_, ?_, ?_, checkKeys_text _⟩
  · simp [recordFields, defaulted, index]
  · simp [recordFields, defaulted, name]
  · simp [recordFields, defaulted, number]
  · unfold recordFields
    cases (duals >>= fun duals => duals[indexed.2]?) with
    | none => simp [defaulted]
    | some dual => simp [defaulted, number]

theorem read_column :
    Highs.Column.read (.record (recordFields duals indexed)) = .ok (columnOf duals indexed) := by
  obtain ⟨index, name, primal, dual, keys⟩ := read_recordFields duals indexed rfl
  unfold Highs.Column.read
  rw [readRecord_record]
  simp only [bind, Except.bind, index, name, primal, dual, keys]
  rfl

theorem read_row :
    Highs.Row.read (.record (recordFields duals indexed)) = .ok (rowOf duals indexed) := by
  obtain ⟨index, name, primal, dual, keys⟩ := read_recordFields duals indexed rfl
  unfold Highs.Row.read
  rw [readRecord_record]
  simp only [bind, Except.bind, index, name, primal, dual, keys]
  rfl

end Records

section Lists

variable {names : List String} {xs : List Binary64} {duals : Option (List Binary64)}

theorem highsRecords_eq_ok (xs : List Binary64) (known : ∀ ys, duals = some ys → ys.length = names.length) :
    highsRecords names xs duals =
      .ok ((names.zip xs).zipIdx.map fun indexed => .record (recordFields duals indexed)) := by
  refine mapM_eq_ok fun indexed member => highsRecord_eq_ok duals indexed fun ys given => ?_
  have bound := (List.mem_zipIdx member).2.1
  rw [List.length_zip] at bound
  have count := known ys given
  omega

theorem read_columns (duals : Option (List Binary64)) (nodup : names.Nodup)
    (length : xs.length = names.length) :
    readEntries Highs.Column.read (.record (Entries.ofList (names.zip
      ((names.zip xs).zipIdx.map fun indexed => .record (recordFields duals indexed))))) =
        .ok (names.zip ((names.zip xs).zipIdx.map (columnOf duals))) := by
  have keys : Entries.names (names.zip ((names.zip xs).zipIdx.map fun indexed =>
      Value.record (recordFields duals indexed))) = names :=
    List.map_fst_zip (by simp [length])
  rw [Entries.ofList_of_nodup (keys.symm ▸ nodup), List.zip_map_right, List.zip_map_right]
  exact readEntries_record (read_column duals) _

end Lists

variable {p : LinearProgram} {s : LinearProgram.Solution} {point activity : List Binary64}
  {z : Binary64}

theorem read_highsAnswer (columns : p.columnNames.Nodup) (hasPoint : s.hasPoint = true)
    (isPoint : s.point = some point) (length : point.length = p.columnNames.length)
    (isActivity : s.rowActivity = some activity)
    (rowDuals : ∀ ys, s.rowDuals = some ys → ys.length = p.rowNames.length)
    (columnDuals : ∀ ys, s.columnDuals = some ys → ys.length = p.columnNames.length)
    (objectiveValue : s.objectiveValue = some (.real z)) :
    ∃ response, highsAnswer p s = .ok response ∧ Highs.Response.read response = .ok {
      status := highsStatus s.status
      objectiveValue := some z
      columns := p.columnNames.zip ((p.columnNames.zip point).zipIdx.map (columnOf s.columnDuals))
      rows := (p.rowNames.zip activity).zipIdx.map (rowOf s.rowDuals) } := by
  have columnRecords := highsRecords_eq_ok point columnDuals
  have rowRecords := highsRecords_eq_ok activity rowDuals
  have readColumns := read_columns s.columnDuals columns length
  have readRows := readList_map (read_row s.rowDuals) (p.rowNames.zip activity).zipIdx
  have objective : readOptional readFloat (.number (.real z)) = .ok (some z) := rfl
  have answer : highsAnswer p s = .ok (.record [
      ("Status", .text (highsStatus s.status)),
      ("ObjectiveValue", .number (.real z)),
      ("Columns", .record (Entries.ofList (p.columnNames.zip ((p.columnNames.zip point).zipIdx.map
        fun indexed => .record (recordFields s.columnDuals indexed))))),
      ("Rows", .list ((p.rowNames.zip activity).zipIdx.map
        fun indexed => .record (recordFields s.rowDuals indexed)))]) := by
    simp only [highsAnswer, hasPoint, isPoint, isActivity, objectiveValue, Option.getD_some,
      columnRecords, rowRecords, bind, Except.bind, pure, Except.pure, if_true]
    rfl
  refine ⟨_, answer, ?_⟩
  unfold Highs.Response.read
  rw [readRecord_record]
  simp only [bind, Except.bind, checkKeys_text]
  simp [required, defaulted, objective, readColumns, readRows]

theorem read_highsAnswer_bare (noPoint : s.hasPoint = false) :
    ∃ response, highsAnswer p s = .ok response ∧ Highs.Response.read response = .ok {
      status := highsStatus s.status, objectiveValue := none, columns := [], rows := [] } := by
  have answer : highsAnswer p s = .ok (.record [("Status", .text (highsStatus s.status))]) := by
    simp only [highsAnswer, noPoint, bind, Except.bind, pure, Except.pure, Bool.false_eq_true,
      if_false]
  refine ⟨_, answer, ?_⟩
  unfold Highs.Response.read
  rw [readRecord_record]
  simp only [bind, Except.bind, checkKeys_text]
  simp [required, defaulted]

theorem names_highsAnswer {p : LinearProgram} {s : LinearProgram.Solution} {response : Value}
    {r : Highs.Response} (answered : highsAnswer p s = .ok response)
    (read : Highs.Response.read response = .ok r) : ∀ x ∈ r.columns.names, x ∈ p.columnNames := by
  cases hasPoint : s.hasPoint with
  | false =>
    obtain ⟨bare, same, understood⟩ := read_highsAnswer_bare (p := p) hasPoint
    rw [answered] at same
    cases same
    rw [read] at understood
    cases understood
    exact fun x member => absurd member List.not_mem_nil
  | true =>
    unfold highsAnswer at answered
    simp only [hasPoint, if_true] at answered
    obtain ⟨columns, -, answered⟩ := bind_eq_ok.1 answered
    obtain ⟨rows, -, answered⟩ := bind_eq_ok.1 answered
    cases answered
    -- The fields are read one after the other; the third one has the columns.
    obtain ⟨entries, fields, read⟩ := bind_eq_ok.1 read
    rw [readRecord_record] at fields
    cases fields
    obtain ⟨fields, parts, rfl⟩ := map_eq_ok.1 read
    obtain ⟨-, afterStatus⟩ := both_eq_ok.1 parts
    obtain ⟨-, afterObjective⟩ := both_eq_ok.1 afterStatus
    obtain ⟨isColumns, -⟩ := both_eq_ok.1 afterObjective
    have understood : readEntries Highs.Column.read
        (.record (Entries.ofList (p.columnNames.zip columns))) = .ok fields.2.2.1 :=
      mapError_eq_ok.1 isColumns
    intro x member
    have key := Entries.names_ofList x (names_of_readEntries understood ▸ member)
    obtain ⟨⟨name, record⟩, among, rfl⟩ := List.mem_map.1 key
    exact (List.of_mem_zip among).1

def nonzeroValues (names : List String) (xs : List Binary64) : Entries Value :=
  ((names.zip xs).filter fun entry => !(Number.real entry.2).isZero).map
    fun entry => (entry.1, .real entry.2)

theorem foldl_put_nonzero {pairs : List (String × Binary64)} {entries : Entries Value}
    (nodup : (pairs.map Prod.fst).Nodup)
    (fresh : ∀ pair ∈ pairs, (Number.real pair.2).isZero = false → pair.1 ∉ entries.names) :
    pairs.foldl (fun entries (name, x) =>
        if (Number.real x).isZero then entries else Entries.put name (.real x) entries) entries =
      entries ++ (pairs.filter fun entry => !(Number.real entry.2).isZero).map
        fun entry => (entry.1, .real entry.2) := by
  induction pairs generalizing entries with
  | nil => simp
  | cons pair pairs ih =>
    obtain ⟨alone, nodup⟩ := List.nodup_cons.1 nodup
    obtain ⟨here, fresh⟩ := List.forall_mem_cons.1 fresh
    cases zero : (Number.real pair.2).isZero with
    | true => simp [zero, ih nodup fresh]
    | false =>
      have later : ∀ other ∈ pairs, (Number.real other.2).isZero = false →
          other.1 ∉ Entries.names (entries ++ [(pair.1, Value.real pair.2)]) := by
        intro other member nonzero
        have differs : other.1 ≠ pair.1 := fun same =>
          alone (same ▸ List.mem_map_of_mem (f := Prod.fst) member)
        simpa [Entries.names, differs] using fresh other member nonzero
      simp [zero, Entries.put_of_fresh (here zero), ih nodup later]

theorem readValues_text (fields : List (String × Value)) :
    Jslp.Response.readValues (fields.map fun (name, value) => (.text name, value)) =
      fields.filter fun field => !Jslp.Response.flags.contains field.1 := by
  induction fields with
  | nil => rfl
  | cons field fields ih =>
    obtain ⟨name, value⟩ := field
    unfold Jslp.Response.readValues at ih ⊢
    rw [List.map_cons, List.filterMap_cons, ih, List.filter_cons]
    by_cases flagged : name ∈ Jslp.Response.flags <;> simp [flagged]

theorem read_flags {integral : Bool} {values : Entries Value} 
    (unflagged : ∀ x ∈ values.names, x ∉ Jslp.Response.flags) :
    Jslp.Response.read (.record ([("feasible", .bool true), ("result", .number (.real z)),
        ("bounded", .bool true), ("isIntegral", .bool integral)] ++ values)) = .ok {
      feasible := some true
      objectiveValue := some z
      bounded := some true
      integral := some integral
      values } := by
  have flag (b : Bool) : readOptional readBool (.bool b) = .ok (some b) := rfl
  have objective : readOptional readFloat (.number (.real z)) = .ok (some z) := rfl
  have own : values.filter (fun field => !Jslp.Response.flags.contains field.1) = values := by
    refine List.filter_eq_self.2 fun field member => ?_
    have free := unflagged field.1 (List.mem_map_of_mem member)
    simpa using free
  have all := readValues_text ([("feasible", .bool true), ("result", .number (.real z)),
    ("bounded", .bool true), ("isIntegral", .bool integral)] ++ values)
  have kept : (([("feasible", .bool true), ("result", .number (.real z)),
      ("bounded", .bool true), ("isIntegral", .bool integral)] ++ values : List (String × Value)).filter
        fun field => !Jslp.Response.flags.contains field.1) = values := by
    rw [List.filter_append, own]
    simp [Jslp.Response.flags]
  unfold Jslp.Response.read
  rw [readRecord_record]
  simp only [bind, Except.bind, checkKeys_text, all, kept]
  simp [defaulted, flag, objective]

def pointResponse (p : LinearProgram) (point : List Binary64) (z : Binary64) : Jslp.Response where
  feasible := some true
  objectiveValue := some z
  bounded := some true
  integral := some p.isIntegral
  values := nonzeroValues p.columnNames point

theorem mem_names_nonzeroValues {names : List String} {xs : List Binary64} {name : String} :
    name ∈ (nonzeroValues names xs).names ↔
      ∃ x, (name, x) ∈ names.zip xs ∧ (Number.real x).isZero = false := by
  rw [nonzeroValues, Entries.names, List.map_map, List.mem_map]
  constructor
  · rintro ⟨⟨_, x⟩, among, rfl⟩
    obtain ⟨member, nonzero⟩ := List.mem_filter.1 among
    exact ⟨x, member, by simpa using nonzero⟩
  · rintro ⟨x, member, nonzero⟩
    exact ⟨(name, x), List.mem_filter.2 ⟨member, by simpa using nonzero⟩, rfl⟩

theorem names_nonzeroValues {names : List String} {xs : List Binary64} :
    ∀ x ∈ (nonzeroValues names xs).names, x ∈ names := by
  intro name member
  obtain ⟨x, among, -⟩ := mem_names_nonzeroValues.1 member
  exact (List.of_mem_zip among).1

theorem read_jslpAnswer (columns : p.columnNames.Nodup)
    (unflagged : ∀ x ∈ (nonzeroValues p.columnNames point).names, x ∉ Jslp.Response.flags)
    (hasPoint : s.hasPoint = true)
    (isPoint : s.point = some point) (length : point.length = p.columnNames.length)
    (objectiveValue : s.objectiveValue = some (.real z)) :
    Jslp.Response.read (jslpAnswer p s) = .ok (pointResponse p point z) := by
  have keys : (p.columnNames.zip point).map Prod.fst = p.columnNames :=
    List.map_fst_zip (Nat.le_of_eq length.symm)
  have fresh : ∀ pair ∈ p.columnNames.zip point, (Number.real pair.2).isZero = false →
      pair.1 ∉ Entries.names
        [("feasible", Value.bool true), ("result", .ofOption .number s.objectiveValue),
          ("bounded", .bool true), ("isIntegral", .bool p.isIntegral)] := by
    intro pair member nonzero
    exact unflagged pair.1 (mem_names_nonzeroValues.2 ⟨pair.2, member, nonzero⟩)
  have put := foldl_put_nonzero (keys.symm ▸ columns) fresh
  have answer : jslpAnswer p s = .record ([("feasible", .bool true), ("result", .number (.real z)),
      ("bounded", .bool true), ("isIntegral", .bool p.isIntegral)] ++
        nonzeroValues p.columnNames point) := by
    rw [objectiveValue] at put
    unfold jslpAnswer
    cases status : s.status with
    | infeasible => simp [LinearProgram.Solution.hasPoint, status, Status.hasSolution] at hasPoint
    | unbounded => simp [LinearProgram.Solution.hasPoint, status, Status.hasSolution] at hasPoint
    | _ =>
      simp only [hasPoint, isPoint, objectiveValue, Bool.not_true, Bool.false_eq_true, if_false,
        Option.getD_some]
      exact congrArg Value.record put
  rw [answer]
  exact read_flags unflagged

def bareResponse (p : LinearProgram) : Status → Jslp.Response
  | .infeasible => ⟨some false, some (Binary64.zero false), some true, none, []⟩
  | .unbounded => ⟨some true, some (.infinite !p.maximize), some false, none, []⟩
  | _ => ⟨none, some (Binary64.zero false), none, none, []⟩

theorem read_jslpAnswer_bare (noPoint : s.hasPoint = false) :
    Jslp.Response.read (jslpAnswer p s) = .ok (bareResponse p s.status) := by
  have flag (b : Bool) : readOptional readBool (.bool b) = .ok (some b) := rfl
  have infinite (b : Bool) : readOptional readFloat (.real (.infinite b)) =
      .ok (some (.infinite b)) := rfl
  have zero : readOptional readFloat (.int 0) = .ok (some (Binary64.zero false)) := by
    have read := Number.isExact_zero.toBinary64?
    rw [Number.double_zero] at read
    change (readFloat (.number 0)).map some = _
    simp only [readFloat, read]
    rfl
  have absent : readOptional readBool .null = .ok none := rfl
  unfold jslpAnswer
  cases status : s.status with
  | _ =>
    simp only [noPoint, Bool.not_false, if_true]
    unfold Jslp.Response.read
    rw [readRecord_record]
    simp only [bind, Except.bind, checkKeys_text, readValues_text]
    simp [defaulted, bareResponse, flag, infinite, zero, absent, Jslp.Response.flags]

end Engine

end LinOpt
