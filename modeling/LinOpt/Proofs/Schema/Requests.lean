import LinOpt.Proofs.Outcome
import LinOpt.Schema.Glpk
import LinOpt.Schema.Jslp

namespace LinOpt

namespace Schema

open Reading

@[simp]
theorem under_ok (step : Step) (a : α) : under step (.ok a) = .ok a :=
  rfl

@[simp]
theorem both_ok (a : α) (b : β) : both (.ok a) (.ok b) = .ok (a, b) :=
  rfl

@[simp]
theorem map_ok (f : α → β) (a : α) : Except.map f (.ok a : Reading α) = .ok (f a) :=
  rfl

theorem all_map_ok {f : α → Reading β} {g : α → β} {as : List α}
    (step : ∀ a ∈ as, f a = .ok (g a)) : all (as.map f) = .ok (as.map g) := by
  induction as with
  | nil => rfl
  | cons a as ih =>
    have rest := ih fun b member => step b (List.mem_cons_of_mem a member)
    simp only [List.map_cons, all, step a List.mem_cons_self, rest, both_ok, map_ok]

theorem both_eq_ok {x : Reading α} {y : Reading β} {pair : α × β} :
    both x y = .ok pair ↔ x = .ok pair.1 ∧ y = .ok pair.2 := by
  obtain ⟨a, b⟩ := pair
  cases x <;> cases y <;> simp [both]

theorem all_cons_eq_ok {reading : Reading α} {readings : List (Reading α)} {as : List α} :
    all (reading :: readings) = .ok as ↔
      ∃ b bs, reading = .ok b ∧ all readings = .ok bs ∧ as = b :: bs := by
  rw [all]
  constructor
  · intro h
    obtain ⟨⟨b, bs⟩, pair, rfl⟩ := map_eq_ok.1 h
    obtain ⟨first, rest⟩ := both_eq_ok.1 pair
    exact ⟨b, bs, first, rest, rfl⟩
  · rintro ⟨b, bs, first, rest, rfl⟩
    rw [first, rest]
    rfl

@[simp]
theorem findField_cons_text (s : String) (value : Value) (entries : List (Value × Value))
    (name : String) : findField ((.text s, value) :: entries) name =
      if s = name then some value else findField entries name := by
  by_cases same : s = name <;> simp [findField, same]

@[simp]
theorem findField_nil (name : String) : findField [] name = none :=
  rfl

@[simp]
theorem readFloat_real (x : Binary64) : readFloat (.real x) = .ok x :=
  rfl

@[simp]
theorem readInt_int (n : Int) : readInt (.int n) = .ok n :=
  rfl

@[simp]
theorem readText_text (s : String) : readText (.text s) = .ok s :=
  rfl

@[simp]
theorem readRecord_record (fields : List (String × Value)) :
    readRecord (.record fields) = .ok (fields.map fun (name, value) => (.text name, value)) :=
  rfl

theorem readList_map {read : Value → Reading α} {toValue : β → Value} {g : β → α}
    (step : ∀ b, read (toValue b) = .ok (g b)) (bs : List β) :
    readList read (.list (bs.map toValue)) = .ok (bs.map g) := by
  have items : ∀ n, all (((bs.map toValue).zipIdx n).map fun item =>
      (read item.1).under (.index item.2)) = .ok (bs.map g) := by
    induction bs with
    | nil => intro n; rfl
    | cons b bs ih =>
      intro n
      simp only [List.map_cons, List.zipIdx_cons, all, step, under_ok, ih, both_ok, map_ok]
  exact items 0

theorem readEntries_record {read : Value → Reading α} {toValue : β → Value} {g : β → α}
    (step : ∀ b, read (toValue b) = .ok (g b)) (entries : Entries β) :
    readEntries read (.record (entries.map fun (name, b) => (name, toValue b))) =
      .ok (entries.map fun (name, b) => (name, g b)) := by
  simp only [readEntries, Value.record, List.map_map]
  refine all_map_ok fun entry _ => ?_
  simp only [Function.comp, readEntry, readText_text, step, under_ok, both_ok]

theorem readEntries_same {read : Value → Reading α} {toValue : α → Value}
    (step : ∀ a, read (toValue a) = .ok a) (entries : Entries α) :
    readEntries read (.record (entries.map fun (name, a) => (name, toValue a))) =
      .ok entries := by
  rw [readEntries_record (g := id) step]
  simp

theorem readText_eq_ok {value : Value} {s : String} : readText value = .ok s ↔ value = .text s := by
  cases value <;> simp [readText, fail]

theorem keys_of_readEntries {read : Value → Reading α} {entries : List (Value × Value)}
    {named : Entries α} (understood : readEntries read (.map entries) = .ok named) :
    entries.map Prod.fst = named.names.map .text := by
  change all (entries.map (readEntry read)) = .ok named at understood
  induction entries generalizing named with
  | nil =>
    cases understood
    rfl
  | cons entry entries ih =>
    obtain ⟨first, rest, isFirst, isRest, rfl⟩ := all_cons_eq_ok.1 understood
    obtain ⟨key, -⟩ := both_eq_ok.1 (mapError_eq_ok.1 isFirst)
    have isText : entry.1 = .text first.1 := readText_eq_ok.1 (mapError_eq_ok.1 key)
    exact congrArg₂ List.cons isText (ih isRest)

theorem names_of_readEntries {read : Value → Reading α} {fields : List (String × Value)}
    {named : Entries α} (understood : readEntries read (.record fields) = .ok named) :
    named.names = fields.map Prod.fst := by
  have keys := keys_of_readEntries understood
  rw [List.map_map] at keys
  apply List.map_injective_iff.2 fun _ _ => Value.text.inj
  rw [← keys, List.map_map]
  rfl

end Schema

namespace Glpk

open Schema Reading

theorem LimitType.read_code (type : LimitType) : LimitType.read (.int type.code) = .ok type := by
  cases type <;> rfl

theorem Limits.readFields_fields (l : Limits) (more : List (String × Value)) :
    Limits.readFields ((l.fields ++ more).map fun (name, value) => (.text name, value)) =
      .ok l := by
  simp [Limits.readFields, Limits.fields, required, defaulted, LimitType.read_code]

theorem Limits.read_record (l : Limits) : Limits.read (.record l.fields) = .ok l := by
  have fields := l.readFields_fields []
  rw [List.append_nil] at fields
  exact fields

theorem Entry.read_toValue (e : Entry) : Entry.read e.toValue = .ok e := by
  simp [Entry.read, Entry.toValue, required, bind, Except.bind]

theorem Row.read_toValue (r : Row) : Row.read r.toValue = .ok r := by
  have entries := readList_map (g := id) Entry.read_toValue r.entries
  rw [List.map_id] at entries
  simp [Row.read, Row.toValue, required, defaulted, bind, Except.bind, entries,
    Limits.read_record]

theorem Column.read_toValue (c : Column) : Column.read c.toValue = .ok c := by
  have limits := c.limits.readFields_fields [("name", .text c.name)]
  simp only [Column.read, Column.toValue, readRecord_record, bind, Except.bind, limits]
  simp [required, Limits.fields]

theorem Objective.read_toValue (o : Objective) : Objective.read o.toValue = .ok o := by
  have entries := readList_map (g := id) Entry.read_toValue o.entries
  rw [List.map_id] at entries
  simp [Objective.read, Objective.toValue, required, defaulted, bind, Except.bind, entries]

theorem Request.read_toValue (r : Request) : Request.read r.toValue = .ok r := by
  have rows := readList_map (g := id) Row.read_toValue r.rows
  have columns := readList_map (g := id) Column.read_toValue r.columns
  have binaries := readList_map (g := id) readText_text r.binaries
  have generals := readList_map (g := id) readText_text r.generals
  rw [List.map_id] at rows columns binaries generals
  simp [Request.read, Request.toValue, required, defaulted, bind, Except.bind, rows, columns,
    binaries, generals, Objective.read_toValue]

end Glpk

namespace Jslp

open Schema Reading

theorem readDirection_word (maximize : Bool) :
    readDirection (.text (if maximize then "max" else "min")) = .ok maximize := by
  cases maximize <;> rfl

theorem Request.read_toValue (r : Request) : Request.read r.toValue = .ok r := by
  have tables (entries : Entries (Entries Binary64)) :
      readEntries (readEntries readFloat) (mapValue (mapValue Value.real) entries) =
        .ok entries :=
    readEntries_same (fun numbers => readEntries_same readFloat_real numbers) entries
  have flags (entries : Entries Int) :
      readEntries readInt (mapValue Value.int entries) = .ok entries :=
    readEntries_same readInt_int entries
  have options : readEntries .ok (.record (r.options.map fun (name, a) => (name, id a))) =
      .ok r.options := readEntries_same (fun _ => rfl) r.options
  simp only [id, List.map_id'] at options
  simp [Request.read, Request.toValue, required, defaulted, bind, Except.bind, tables, flags,
    options, readDirection_word]

end Jslp

end LinOpt
