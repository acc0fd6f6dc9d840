import LinOpt.Proofs.Entries
import LinOpt.Proofs.Schema.Requests
import LinOpt.Schema.Highs
import LinOpt.Value.Order

namespace LinOpt

namespace Value

mutual

def hasDistinctKeys : Value → Bool
  | list items | tuple items => allHaveDistinctKeys items
  | map entries => entriesHaveDistinctKeys entries
  | _ => true

def allHaveDistinctKeys : List Value → Bool
  | [] => true
  | item :: items => hasDistinctKeys item && allHaveDistinctKeys items

def entriesHaveDistinctKeys : List (Value × Value) → Bool
  | [] => true
  | (key, value) :: entries =>
    !(entries.any fun other => key.same other.1) && hasDistinctKeys value &&
      entriesHaveDistinctKeys entries

end

theorem hasDistinctKeys_of_mem {entries : List (Value × Value)}
    (distinct : entriesHaveDistinctKeys entries = true) {entry : Value × Value}
    (member : entry ∈ entries) : entry.2.hasDistinctKeys = true := by
  induction entries with
  | nil => cases member
  | cons first entries ih =>
    simp only [entriesHaveDistinctKeys, Bool.and_eq_true] at distinct
    rcases List.mem_cons.1 member with rfl | later
    · exact distinct.1.2
    · exact ih distinct.2 later

theorem pairwise_keys {entries : List (Value × Value)}
    (distinct : entriesHaveDistinctKeys entries = true) :
    (entries.map Prod.fst).Pairwise fun key other => key.same other = false := by
  induction entries with
  | nil => exact .nil
  | cons entry entries ih =>
    simp only [entriesHaveDistinctKeys, Bool.and_eq_true, Bool.not_eq_true',
      List.any_eq_false] at distinct
    obtain ⟨⟨alone, -⟩, rest⟩ := distinct
    apply List.Pairwise.cons _ (ih rest)
    intro key member
    obtain ⟨other, among, rfl⟩ := List.mem_map.1 member
    exact Bool.eq_false_iff.2 (alone other among)

end Value

namespace Schema

variable {entries : List (Value × Value)} {name : String} {value : Value} {read : Value → Reading α}
  {a absent : α}

theorem hasDistinctKeys_of_findField (distinct : (Value.map entries).hasDistinctKeys = true)
    (found : findField entries name = some value) : value.hasDistinctKeys = true := by
  obtain ⟨entry, first, rfl⟩ := Option.map_eq_some_iff.1 found
  exact Value.hasDistinctKeys_of_mem distinct (List.mem_of_find?_eq_some first)

theorem required_eq_ok : required entries name read = .ok a ↔
    ∃ value, findField entries name = some value ∧ read value = .ok a := by
  unfold required
  cases findField entries name with
  | none => simp [Reading.fail, Reading.under, Except.mapError]
  | some value => simp [Reading.under, mapError_eq_ok]

theorem defaulted_eq_ok : defaulted entries name read absent = .ok a ↔
    findField entries name = none ∧ a = absent ∨
      ∃ value, findField entries name = some value ∧ read value = .ok a := by
  unfold defaulted
  cases findField entries name with
  | none => simp [eq_comm]
  | some value => simp [Reading.under, mapError_eq_ok]

theorem nodup_of_readEntries {named : Entries α} (distinct : value.hasDistinctKeys = true)
    (understood : readEntries read value = .ok named) : named.names.Nodup := by
  cases value with
  | map entries =>
    have keys := Value.pairwise_keys distinct
    rw [keys_of_readEntries understood, List.pairwise_map] at keys
    apply keys.imp
    rintro x y differs rfl
    simp [Value.same] at differs
  | _ => cases understood

theorem nodup_of_defaulted {named : Entries α}
    (distinct : (Value.map entries).hasDistinctKeys = true)
    (understood : defaulted entries name (readEntries read) [] = .ok named) :
    named.names.Nodup := by
  rcases defaulted_eq_ok.1 understood with ⟨-, rfl⟩ | ⟨value, found, isRead⟩
  · exact List.nodup_nil
  · exact nodup_of_readEntries (hasDistinctKeys_of_findField distinct found) isRead

theorem readRecord_eq_ok : readRecord value = .ok entries ↔ value = .map entries := by
  cases value <;> simp [readRecord, Reading.fail]

end Schema

open Schema

theorem Glpk.Response.names_nodup {response : Value} {r : Response}
    (distinct : response.hasDistinctKeys = true) (understood : read response = .ok r) :
    r.values.names.Nodup := by
  obtain ⟨entries, isMap, fields⟩ := bind_eq_ok.1 understood
  obtain rfl := readRecord_eq_ok.1 isMap
  obtain ⟨whole, isWhole, rfl⟩ := map_eq_ok.1 fields
  obtain ⟨result, found, isResult⟩ :=
    required_eq_ok.1 (both_eq_ok.1 (both_eq_ok.1 (both_eq_ok.1 isWhole).2).2).1
  have within := hasDistinctKeys_of_findField distinct found
  obtain ⟨entries, isMap, fields⟩ := bind_eq_ok.1 isResult
  obtain rfl := readRecord_eq_ok.1 isMap
  obtain ⟨parts, isParts, same⟩ := map_eq_ok.1 fields
  have values := (both_eq_ok.1 (both_eq_ok.1 (both_eq_ok.1 isParts).2).2).1
  change whole.2.2.1.values.names.Nodup
  rw [← same]
  exact nodup_of_defaulted within values

theorem Highs.Response.names_nodup {response : Value} {r : Response}
    (distinct : response.hasDistinctKeys = true) (understood : read response = .ok r) :
    r.columns.names.Nodup := by
  obtain ⟨entries, isMap, fields⟩ := bind_eq_ok.1 understood
  obtain rfl := readRecord_eq_ok.1 isMap
  obtain ⟨parts, isParts, rfl⟩ := map_eq_ok.1 fields
  exact nodup_of_defaulted distinct (both_eq_ok.1 (both_eq_ok.1 (both_eq_ok.1 isParts).2).2).1

end LinOpt
