import LinOpt.Entries
import LinOpt.Proofs.FirstOccurrence
import Mathlib.Data.List.Nodup

namespace LinOpt.Entries

theorem get?_cons (e : String × α) (entries : Entries α) (x : String) :
    get? (e :: entries) x = if e.1 = x then some e.2 else get? entries x := by
  by_cases here : e.1 = x <;> simp [get?, here]

theorem get?_eq_none {entries : Entries α} {x : String} :
    entries.get? x = none ↔ x ∉ entries.names := by
  induction entries with
  | nil => exact iff_of_true rfl List.not_mem_nil
  | cons e entries ih =>
    rw [get?_cons]
    by_cases here : e.1 = x
    · simp [names, here]
    · simpa [names, here, Ne.symm here] using ih

theorem put_append_of_fresh {entries : Entries α} {x : String} (fresh : x ∉ entries.names)
    (more : Entries α) (a : α) : put x a (entries ++ more) = entries ++ put x a more := by
  induction entries with
  | nil => rfl
  | cons e entries ih =>
    have differs : e.1 ≠ x := fun same => fresh (same ▸ List.mem_cons_self)
    have rest := ih fun member => fresh (List.mem_cons_of_mem e.1 member)
    simp only [List.cons_append, put, differs, if_false, rest]

theorem put_of_fresh {entries : Entries α} {x : String} (fresh : x ∉ entries.names) (a : α) :
    entries.put x a = entries ++ [(x, a)] := by
  have put := put_append_of_fresh fresh [] a
  rwa [List.append_nil] at put

theorem names_put_of_mem {entries : Entries α} {x : String} (known : x ∈ entries.names) (a : α) :
    (entries.put x a).names = entries.names := by
  induction entries with
  | nil => cases known
  | cons e entries ih =>
    unfold put
    split
    · rename_i here
      simp [names, here]
    · rename_i differs
      rcases List.mem_cons.1 known with here | known
      · exact absurd here.symm differs
      · exact congrArg (e.1 :: ·) (ih known)

theorem names_put {entries : Entries α} {given : List String}
    (start : entries.names = given.eraseDups) (x : String) (a : α) :
    (entries.put x a).names = (given ++ [x]).eraseDups := by
  have known : x ∈ entries.names ↔ x ∈ given := start ▸ List.mem_eraseDups
  rw [eraseDups_concat, ← start]
  by_cases member : x ∈ entries.names
  · rw [names_put_of_mem member, if_pos (known.1 member)]
  · rw [put_of_fresh member, if_neg (member ∘ known.2)]
    exact List.map_append

theorem ofList_of_nodup {entries : Entries α} (nodup : entries.names.Nodup) :
    ofList entries = entries := by
  have general : ∀ done : Entries α, (done.names ++ entries.names).Nodup →
      entries.foldl (fun done e => put e.1 e.2 done) done = done ++ entries := by
    clear nodup
    induction entries with
    | nil => simp
    | cons e entries ih =>
      intro done nodup
      have fresh : e.1 ∉ done.names := fun member =>
        (List.nodup_append.1 nodup).2.2 _ member _ List.mem_cons_self rfl
      rw [List.foldl_cons, put_of_fresh fresh, ih]
      · simp
      · simpa [names] using nodup
  exact general [] (by simpa [names] using nodup)

theorem names_ofList {pairs : List (String × α)} :
    ∀ x ∈ names (ofList pairs), x ∈ pairs.map Prod.fst := by
  unfold ofList
  refine List.foldlRecOn pairs _
    (motive := fun entries : Entries α => ∀ x ∈ entries.names, x ∈ pairs.map Prod.fst)
    (fun _ member => absurd member List.not_mem_nil) fun entries known pair among x member => ?_
  by_cases same : pair.1 = x
  · exact same ▸ List.mem_map_of_mem among
  · refine known x (by_contra fun absent => get?_eq_none.1 ?_ member)
    rw [get?_put, if_neg same, get?_eq_none.2 absent]

theorem get?_of_mem {entries : Entries α} (nodup : entries.names.Nodup) {x : String} {a : α}
    (member : (x, a) ∈ entries) : entries.get? x = some a := by
  induction entries with
  | nil => cases member
  | cons e entries ih =>
    obtain ⟨alone, nodup⟩ := List.nodup_cons.1 nodup
    rw [get?_cons]
    rcases List.mem_cons.1 member with rfl | member
    · exact if_pos rfl
    · have differs : e.1 ≠ x := fun same =>
        alone (same ▸ List.mem_map_of_mem (f := Prod.fst) member)
      rw [if_neg differs, ih nodup member]

theorem mem_of_get? {entries : Entries α} {x : String} {a : α} (found : entries.get? x = some a) :
    (x, a) ∈ entries := by
  induction entries with
  | nil => cases found
  | cons e entries ih =>
    rw [get?_cons] at found
    split at found
    · rename_i here
      cases found
      exact here ▸ List.mem_cons_self
    · exact List.mem_cons_of_mem e (ih found)

theorem get?_map {β : Type} (entries : Entries α) (f : α → β) (x : String) :
    get? (entries.map fun e => (e.1, f e.2)) x = (entries.get? x).map f := by
  induction entries with
  | nil => rfl
  | cons e entries ih =>
    rw [List.map_cons, get?_cons, get?_cons, ih]
    split <;> rfl

theorem get?_append (entries more : Entries α) (x : String) :
    get? (entries ++ more) x = (entries.get? x).or (more.get? x) := by
  simp only [get?, List.find?_append]
  cases entries.find? (·.1 == x) <;> rfl

section Indexed

variable {nameOf : β → String} {vs : List β}

theorem get?_indexed (nodup : (vs.map nameOf).Nodup) (g : β → α) {w : β} (member : w ∈ vs) :
    get? (vs.map fun v => (nameOf v, g v)) (nameOf w) = some (g w) := by
  refine get?_of_mem ?_ (List.mem_map_of_mem member)
  rw [names, List.map_map]
  exact nodup

theorem get?_indexed_some (nodup : (vs.map nameOf).Nodup) (g : β → Option α) {w : β}
    (member : w ∈ vs) :
    get? (vs.filterMap fun v => (g v).map fun a => (nameOf v, a)) (nameOf w) = g w := by
  induction vs with
  | nil => cases member
  | cons v vs ih =>
    obtain ⟨alone, nodup⟩ := List.nodup_cons.1 nodup
    rcases List.mem_cons.1 member with rfl | member
    · cases here : g w with
      | some a => simp [here, get?_cons]
      | none =>
        have absent : nameOf w ∉ names (vs.filterMap fun v => (g v).map fun a => (nameOf v, a)) := by
          intro known
          obtain ⟨e, among, named⟩ := List.mem_map.1 known
          obtain ⟨u, listed, entry⟩ := List.mem_filterMap.1 among
          obtain ⟨a, -, rfl⟩ := Option.map_eq_some_iff.1 entry
          exact alone (List.mem_map.2 ⟨u, listed, named⟩)
        simpa [here] using get?_eq_none.2 absent
    · have differs : nameOf v ≠ nameOf w := fun same =>
        alone (List.mem_map.2 ⟨w, member, same.symm⟩)
      cases here : g v with
      | none => simpa [here] using ih nodup member
      | some a => simpa [here, get?_cons, differs] using ih nodup member

theorem put_indexed (nodup : (vs.map nameOf).Nodup) (g : β → α) {x : String}
    (known : x ∈ vs.map nameOf) (a : α) :
    put x a (vs.map fun v => (nameOf v, g v)) =
      vs.map fun v => (nameOf v, if nameOf v = x then a else g v) := by
  induction vs with
  | nil => cases known
  | cons v vs ih =>
    obtain ⟨alone, nodup⟩ := List.nodup_cons.1 nodup
    simp only [List.map_cons, put]
    split
    · rename_i here
      refine congrArg₂ List.cons (by rw [here]) (List.map_congr_left fun w among => ?_)
      have differs : nameOf w ≠ x := fun same =>
        alone (here ▸ same ▸ List.mem_map_of_mem among)
      simp only [differs, if_false]
    · rename_i differs
      rcases List.mem_cons.1 known with here | known
      · exact absurd here.symm differs
      · exact congrArg _ (ih nodup known)

end Indexed

end LinOpt.Entries
