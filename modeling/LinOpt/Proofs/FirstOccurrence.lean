import Mathlib.Data.List.Induction
import Mathlib.Data.List.Nodup

namespace LinOpt

theorem eq_of_map_eq {α β : Type} {f : α → β} {as bs : List α}
    (apart : ∀ a ∈ as, ∀ b ∈ bs, f a = f b → a = b) (same : as.map f = bs.map f) : as = bs := by
  induction as generalizing bs with
  | nil => exact (List.map_eq_nil_iff.1 same.symm).symm
  | cons a as ih =>
    cases bs with
    | nil => cases same
    | cons b bs =>
      obtain ⟨first, rest⟩ := List.cons.inj same
      have heads := apart a List.mem_cons_self b List.mem_cons_self first
      have tails := ih (fun c isFirst d isSecond =>
        apart c (List.mem_cons_of_mem a isFirst) d (List.mem_cons_of_mem b isSecond)) rest
      rw [heads, tails]

variable {α β : Type} [DecidableEq α] [DecidableEq β]

theorem eraseDups_concat (as : List α) (a : α) :
    (as ++ [a]).eraseDups = if a ∈ as then as.eraseDups else as.eraseDups ++ [a] := by
  rw [List.eraseDups_append, List.removeAll]
  by_cases known : a ∈ as <;> simp [known, List.eraseDups_cons]

theorem nodup_eraseDups (as : List α) : as.eraseDups.Nodup := by
  induction as using List.reverseRecOn with
  | nil => exact List.nodup_nil
  | append_singleton as a ih =>
    rw [eraseDups_concat]
    split
    next => exact ih
    next absent =>
      rw [List.nodup_append]
      refine ⟨ih, List.nodup_singleton a, fun b known c single same => absent ?_⟩
      rw [← List.mem_singleton.1 single, ← same]
      exact List.mem_eraseDups.1 known

theorem eraseDups_of_nodup {as : List α} (nodup : as.Nodup) : as.eraseDups = as := by
  induction as using List.reverseRecOn with
  | nil => rfl
  | append_singleton as a ih =>
    rw [List.nodup_append] at nodup
    have absent : a ∉ as := fun known => nodup.2.2 a known a (List.mem_singleton_self a) rfl
    rw [eraseDups_concat, if_neg absent, ih nodup.1]

theorem eraseDups_append_of_subset {as bs : List α} (known : ∀ b ∈ bs, b ∈ as) :
    (as ++ bs).eraseDups = as.eraseDups := by
  have nothing : bs.removeAll as = [] := by
    rw [List.removeAll, List.filter_eq_nil_iff]
    intro b member
    simp [known b member]
  rw [List.eraseDups_append, nothing, List.eraseDups_nil, List.append_nil]

theorem filter_eraseDups (p : α → Bool) (as : List α) :
    as.eraseDups.filter p = (as.filter p).eraseDups := by
  induction as using List.reverseRecOn with
  | nil => rfl
  | append_singleton as a ih =>
    rw [eraseDups_concat, List.filter_append]
    by_cases holds : p a = true <;> by_cases known : a ∈ as <;>
      simp [holds, known, ih, eraseDups_concat]

theorem append_eraseDups (as bs : List α) : (as ++ bs.eraseDups).eraseDups =
    (as ++ bs).eraseDups := by
  rw [List.eraseDups_append, List.eraseDups_append, List.removeAll, List.removeAll,
    filter_eraseDups, eraseDups_of_nodup (nodup_eraseDups _)]

theorem eraseDups_filter_append {as : List α} (nodup : as.Nodup) (p : α → Bool) :
    (as.filter p ++ as).eraseDups = as.filter p ++ as.filter (!p ·) := by
  have others : as.removeAll (as.filter p) = as.filter (!p ·) := by
    apply List.filter_congr
    intro a member
    simp [member]
  rw [List.eraseDups_append, others, eraseDups_of_nodup (nodup.filter _),
    eraseDups_of_nodup (nodup.filter _)]

theorem foldl_eraseDups {σ γ : Type} (members : σ → List α) {step : σ → γ → σ}
    (mentions : γ → List α)
    (each : ∀ s as i, members s = as.eraseDups →
      members (step s i) = (as ++ mentions i).eraseDups)
    (items : List γ) {s : σ} {as : List α} (start : members s = as.eraseDups) :
    members (items.foldl step s) = (as ++ items.flatMap mentions).eraseDups := by
  induction items generalizing s as with
  | nil => simpa using start
  | cons i items ih =>
    rw [List.foldl_cons, ih (each s as i start), List.flatMap_cons, List.append_assoc]

theorem map_eraseDups {f : α → β} {as : List α}
    (apart : ∀ a ∈ as, ∀ b ∈ as, f a = f b → a = b) :
    (as.map f).eraseDups = as.eraseDups.map f := by
  induction as using List.reverseRecOn with
  | nil => rfl
  | append_singleton as a ih =>
    have among : ∀ b ∈ as, b ∈ as ++ [a] := fun b => List.mem_append_left [a]
    have last : a ∈ as ++ [a] := List.mem_append_right as (List.mem_singleton_self a)
    have known : f a ∈ as.map f ↔ a ∈ as := by
      rw [List.mem_map]
      constructor
      · rintro ⟨b, member, same⟩
        rwa [← apart b (among b member) a last same]
      · exact fun member => ⟨a, member, rfl⟩
    have before := ih fun b isFirst c isSecond => apart b (among b isFirst) c (among c isSecond)
    rw [List.map_append, List.map_singleton, eraseDups_concat, eraseDups_concat, before]
    by_cases member : a ∈ as <;> simp [known, member]

end LinOpt
