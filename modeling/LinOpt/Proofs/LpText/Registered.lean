import LinOpt.Proofs.FirstOccurrence
import LinOpt.Proofs.LpText.LastSet
import LinOpt.Proofs.Model.WellFormed

namespace LinOpt

theorem Registry.names_add {r s : Registry} {spec : Spec} {v : Variable} {x : String}
    (named : spec.name = .text x) (h : r.add spec = (s, .ok v)) :
    x ∉ r.names ∧ s.names = r.names ++ [x] := by
  have given : spec.name.isNull = false := named ▸ rfl
  obtain ⟨d, checked, fresh, registered⟩ := add_given given h
  obtain rfl : s = _ := congrArg Prod.fst registered
  have name : d.name = x := by
    have text := named.symm.trans (Spec.check_name checked)
    cases text
    rfl
  subst name
  exact ⟨fresh, names_register r d⟩

namespace LpText

open Registry

/-- A step after which a name is registered, in the last place if it was not before. -/
def Registers (step : Registry → α → Except Error Registry) (name : α → String) : Prop :=
  ∀ r s a, step r a = .ok s →
    s.names = if name a ∈ r.names then r.names else r.names ++ [name a]

theorem declareBound_registers : Registers declareBound BoundEntry.name := by
  intro r s entry h
  obtain ⟨v, added⟩ := register_eq_ok.1 h
  have name : entry.spec.name = .text entry.name := rfl
  obtain ⟨fresh, names⟩ := names_add name added
  rw [if_neg fresh, names]

theorem declareKind_registers (kind : Kind) : Registers (declareKind kind) id := by
  intro r s x h
  unfold declareKind at h
  split at h
  next known =>
    cases h
    rw [id, if_pos (contains_iff.1 known), names_setKind]
  next =>
    obtain ⟨v, added⟩ := register_eq_ok.1 h
    obtain ⟨fresh, names⟩ := names_add rfl added
    rw [id, if_neg fresh, names]

theorem declareName_registers : Registers declareName id := by
  intro r s x h
  unfold declareName at h
  split at h
  next known =>
    cases h
    rw [id, if_pos (contains_iff.1 known)]
  next =>
    obtain ⟨v, added⟩ := register_eq_ok.1 h
    obtain ⟨fresh, names⟩ := names_add rfl added
    rw [id, if_neg fresh, names]

theorem Registers.all {step : Registry → α → Except Error Registry} {name : α → String}
    (registers : Registers step name) {known : List String} {as : List α} {r s : Registry}
    (before : r.names = known.eraseDups) (run : as.foldlM step r = .ok s) :
    s.names = (known ++ as.map name).eraseDups := by
  induction as generalizing known r with
  | nil =>
    cases run
    rw [List.map_nil, List.append_nil, before]
  | cons a as ih =>
    obtain ⟨t, first, rest⟩ := foldlM_cons_eq_ok.1 run
    have next : t.names = (known ++ [name a]).eraseDups := by
      rw [registers r t a first, before, eraseDups_concat]
      simp only [List.mem_eraseDups]
    rw [ih next rest, List.map_cons, List.append_assoc, List.singleton_append]

theorem names_mergeBounds (entries : List BoundEntry) :
    (mergeBounds entries).map BoundEntry.name = (entries.map BoundEntry.name).eraseDups := by
  have all (later merged : List BoundEntry) (before : List String)
      (known : merged.map BoundEntry.name = before.eraseDups) :
      (later.foldl (fun merged entry => addBound entry merged) merged).map BoundEntry.name =
        (before ++ later.map BoundEntry.name).eraseDups := by
    induction later generalizing merged before with
    | nil => rw [List.map_nil, List.append_nil, ← known, List.foldl_nil]
    | cons entry later ih =>
      have next : (addBound entry merged).map BoundEntry.name =
          (before ++ [entry.name]).eraseDups := by
        rw [names_addBound, known, eraseDups_concat]
        simp only [List.mem_eraseDups]
      rw [List.foldl_cons, ih _ _ next, List.map_cons, List.append_assoc, List.singleton_append]
  exact all entries [] [] rfl

def Document.mentioned (d : Document) : List String :=
  d.bounds.map BoundEntry.name ++ d.binary ++ d.general ++ d.usedNames

theorem names_declare {d : Document} {r s : Registry} (empty : r.vars = [])
    (h : d.declare r = .ok s) : s.names = d.mentioned.eraseDups := by
  obtain ⟨first, bounds, h⟩ := bind_eq_ok.1 h
  obtain ⟨second, binaries, h⟩ := bind_eq_ok.1 h
  obtain ⟨third, generals, names⟩ := bind_eq_ok.1 h
  have none : r.names = ([] : List String).eraseDups := by
    rw [Registry.names, empty]
    rfl
  have afterBounds : first.names = (d.bounds.map BoundEntry.name).eraseDups := by
    rw [declareBound_registers.all none bounds, List.nil_append, names_mergeBounds]
    exact eraseDups_of_nodup (nodup_eraseDups _)
  have afterBinaries := (declareKind_registers .binary).all afterBounds binaries
  have afterGenerals := (declareKind_registers .integer).all afterBinaries generals
  have afterNames := declareName_registers.all afterGenerals names
  simpa only [List.map_id, Document.mentioned] using afterNames

theorem names_readLp {m n : Model} {text : String} (read : m.readLp text = .ok n) :
    ∃ d, Document.ofText text = .ok d ∧ n.registry.names = d.mentioned.eraseDups := by
  obtain ⟨d, isDocument, resolved⟩ := bind_eq_ok.1 read
  obtain ⟨s, declared, h⟩ := bind_eq_ok.1 resolved
  obtain ⟨expression, -, h⟩ := bind_eq_ok.1 h
  obtain ⟨constraints, -, h⟩ := bind_eq_ok.1 h
  cases h
  exact ⟨d, isDocument, names_declare rfl declared⟩

end LpText

end LinOpt
