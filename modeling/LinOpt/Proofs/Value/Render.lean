import LinOpt.Error
import LinOpt.Proofs.Value.Plain

namespace LinOpt

namespace Value

section Congr

variable {shown others : Showing} {depth : Nat}

theorem renderAll_congr {items : List Value}
    (each : ∀ item ∈ items, renderWithin shown depth item = renderWithin others depth item) :
    renderAll shown depth items = renderAll others depth items := by
  induction items with
  | nil => rfl
  | cons item items ih =>
    obtain ⟨first, rest⟩ := List.forall_mem_cons.1 each
    rw [renderAll, renderAll, first, ih rest]

theorem renderEntries_congr {entries : List (Value × Value)}
    (keys : ∀ e ∈ entries, renderWithin shown depth e.1 = renderWithin others depth e.1)
    (values : ∀ e ∈ entries, renderWithin shown depth e.2 = renderWithin others depth e.2) :
    renderEntries shown depth entries = renderEntries others depth entries := by
  induction entries with
  | nil => rfl
  | cons entry entries ih =>
    obtain ⟨key, otherKeys⟩ := List.forall_mem_cons.1 keys
    obtain ⟨value, otherValues⟩ := List.forall_mem_cons.1 values
    obtain ⟨k, v⟩ := entry
    rw [renderEntries, renderEntries, key, value, ih otherKeys otherValues]

theorem renderWithin_congr (depth : Nat) {met : Variable → Prop}
    (same : ∀ depth v, met v → shown depth v = others depth v) {value : Value}
    (within : value.Within met) :
    renderWithin shown depth value = renderWithin others depth value := by
  induction depth generalizing value with
  | zero => rw [renderWithin, renderWithin]
  | succ depth ih =>
    cases within with
    | list each =>
      have all := renderAll_congr fun item member => ih (each item member)
      rw [renderWithin, renderWithin, all]
    | @tuple items each =>
      match items, each with
      | [], _ => rfl
      | [item], each => rw [renderWithin, renderWithin, ih (each item List.mem_cons_self)]
      | item :: second :: items, each =>
        obtain ⟨first, rest⟩ := List.forall_mem_cons.1 each
        have all := renderAll_congr fun item member => ih (rest item member)
        simp only [renderWithin, ih first, all]
    | map keys values =>
      have all := renderEntries_congr (fun e member => ih (keys e member))
        fun e member => ih (values e member)
      rw [renderWithin, renderWithin, all]
    | var here => exact same (depth + 1) _ here
    | _ => rfl

end Congr

variable {f g : Valuation} {met : Variable → Prop}

theorem shownInside_alike (alike : ∀ v, met v → f v = g v ∧ (f v).Within met) (limit : Nat)
    (around : List Variable) (depth : Nat) {v : Variable} (here : met v) :
    f.shownInside limit around depth v = g.shownInside limit around depth v := by
  induction limit generalizing around depth v with
  | zero => rfl
  | succ limit ih =>
    match depth with
    | 0 | 1 => rfl
    | depth + 2 =>
      obtain ⟨same, inside⟩ := alike v here
      have again : ∀ depth w, met w →
          f.shownInside limit (v :: around) depth w = g.shownInside limit (v :: around) depth w :=
        fun depth w there => ih (v :: around) depth there
      have deeper := renderWithin_congr depth again inside
      unfold Valuation.shownInside
      rw [← same]
      congr 1
      split
      next w value =>
        rw [value] at inside
        cases inside with
        | var there => exact ih around depth there
      · rfl
      · exact deeper

theorem render_alike {value : Value} (seen : value.SeenAlike f g) :
    value.render f.shown = value.render g.shown := by
  obtain ⟨met, within, alike⟩ := seen
  have same : ∀ depth v, met v → f.shown depth v = g.shown depth v :=
    fun depth v here => shownInside_alike alike shownDepth [] depth here
  exact renderWithin_congr shownDepth same within

theorem within_texts (texts : List String) : (list (texts.map text)).Within met := by
  refine .list fun item member => ?_
  obtain ⟨s, -, rfl⟩ := List.mem_map.1 member
  exact .text s

end Value

/-- What is raised of a kind that no format has is the same for valuations that agree on it. -/
theorem Error.unknownEngine_alike {f g : Valuation} {kind : Value} (seen : kind.SeenAlike f g)
    (known : List String) :
    (unknownEngine kind known).shownBy f.shown = (unknownEngine kind known).shownBy g.shown := by
  have kinds : (Value.list (known.map Value.text)).render f.shown =
      (Value.list (known.map Value.text)).render g.shown :=
    Value.render_alike ⟨fun _ => False, Value.within_texts known, fun _ no => no.elim⟩
  have same : (unknownEngine kind known).message f.shown =
      (unknownEngine kind known).message g.shown := by
    simp only [message, kinds, Value.render_alike seen]
  rw [shownBy, shownBy, same]

end LinOpt
