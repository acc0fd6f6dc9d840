import LinOpt.Proofs.LpText.Contents
import LinOpt.Proofs.LpText.Declared

namespace LinOpt.LpText

/-- The value that a side of a variable's bounds is set to last. -/
def lastSet (side : BoundEntry → Option Binary64) (entries : List BoundEntry) (x : String) :
    Option Binary64 :=
  ((entries.filter (·.name = x)).filterMap side).getLast?

section lastSet

variable {side : BoundEntry → Option Binary64} {entries : List BoundEntry} {entry : BoundEntry}
  {x : String}

theorem lastSet_append_same (side : BoundEntry → Option Binary64) (entries : List BoundEntry)
    (entry : BoundEntry) :
    lastSet side (entries ++ [entry]) entry.name =
      (side entry <|> lastSet side entries entry.name) := by
  rw [lastSet, List.filter_append, List.filterMap_append, List.getLast?_append]
  cases given : side entry <;> simp [given, lastSet]

theorem lastSet_append_other (different : entry.name ≠ x) :
    lastSet side (entries ++ [entry]) x = lastSet side entries x := by
  simp [lastSet, different]

theorem lastSet_eq_none (absent : x ∉ entries.map BoundEntry.name) :
    lastSet side entries x = none := by
  have nothing : entries.filter (·.name = x) = [] := by
    rw [List.filter_eq_nil_iff]
    intro entry member same
    exact absent (List.mem_map.2 ⟨entry, member, of_decide_eq_true same⟩)
  rw [lastSet, nothing]
  rfl

end lastSet

theorem names_addBound (entry : BoundEntry) (merged : List BoundEntry) :
    (addBound entry merged).map BoundEntry.name =
      if entry.name ∈ merged.map BoundEntry.name then merged.map BoundEntry.name
      else merged.map BoundEntry.name ++ [entry.name] := by
  induction merged with
  | nil => rfl
  | cons e merged ih =>
    rw [addBound, List.map_cons]
    by_cases same : e.name = entry.name
    · rw [if_pos same, if_pos (same ▸ List.mem_cons_self)]
      rfl
    · rw [if_neg same, List.map_cons, ih]
      simp only [List.mem_cons, Ne.symm same, false_or]
      split <;> rfl

theorem mem_addBound {entry e : BoundEntry} {merged : List BoundEntry}
    (distinct : (merged.map BoundEntry.name).Nodup) (member : e ∈ addBound entry merged) :
    (e ∈ merged ∧ entry.name ≠ e.name) ∨ (e = entry ∧ entry.name ∉ merged.map BoundEntry.name) ∨
      ∃ first ∈ merged, first.name = entry.name ∧ e = first.merge entry := by
  induction merged with
  | nil => exact .inr (.inl ⟨List.mem_singleton.1 member, List.not_mem_nil⟩)
  | cons f merged ih =>
    obtain ⟨alone, distinct⟩ := List.nodup_cons.1 distinct
    rw [addBound] at member
    by_cases same : f.name = entry.name
    · rw [if_pos same] at member
      rcases List.mem_cons.1 member with rfl | member
      · exact .inr (.inr ⟨f, List.mem_cons_self, same, rfl⟩)
      · refine .inl ⟨List.mem_cons_of_mem f member, fun again => alone ?_⟩
        exact List.mem_map.2 ⟨e, member, (same.trans again).symm⟩
    · rw [if_neg same] at member
      rcases List.mem_cons.1 member with rfl | member
      · exact .inl ⟨List.mem_cons_self, Ne.symm same⟩
      · rcases ih distinct member with ⟨old, other⟩ | ⟨isNew, absent⟩ | ⟨first, old, again, isMerge⟩
        · exact .inl ⟨List.mem_cons_of_mem f old, other⟩
        · exact .inr (.inl ⟨isNew, List.not_mem_cons_of_ne_of_not_mem (Ne.symm same) absent⟩)
        · exact .inr (.inr ⟨first, List.mem_cons_of_mem f old, again, isMerge⟩)

/-- One entry for each name that some entries are about, with the values that they set last. -/
structure Merges (entries merged : List BoundEntry) : Prop where
  distinct : (merged.map BoundEntry.name).Nodup
  names : ∀ x, x ∈ merged.map BoundEntry.name ↔ x ∈ entries.map BoundEntry.name
  lower : ∀ e ∈ merged, e.lower = lastSet BoundEntry.lower entries e.name
  upper : ∀ e ∈ merged, e.upper = lastSet BoundEntry.upper entries e.name

variable {entries merged : List BoundEntry}

theorem Merges.side (h : Merges entries merged) {side : BoundEntry → Option Binary64}
    (values : ∀ e ∈ merged, side e = lastSet side entries e.name) {entry : BoundEntry}
    (later : ∀ first : BoundEntry, side (first.merge entry) = (side entry <|> side first)) :
    ∀ e ∈ addBound entry merged, side e = lastSet side (entries ++ [entry]) e.name := by
  intro e member
  rcases mem_addBound h.distinct member with ⟨old, other⟩ | ⟨rfl, absent⟩ | ⟨first, old, same, rfl⟩
  · rw [lastSet_append_other other, values e old]
  · rw [h.names] at absent
    rw [lastSet_append_same, lastSet_eq_none absent]
    cases side e <;> rfl
  · have name : (first.merge entry).name = entry.name := same
    rw [name, lastSet_append_same, later, values first old, same]

theorem Merges.add (h : Merges entries merged) (entry : BoundEntry) :
    Merges (entries ++ [entry]) (addBound entry merged) where
  distinct := by
    rw [names_addBound]
    split
    next => exact h.distinct
    next absent =>
      rw [List.nodup_append]
      refine ⟨h.distinct, List.nodup_singleton _, fun x member y single same => absent ?_⟩
      rwa [← List.mem_singleton.1 single, ← same]
  names := by
    intro x
    rw [names_addBound, List.map_append, List.mem_append, List.map_singleton, List.mem_singleton,
      ← h.names x]
    split
    next present => exact ⟨.inl, fun either => either.elim id fun same => same ▸ present⟩
    next => rw [List.mem_append, List.mem_singleton]
  lower := h.side h.lower fun _ => rfl
  upper := h.side h.upper fun _ => rfl

theorem merges_mergeBounds (entries : List BoundEntry) : Merges entries (mergeBounds entries) := by
  have all (before later merged : List BoundEntry) (h : Merges before merged) :
      Merges (before ++ later)
        (later.foldl (fun merged entry => addBound entry merged) merged) := by
    induction later generalizing before merged with
    | nil => rwa [List.append_nil]
    | cons entry later ih =>
      rw [List.append_cons]
      exact ih _ _ (h.add entry)
  exact all [] entries [] ⟨List.nodup_nil, fun _ => Iff.rfl, by simp, by simp⟩

def BoundEntry.Misplaced (entry : BoundEntry) : Prop :=
  entry.lower = some (.infinite false) ∨ entry.upper = some (.infinite true)

instance (entry : BoundEntry) : Decidable entry.Misplaced :=
  inferInstanceAs (Decidable (_ ∨ _))

/-- The bounds of some variable are last set so that the lower one is plus infinity or the upper one
minus infinity. -/
def Document.MisplacesInfinity (d : Document) : Prop :=
  ∃ x, lastSet BoundEntry.lower d.bounds x = some (.infinite false) ∨
    lastSet BoundEntry.upper d.bounds x = some (.infinite true)

theorem misplacesInfinity_iff {d : Document} :
    d.MisplacesInfinity ↔ ∃ entry ∈ mergeBounds d.bounds, entry.Misplaced := by
  have merges := merges_mergeBounds d.bounds
  constructor
  · rintro ⟨x, misplaced⟩
    -- A side that has been set belongs to a name that some entry is about.
    have among : x ∈ d.bounds.map BoundEntry.name := by
      by_contra absent
      rw [lastSet_eq_none absent, lastSet_eq_none absent] at misplaced
      rcases misplaced with lower | upper
      · cases lower
      · cases upper
    obtain ⟨entry, member, rfl⟩ := List.mem_map.1 ((merges.names x).2 among)
    rw [← merges.lower entry member, ← merges.upper entry member] at misplaced
    exact ⟨entry, member, misplaced⟩
  · rintro ⟨entry, member, misplaced⟩
    rw [BoundEntry.Misplaced, merges.lower entry member, merges.upper entry member] at misplaced
    exact ⟨entry.name, misplaced⟩

instance (d : Document) : Decidable d.MisplacesInfinity :=
  decidable_of_iff' _ misplacesInfinity_iff

theorem mergeBounds_sound {P : String → Prop} (sound : ∀ entry ∈ entries, entry.Sound P) :
    ∀ entry ∈ mergeBounds entries, entry.Sound P := by
  have merges := merges_mergeBounds entries
  have numbers (side : BoundEntry → Option Binary64)
      (number : ∀ entry ∈ entries, ∀ x ∈ side entry, x.isNaN = false) (x : String) :
      ∀ y ∈ lastSet side entries x, y.isNaN = false := by
    intro y last
    obtain ⟨entry, member, given⟩ := List.mem_filterMap.1 (List.mem_of_getLast? last)
    exact number entry (List.mem_of_mem_filter member) y given
  intro entry member
  obtain ⟨given, among, same⟩ :=
    List.mem_map.1 ((merges.names entry.name).1 (List.mem_map_of_mem member))
  constructor
  · exact same ▸ (sound given among).named
  · rw [merges.lower entry member]
    exact numbers _ (fun given among => (sound given among).lower) entry.name
  · rw [merges.upper entry member]
    exact numbers _ (fun given among => (sound given among).upper) entry.name

end LinOpt.LpText

namespace LinOpt.Spec

variable {fault : Value → SpecFault} {words : List String} {own : Number} {x : Binary64}

theorem readBound_real (number : x.isNaN = false) (negative : Bool) :
    readBound fault words own (.real (.infinite negative)) (.number (.real x)) =
      if x = .infinite negative then .error (.invalidVariable (fault (.number (.real x))))
      else .ok (if x.isInfinite then own else .real x) := by
  cases x with
  | nan => cases number
  | infinite s => cases s <;> cases negative <;> rfl
  | finite s quanta short bound =>
    rw [if_neg (by simp)]
    exact readBound_finite rfl rfl (finite_ne_infinite rfl negative)

end LinOpt.Spec

namespace LinOpt.LpText

theorem readBound_side {side : Option Binary64} (number : ∀ x ∈ side, x.isNaN = false)
    {fault : Value → SpecFault} {words : List String} {own unset read : Number} {negative : Bool}
    (isUnset : Spec.readBound fault words own (.real (.infinite negative)) (.number unset) =
      .ok read) (ownText : own.text? ≠ none) (readText : read.text? ≠ none) :
    let outcome := Spec.readBound fault words own (.real (.infinite negative))
      (.number ((side.map Number.real).getD unset))
    (side = some (.infinite negative) ∧ ∃ fault, outcome = .error (.invalidVariable fault)) ∨
      (side ≠ some (.infinite negative) ∧ ∃ n, outcome = .ok n ∧ n.text? ≠ none) := by
  cases side with
  | none => exact .inr ⟨by simp, read, isUnset, readText⟩
  | some x =>
    have outcome : Spec.readBound fault words own (.real (.infinite negative)) (.number (.real x)) =
        _ := Spec.readBound_real (number x rfl) negative
    by_cases wrong : x = .infinite negative
    · rw [if_pos wrong] at outcome
      exact .inl ⟨congrArg some wrong, _, outcome⟩
    · rw [if_neg wrong] at outcome
      refine .inr ⟨fun same => wrong (Option.some.inj same), _, outcome, ?_⟩
      split
      · exact ownText
      · exact Number.text?_real x

variable {r : Registry}

theorem declareBound_cases {entry : BoundEntry} (sound : entry.Sound (· ≠ ""))
    (fresh : r.declared? entry.name = none) :
    (entry.Misplaced ∧ ∃ fault, declareBound r entry = .error (.invalidVariable fault)) ∨
      (¬entry.Misplaced ∧ ∃ d : Declaration, d.name = entry.name ∧
        declareBound r entry = .ok (r.register d).1) := by
  have named : Spec.readName entry.spec.name = .ok entry.name := Spec.readName_ok sound.named
  have kind : Spec.readKind entry.spec.kind = .ok .continuous := Spec.readKind_ok .continuous
  have refused {e : Error} (check : entry.spec.check = .error e) :
      declareBound r entry = .error e := by
    have unnamed : ¬entry.spec.name.isNull = true := Bool.false_ne_true
    rw [declareBound, register, Registry.add, if_neg unnamed, check]
    rfl
  have infinite (negative : Bool) : (Number.real (.infinite negative)).text? ≠ none :=
    Number.text?_real _
  -- The upper side is only read if nothing is wrong with the lower one.
  rcases readBound_side sound.lower Spec.readLower_zero (infinite true) Number.text?_zero with
    ⟨misplaced, fault, isLower⟩ | ⟨lower, least, isLower, lowerText⟩
  · have read : Spec.readLower entry.spec.lower = .error _ := isLower
    refine .inl ⟨.inl misplaced, fault, refused ?_⟩
    rw [Spec.check, named, kind, read]
    rfl
  rcases readBound_side sound.upper Spec.readUpper_infinity (infinite false) (infinite false) with
    ⟨misplaced, fault, isUpper⟩ | ⟨upper, greatest, isUpper, upperText⟩
  · have first : Spec.readLower entry.spec.lower = .ok least := isLower
    have second : Spec.readUpper entry.spec.upper = .error _ := isUpper
    refine .inl ⟨.inr misplaced, fault, refused ?_⟩
    rw [Spec.check, named, kind, first, second]
    rfl
  · let d : Declaration := { name := entry.name, lower := least, upper := greatest }
    have checked : entry.spec.check = .ok d :=
      Spec.check_ok rfl sound.named rfl isLower isUpper
    have told : d.notice ≠ none := Declaration.notice_ne_none lowerText upperText
    have added := Registry.add_of_check rfl checked fresh told
    exact .inr ⟨fun misplaced => misplaced.elim lower upper, d, rfl, register_eq_ok.2 ⟨_, added⟩⟩

theorem declareBounds_cases {entries : List BoundEntry}
    (sound : ∀ entry ∈ entries, entry.Sound (· ≠ ""))
    (distinct : (entries.map BoundEntry.name).Nodup)
    (fresh : ∀ entry ∈ entries, r.declared? entry.name = none) :
    ((∃ entry ∈ entries, entry.Misplaced) ∧
        ∃ fault, entries.foldlM declareBound r = .error (.invalidVariable fault)) ∨
      ((¬∃ entry ∈ entries, entry.Misplaced) ∧ ∃ s, entries.foldlM declareBound r = .ok s) := by
  induction entries generalizing r with
  | nil => exact .inr ⟨by simp, r, rfl⟩
  | cons entry entries ih =>
    obtain ⟨alone, distinct⟩ := List.nodup_cons.1 distinct
    obtain ⟨first, sound⟩ := List.forall_mem_cons.1 sound
    obtain ⟨isFresh, fresh⟩ := List.forall_mem_cons.1 fresh
    rw [List.foldlM_cons, List.exists_mem_cons_iff]
    rcases declareBound_cases first isFresh with ⟨misplaced, fault, failed⟩ | ⟨placed, d, name, ok⟩
    · exact .inl ⟨.inl misplaced, fault, bind_eq_error.2 (.inl failed)⟩
    · have others : ∀ other ∈ entries, (r.register d).1.declared? other.name = none := by
        intro other member
        have different : other.name ≠ d.name := by
          rw [name]
          exact fun same => alone (List.mem_map.2 ⟨other, member, same⟩)
        rw [Registry.declared?_register (name.symm ▸ isFresh), if_neg different]
        exact fresh other member
      rcases ih sound distinct others with ⟨misplaced, fault, failed⟩ | ⟨none, s, run⟩
      · exact .inl ⟨.inr misplaced, fault, bind_eq_error.2 (.inr ⟨_, ok, failed⟩)⟩
      · exact .inr ⟨not_or.2 ⟨placed, none⟩, s, bind_eq_ok.2 ⟨_, ok, run⟩⟩

end LinOpt.LpText
