import LinOpt.Proofs.Outcome
import LinOpt.Program.Settings
import LinOpt.Value.Plain

namespace LinOpt

namespace Value

inductive Within (met : Variable → Prop) : Value → Prop
  | null : Within met null
  | bool (b : Bool) : Within met (bool b)
  | number (n : Number) : Within met (number n)
  | text (s : String) : Within met (text s)
  | list {items : List Value} (each : ∀ item ∈ items, Within met item) : Within met (list items)
  | tuple {items : List Value} (each : ∀ item ∈ items, Within met item) : Within met (tuple items)
  | map {entries : List (Value × Value)} (keys : ∀ e ∈ entries, Within met e.1)
      (values : ∀ e ∈ entries, Within met e.2) : Within met (map entries)
  | var {v : Variable} (here : met v) : Within met (var v)

/-- Every variable in the value, or in the value of one that is met there, has the same value both
times. -/
def SeenAlike (f g : Valuation) (value : Value) : Prop :=
  ∃ met, value.Within met ∧ ∀ v, met v → f v = g v ∧ (f v).Within met

theorem SeenAlike.items {f g : Valuation} {value : Value} (seen : value.SeenAlike f g)
    {items : List Value} (given : value.items? = some items) :
    ∀ item ∈ items, item.SeenAlike f g := by
  obtain ⟨met, within, alike⟩ := seen
  intro item member
  refine ⟨met, ?_, alike⟩
  cases within with
  | list each =>
    cases given
    exact each item member
  | tuple each =>
    cases given
    exact each item member
  | map keys =>
    cases given
    obtain ⟨e, among, rfl⟩ := List.mem_map.1 member
    exact keys e among
  | text s =>
    cases given
    obtain ⟨c, -, rfl⟩ := List.mem_map.1 member
    exact .text _
  | _ => cases given

section Walk

theorem mapM_congr {m : Type → Type} [Monad m] [LawfulMonad m] {α β : Type} {f g : α → m β}
    {as : List α} (step : ∀ a ∈ as, f a = g a) : as.mapM f = as.mapM g := by
  induction as with
  | nil => rfl
  | cons a as ih =>
    rw [List.mapM_cons, List.mapM_cons, step a List.mem_cons_self,
      ih fun b member => step b (List.mem_cons_of_mem a member)]

variable {met : Variable → Prop} {f g : Valuation}

theorem plainWithin_alike (alike : ∀ v, met v → f v = g v ∧ (f v).Within met) (depth : Nat)
    (place : Option Place) {value : Value} (within : value.Within met) :
    plainWithin f depth place value = plainWithin g depth place value := by
  induction depth generalizing place value with
  | zero => rfl
  | succ depth ih =>
    cases within with
    | list each | tuple each =>
      unfold plainWithin
      dsimp only
      rw [mapM_congr fun indexed member => ?_]
      exact ih _ (each _ (List.fst_mem_of_mem_zipIdx member))
    | map keys values =>
      unfold plainWithin
      dsimp only
      rw [mapM_congr fun indexed member => ?_]
      have known := List.fst_mem_of_mem_zipIdx member
      rw [ih _ (keys _ known), ih _ (values _ known)]
    | var here =>
      rename_i v
      obtain ⟨same, inside⟩ := alike v here
      simp only [plainWithin, ← same, ih _ inside]
    | _ => rfl

end Walk

theorem plainEntries?_alike {f g : Valuation} {entries : Entries Value}
    (seen : ∀ e ∈ entries, e.2.SeenAlike f g) :
    plainEntries? f entries = plainEntries? g entries := by
  unfold plainEntries?
  dsimp only
  rw [mapM_congr fun e member => ?_]
  obtain ⟨met, within, alike⟩ := seen e member
  rw [plainWithin_alike alike _ _ within]

theorem seenAlike_putEntry {f g : Valuation} {key value : Value} (seen : value.SeenAlike f g)
    {entries : List (Value × Value)} (all : ∀ e ∈ entries, e.2.SeenAlike f g) :
    ∀ e ∈ putEntry key value entries, e.2.SeenAlike f g := by
  induction entries with
  | nil => exact List.forall_mem_singleton.2 seen
  | cons entry entries ih =>
    obtain ⟨first, rest⟩ := List.forall_mem_cons.1 all
    unfold putEntry
    split
    · exact List.forall_mem_cons.2 ⟨seen, rest⟩
    · exact List.forall_mem_cons.2 ⟨first, ih rest⟩

end Value

namespace Settings

theorem readOptions_seenAlike {f g : Valuation} {options : Value} {entries : Options}
    (seen : options.SeenAlike f g) (read : readOptions options = .ok entries) :
    ∀ e ∈ entries, e.2.SeenAlike f g := by
  unfold readOptions at read
  split at read
  · cases read
    exact fun _ member => absurd member List.not_mem_nil
  split at read
  · cases read
    obtain ⟨met, within, alike⟩ := seen
    cases within with
    | map keys values => exact fun e member => ⟨met, values e member, alike⟩
  · split at read
    · cases read
    next items given =>
      obtain ⟨pairs, isPairs, read⟩ := bind_eq_ok.1 read
      cases read
      have parts : ∀ pair ∈ pairs, pair.2.SeenAlike f g := by
        intro pair member
        obtain ⟨item, among, isPair⟩ := exists_of_mem_mapM isPairs member
        unfold readPair at isPair
        split at isPair
        · cases isPair
        next key value parts =>
          split at isPair
          · cases isPair
            exact (seen.items given item among).items parts value (by simp)
          · cases isPair
        · cases isPair
      refine List.foldlRecOn pairs _ (motive := fun entries : Options => ∀ e ∈ entries, e.2.SeenAlike f g)
        (fun _ member => absurd member List.not_mem_nil) ?_
      exact fun entries all pair member => Value.seenAlike_putEntry (parts pair member) all

end Settings

end LinOpt
