import LinOpt.Error
import Mathlib.Data.List.Forall2

namespace LinOpt

theorem ok_bind (a : α) (f : α → Except ε β) : (Except.ok a >>= f) = f a :=
  rfl

theorem bind_eq_ok {x : Except ε α} {f : α → Except ε β} {b : β} :
    (x >>= f) = .ok b ↔ ∃ a, x = .ok a ∧ f a = .ok b := by
  cases x with
  | error e => simp [bind, Except.bind]
  | ok a => simp [bind, Except.bind]

theorem bind_eq_error {x : Except ε α} {f : α → Except ε β} {e : ε} :
    (x >>= f) = .error e ↔ x = .error e ∨ ∃ a, x = .ok a ∧ f a = .error e := by
  cases x with
  | error e => simp [bind, Except.bind]
  | ok a => simp [bind, Except.bind]

theorem bind_congr_ok {x : Except ε α} {f g : α → Except ε β}
    (step : ∀ a, x = .ok a → f a = g a) : (x >>= f) = (x >>= g) := by
  cases x with
  | error e => rfl
  | ok a => exact step a rfl

theorem map_eq_ok {x : Except ε α} {f : α → β} {b : β} :
    (f <$> x) = .ok b ↔ ∃ a, x = .ok a ∧ f a = b := by
  cases x with
  | error e => simp [Functor.map, Except.map]
  | ok a => simp [Functor.map, Except.map]

theorem pure_eq_ok {a b : α} : (pure a : Except ε α) = .ok b ↔ a = b :=
  Except.ok.injEq a b ▸ Iff.rfl

theorem mapError_eq_ok {x : Except ε α} {f : ε → ε'} {a : α} :
    x.mapError f = .ok a ↔ x = .ok a := by
  cases x <;> simp [Except.mapError]

theorem toOption_eq_some {x : Except ε α} {a : α} : x.toOption = some a ↔ x = .ok a := by
  cases x <;> simp [Except.toOption]

theorem inRange_eq_ok {x : Option α} {a : α} : inRange x = .ok a ↔ x = some a := by
  cases x <;> simp [inRange]

theorem inRange_eq_error {x : Option α} {e : Error} :
    inRange x = .error e ↔ x = none ∧ .overflow = e := by
  cases x <;> simp [inRange]

theorem Error.shownBy_cases (shown : Showing) (e : Error) :
    e.shownBy shown = e ∨ e.shownBy shown = .wrongValue ∨ e.shownBy shown = .endless := by
  unfold shownBy
  split
  next => exact .inl rfl
  next why _ =>
    cases why with
    | tooManyDigits => exact .inr (.inl rfl)
    | tooDeep => exact .inr (.inr rfl)

def failsWith (test : Error → Bool) : Except Error α → Bool
  | .ok _ => false
  | .error e => test e

theorem failsWith_iff {test : Error → Bool} {e : Error} (only : ∀ f, test f = true ↔ f = e)
    {x : Except Error α} : failsWith test x = true ↔ x = .error e := by
  cases x with
  | ok a => simp [failsWith]
  | error f => simp [failsWith, only]

instance (x : Except Error α) : Decidable (x = .error .wrongSort) :=
  let test : Error → Bool
    | .wrongSort => true
    | _ => false
  decidable_of_iff (failsWith test x = true) (failsWith_iff fun f => by cases f <;> simp [test])

instance (x : Except Error α) : Decidable (x = .error .wrongValue) :=
  let test : Error → Bool
    | .wrongValue => true
    | _ => false
  decidable_of_iff (failsWith test x = true) (failsWith_iff fun f => by cases f <;> simp [test])

theorem foldlM_cons_eq_ok {f : σ → α → Except ε σ} {a : α} {as : List α} {s t : σ} :
    (a :: as).foldlM f s = .ok t ↔ ∃ u, f s a = .ok u ∧ as.foldlM f u = .ok t := by
  rw [List.foldlM_cons, bind_eq_ok]

theorem foldlM_keeps {f : σ → α → Except ε σ} (Good : σ → Prop) {as : List α}
    (step : ∀ a ∈ as, ∀ s t, Good s → f s a = .ok t → Good t)
    {s t : σ} (good : Good s) (run : as.foldlM f s = .ok t) : Good t := by
  induction as generalizing s with
  | nil =>
    cases run
    exact good
  | cons a as ih =>
    obtain ⟨u, first, rest⟩ := foldlM_cons_eq_ok.1 run
    refine ih (fun b member => step b (List.mem_cons_of_mem a member)) ?_ rest
    exact step a List.mem_cons_self s u good first

theorem foldlM_eq_ok {f : σ → α → Except ε σ} {g : σ → α → σ} {as : List α} {s : σ}
    (step : ∀ a ∈ as, ∀ s, f s a = .ok (g s a)) : as.foldlM f s = .ok (as.foldl g s) := by
  induction as generalizing s with
  | nil => rfl
  | cons a as ih =>
    refine foldlM_cons_eq_ok.2 ⟨g s a, step a List.mem_cons_self s, ?_⟩
    exact ih fun b member => step b (List.mem_cons_of_mem a member)

theorem mapM_cons_eq_ok {f : α → Except ε β} {a : α} {as : List α} {bs : List β} :
    (a :: as).mapM f = .ok bs ↔ ∃ c cs, f a = .ok c ∧ as.mapM f = .ok cs ∧ bs = c :: cs := by
  simp only [List.mapM_cons, bind_eq_ok, pure_eq_ok]
  constructor
  · rintro ⟨c, first, cs, rest, rfl⟩
    exact ⟨c, cs, first, rest, rfl⟩
  · rintro ⟨c, cs, first, rest, rfl⟩
    exact ⟨c, first, cs, rest, rfl⟩

theorem mapM_eq_ok {f : α → Except ε β} {g : α → β} {as : List α}
    (step : ∀ a ∈ as, f a = .ok (g a)) : as.mapM f = .ok (as.map g) := by
  induction as with
  | nil => rfl
  | cons a as ih =>
    refine mapM_cons_eq_ok.2 ⟨g a, as.map g, step a List.mem_cons_self, ?_, rfl⟩
    exact ih fun b member => step b (List.mem_cons_of_mem a member)

theorem exists_mapM_eq_ok {f : α → Except ε β} {P : β → Prop} {as : List α}
    (step : ∀ a ∈ as, ∃ b, f a = .ok b ∧ P b) : ∃ bs, as.mapM f = .ok bs ∧ ∀ b ∈ bs, P b := by
  induction as with
  | nil => exact ⟨[], rfl, fun _ member => absurd member List.not_mem_nil⟩
  | cons a as ih =>
    obtain ⟨b, first, good⟩ := step a List.mem_cons_self
    obtain ⟨bs, rest, allGood⟩ := ih fun c member => step c (List.mem_cons_of_mem a member)
    exact ⟨b :: bs, mapM_cons_eq_ok.2 ⟨b, bs, first, rest, rfl⟩, List.forall_mem_cons.2
      ⟨good, allGood⟩⟩

theorem forall₂_of_mapM {f : α → Except ε β} {as : List α} {bs : List β}
    (run : as.mapM f = .ok bs) : List.Forall₂ (fun a b => f a = .ok b) as bs := by
  induction as generalizing bs with
  | nil =>
    cases run
    exact .nil
  | cons a as ih =>
    obtain ⟨c, cs, first, rest, rfl⟩ := mapM_cons_eq_ok.1 run
    exact .cons first (ih rest)

theorem map_of_mapM {f : α → Except ε β} {p : α → γ} {q : β → γ}
    (step : ∀ a b, f a = .ok b → q b = p a) {as : List α} {bs : List β}
    (run : as.mapM f = .ok bs) : bs.map q = as.map p := by
  induction as generalizing bs with
  | nil =>
    cases run
    rfl
  | cons a as ih =>
    obtain ⟨c, cs, first, rest, rfl⟩ := mapM_cons_eq_ok.1 run
    rw [List.map_cons, List.map_cons, step a c first, ih rest]

theorem exists_of_mapM_error {f : α → Except ε β} {as : List α} {e : ε}
    (run : as.mapM f = .error e) : ∃ a ∈ as, f a = .error e := by
  induction as with
  | nil => cases run
  | cons a as ih =>
    rw [List.mapM_cons] at run
    rcases bind_eq_error.1 run with first | ⟨b, -, rest⟩
    · exact ⟨a, List.mem_cons_self, first⟩
    · rcases bind_eq_error.1 rest with later | ⟨bs, -, last⟩
      · obtain ⟨c, among, step⟩ := ih later
        exact ⟨c, List.mem_cons_of_mem a among, step⟩
      · cases last

theorem ok_of_mapM {f : α → Except ε β} {as : List α} {bs : List β} (run : as.mapM f = .ok bs)
    {a : α} (member : a ∈ as) : ∃ b, f a = .ok b := by
  induction as generalizing bs with
  | nil => exact absurd member List.not_mem_nil
  | cons c as ih =>
    obtain ⟨b, cs, first, rest, -⟩ := mapM_cons_eq_ok.1 run
    rcases List.mem_cons.1 member with rfl | member
    · exact ⟨b, first⟩
    · exact ih rest member

theorem exists_of_mem_mapM {f : α → Except ε β} {as : List α} {bs : List β}
    (run : as.mapM f = .ok bs) {b : β} (member : b ∈ bs) : ∃ a ∈ as, f a = .ok b := by
  induction as generalizing bs with
  | nil =>
    cases run
    exact absurd member List.not_mem_nil
  | cons a as ih =>
    obtain ⟨c, cs, first, rest, rfl⟩ := mapM_cons_eq_ok.1 run
    rcases List.mem_cons.1 member with rfl | member
    · exact ⟨a, List.mem_cons_self, first⟩
    · obtain ⟨d, among, step⟩ := ih rest member
      exact ⟨d, List.mem_cons_of_mem a among, step⟩

/-- If it fails at all, it is in one of the given ways. -/
def FailsOnly (P : Error → Prop) (x : Except Error α) : Prop :=
  ∀ e, x = .error e → P e

namespace FailsOnly

variable {P Q : Error → Prop}

theorem ok (a : α) : FailsOnly P (.ok a) :=
  nofun

theorem of_eq_ok {x : Except Error α} (h : ∃ a, x = .ok a) : FailsOnly P x := by
  obtain ⟨a, rfl⟩ := h
  exact ok a

theorem mono (weaker : ∀ e, P e → Q e) {x : Except Error α} (h : FailsOnly P x) : FailsOnly Q x :=
  fun e failed => weaker e (h e failed)

theorem bind {x : Except Error α} {f : α → Except Error β} (first : FailsOnly P x)
    (next : ∀ a, x = .ok a → FailsOnly P (f a)) : FailsOnly P (x >>= f) := by
  intro e failed
  rcases bind_eq_error.1 failed with here | ⟨a, passed, later⟩
  · exact first e here
  · exact next a passed e later

theorem map {x : Except Error α} (f : α → β) (h : FailsOnly P x) : FailsOnly P (f <$> x) := by
  cases x with
  | error e =>
    intro e' failed
    cases failed
    exact h e rfl
  | ok a => exact ok (f a)

theorem mapM {f : α → Except Error β} {as : List α} (step : ∀ a ∈ as, FailsOnly P (f a)) :
    FailsOnly P (as.mapM f) := by
  intro e failed
  obtain ⟨a, member, here⟩ := exists_of_mapM_error failed
  exact step a member e here

theorem inRange (x : Option α) : FailsOnly (· = .overflow) (inRange x) :=
  fun _ failed => (inRange_eq_error.1 failed).2.symm

end FailsOnly

end LinOpt
