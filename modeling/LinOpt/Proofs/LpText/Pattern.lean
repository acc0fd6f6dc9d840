import LinOpt.LpText.Grammar

namespace LinOpt.LpText

theorem forall_of_all {p : Char → Prop} [DecidablePred p] {cs : List Char}
    (h : (cs.all fun c => decide (p c)) = true) : ∀ c ∈ cs, p c :=
  fun c member => of_decide_eq_true (List.all_eq_true.1 h c member)

namespace Pattern

section run

variable (p : Pattern α) (s : List Char)

theorem run_token (scan : List Char → Option (α × List Char)) : run (token scan) s = scan s :=
  rfl

theorem run_map (f : α → β) : run (map f p) s = (run p s).map fun (a, rest) => (f a, rest) :=
  rfl

theorem run_pair (q : Pattern β) : run (pair p q) s = (run p s).bind fun (a, rest) =>
    (run q rest).bind fun (b, rest) => some ((a, b), rest) :=
  rfl

theorem run_either (q : Pattern α) : run (either p q) s = (run p s).or (run q s) := by
  rw [run]
  cases run p s <;> rfl

theorem run_maybe : run (maybe p) s = if s.isEmpty then some (none, s)
    else ((run p s).map fun (a, rest) => (some a, rest)).or (some (none, s)) := by
  rw [run]
  cases run p s <;> rfl

theorem run_many : run (many p) s = some (repeated (run p) s s) :=
  rfl

theorem run_rule : run (rule p) s = run p s :=
  rfl

theorem run_unless : run (.unless p) s = if (run p s).isSome then none else some ((), s) :=
  rfl

end run

variable {p : Pattern α} {q : Pattern β} {s t u : List Char} {a : α} {b : β}

/-- A pattern that fits the start of a text, what it reads there and what it leaves. -/
def Reads (p : Pattern α) (s : List Char) (a : α) (t : List Char) : Prop :=
  p.run s = some (a, t)

def Fails (p : Pattern α) (s : List Char) : Prop :=
  p.run s = none

theorem Reads.map (h : p.Reads s a t) (f : α → β) : (Pattern.map f p).Reads s (f a) t := by
  rw [Reads, run_map, h]
  rfl

theorem Reads.pair (h : p.Reads s a t) (g : q.Reads t b u) : (Pattern.pair p q).Reads s (a, b) u := by
  rw [Reads, run_pair, h, Option.bind_some]
  dsimp only
  rw [g]
  rfl

theorem Reads.before (h : p.Reads s a t) (g : q.Reads t b u) : (Pattern.before p q).Reads s a u :=
  (h.pair g).map Prod.fst

theorem Reads.after (h : p.Reads s a t) (g : q.Reads t b u) : (Pattern.after p q).Reads s b u :=
  (h.pair g).map Prod.snd

theorem Reads.replaced (h : p.Reads s a t) (b : β) : (Pattern.replaced b p).Reads s b t :=
  h.map _

theorem Reads.left (h : p.Reads s a t) (q : Pattern α) : (either p q).Reads s a t := by
  rw [Reads, run_either, h, Option.some_or]

theorem Reads.right {q : Pattern α} (h : q.Reads s a t) (g : p.Fails s) :
    (either p q).Reads s a t := by
  rw [Reads, run_either, g, Option.none_or]
  exact h

theorem Reads.maybe (h : p.Reads s a t) (nonempty : s ≠ []) :
    (Pattern.maybe p).Reads s (some a) t := by
  rw [Reads, run_maybe, if_neg (by simpa using nonempty), h]
  rfl

theorem Reads.rule (h : p.Reads s a t) : (Pattern.rule p).Reads s a t :=
  h

theorem Fails.map (h : p.Fails s) (f : α → β) : (Pattern.map f p).Fails s := by
  rw [Fails, run_map, h]
  rfl

theorem Fails.pair (h : p.Fails s) (q : Pattern β) : (Pattern.pair p q).Fails s := by
  rw [Fails, run_pair, h]
  rfl

theorem Reads.pair_fails (h : p.Reads s a t) (g : q.Fails t) : (Pattern.pair p q).Fails s := by
  rw [Fails, run_pair, h, Option.bind_some]
  dsimp only
  rw [g]
  rfl

theorem Fails.before (h : p.Fails s) (q : Pattern β) : (Pattern.before p q).Fails s :=
  (h.pair q).map _

theorem Fails.after (h : p.Fails s) (q : Pattern β) : (Pattern.after p q).Fails s :=
  (h.pair q).map _

theorem Fails.either {q : Pattern α} (h : p.Fails s) (g : q.Fails s) : (either p q).Fails s := by
  rw [Fails, run_either, h, Option.none_or]
  exact g

theorem fails_either {q : Pattern α} : (either p q).Fails s ↔ p.Fails s ∧ q.Fails s := by
  rw [Fails, run_either, Option.or_eq_none_iff]
  rfl

theorem Fails.maybe (h : p.Fails s) : (Pattern.maybe p).Reads s none s := by
  rw [Reads, run_maybe]
  split
  · rfl
  · rw [h]
    rfl

theorem Fails.rule (h : p.Fails s) : (Pattern.rule p).Fails s :=
  h

theorem Fails.unless (h : p.Fails s) : (Pattern.unless p).Reads s () s := by
  rw [Reads, run_unless, h]
  rfl

theorem Reads.unless (h : p.Reads s a t) : (Pattern.unless p).Fails s := by
  rw [Fails, run_unless, h]
  rfl

theorem fails_unless (h : ¬p.Fails s) : (Pattern.unless p).Fails s := by
  obtain ⟨found, run⟩ := Option.ne_none_iff_exists'.1 h
  rw [Fails, run_unless, run]
  rfl

theorem reads_unless {e : Unit} : (Pattern.unless p).Reads s e t ↔ p.Fails s ∧ t = s := by
  rw [Reads, run_unless, Fails]
  cases p.run s with
  | none => simp [eq_comm]
  | some found => simp

theorem reads_map {f : α → β} :
    (Pattern.map f p).Reads s b t ↔ ∃ a, p.Reads s a t ∧ f a = b := by
  rw [Reads, run_map, Option.map_eq_some_iff]
  constructor
  · rintro ⟨⟨a, rest⟩, reads, same⟩
    cases same
    exact ⟨a, reads, rfl⟩
  · rintro ⟨a, reads, rfl⟩
    exact ⟨(a, t), reads, rfl⟩

theorem reads_pair {both : α × β} :
    (Pattern.pair p q).Reads s both u ↔ ∃ t, p.Reads s both.1 t ∧ q.Reads t both.2 u := by
  constructor
  · intro reads
    obtain ⟨⟨a, t⟩, first, reads⟩ := Option.bind_eq_some_iff.1 reads
    obtain ⟨⟨b, rest⟩, second, reads⟩ := Option.bind_eq_some_iff.1 reads
    cases reads
    exact ⟨t, first, second⟩
  · rintro ⟨t, first, second⟩
    exact first.pair second

theorem exists_of_after (h : (Pattern.after p q).Reads s b u) :
    ∃ a t, p.Reads s a t ∧ q.Reads t b u := by
  obtain ⟨both, pair, rfl⟩ := reads_map.1 h
  obtain ⟨t, first, second⟩ := reads_pair.1 pair
  exact ⟨both.1, t, first, second⟩

theorem reads_after {p : Pattern Unit} :
    (Pattern.after p q).Reads s b u ↔ ∃ t, p.Reads s () t ∧ q.Reads t b u := by
  constructor
  · intro reads
    obtain ⟨⟨⟩, t, first, second⟩ := exists_of_after reads
    exact ⟨t, first, second⟩
  · rintro ⟨t, first, second⟩
    exact first.after second

theorem reads_either {q : Pattern α} :
    (Pattern.either p q).Reads s a t ↔ p.Reads s a t ∨ p.Fails s ∧ q.Reads s a t := by
  rw [Reads, run_either, Option.or_eq_some_iff]
  rfl

theorem reads_maybe {a? : Option α} (reads : (Pattern.maybe p).Reads s a? t) :
    (∃ a, a? = some a ∧ p.Reads s a t) ∨ a? = none ∧ t = s ∧ (s = [] ∨ p.Fails s) := by
  rw [Reads, run_maybe] at reads
  split at reads
  next empty =>
    cases reads
    exact .inr ⟨rfl, rfl, .inl (List.isEmpty_iff.1 empty)⟩
  next =>
    rw [Option.or_eq_some_iff] at reads
    rcases reads with found | ⟨none, same⟩
    · obtain ⟨⟨a, rest⟩, first, same⟩ := Option.map_eq_some_iff.1 found
      cases same
      exact .inl ⟨a, rfl, first⟩
    · cases same
      exact .inr ⟨rfl, rfl, .inr (Option.map_eq_none_iff.1 none)⟩

theorem Reads.unique {a' : α} {t' : List Char} (h : p.Reads s a t) (g : p.Reads s a' t') :
    a = a' ∧ t = t' :=
  Prod.mk.inj (Option.some.inj (h.symm.trans g))

theorem Fails.not_reads (h : p.Fails s) : ¬p.Reads s a t := by
  rw [Reads, h]
  exact Option.some_ne_none _ ∘ Eq.symm

instance [DecidableEq α] : Decidable (p.Reads s a t) :=
  inferInstanceAs (Decidable (_ = _))

instance : Decidable (p.Fails s) :=
  decidable_of_iff _ Option.isNone_iff_eq_none

/-- A reader that succeeds again and again, each time with less text, until it fails. -/
inductive Repeats (p : Pattern α) : List Char → List α → List Char → Prop
  | stop {s : List Char} (fails : s = [] ∨ p.Fails s) : Repeats p s [] s
  | step {s t u : List Char} {a : α} {as : List α} (first : p.Reads s a t)
      (shorter : t.length < s.length) (rest : Repeats p t as u) : Repeats p s (a :: as) u

theorem Repeats.length_le {as : List α} (h : Repeats p s as t) : t.length ≤ s.length := by
  induction h with
  | stop => exact Nat.le_refl _
  | step _ shorter _ ih => exact Nat.le_trans ih (Nat.le_of_lt shorter)

theorem repeated_of_repeats {as : List α} (h : Repeats p s as t) {limit : List Char}
    (bound : s.length ≤ limit.length) : repeated (run p) limit s = (as, t) := by
  induction h generalizing limit with
  | @stop s fails =>
    cases limit with
    | nil => rfl
    | cons c limit =>
      rw [repeated]
      rcases fails with rfl | fails
      · rfl
      · rw [fails]
        split <;> rfl
  | @step s t u a as first shorter rest ih =>
    cases limit with
    | nil =>
      rw [List.length_nil] at bound
      omega
    | cons c limit =>
      have nonempty : s.isEmpty = false := by
        cases s with
        | nil => exact absurd shorter (Nat.not_lt_zero _)
        | cons c s => rfl
      have fewer : t.length ≤ limit.length := by
        rw [List.length_cons] at bound
        omega
      rw [repeated, nonempty, first]
      simp only [Bool.false_eq_true, if_false]
      rw [ih fewer]

theorem Repeats.many {as : List α} (h : Repeats p s as t) : (Pattern.many p).Reads s as t := by
  rw [Reads, run_many, repeated_of_repeats h (Nat.le_refl _)]

end Pattern

namespace Grammar

open Pattern

def skip (s : List Char) : List Char :=
  (repeated (run filler) s s).2

theorem blanks_reads (s : List Char) : blanks.Reads s () (skip s) :=
  rfl

variable {p : Pattern α} {s t : List Char} {a : α}

theorem reads_lexeme (h : p.Reads s a t) : (lexeme p).Reads s a (skip t) :=
  h.before (blanks_reads t)

theorem fails_lexeme (h : p.Fails s) : (lexeme p).Fails s :=
  h.before blanks

theorem lexeme_reads_iff :
    (lexeme p).Reads s a t ↔ ∃ u, p.Reads s a u ∧ t = skip u := by
  constructor
  · intro reads
    obtain ⟨⟨a, _⟩, pair, rfl⟩ := reads_map.1 reads
    obtain ⟨u, first, rest⟩ := reads_pair.1 pair
    exact ⟨u, first, ((blanks_reads u).unique rest).2.symm⟩
  · rintro ⟨u, reads, rfl⟩
    exact reads_lexeme reads

def Solid (s : List Char) : Prop :=
  ∀ c t, s = c :: t → Text.isBlank c = false ∧ c ≠ '\\'

theorem filler_fails (solid : Solid s) : filler.Fails s := by
  cases s with
  | nil => rfl
  | cons c s =>
    obtain ⟨notBlank, notComment⟩ := solid c s rfl
    have blanks : (token scanBlanks).Fails (c :: s) := by
      simp [Fails, run_token, scanBlanks, notBlank]
    have comments : (token scanComment).Fails (c :: s) := by
      simp only [Fails, run_token, scanComment]
      split
      next same => exact absurd (List.cons.inj same).1 notComment
      next => rfl
    exact blanks.either comments

theorem skip_eq (h : Repeats filler s as t) : skip s = t := by
  rw [skip, repeated_of_repeats h (Nat.le_refl _)]

theorem skip_solid (solid : Solid s) : skip s = s :=
  skip_eq (.stop (.inr (filler_fails solid)))

theorem skip_append {bs : List Char} (blank : ∀ b ∈ bs, Text.isBlank b = true) (solid : Solid s) :
    skip (bs ++ s) = s := by
  cases bs with
  | nil => exact skip_solid solid
  | cons b bs =>
    have first := blank b List.mem_cons_self
    have others : ∀ c ∈ bs, Text.isBlank c = true :=
      fun c member => blank c (List.mem_cons_of_mem b member)
    have rest : (bs ++ s).dropWhile Text.isBlank = s := by
      rw [List.dropWhile_append_of_pos others]
      cases s with
      | nil => rfl
      | cons c s => simp [(solid c s rfl).1]
    have scanned : (token scanBlanks).Reads (b :: (bs ++ s)) () s := by
      rw [Reads, run_token, scanBlanks, if_pos first, rest]
    have reads : filler.Reads (b :: bs ++ s) () s := scanned.left comment
    refine skip_eq (.step reads ?_ (.stop (.inr (filler_fails solid))))
    simp only [List.length_append, List.length_cons]
    omega

theorem scanBlanks_length {s t : List Char} {u : Unit} (h : scanBlanks s = some (u, t)) :
    t.length ≤ s.length := by
  unfold scanBlanks at h
  split at h
  · split at h
    · cases h
      exact Nat.le_succ_of_le (List.dropWhile_suffix _).length_le
    · cases h
  · cases h

theorem scanComment_length {s t : List Char} {u : Unit} (h : scanComment s = some (u, t)) :
    t.length ≤ s.length := by
  unfold scanComment at h
  split at h
  · cases h
    exact Nat.le_succ_of_le (List.dropWhile_suffix _).length_le
  · cases h

theorem filler_length {u : Unit} (h : run filler s = some (u, t)) : t.length ≤ s.length := by
  rw [filler, comment, run_rule, run_either, run_token, run_rule, run_token,
    Option.or_eq_some_iff] at h
  rcases h with blanks | ⟨-, comment⟩
  · exact scanBlanks_length blanks
  · exact scanComment_length comment

theorem repeated_length {read : List Char → Option (α × List Char)}
    (shrinks : ∀ s a t, read s = some (a, t) → t.length ≤ s.length) (limit s : List Char) :
    (repeated read limit s).2.length ≤ s.length := by
  induction limit generalizing s with
  | nil => exact Nat.le_refl _
  | cons c limit ih =>
    rw [repeated]
    split
    · exact Nat.le_refl _
    · split
      next => exact Nat.le_refl _
      next a t found => exact Nat.le_trans (ih t) (shrinks s a t found)

theorem skip_length (s : List Char) : (skip s).length ≤ s.length :=
  repeated_length (fun _ _ _ found => filler_length found) s s

end Grammar

end LinOpt.LpText
