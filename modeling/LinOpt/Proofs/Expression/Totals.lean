import LinOpt.Proofs.Expression.Reread
import LinOpt.Proofs.FirstOccurrence

namespace LinOpt

def Number.int? : Number → Option Int
  | int n => some n
  | _ => none

theorem Number.eq_int {a : Number} {n : Int} (h : a.int? = some n) : a = .int n := by
  cases a with
  | int m => exact congrArg Number.int (Option.some.inj h)
  | _ => cases h

theorem Number.isZero_int (n : Int) : (int n).isZero = decide (n = 0) := by
  have positive : (Binary64.scale : Int) ≠ 0 :=
    Int.natCast_ne_zero.2 (Nat.ne_of_gt Binary64.scale_pos)
  rw [Bool.eq_iff_iff, isZero_iff, rank?_int, decide_eq_true_iff, Option.some.injEq, Prod.mk.injEq,
    and_iff_right rfl, Rat.intCast_eq_zero_iff, Int.mul_eq_zero, or_iff_left positive]

namespace Value

/-- The whole number that an item counts its variables with. A variable alone counts once. -/
def amount? : Value → Option Int
  | .number n => n.int?
  | .var _ => some 1
  | .list (.number c :: _) | .tuple (.number c :: _) => c.int?
  | _ => none

def amount (item : Value) : Int :=
  item.amount?.getD 0

def var? : Value → Option Variable
  | .var v => some v
  | _ => none

def factors : Value → List Variable
  | .var v => [v]
  | .list parts | .tuple parts => parts.filterMap var?
  | _ => []

def subject (item : Value) : Multiset String :=
  ↑(item.factors.map (·.name))

/-- What items count a bag of names with altogether. That of no names is the sum of the numbers that
stand alone. -/
def total (items : List Value) (k : Multiset String) : Int :=
  ((items.filter (·.subject = k)).map amount).sum

def subjects (items : List Value) : List (Multiset String) :=
  ((items.map subject).filter (· ≠ 0)).eraseDups

/-- Items that are read, with whole numbers only. -/
def WholeItems (registry : Option Registry) (items : List Value) : Prop :=
  ∀ item ∈ items, (Item.read registry item).isOk = true ∧ item.amount?.isSome = true

instance (registry : Option Registry) (items : List Value) :
    Decidable (WholeItems registry items) :=
  inferInstanceAs (Decidable (∀ item ∈ items, _ ∧ _))

theorem total_append (items others : List Value) (k : Multiset String) :
    total (items ++ others) k = total items k + total others k := by
  rw [total, List.filter_append, List.map_append, List.sum_append, total, total]

theorem total_singleton (item : Value) (k : Multiset String) :
    total [item] k = if k = item.subject then item.amount else 0 := by
  by_cases here : item.subject = k
  · simp [total, here]
  · simp [total, here, Ne.symm here]

theorem total_cons (item : Value) (items : List Value) (k : Multiset String) :
    total (item :: items) k = (if k = item.subject then item.amount else 0) + total items k := by
  rw [← List.singleton_append, total_append, total_singleton]

theorem total_concat (items : List Value) (item : Value) (k : Multiset String) :
    total (items ++ [item]) k = total items k + if k = item.subject then item.amount else 0 := by
  rw [total_append, total_singleton]

theorem total_of_absent {items : List Value} {k : Multiset String} (nonzero : k ≠ 0)
    (absent : k ∉ subjects items) : total items k = 0 := by
  have nothing : items.filter (·.subject = k) = [] := by
    refine List.filter_eq_nil_iff.2 fun item member same => absent ?_
    obtain rfl := of_decide_eq_true same
    exact List.mem_eraseDups.2
      (List.mem_filter.2 ⟨List.mem_map_of_mem member, decide_eq_true nonzero⟩)
  rw [total, nothing]
  rfl

theorem subjects_concat (items : List Value) (item : Value) :
    subjects (items ++ [item]) =
      if item.subject = 0 ∨ item.subject ∈ subjects items then subjects items
      else subjects items ++ [item.subject] := by
  unfold subjects
  rw [List.map_append, List.map_singleton, List.filter_append]
  by_cases zero : item.subject = 0
  · simp [zero]
  · have kept : [item.subject].filter (· ≠ 0) = [item.subject] := by simp [zero]
    rw [kept, eraseDups_concat]
    simp only [List.mem_eraseDups, zero, false_or]

theorem zero_not_mem_subjects (items : List Value) : 0 ∉ subjects items := by
  intro member
  have kept := (List.mem_filter.1 (List.mem_eraseDups.1 member)).2
  simp at kept

theorem nodup_subjects (items : List Value) : (subjects items).Nodup :=
  nodup_eraseDups _

end Value

namespace Term

theorem subject_ne_zero (t : Term) : t.subject ≠ 0 := by
  cases t <;> exact mt (Multiset.coe_eq_zero _).1 (List.cons_ne_nil _ _)

theorem key_eq_iff {s t : Term} (hs : s.Ordered) (ht : t.Ordered) :
    s.key = t.key ↔ s.subject = t.subject :=
  ⟨subject_eq_of_key_eq, key_eq_of_subject_eq hs ht⟩

@[simp]
theorem subject_withCoefficient (c : Number) (t : Term) :
    (t.withCoefficient c).subject = t.subject := by
  rw [subject, vars_withCoefficient, subject]

theorem coefficient_product (c : Number) (v w : Variable) : (product c v w).coefficient = c := by
  unfold product
  split <;> rfl

end Term

namespace Item

open Value

variable {registry : Option Registry}

theorem Reads.cases {item : Value} {i : Item} (h : Reads registry item i) :
    (∃ n, i = .number n ∧ item.amount? = n.int? ∧ item.factors = []) ∨
      ∃ t, i = .term t ∧ t.Ordered ∧ item.amount? = t.coefficient.int? ∧
        t.vars.Perm item.factors := by
  cases h with
  | number n => exact .inl ⟨n, rfl, rfl, rfl⟩
  | single v allowed => exact .inr ⟨_, rfl, trivial, rfl, List.Perm.refl _⟩
  | linear c v parts allowed =>
    refine .inr ⟨_, rfl, trivial, ?_⟩
    cases item <;> cases parts <;> exact ⟨rfl, List.Perm.refl _⟩
  | quadratic c v w parts first second =>
    refine .inr ⟨_, rfl, Term.product_ordered c v w, ?_⟩
    rw [Term.coefficient_product]
    cases item <;> cases parts <;> exact ⟨rfl, Term.vars_product c v w⟩

end Item

namespace Expression

open Value

def entry (t : Term) : Multiset String × Number :=
  (t.subject, t.coefficient)

theorem addTerm_entries {t : Term} {c : Int} (whole : t.coefficient = .int c) (isOrdered : t.Ordered)
    {terms : List Term} (ordered : ∀ s ∈ terms, s.Ordered) {ks : List (Multiset String)}
    (distinct : ks.Nodup) {f : Multiset String → Int} (fresh : t.subject ∉ ks → f t.subject = 0)
    (entries : terms.map entry = ks.map fun k => (k, .int (f k))) :
    ∃ sum, addTerm t terms = some sum ∧
      sum.map entry = (if t.subject ∈ ks then ks else ks ++ [t.subject]).map
        fun k => (k, .int (f k + if k = t.subject then c else 0)) := by
  -- Names that are not among those of the terms so far count for nothing, wherever the term goes.
  induction terms generalizing ks with
  | nil =>
    obtain rfl := List.map_eq_nil_iff.1 entries.symm
    refine ⟨[t], rfl, ?_⟩
    simp [entry, whole, fresh]
  | cons s terms ih =>
    obtain ⟨k, ks, rfl, here, rest⟩ := List.map_eq_cons_iff.1 entries.symm
    obtain ⟨alone, distinct⟩ := List.nodup_cons.1 distinct
    obtain ⟨first, ordered⟩ := List.forall_mem_cons.1 ordered
    obtain ⟨isSubject, isCoefficient⟩ := Prod.mk.inj here
    have sameKey : s.key = t.key ↔ k = t.subject :=
      isSubject ▸ Term.key_eq_iff first isOrdered
    by_cases same : k = t.subject
    · subst same
      have added : s.coefficient.add t.coefficient = some (.int (f t.subject + c)) := by
        rw [← isCoefficient, whole]
        rfl
      have others : ks.map (fun k => (k, Number.int (f k))) =
          ks.map fun k => (k, .int (f k + if k = t.subject then c else 0)) := by
        refine List.map_congr_left fun k member => ?_
        have differs : k ≠ t.subject := fun same => alone (same ▸ member)
        rw [if_neg differs, Int.add_zero]
      refine ⟨s.withCoefficient (.int (f t.subject + c)) :: terms, ?_, ?_⟩
      · rw [addTerm, if_pos (sameKey.2 rfl), added]
        rfl
      · rw [if_pos List.mem_cons_self, List.map_cons, List.map_cons, ← rest, others, if_pos rfl,
          entry, Term.subject_withCoefficient, Term.coefficient_withCoefficient, isSubject]
    · have absent : t.subject ∉ ks → f t.subject = 0 := fun unknown => fresh fun member =>
        (List.mem_cons.1 member).elim (fun here => same here.symm) unknown
      obtain ⟨sum, added, result⟩ := ih ordered distinct absent rest.symm
      refine ⟨s :: sum, ?_, ?_⟩
      · rw [addTerm, if_neg (mt sameKey.1 same), added]
        rfl
      · have split : (if t.subject ∈ k :: ks then k :: ks else k :: ks ++ [t.subject]) =
            k :: if t.subject ∈ ks then ks else ks ++ [t.subject] := by
          by_cases known : t.subject ∈ ks <;> simp [known, Ne.symm same]
        rw [split, List.map_cons, List.map_cons, result, if_neg same, Int.add_zero, here]

/-- Where a sum stands after some items. -/
structure Tallies (done : List Value) (e : Expression) : Prop where
  constant : e.constant = .int (total done 0)
  entries : e.terms.map entry = (subjects done).map fun k => (k, .int (total done k))
  ordered : ∀ t ∈ e.terms, t.Ordered
  vars : ∀ t ∈ e.terms, ∀ v ∈ t.vars, ∃ item ∈ done, v ∈ item.factors

theorem tallies_empty : Tallies [] {} where
  constant := rfl
  entries := rfl
  ordered := fun _ member => absurd member List.not_mem_nil
  vars := fun _ member => absurd member List.not_mem_nil

variable {registry : Option Registry} {done : List Value} {e : Expression} {item : Value}

theorem Tallies.addNumber (h : Tallies done e) {n : Int} (whole : item.amount? = some n)
    (alone : item.factors = []) :
    Tallies (done ++ [item]) { e with constant := .int (total done 0 + n) } where
  constant := by
    have bare : item.subject = 0 := by rw [Value.subject, alone]; rfl
    rw [total_concat, bare, if_pos rfl, amount, whole, Option.getD_some]
  entries := by
    have bare : item.subject = 0 := by rw [Value.subject, alone]; rfl
    have same : subjects (done ++ [item]) = subjects done := by
      rw [subjects_concat, if_pos (.inl bare)]
    rw [same]
    refine h.entries.trans (List.map_congr_left fun k member => ?_)
    have nonzero : k ≠ item.subject := fun zero =>
      zero_not_mem_subjects done (bare ▸ zero ▸ member)
    rw [total_concat, if_neg nonzero, Int.add_zero]
  ordered := h.ordered
  vars := fun t member v ofTerm =>
    let ⟨first, among, factor⟩ := h.vars t member v ofTerm
    ⟨first, List.mem_append_left _ among, factor⟩

theorem Tallies.addTerm (h : Tallies done e) {t : Term} {c : Int} (whole : t.coefficient = .int c)
    (isOrdered : t.Ordered) (counted : item.amount? = some c) (written : t.vars.Perm item.factors) :
    ∃ terms, Expression.addTerm t e.terms = some terms ∧
      Tallies (done ++ [item]) { e with terms } := by
  have about : item.subject = t.subject := (Multiset.coe_eq_coe.2 (written.map _)).symm
  have amount : item.amount = c := by rw [Value.amount, counted, Option.getD_some]
  have fresh : t.subject ∉ subjects done → total done t.subject = 0 :=
    total_of_absent t.subject_ne_zero
  obtain ⟨terms, added, entries⟩ :=
    addTerm_entries whole isOrdered h.ordered (nodup_subjects done) fresh h.entries
  have origin := (addTerm_eq_some added).2
  refine ⟨terms, added, ?_, ?_, fun u member => ?_, fun u member v ofTerm => ?_⟩
  · have apart : (0 : Multiset String) ≠ item.subject := about ▸ t.subject_ne_zero.symm
    rw [total_concat, if_neg apart, Int.add_zero]
    exact h.constant
  · have grown : subjects (done ++ [item]) =
        if t.subject ∈ subjects done then subjects done else subjects done ++ [t.subject] := by
      rw [subjects_concat, about]
      simp only [t.subject_ne_zero, false_or]
    rw [grown]
    refine entries.trans (List.map_congr_left fun k _ => ?_)
    rw [total_concat, about, amount]
  · rcases origin u member with rfl | ⟨s, among, c, rfl⟩
    · exact isOrdered
    · exact Term.ordered_withCoefficient (h.ordered s among)
  · rcases origin u member with rfl | ⟨s, among, c, rfl⟩
    · exact ⟨item, List.mem_append_right _ List.mem_cons_self, written.subset ofTerm⟩
    · rw [Term.vars_withCoefficient] at ofTerm
      obtain ⟨first, before, factor⟩ := h.vars s among v ofTerm
      exact ⟨first, List.mem_append_left _ before, factor⟩

theorem Tallies.step (h : Tallies done e) {i : Item} (isItem : Item.Reads registry item i)
    (whole : item.amount?.isSome = true) :
    ∃ f, canonicalize.readItem registry e item = .ok f ∧ Tallies (done ++ [item]) f := by
  obtain ⟨n, counted⟩ := Option.isSome_iff_exists.1 whole
  rw [canonicalize.readItem, Item.read_eq_ok.2 isItem]
  rcases isItem.cases with ⟨m, rfl, isNumber, alone⟩ | ⟨t, rfl, isOrdered, isNumber, written⟩
  · obtain rfl : m = .int n := Number.eq_int (isNumber.symm.trans counted)
    have added : e.addItem (.number (.int n)) =
        some { e with constant := .int (total done 0 + n) } := by
      rw [addItem, h.constant]
      rfl
    exact ⟨_, inRange_eq_ok.2 added, h.addNumber counted alone⟩
  · have coefficient : t.coefficient = .int n := Number.eq_int (isNumber.symm.trans counted)
    obtain ⟨terms, found, tallies⟩ := h.addTerm coefficient isOrdered counted written
    have added : e.addItem (.term t) = some { e with terms } := by
      rw [addItem, found]
      rfl
    exact ⟨_, inRange_eq_ok.2 added, tallies⟩

theorem Tallies.run {items : List Value} (h : Tallies done e) (whole : WholeItems registry items) :
    ∃ f, items.foldlM (canonicalize.readItem registry) e = .ok f ∧ Tallies (done ++ items) f := by
  induction items generalizing done e with
  | nil => exact ⟨e, rfl, by rwa [List.append_nil]⟩
  | cons item items ih =>
    obtain ⟨⟨read, counted⟩, rest⟩ := List.forall_mem_cons.1 whole
    obtain ⟨i, isItem⟩ := Item.isOk_read.1 read
    obtain ⟨next, first, tallies⟩ := h.step isItem counted
    obtain ⟨f, later, result⟩ := ih tallies rest
    refine ⟨f, foldlM_cons_eq_ok.2 ⟨next, first, later⟩, ?_⟩
    rwa [List.append_assoc] at result

def coefficientsOf (e : Expression) (k : Multiset String) : List Number :=
  (e.terms.filter (·.subject = k)).map Term.coefficient

theorem coefficientsOf_zero (e : Expression) : e.coefficientsOf 0 = [] := by
  have nothing : e.terms.filter (·.subject = 0) = [] :=
    List.filter_eq_nil_iff.2 fun t _ zero => t.subject_ne_zero (of_decide_eq_true zero)
  rw [coefficientsOf, nothing, List.map_nil]

/-- An expression that is the sum of items with whole numbers: its terms are about the bags of names
whose amounts do not cancel, each once and where it is first met. -/
structure IsTotalOf (items : List Value) (e : Expression) : Prop where
  constant : e.constant = .int (total items 0)
  entries : e.terms.map entry =
    ((subjects items).filter fun k => total items k ≠ 0).map fun k => (k, .int (total items k))
  ordered : ∀ t ∈ e.terms, t.Ordered
  vars : ∀ t ∈ e.terms, ∀ v ∈ t.vars, ∃ item ∈ items, v ∈ item.factors

theorem Tallies.dropZeros (h : Tallies done e) : e.dropZeros.IsTotalOf done where
  constant := h.constant
  entries := by
    have kept : e.dropZeros.terms.map entry = (e.terms.map entry).filter fun p => !p.2.isZero := by
      rw [List.filter_map]
      rfl
    rw [kept, h.entries, List.filter_map]
    congr 1
    refine List.filter_congr fun k _ => ?_
    simp only [Function.comp_apply, Number.isZero_int, decide_not]
  ordered := fun t member => h.ordered t (List.mem_filter.1 member).1
  vars := fun t member => h.vars t (List.mem_filter.1 member).1

theorem exists_isTotalOf {given : Value} {items : List Value} (offered : offered? given = some items)
    (whole : WholeItems registry items) :
    ∃ e, canonicalize registry given = .ok e ∧ e.IsTotalOf items := by
  obtain ⟨sum, added, tallies⟩ := tallies_empty.run whole
  refine ⟨sum.dropZeros, ?_, tallies.dropZeros⟩
  rw [canonicalize_of_offered offered, canonicalize.sum, added]
  rfl

namespace IsTotalOf

variable {items : List Value}

theorem coefficientsOf (h : e.IsTotalOf items) {k : Multiset String} (nonzero : k ≠ 0) :
    e.coefficientsOf k = if total items k = 0 then [] else [.int (total items k)] := by
  have read : e.coefficientsOf k = ((e.terms.map entry).filter (·.1 = k)).map Prod.snd := by
    rw [List.filter_map, List.map_map]
    rfl
  have distinct : ((subjects items).filter fun k => total items k ≠ 0).Nodup :=
    (nodup_subjects items).filter _
  rw [read, h.entries, List.filter_map, List.map_map]
  simp only [Function.comp_def]
  rw [List.filter_eq]
  by_cases cancels : total items k = 0
  · have absent : k ∉ (subjects items).filter fun k => total items k ≠ 0 := fun member =>
      of_decide_eq_true (List.mem_filter.1 member).2 cancels
    rw [List.count_eq_zero.2 absent, if_pos cancels]
    rfl
  · have known : k ∈ subjects items := by_contra fun absent =>
      cancels (total_of_absent nonzero absent)
    have member : k ∈ (subjects items).filter fun k => total items k ≠ 0 :=
      List.mem_filter.2 ⟨known, decide_eq_true cancels⟩
    rw [List.count_eq_one_of_mem distinct member, if_neg cancels]
    rfl

theorem total_eq (h : e.IsTotalOf items) {others : List Value} (g : e.IsTotalOf others)
    (k : Multiset String) : total items k = total others k := by
  by_cases zero : k = 0
  · rw [zero]
    exact Number.int.inj (h.constant.symm.trans g.constant)
  · have same := (h.coefficientsOf zero).symm.trans (g.coefficientsOf zero)
    split at same <;> split at same
    next first second => rw [first, second]
    next => cases same
    next => cases same
    next => exact Number.int.inj (List.cons.inj same).1

theorem exists_int (h : e.IsTotalOf items) {t : Term} (member : t ∈ e.terms) :
    ∃ k, t.coefficient = .int (total items k) ∧ total items k ≠ 0 := by
  have among : entry t ∈ e.terms.map entry := List.mem_map_of_mem member
  rw [h.entries] at among
  obtain ⟨k, kept, same⟩ := List.mem_map.1 among
  exact ⟨k, (Prod.mk.inj same).2.symm, of_decide_eq_true (List.mem_filter.1 kept).2⟩

theorem isCanonical (h : e.IsTotalOf items) : e.IsCanonical where
  distinct := by
    have subjects : e.terms.map Term.subject = (subjects items).filter fun k => total items k ≠ 0 := by
      have first := congrArg (List.map Prod.fst) h.entries
      rw [List.map_map, List.map_map] at first
      exact first.trans (List.map_id _)
    rw [subjects]
    exact (nodup_subjects items).filter _
  nonzero := by
    intro t member
    obtain ⟨k, coefficient, nonzero⟩ := h.exists_int member
    rw [coefficient, Number.isZero_int]
    exact decide_eq_false nonzero
  ordered := h.ordered

end IsTotalOf

end Expression

end LinOpt
