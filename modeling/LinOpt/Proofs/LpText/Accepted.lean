import LinOpt.Proofs.LpText.LastSet
import LinOpt.Proofs.LpText.Resolved

namespace LinOpt

namespace Number

/-- A double, or the whole number zero: a sum of such numbers is always in range. -/
def IsAddable (n : Number) : Prop :=
  n = 0 ∨ ∃ x, n = .real x

variable {a b : Number}

theorem isAddable_real (x : Binary64) : (Number.real x).IsAddable :=
  .inr ⟨x, rfl⟩

theorem IsAddable.neg (h : a.IsAddable) : a.neg.IsAddable := by
  rcases h with rfl | ⟨x, rfl⟩
  · exact .inl rfl
  · exact isAddable_real x.neg

theorem IsAddable.settled (h : a.IsAddable) : a.settled.IsAddable := by
  rcases h with rfl | ⟨x, rfl⟩
  · exact .inl rfl
  · exact isAddable_real x.settled

theorem IsAddable.add (h : a.IsAddable) (g : b.IsAddable) :
    ∃ c, a.add b = some c ∧ c.IsAddable := by
  rcases h with rfl | ⟨x, rfl⟩
  · exact ⟨b.settled, zero_add b, g.settled⟩
  · rcases g with rfl | ⟨y, rfl⟩
    · exact ⟨_, add_zero (.real x), isAddable_real x.settled⟩
    · exact ⟨.real (x.add y), rfl, isAddable_real _⟩

end Number

def Item.IsAddable : Item → Prop
  | .number n => n.IsAddable
  | .term t => t.coefficient.IsAddable

structure Expression.IsAddable (e : Expression) : Prop where
  constant : e.constant.IsAddable
  terms : ∀ t ∈ e.terms, t.coefficient.IsAddable

namespace Expression

theorem exists_addTerm {t : Term} {terms : List Term} (addable : t.coefficient.IsAddable)
    (all : ∀ s ∈ terms, s.coefficient.IsAddable) :
    ∃ sum, addTerm t terms = some sum ∧ ∀ s ∈ sum, s.coefficient.IsAddable := by
  induction terms with
  | nil => exact ⟨[t], rfl, by simpa using addable⟩
  | cons s terms ih =>
    obtain ⟨first, others⟩ := List.forall_mem_cons.1 all
    by_cases same : s.key = t.key
    · obtain ⟨c, total, isAddable⟩ := first.add addable
      refine ⟨s.withCoefficient c :: terms, ?_, List.forall_mem_cons.2 ⟨?_, others⟩⟩
      · rw [addTerm, if_pos same, total]
        rfl
      · rwa [Term.coefficient_withCoefficient]
    · obtain ⟨sum, added, sumAddable⟩ := ih others
      refine ⟨s :: sum, ?_, List.forall_mem_cons.2 ⟨first, sumAddable⟩⟩
      rw [addTerm, if_neg same, added]
      rfl

theorem IsAddable.exists_addItem {e : Expression} (h : e.IsAddable) {i : Item}
    (addable : i.IsAddable) : ∃ f, e.addItem i = some f ∧ f.IsAddable := by
  cases i with
  | number n =>
    obtain ⟨c, total, isAddable⟩ := h.constant.add addable
    refine ⟨{ e with constant := c }, ?_, ⟨isAddable, h.terms⟩⟩
    rw [addItem, total]
    rfl
  | term t =>
    obtain ⟨sum, added, sumAddable⟩ := exists_addTerm addable h.terms
    refine ⟨{ e with terms := sum }, ?_, ⟨h.constant, sumAddable⟩⟩
    rw [addItem, added]
    rfl

theorem IsAddable.exists_addItems {e : Expression} (h : e.IsAddable) {items : List Item}
    (addable : ∀ i ∈ items, i.IsAddable) :
    ∃ f, items.foldlM addItem e = some f ∧ f.IsAddable := by
  induction items generalizing e with
  | nil => exact ⟨e, rfl, h⟩
  | cons i items ih =>
    obtain ⟨first, others⟩ := List.forall_mem_cons.1 addable
    obtain ⟨f, added, isAddable⟩ := h.exists_addItem first
    rw [List.foldlM_cons, added]
    exact ih isAddable others

theorem exists_ofItems {items : List Item} (addable : ∀ i ∈ items, i.IsAddable) :
    ∃ e, ofItems items = some e ∧ e.IsAddable := by
  have empty : IsAddable {} := ⟨.inl rfl, fun _ member => absurd member List.not_mem_nil⟩
  obtain ⟨e, added, isAddable⟩ := empty.exists_addItems addable
  refine ⟨e.dropZeros, by rw [ofItems, added]; rfl, isAddable.constant, fun t member => ?_⟩
  exact isAddable.terms t (List.mem_of_mem_filter member)

theorem IsAddable.items {e : Expression} (h : e.IsAddable) : ∀ i ∈ e.items, i.IsAddable :=
  List.forall_mem_cons.2 ⟨h.constant, List.forall_mem_map.2 h.terms⟩

theorem IsAddable.negated {e : Expression} (h : e.IsAddable) : ∀ i ∈ e.negated, i.IsAddable := by
  refine List.forall_mem_cons.2 ⟨h.constant.neg, List.forall_mem_map.2 fun t member => ?_⟩
  rw [Item.IsAddable, Term.neg, Term.coefficient_withCoefficient]
  exact (h.terms t member).neg

end Expression

structure Constraint.IsAddable (c : Constraint) : Prop where
  lhs : c.lhs.IsAddable
  rhs : c.rhs.IsAddable

theorem Constraint.exists_ofSides {left right : Expression} (h : left.IsAddable)
    (g : right.IsAddable) (comparison : Comparison) :
    ∃ c, ofSides left comparison right = some c ∧ c.IsAddable := by
  obtain ⟨whole, sum, addable⟩ :=
    Expression.exists_ofItems (List.forall_mem_append.2 ⟨h.items, g.negated⟩)
  refine ⟨_, by rw [ofSides, sum]; rfl, ⟨.inl rfl, addable.terms⟩, ?_⟩
  dsimp only
  split
  · exact .inl rfl
  · exact addable.constant.neg

structure Model.IsAddable (m : Model) : Prop where
  objective : m.objective.expression.IsAddable
  constraints : ∀ c ∈ m.constraints, c.IsAddable

namespace LpText

open Registry

variable {r : Registry} {d : Document} {text : String}

theorem exists_find {x : String} (known : r.contains x = true) :
    ∃ v, Summand.resolve.find r x = .ok v := by
  obtain ⟨v, member, name⟩ := mem_names.1 (contains_iff.1 known)
  rw [← name] at known ⊢
  exact ⟨_, find_among known⟩

theorem exists_resolve {s : Summand} (known : ∀ x ∈ s.names, r.contains x = true) :
    ∃ i, s.resolve r = .ok i ∧ i.IsAddable := by
  cases s with
  | constant c => exact ⟨_, rfl, Number.isAddable_real c⟩
  | linear c x =>
    obtain ⟨v, found⟩ := exists_find (known x List.mem_cons_self)
    refine ⟨.term (.linear (.real c) v), ?_, Number.isAddable_real c⟩
    rw [Summand.resolve, found]
    rfl
  | quadratic c x y =>
    obtain ⟨v, first⟩ := exists_find (known x List.mem_cons_self)
    obtain ⟨w, second⟩ := exists_find (known y (List.mem_cons_of_mem x List.mem_cons_self))
    refine ⟨.term (.product (.real c) v w), ?_, ?_⟩
    · rw [Summand.resolve, first, second]
      rfl
    · rw [Item.IsAddable, Term.product]
      split <;> exact Number.isAddable_real c

theorem exists_resolveSum {summands : List Summand}
    (known : ∀ s ∈ summands, ∀ x ∈ s.names, r.contains x = true) :
    ∃ e, resolveSum r summands = .ok e ∧ e.IsAddable := by
  obtain ⟨items, resolved, addable⟩ :=
    exists_mapM_eq_ok fun s member => exists_resolve (known s member)
  obtain ⟨e, sum, isAddable⟩ := Expression.exists_ofItems addable
  refine ⟨e, ?_, isAddable⟩
  rw [resolveSum, resolved, ok_bind, sum]
  rfl

theorem exists_row_resolve {row : Row}
    (known : ∀ s ∈ row.summands, ∀ x ∈ s.names, r.contains x = true) :
    ∃ c, row.resolve r = .ok c ∧ c.IsAddable := by
  obtain ⟨left, isLeft, addable⟩ := exists_resolveSum known
  have constant : ∀ s ∈ [Summand.constant row.rhs], ∀ x ∈ s.names, r.contains x = true := by
    simp [Summand.names]
  obtain ⟨right, isRight, rightAddable⟩ := exists_resolveSum constant
  obtain ⟨c, sides, isAddable⟩ := Constraint.exists_ofSides addable rightAddable row.comparison
  have resolved : row.resolve r = .ok c := by
    rw [Row.resolve, isLeft, ok_bind, isRight, ok_bind, sides]
    rfl
  exact ⟨c, resolved, isAddable⟩

namespace Document

theorem Sound.usedNames {P : String → Prop} (h : d.Sound P) : ∀ x ∈ d.usedNames, P x := by
  intro x used
  obtain ⟨s, member, isName⟩ := List.mem_flatMap.1 used
  rcases List.mem_append.1 member with member | member
  · exact h.objective s member x isName
  · obtain ⟨row, among, member⟩ := List.mem_flatMap.1 member
    exact h.rows row among s member x isName

theorem declare_cases (h : d.Sound (· ≠ "")) (empty : ∀ x, r.declared? x = none) :
    (d.MisplacesInfinity ∧ ∃ fault, d.declare r = .error (.invalidVariable fault)) ∨
      (¬d.MisplacesInfinity ∧
        ∃ s, d.declare r = .ok s ∧ ∀ x ∈ d.usedNames, s.contains x = true) := by
  rw [misplacesInfinity_iff]
  rcases declareBounds_cases (r := r) (mergeBounds_sound h.bounds)
    (merges_mergeBounds d.bounds).distinct fun entry _ => empty entry.name with
    ⟨misplaced, fault, failed⟩ | ⟨placed, s, bounds⟩
  · exact .inl ⟨misplaced, fault, bind_eq_error.2 (.inl failed)⟩
  -- Kinds and further names never fail, whatever is in the registry already.
  obtain ⟨t, binary, -⟩ := declareAll
    (fun x member => declareKind_declares (h.binary x member) .binary) (fun _ _ => rfl) s
  obtain ⟨u, general, -⟩ := declareAll
    (fun x member => declareKind_declares (h.general x member) .integer) (fun _ _ => rfl) t
  obtain ⟨v, used, final⟩ := declareAll
    (fun x member => declareName_declares (h.usedNames x member)) (fun _ _ => rfl) u
  refine .inr ⟨placed, v, ?_, fun x member => ?_⟩
  · rw [declare, bounds, ok_bind, binary, ok_bind, general, ok_bind, used]
  · rw [contains_eq_isSome, final, if_pos member]
    rfl

theorem resolve_cases (h : d.Sound (· ≠ "")) (empty : ∀ x, r.declared? x = none) :
    (d.MisplacesInfinity ∧ ∃ fault, d.resolve r = .error (.invalidVariable fault)) ∨
      (¬d.MisplacesInfinity ∧ ∃ m, d.resolve r = .ok m ∧ m.IsAddable) := by
  rcases declare_cases h empty with ⟨misplaced, fault, failed⟩ | ⟨placed, s, declared, known⟩
  · exact .inl ⟨misplaced, fault, bind_eq_error.2 (.inl failed)⟩
  have objective : ∀ t ∈ d.objective.summands, ∀ x ∈ t.names, s.contains x = true :=
    fun t member x isName =>
      known x (List.mem_flatMap.2 ⟨t, List.mem_append_left _ member, isName⟩)
  have rows : ∀ row ∈ d.rows, ∀ t ∈ row.summands, ∀ x ∈ t.names, s.contains x = true :=
    fun row among t member x isName => known x (List.mem_flatMap.2 ⟨t,
      List.mem_append_right _ (List.mem_flatMap.2 ⟨row, among, member⟩), isName⟩)
  obtain ⟨e, isObjective, addable⟩ := exists_resolveSum objective
  obtain ⟨constraints, isRows, allAddable⟩ :=
    exists_mapM_eq_ok fun row among => exists_row_resolve (rows row among)
  have resolved : d.resolve r = .ok {
      registry := s
      constraints
      objective := { expression := e, sense := d.objective.sense } } := by
    rw [resolve, declared, ok_bind, isObjective, ok_bind, isRows]
    rfl
  exact .inr ⟨placed, _, resolved, ⟨addable, allAddable⟩⟩

/-- The text follows the grammar from its first to its last character, and this is what it says. -/
def Describes (text : String) (d : Document) : Prop :=
  Grammar.document.Reads text.toList d []

instance (text : String) (d : Document) : Decidable (Describes text d) :=
  inferInstanceAs (Decidable (Grammar.document.run text.toList = some (d, [])))

theorem Describes.iff (h : Describes text d) {d' : Document} : Describes text d' ↔ d' = d := by
  refine ⟨fun g => ?_, fun same => same ▸ h⟩
  exact congrArg Prod.fst (Option.some.inj (g.symm.trans h))

theorem read_cases (text : String) :
    (∃ d, Describes text d ∧ read text = .ok d) ∨
      ((¬∃ d, Describes text d) ∧ ∃ mismatch, read text = .error mismatch) := by
  unfold read Pattern.read Describes Pattern.Reads
  dsimp only
  cases Grammar.document.run text.toList with
  | none => exact .inr ⟨fun ⟨_, reads⟩ => (nomatch reads), ⟨text, _⟩, rfl⟩
  | some found =>
    obtain ⟨d, rest⟩ := found
    cases rest with
    | nil => exact .inl ⟨d, rfl, rfl⟩
    | cons c rest => exact .inr ⟨fun ⟨_, reads⟩ => (nomatch reads), ⟨text, _⟩, rfl⟩

end Document

end LpText

namespace Model

open LpText Document

variable {m : Model} {text : String}

theorem readLp_cases (known : hasNewDigit text = false) :
    ((¬∃ d, Describes text d) ∧ ∃ mismatch, m.readLp text = .error (.malformedText mismatch)) ∨
    ∃ d, Describes text d ∧
      ((d.MisplacesInfinity ∧ ∃ fault, m.readLp text = .error (.invalidVariable fault)) ∨
        (¬d.MisplacesInfinity ∧ ∃ n, m.readLp text = .ok n)) := by
  rcases read_cases text with ⟨d, describes, read⟩ | ⟨none, mismatch, failed⟩
  · have given : ofText text = .ok d := by
      rw [ofText, read, known]
      rfl
    have resolved : m.readLp text = d.resolve m.registry.clear := by
      rw [readLp, given]
      rfl
    have sound := (Grammar.document_yields Grammar.variableName_nonempty _ _ _
      (List.suffix_refl _) describes).1
    rw [resolved]
    exact .inr ⟨d, describes, (resolve_cases sound (Registry.declared?_clear m.registry)).imp_right
      (And.imp_right (Exists.imp fun _ => And.left))⟩
  · refine .inl ⟨none, mismatch, ?_⟩
    rw [readLp, ofText, failed]
    rfl

/-- A text is malformed if it does not follow the grammar. One that does is refused if it leaves an
infinity on the wrong side of a variable's bounds, and read otherwise: there is no third reason to
refuse a text. -/
theorem readLp_outcome (m : Model) (text : String) (known : hasNewDigit text = false) :
    ((∃ mismatch, m.readLp text = .error (.malformedText mismatch)) ↔ ¬∃ d, Describes text d) ∧
    ((∃ fault, m.readLp text = .error (.invalidVariable fault)) ↔
      ∃ d, Describes text d ∧ d.MisplacesInfinity) ∧
    ((∃ n, m.readLp text = .ok n) ↔ ∃ d, Describes text d ∧ ¬d.MisplacesInfinity) ∧
    ∀ e, m.readLp text = .error e →
      (∃ mismatch, e = .malformedText mismatch) ∨ ∃ fault, e = .invalidVariable fault := by
  rcases readLp_cases (m := m) known with
    ⟨none, mismatch, failed⟩ | ⟨d, describes, ⟨misplaced, fault, failed⟩ | ⟨placed, n, ok⟩⟩
  · simp [failed, not_exists.1 none]
  · simp [failed, describes.iff, misplaced]
  · simp [ok, describes.iff, placed]

def Sample.bounded (first later : String) : String :=
  "max x\nst\n x <= 3\nbounds\n x <= " ++ first ++ "\n x <= " ++ later ++ "\nend"

def Sample.boundedDocument (first later : Binary64) : Document where
  objective := { sense := .maximize, label := none, summands := [.linear (Binary64.ofInt 1) "x"] }
  rows := [{
    label := none, summands := [.linear (Binary64.ofInt 1) "x"], comparison := .le
    rhs := Binary64.ofInt 3 }]
  bounds := [{ name := "x", upper := some first }, { name := "x", upper := some later }]

theorem sample_readLp_outcome :
    hasNewDigit (Sample.bounded "4" "-1e400") = false ∧
    hasNewDigit (Sample.bounded "-1e400" "4") = false ∧
    (∃ fault, (empty 0).readLp (Sample.bounded "4" "-1e400") = .error (.invalidVariable fault)) ∧
    ∃ n, (empty 0).readLp (Sample.bounded "-1e400" "4") = .ok n := by
  have known : hasNewDigit (Sample.bounded "4" "-1e400") = false := by decide +kernel
  have known' : hasNewDigit (Sample.bounded "-1e400" "4") = false := by decide +kernel
  have refused : Describes (Sample.bounded "4" "-1e400")
      (Sample.boundedDocument (Binary64.ofInt 4) (.infinite true)) := by
    decide +kernel
  have accepted : Describes (Sample.bounded "-1e400" "4")
      (Sample.boundedDocument (.infinite true) (Binary64.ofInt 4)) := by
    decide +kernel
  refine ⟨known, known', ?_, ?_⟩
  · exact (readLp_outcome (empty 0) _ known).2.1.2 ⟨_, refused, by decide +kernel⟩
  · exact (readLp_outcome (empty 0) _ known').2.2.1.2 ⟨_, accepted, by decide +kernel⟩

end Model

end LinOpt
