import LinOpt.Proofs.LpText.BoundedFirst
import LinOpt.Proofs.LpText.NotFinite

namespace LinOpt

def Term.writtenCoefficient : Term → Number
  | .linear c _ => c
  | .quadratic c _ _ => LpText.doubled c

/-- A model that is written with finite numbers before its variables and on its right sides. -/
structure Model.CoefficientsFinite (m : Model) : Prop where
  terms : ∀ e ∈ m.expressions, ∀ t ∈ e.terms, t.writtenCoefficient.IsFinite
  rhs : ∀ c ∈ m.constraints, c.rhs.IsFinite

namespace LpText

open Pattern Grammar

variable {m : Model} {x : String} {i : Item}

theorem Broken.not_finite {t : Term} (broken : Broken (.term t)) : ¬t.writtenCoefficient.IsFinite := by
  cases t with
  | linear c v => exact broken.1.1
  | quadratic c v w => exact broken.1.1

theorem Legible.finite {t : Term} (legible : Legible (.term t)) : t.writtenCoefficient.IsFinite := by
  cases t with
  | linear c v => exact legible.1
  | quadratic c v w => exact legible.1.2

theorem mem_writtenItems {e : Expression} {t : Term} (member : t ∈ e.terms) (withConstant : Bool) :
    .term t ∈ writtenItems e withConstant :=
  List.mem_append_right _ (List.mem_map_of_mem member)

theorem term_of_mem {e : Expression} {t : Term} {withConstant : Bool}
    (member : .term t ∈ writtenItems e withConstant) : t ∈ e.terms := by
  rcases List.mem_append.1 member with constant | term
  · split at constant
    · cases List.mem_singleton.1 constant
    · cases constant
  · obtain ⟨s, among, same⟩ := List.mem_map.1 term
    cases same
    exact among

theorem BrokenSum.not_finite {e : Expression} (among : e ∈ m.expressions) {withConstant : Bool}
    (broken : BrokenSum (writtenItems e withConstant)) : ¬m.CoefficientsFinite := by
  obtain ⟨before, i, after, split, -, broken⟩ := broken
  have member : i ∈ writtenItems e withConstant := by
    rw [split]
    exact List.mem_append_right before List.mem_cons_self
  intro finite
  cases i with
  | number n => exact broken
  | term t => exact broken.not_finite (finite.terms e among t (term_of_mem member))

theorem lhs_mem_expressions {c : Constraint} (member : c ∈ m.constraints) :
    c.lhs ∈ m.expressions :=
  List.mem_cons_of_mem _ (List.mem_map_of_mem member)

section cases

variable (shown : ShownModel m) (sound : m.WellFormed)
  (readable : ∀ v ∈ m.registry.vars, Readable v.name)

include sound readable

theorem sum_cases {e : Expression} (among : e ∈ m.expressions) {withConstant : Bool}
    (shown : ∀ i ∈ writtenItems e withConstant, Shown i) :
    (∀ i ∈ writtenItems e withConstant, Legible i) ∨ BrokenSum (writtenItems e withConstant) := by
  apply all_or_first
  intro i member
  apply legible_or_broken (shown i member)
  rintro t rfl v ofTerm
  exact readable v (Registry.mem_of_owns
    ((sound.expressions e among).2 t (term_of_mem member) v ofTerm))

include shown

theorem row_cases {c : Constraint} (member : c ∈ m.constraints) :
    ((∀ i ∈ writtenItems c.lhs false, Legible i) ∧ c.rhs.IsFinite) ∨
      (¬m.CoefficientsFinite ∧ BrokenRow c) := by
  have among := lhs_mem_expressions member
  rcases sum_cases sound readable among (shown.lhs c member) with legible | broken
  · by_cases finite : c.rhs.IsFinite
    · exact .inl ⟨legible, finite⟩
    · exact .inr ⟨fun all => finite (all.rhs c member), .inr ⟨legible, finite, shown.rhs c member⟩⟩
  · exact .inr ⟨broken.not_finite among, .inl broken⟩

theorem legible_or_fails :
    LegibleModel m ∨ (¬m.CoefficientsFinite ∧ document.Fails (layout m)) := by
  have first : m.objective.expression ∈ m.expressions := List.mem_cons_self
  rcases sum_cases sound readable first shown.objective with objective | broken
  · have rows := all_or_first fun (i : Constraint × Nat) (indexed : i ∈ m.constraints.zipIdx) =>
      row_cases shown sound readable (List.fst_mem_of_mem_zipIdx indexed)
    rcases rows with legible | ⟨before, i, after, split, front, infinite, broken⟩
    · have row : ∀ c ∈ m.constraints,
          (∀ i ∈ writtenItems c.lhs false, Legible i) ∧ c.rhs.IsFinite := by
        intro c member
        obtain ⟨index, place⟩ := List.mem_iff_getElem?.1 member
        exact legible (c, index) (List.mk_mem_zipIdx_iff_getElem?.2 place)
      exact .inl ⟨objective, fun c member => (row c member).1, fun c member => (row c member).2,
        readable, shown.bounds⟩
    · exact .inr ⟨infinite,
        document_fails_of_row objective ⟨before, i, after, split, front, broken⟩⟩
  · exact .inr ⟨broken.not_finite first, document_fails_of_objective broken⟩

end cases

theorem LegibleModel.coefficientsFinite (h : LegibleModel m) : m.CoefficientsFinite where
  terms := by
    intro e among t member
    rcases List.mem_cons.1 among with rfl | among
    · exact (h.objective _ (mem_writtenItems member true)).finite
    · obtain ⟨c, row, rfl⟩ := List.mem_map.1 among
      exact (h.lhs c row _ (mem_writtenItems member false)).finite
  rhs := h.rhs

theorem names_decoded (i : Item) : (decoded i).names = (summand i).names ++
    match i with
    | .number n => if n.IsFinite then [] else [word n]
    | .term _ => [] := by
  have signed (s : Summand) (negative : Bool) : (s.signed negative).names = s.names := by
    unfold Summand.signed
    cases s <;> cases negative <;> rfl
  rw [decoded, signed]
  cases i with
  | number n =>
    by_cases finite : n.IsFinite
    · simp [unsigned, finite, summand, Summand.names]
    · simp [unsigned, finite, summand, Summand.names]
  | term t => cases t <;> rfl

theorem mem_names_decoded {items : List Item} :
    x ∈ (items.map decoded).flatMap Summand.names ↔ x ∈ (items.map summand).flatMap Summand.names ∨
      ∃ n, .number n ∈ items ∧ ¬n.IsFinite ∧ x = word n := by
  simp only [List.mem_flatMap, List.mem_map]
  constructor
  · rintro ⟨_, ⟨i, member, rfl⟩, isName⟩
    rw [names_decoded] at isName
    rcases List.mem_append.1 isName with own | added
    · exact .inl ⟨_, ⟨i, member, rfl⟩, own⟩
    · cases i with
      | number n =>
        by_cases finite : n.IsFinite
        · simp [finite] at added
        · exact .inr ⟨n, member, finite, by simpa [finite] using added⟩
      | term t => cases added
  · rintro (⟨_, ⟨i, member, rfl⟩, isName⟩ | ⟨n, member, notFinite, rfl⟩)
    · exact ⟨_, ⟨i, member, rfl⟩, by rw [names_decoded]; exact List.mem_append_left _ isName⟩
    · refine ⟨_, ⟨_, member, rfl⟩, ?_⟩
      rw [names_decoded]
      simp [notFinite]

theorem names_decodedRows (m : Model) :
    ((decodedDocument m).rows.flatMap Row.summands).flatMap Summand.names =
      ((described m).rows.flatMap Row.summands).flatMap Summand.names := by
  have row (e : Expression) : ((writtenItems e false).map decoded).flatMap Summand.names =
      ((writtenItems e false).map summand).flatMap Summand.names := by
    rw [List.flatMap_map, List.flatMap_map]
    apply List.flatMap_congr
    intro i member
    obtain ⟨t, -, rfl⟩ := List.mem_map.1 member
    rw [names_decoded, List.append_nil]
  show ((m.constraints.zipIdx.map decodedRow).flatMap Row.summands).flatMap Summand.names =
    ((m.constraints.zipIdx.map describedRow).flatMap Row.summands).flatMap Summand.names
  rw [List.flatMap_map, List.flatMap_map, List.flatMap_assoc, List.flatMap_assoc]
  apply List.flatMap_congr
  intro i _
  exact row i.1.lhs

theorem constant_mem_writtenItems {e : Expression} {n : Number} :
    .number n ∈ writtenItems e true ↔ n = e.constant ∧ n.isZero = false := by
  constructor
  · intro member
    rcases List.mem_append.1 member with constant | term
    · split at constant
      next nonzero =>
        have same : n = e.constant := by simpa using constant
        rw [same]
        exact ⟨rfl, by simpa using nonzero⟩
      next => cases constant
    · obtain ⟨t, -, same⟩ := List.mem_map.1 term
      cases same
  · rintro ⟨rfl, nonzero⟩
    apply List.mem_append_left
    rw [if_pos (by simp [nonzero])]
    exact List.mem_singleton_self _

theorem isFinite_of_isZero {n : Number} (zero : n.isZero = true) : n.IsFinite := by
  have same := Number.same_trans zero Number.zero_same
  exact Number.IsExact.isFinite ⟨_, rfl, same⟩

theorem mem_mentioned_decoded : x ∈ (decodedDocument m).mentioned ↔ x ∈ (described m).mentioned ∨
    ¬m.objective.expression.constant.IsFinite ∧ x = word m.objective.expression.constant := by
  have added : (∃ n, .number n ∈ writtenItems m.objective.expression true ∧ ¬n.IsFinite ∧
      x = word n) ↔ ¬m.objective.expression.constant.IsFinite ∧
        x = word m.objective.expression.constant := by
    constructor
    · rintro ⟨n, member, notFinite, rfl⟩
      obtain ⟨rfl, -⟩ := constant_mem_writtenItems.1 member
      exact ⟨notFinite, rfl⟩
    · rintro ⟨notFinite, rfl⟩
      refine ⟨_, constant_mem_writtenItems.2 ⟨rfl, ?_⟩, notFinite, rfl⟩
      exact Bool.eq_false_of_not_eq_true fun zero => notFinite (isFinite_of_isZero zero)
  have objective : x ∈ (decodedDocument m).objective.summands.flatMap Summand.names ↔
      x ∈ (described m).objective.summands.flatMap Summand.names ∨
        ¬m.objective.expression.constant.IsFinite ∧ x = word m.objective.expression.constant :=
    mem_names_decoded.trans (or_congr_right added)
  have lists : (decodedDocument m).bounds.map BoundEntry.name ++ (decodedDocument m).binary ++
      (decodedDocument m).general = (described m).bounds.map BoundEntry.name ++
        (described m).binary ++ (described m).general := by
    rw [decodedDocument, described, List.map_map, List.map_map]
    rfl
  have used : x ∈ (decodedDocument m).usedNames ↔ x ∈ (described m).usedNames ∨
      ¬m.objective.expression.constant.IsFinite ∧ x = word m.objective.expression.constant := by
    rw [Document.usedNames, Document.usedNames, List.flatMap_append, List.flatMap_append,
      List.mem_append, List.mem_append, names_decodedRows, objective]
    exact or_right_comm
  have split (d : Document) : x ∈ d.mentioned ↔
      x ∈ d.bounds.map BoundEntry.name ++ d.binary ++ d.general ∨ x ∈ d.usedNames :=
    List.mem_append
  rw [split, split, lists, used, or_assoc]

theorem ownName_described (sound : m.WellFormed) :
    ∀ x ∈ (described m).mentioned, x ∈ m.registry.names := by
  intro x member
  rw [mentioned_described] at member
  obtain ⟨v, mentioned, rfl⟩ := List.mem_map.1 member
  exact List.mem_map_of_mem (mem_of_mentionedVars sound v mentioned)

theorem word_mem_names {n : Number} (notFinite : ¬n.IsFinite) (readable : n.toBinary64? ≠ none)
    (safe : ∀ v ∈ m.registry.vars, isSafeName v.name = true) :
    word n ∈ m.registry.names ↔ n.isNaN = true ∧ "nan" ∈ m.registry.names := by
  rcases cases_of_toBinary64? readable with finite | rfl | ⟨negative, rfl⟩
  · exact absurd finite notFinite
  · simp [word, Number.isNaN, Binary64.isNaN]
  · have infinity : "inf" ∉ m.registry.names := by
      intro member
      obtain ⟨v, own, same⟩ := Registry.mem_names.1 member
      have refused : isSafeName "inf" = false := by decide +kernel
      rw [← same, safe v own] at refused
      cases refused
    simp [word, Number.isNaN, Binary64.isNaN, infinity]

theorem mentioned_decoded_own_iff (shown : ShownModel m) (sound : m.WellFormed) :
    (∀ x ∈ (decodedDocument m).mentioned, x ∈ m.registry.names) ↔
      m.objective.expression.constant.IsFinite ∨
        m.objective.expression.constant.isNaN = true ∧ "nan" ∈ m.registry.names := by
  have own := ownName_described sound
  by_cases finite : m.objective.expression.constant.IsFinite
  · constructor
    · exact fun _ => .inl finite
    · intro _ x member
      rcases mem_mentioned_decoded.1 member with mentioned | ⟨notFinite, -⟩
      · exact own x mentioned
      · exact absurd finite notFinite
  · have nonzero : m.objective.expression.constant.isZero = false :=
      Bool.eq_false_of_not_eq_true fun zero => finite (isFinite_of_isZero zero)
    have isShown := shown.objective _ (constant_mem_writtenItems.2 ⟨rfl, nonzero⟩)
    rw [← word_mem_names finite isShown shown.safe]
    constructor
    · exact fun all => .inr (all _ (mem_mentioned_decoded.2 (.inr ⟨finite, rfl⟩)))
    · intro known x member
      rcases mem_mentioned_decoded.1 member with mentioned | ⟨-, rfl⟩
      · exact own x mentioned
      · exact known.resolve_left finite

/-- The text of a model is read if the numbers before its variables and on its right sides are
finite, and then it has the rows of the model. It has no names but those of the model's variables if
the constant of the objective is finite, or NaN where a variable has the word for NaN as its name. -/
theorem ofText_toLp {m : Model} {text : String} (reachable : m.Reachable)
    (single : ∀ v ∈ m.registry.vars, v.name.map Char.toLower ∉ ["subject", "such"])
    (written : m.toLp = .ok text) :
    ((∃ d, Document.ofText text = .ok d) ↔ m.CoefficientsFinite) ∧
    ∀ d, Document.ofText text = .ok d → d.rows.length = m.constraints.length ∧
      ((∀ x ∈ d.mentioned, x ∈ m.registry.names) ↔
        m.objective.expression.constant.IsFinite ∨
          m.objective.expression.constant.isNaN = true ∧ "nan" ∈ m.registry.names) := by
  have sound := reachable.wellFormed
  have shown := shown_of_toLp written sound
  have readable : ∀ v ∈ m.registry.vars, Readable v.name :=
    fun v member => readable_of_isSafeName (shown.safe v member) (single v member)
  obtain rfl : String.ofList (layout m) = text := by
    rw [toLp_eq shown] at written
    exact Except.ok.inj written
  -- A number that is not finite is written as a word, which only the constant may be.
  rcases legible_or_fails shown sound readable with legible | ⟨infinite, fails⟩
  · have read := ofText_decoded legible
    refine ⟨⟨fun _ => legible.coefficientsFinite, fun _ => ⟨_, read⟩⟩, fun d isRead => ?_⟩
    obtain rfl : decodedDocument m = d := by
      rw [read] at isRead
      exact Except.ok.inj isRead
    constructor
    · show (m.constraints.zipIdx.map decodedRow).length = m.constraints.length
      rw [List.length_map, List.length_zipIdx]
    · exact mentioned_decoded_own_iff shown sound
  · have unread := not_ofText_of_fails fails
    exact ⟨⟨fun read => absurd read unread, fun finite => absurd finite infinite⟩,
      fun d isRead => absurd ⟨d, isRead⟩ unread⟩

namespace Sample

def infiniteOps : List Model.Operation := [
  .addVar { name := .text "x" },
  .setObjective (.list [.var { name := "x", id := ⟨0, 0⟩ }, .number .infinity]) (.text "maximize")]

def infinite : Model :=
  (Model.empty 0).run infiniteOps

def infiniteText : String :=
  "Maximize\nobj: +inf + 1 x\nSubject To\nEnd\n"

theorem toLp_infinite : infinite.toLp = .ok infiniteText := by
  have written : infinite.toLp.toOption = some infiniteText := by decide +kernel
  exact toOption_eq_some.1 written

end Sample

theorem sample_ofText_toLp :
    ((∃ d, Document.ofText Sample.infiniteText = .ok d) ↔ Sample.infinite.CoefficientsFinite) ∧
    ∀ d, Document.ofText Sample.infiniteText = .ok d →
      d.rows.length = Sample.infinite.constraints.length ∧
      ((∀ x ∈ d.mentioned, x ∈ Sample.infinite.registry.names) ↔
        Sample.infinite.objective.expression.constant.IsFinite ∨
          Sample.infinite.objective.expression.constant.isNaN = true ∧
            "nan" ∈ Sample.infinite.registry.names) :=
  ofText_toLp ⟨0, Sample.infiniteOps, rfl⟩ (by decide +kernel) Sample.toLp_infinite

/-- The infinite constant is read as a variable that the model does not have. -/
theorem infinity_is_read_as_name :
    Sample.infinite.Reachable ∧ Sample.infinite.registry.names = ["x"] ∧
    Sample.infinite.toLp = .ok Sample.infiniteText ∧
    ∃ d, Document.ofText Sample.infiniteText = .ok d ∧ d.mentioned = ["inf", "x"] := by
  have read : (Document.ofText Sample.infiniteText).toOption.map Document.mentioned =
      some ["inf", "x"] := by decide +kernel
  obtain ⟨d, isRead, names⟩ := Option.map_eq_some_iff.1 read
  exact ⟨⟨0, Sample.infiniteOps, rfl⟩, by decide +kernel, Sample.toLp_infinite, d,
    toOption_eq_some.1 isRead, names⟩

end LpText

end LinOpt
