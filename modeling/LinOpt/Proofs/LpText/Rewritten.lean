import LinOpt.Proofs.LpText.BoundedFirst

namespace LinOpt

theorem Number.IsExact.of_same {a b : Number} (exact : b.IsExact) (same : a.same b = true) :
    a.IsExact := by
  obtain ⟨x, finite, value⟩ := exact
  exact ⟨x, finite, Number.same_trans same value⟩

namespace LpText

open Registry

variable {m n : Model} {r : Registry}

theorem figure_of_same {a b : Number} (exact : b.IsExact) (same : a.same b = true) :
    Figure.ofNumber a = Figure.ofNumber b :=
  Figure.ofNumber_congr (exact.of_same same) exact same

theorem numeral_of_same {a b : Number} (exact : b.IsExact) (same : a.same b = true) :
    numeral a = numeral b := by
  rw [numeral_of_finite (exact.of_same same).isFinite, numeral_of_finite exact.isFinite,
    figure_of_same exact same]

theorem doubles_reread {c : Number} (exact : c.IsExact) (doubles : Doubles c) :
    Doubles c.reread ∧ numeral (doubled c.reread) = numeral (doubled c) := by
  have readable : (doubled c).toBinary64? ≠ none := by
    rw [doubles.portable.isFinite.toBinary64?]
    exact Option.some_ne_none _
  have notInfinite {d : Number} (finite : d.IsFinite) : d.isInfinite = false := by
    cases d with
    | int k => rfl
    | real x => exact finite.notInfinite
    | ratio q => rfl
  have twice : (doubled c).IsExact := (exact.twice doubles.product readable
    (notInfinite doubles.portable.isFinite)).1
  have product : (2 : Number).mul c.reread = some (doubled c.reread) := by
    rw [doubled, Number.reread, Number.two_mul_real]
    rfl
  have same : (doubled c.reread).same (doubled c) = true :=
    exact.twice_congr exact.reread_same product doubles.product readable
      (notInfinite doubles.portable.isFinite)
  have again : (doubled c.reread).IsExact := twice.of_same same
  have halved := (exact.of_same exact.reread_same).twice product
    (readable_of_isFinite again.isFinite) (notInfinite again.isFinite)
  exact ⟨⟨product, again.isPortable, halved.2⟩, numeral_of_same twice same⟩

theorem term_reread {t : Term} (exact : t.coefficient.IsExact) (writable : Writable (.term t)) :
    Writable (.term (t.among r)) ∧ piece (.term (t.among r)) = piece (.term t) := by
  cases t with
  | linear c v =>
    obtain ⟨-, name⟩ := writable
    have coefficient : c.reread.same c = true := Number.IsExact.reread_same exact
    have written : numeral c.reread = numeral c := numeral_of_same exact coefficient
    constructor
    · refine ⟨(exact.of_same coefficient).isPortable, ?_⟩
      rwa [Variable.name_among]
    · simp only [Term.among, piece, written, Variable.name_among]
  | quadratic c v w =>
    obtain ⟨doubles, first, second⟩ := writable
    obtain ⟨again, written⟩ := doubles_reread (c := c) exact doubles
    constructor
    · refine ⟨again, ?_, ?_⟩ <;> rwa [Variable.name_among]
    · simp only [Term.among, piece, written, Variable.name_among]

theorem item_reread {e : Expression} {withConstant : Bool} (exact : e.IsExact)
    (writable : ∀ i ∈ writtenItems e withConstant, Writable i) :
    ∀ i ∈ writtenItems e withConstant, Writable (i.among r) ∧ piece (i.among r) = piece i := by
  intro i member
  rcases List.mem_append.1 member with constant | term
  · split at constant
    · obtain rfl := List.mem_singleton.1 constant
      have same := exact.constant.reread_same
      constructor
      · exact (exact.constant.of_same same).isPortable
      · exact numeral_of_same exact.constant same
    · cases constant
  · obtain ⟨t, among, rfl⟩ := List.mem_map.1 term
    exact term_reread (exact.coefficients t among) (writable _ member)

theorem writtenItems_reread {e : Expression} (exact : e.IsExact) (withConstant : Bool) :
    writtenItems (reread r e withConstant) withConstant =
      (writtenItems e withConstant).map (Item.among r) := by
  have constant := exact.isPortable.constant.reread_isZero
  unfold writtenItems reread
  rw [List.map_append, List.map_map, List.map_map]
  cases withConstant <;> cases isZero : e.constant.isZero <;>
    simp [isZero, constant, Number.isZero_zero, Item.among, Function.comp_def]

theorem sum_reread {e : Expression} {withConstant : Bool} (exact : e.IsExact)
    (writable : ∀ i ∈ writtenItems e withConstant, Writable i) :
    (∀ i ∈ writtenItems (reread r e withConstant) withConstant, Writable i) ∧
      (writtenItems (reread r e withConstant) withConstant).map piece =
        (writtenItems e withConstant).map piece := by
  rw [writtenItems_reread exact, List.map_map]
  constructor
  · intro i member
    obtain ⟨j, among, rfl⟩ := List.mem_map.1 member
    exact (item_reread exact writable j among).1
  · apply List.map_congr_left
    intro i among
    exact (item_reread exact writable i among).2

theorem objectiveText_reread {e : Expression} (exact : e.IsExact)
    (writable : ∀ i ∈ writtenItems e true, Writable i) :
    objectiveText (reread r e true) = objectiveText e := by
  rw [objectiveText, objectiveText, (sum_reread exact writable).2]

theorem rowText_reread {c : Constraint} (lhs : c.lhs.IsExact) (rhs : c.rhs.IsExact)
    (writable : ∀ i ∈ writtenItems c.lhs false, Writable i) (index : Nat) :
    rowText (rereadRow r c, index) = rowText (c, index) := by
  have sum : (writtenItems (rereadRow r c).lhs false).map piece =
      (writtenItems c.lhs false).map piece := (sum_reread lhs writable).2
  have right : numeral (rereadRow r c).rhs = numeral c.rhs :=
    numeral_of_same rhs (rereadRhs_same rhs)
  simp only [rowText, sum, right]
  rfl

theorem limitText_reread {n : Number} {negative : Bool}
    (limit : n = .real (.infinite negative) ∨ n.IsExact) : limitText n.reread = limitText n := by
  rcases limit with rfl | exact
  · rfl
  · have same := exact.reread_same
    rw [limitText_of_finite (exact.of_same same).isFinite, limitText_of_finite exact.isFinite,
      figure_of_same exact same]

theorem exact_redeclared {v : Variable} (exact : v.IsExact) : (redeclared v).IsExact := by
  unfold redeclared
  split
  · exact ⟨.inr Number.isExact_zero, .inl rfl⟩
  · constructor
    · rcases exact.lower with infinite | finite
      · left
        show Number.real v.lower.double.settled = _
        rw [infinite]
        rfl
      · exact .inr (finite.of_same finite.reread_same)
    · rcases exact.upper with infinite | finite
      · left
        show Number.real v.upper.double.settled = _
        rw [infinite]
        rfl
      · exact .inr (finite.of_same finite.reread_same)

theorem boundText_redeclared {v w : Variable} (exact : v.IsExact)
    (notDefault : v.hasDefaultBounds = false) (same : w.toDeclaration = redeclared v) :
    boundText w = boundText v := by
  have declared : w.toDeclaration = { bounded v with kind := v.kind } := by
    rw [same, redeclared, if_neg (by rw [notDefault]; exact Bool.false_ne_true)]
  have lower : limitText w.lower = limitText v.lower := by
    rw [declared]
    exact limitText_reread exact.lower
  have upper : limitText w.upper = limitText v.upper := by
    rw [declared]
    exact limitText_reread exact.upper
  have name : w.name = v.name := by
    rw [declared]
    rfl
  rw [boundText, boundText, lower, upper, name]

/-- A model that is written so that it is read as the same model. -/
structure Rewritable (m : Model) : Prop where
  sound : m.WellFormed
  exact : m.IsExact
  writable : WritableModel m
  safe : ∀ v ∈ m.registry.vars, isSafeName v.name = true

theorem declarations_ofKind {other : Model} (h : Rewritable m) (rereads : Rereads m n)
    (read : other.readLp (String.ofList (layout m)) = .ok n) {kind : Kind}
    (listed : kind ≠ .continuous) :
    (n.registry.vars.filter (·.kind == kind)).map Variable.toDeclaration =
      (m.boundsFirst.registry.vars.filter (·.kind == kind)).map redeclared := by
  have declared := declarations_filter h.sound rereads read (ofText_layout h.writable)
    (p := (·.kind == kind)) fun v _ => by rw [kind_redeclared]
  rwa [ofKind_mentioned h.sound listed] at declared

theorem rows_reread (h : Rewritable m) (rereads : Rereads m n) :
    n.constraints.zipIdx.flatMap (lineText ∘ rowText) =
      m.constraints.zipIdx.flatMap (lineText ∘ rowText) := by
  rw [rereads.constraints, List.zipIdx_map, List.flatMap_map]
  apply List.flatMap_congr
  intro i indexed
  have member := List.fst_mem_of_mem_zipIdx indexed
  show lineText (rowText (rereadRow n.registry i.1, i.2)) = lineText (rowText i)
  rw [rowText_reread (h.exact.lhs _ member) (h.exact.rhs _ member) (h.writable.lhs _ member)]

theorem boundTexts_reread {other : Model} (h : Rewritable m) (rereads : Rereads m n)
    (read : other.readLp (String.ofList (layout m)) = .ok n) :
    (boundedVars n).map boundText = (boundedVars m).map boundText := by
  have declared := declarations_filter h.sound rereads read (ofText_layout h.writable)
    (p := (!·.hasDefaultBounds)) fun v member => by
      rw [hasDefaultBounds_redeclared (h.exact.bounds v member)]
  rw [bounded_mentioned h.sound] at declared
  let text (d : Declaration) : List Char := boundText { d with id := ⟨0, 0⟩ }
  have texts : (boundedVars n).map boundText =
      ((boundedVars n).map Variable.toDeclaration).map text := by
    rw [List.map_map]
    rfl
  rw [texts, boundedVars, declared, List.map_map]
  apply List.map_congr_left
  intro v member
  obtain ⟨own, bounded⟩ := List.mem_filter.1 member
  exact boundText_redeclared (h.exact.bounds v own) ((Bool.not_eq_true' _).mp bounded) rfl

theorem namesOfKind_reread {other : Model} (h : Rewritable m) (rereads : Rereads m n)
    (read : other.readLp (String.ofList (layout m)) = .ok n) {kind : Kind}
    (listed : kind ≠ .continuous) : namesOfKind n kind = namesOfKind m.boundsFirst kind := by
  have names := congrArg (List.map Declaration.name) (declarations_ofKind h rereads read listed)
  rw [List.map_map, List.map_map] at names
  apply names.trans
  apply List.map_congr_left
  intro v _
  exact name_redeclared v

theorem layout_reread {other : Model} (h : Rewritable m) (rereads : Rereads m n)
    (read : other.readLp (String.ofList (layout m)) = .ok n) :
    layout n = layout m.boundsFirst := by
  have heading : heading n = heading m.boundsFirst := by
    rw [LpText.heading, Objective.isMaximize, rereads.sense]
    rfl
  have objective : objectiveText n.objective.expression =
      objectiveText m.boundsFirst.objective.expression := by
    rw [rereads.objective]
    exact objectiveText_reread h.exact.objective h.writable.objective
  have rows : n.constraints.zipIdx.flatMap (lineText ∘ rowText) =
      m.boundsFirst.constraints.zipIdx.flatMap (lineText ∘ rowText) := by
    rw [rows_reread h rereads]
    rfl
  have bounds : (boundedVars n).map boundText = (boundedVars m.boundsFirst).map boundText := by
    rw [boundedVars_boundsFirst]
    exact boundTexts_reread h rereads read
  have ofKind {kind : Kind} (listed : kind ≠ .continuous) :
      namesOfKind n kind = namesOfKind m.boundsFirst kind :=
    namesOfKind_reread h rereads read listed
  rw [layout, layout, heading, objective, rows, sectionsText, sectionsText, bounds,
    ofKind (by decide), ofKind (by decide)]

theorem reread_isExact {e : Expression} (exact : e.IsExact) (withConstant : Bool) :
    (reread r e withConstant).IsExact where
  constant := by
    unfold reread
    split
    · exact exact.constant.of_same exact.constant.reread_same
    · exact Number.isExact_zero
  coefficients := by
    intro t member
    obtain ⟨s, isTerm, rfl⟩ := List.mem_map.1 member
    have coefficient := exact.coefficients s isTerm
    rw [Term.coefficient_among]
    exact coefficient.of_same coefficient.reread_same

namespace Rereads

variable (rereads : Rereads m n)

include rereads

theorem ofRows {P : Constraint → Prop} (rows : ∀ c ∈ m.constraints, P (rereadRow n.registry c)) :
    ∀ c ∈ n.constraints, P c := by
  rw [rereads.constraints]
  exact List.forall_mem_map.2 rows

theorem ofVars {P : Declaration → Prop} (names : n.registry.names.Nodup)
    (own : ∀ v ∈ m.registry.vars, P (redeclared v)) : ∀ w ∈ n.registry.vars, P w.toDeclaration := by
  intro w member
  obtain ⟨v, among, -, same⟩ := rereads.declared names member
  rw [same]
  exact own v among

theorem ofNames {P : String → Prop} (names : n.registry.names.Nodup)
    (own : ∀ v ∈ m.registry.vars, P v.name) : ∀ w ∈ n.registry.vars, P w.name := by
  apply rereads.ofVars (P := fun d => P d.name) names
  intro v member
  rw [name_redeclared]
  exact own v member

theorem isExact (names : n.registry.names.Nodup) (exact : m.IsExact) : n.IsExact where
  objective := by
    rw [rereads.objective]
    exact reread_isExact exact.objective true
  lhs := rereads.ofRows fun c member => reread_isExact (exact.lhs c member) false
  rhs := rereads.ofRows fun c member =>
    (exact.rhs c member).of_same (rereadRhs_same (exact.rhs c member))
  bounds := rereads.ofVars names fun v member => exact_redeclared (exact.bounds v member)

theorem writable (names : n.registry.names.Nodup) (declared : ∀ v ∈ n.registry.vars, v.WellFormed)
    (exact : m.IsExact) (writable : WritableModel m) : WritableModel n where
  objective := by
    rw [rereads.objective]
    exact (sum_reread exact.objective writable.objective).1
  lhs := rereads.ofRows fun c member =>
    (sum_reread (exact.lhs c member) (writable.lhs c member)).1
  rhs := fun c member => ((rereads.isExact names exact).rhs c member).isPortable
  names := rereads.ofNames names writable.names
  bounds := declared
  limits := fun v member => ((rereads.isExact names exact).bounds v member).isPortable

end Rereads

theorem Rewritable.reread {other : Model} (h : Rewritable m) (rereads : Rereads m n)
    (read : other.readLp (String.ofList (layout m)) = .ok n) : Rewritable n := by
  have sound := (Model.readLp_wellFormed read).1
  have names := sound.registry.nodup
  exact ⟨sound, rereads.isExact names h.exact,
    rereads.writable names sound.registry.declared h.exact h.writable,
    rereads.ofNames (P := (isSafeName · = true)) names h.safe⟩

theorem listsBoundedFirst_reread {other : Model} (h : Rewritable m) (rereads : Rereads m n)
    (read : other.readLp (String.ofList (layout m)) = .ok n) : n.ListsBoundedFirst := by
  have default : ∀ v ∈ m.registry.vars, (redeclared v).hasDefaultBounds = v.hasDefaultBounds :=
    fun v member => hasDefaultBounds_redeclared (h.exact.bounds v member)
  intro kind member
  have listed : kind ≠ .continuous := by
    rintro rfl
    simp at member
  have declared : ((n.registry.vars.filter (·.kind == kind)).map Variable.toDeclaration).Pairwise
      fun d e => d.hasDefaultBounds = true → e.hasDefaultBounds = true := by
    rw [declarations_ofKind h rereads read listed, filter_boundsFirst, List.pairwise_map]
    apply pairwise_append (p := fun v => (redeclared v).hasDefaultBounds)
    · intro v front
      obtain ⟨ofKind, bounded⟩ := List.mem_filter.1 front
      rw [default v (List.mem_of_mem_filter ofKind)]
      exact (Bool.not_eq_true' _).mp bounded
    · intro v back
      obtain ⟨ofKind, isDefault⟩ := List.mem_filter.1 back
      rwa [default v (List.mem_of_mem_filter ofKind)]
  exact List.pairwise_map.1 declared

theorem writable_boundsFirst (writable : WritableModel m) : WritableModel m.boundsFirst where
  objective := writable.objective
  lhs := writable.lhs
  rhs := writable.rhs
  names := fun v member => writable.names v (mem_boundsFirst.1 member)
  bounds := fun v member => writable.bounds v (mem_boundsFirst.1 member)
  limits := fun v member => writable.limits v (mem_boundsFirst.1 member)

theorem Rewritable.toLp (h : Rewritable m) : m.toLp = .ok (String.ofList (layout m)) :=
  toLp_eq (h.writable.legible.shown h.safe)

theorem Rewritable.toLp_boundsFirst (h : Rewritable m) :
    m.boundsFirst.toLp = .ok (String.ofList (layout m.boundsFirst)) :=
  toLp_eq ((writable_boundsFirst h.writable).legible.shown
    fun v member => h.safe v (mem_boundsFirst.1 member))

theorem layout_boundsFirst_iff (h : Rewritable m) :
    layout m.boundsFirst = layout m ↔ m.ListsBoundedFirst := by
  constructor
  · intro same kind member
    -- The lists are found in the documents that the texts are read as.
    have documents := ofText_layout (writable_boundsFirst h.writable)
    rw [same, ofText_layout h.writable, Except.ok.injEq] at documents
    have lists : namesOfKind m.boundsFirst kind = namesOfKind m kind := by
      rcases List.mem_pair.1 member with rfl | rfl
      · exact congrArg Document.general documents.symm
      · exact congrArg Document.binary documents.symm
    rw [← partition_eq_iff (fun v : Variable => v.hasDefaultBounds), ← filter_boundsFirst]
    apply eq_of_map_eq _ lists
    intro v first w second names
    exact h.sound.registry.eq_of_name (mem_boundsFirst.1 (List.mem_of_mem_filter first))
      (List.mem_of_mem_filter second) names
  · intro ordered
    have lists : ∀ kind ∈ [Kind.integer, Kind.binary],
        namesOfKind m.boundsFirst kind = namesOfKind m kind := by
      intro kind member
      rw [namesOfKind, filter_boundsFirst, (partition_eq_iff _ _).2 (ordered kind member)]
      rfl
    have sections : sectionsText m.boundsFirst = sectionsText m := by
      rw [sectionsText, boundedVars_boundsFirst, lists .integer (by simp), lists .binary (by simp)]
      rfl
    rw [layout, sections]
    rfl

theorem Rewritable.readLp (h : Rewritable m) (other : Model) :
    ∃ n, other.readLp (String.ofList (layout m)) = .ok n ∧ Rewritable n ∧
      layout n = layout m.boundsFirst ∧ n.ListsBoundedFirst := by
  obtain ⟨n, resolved, rereads⟩ :=
    resolve_described h.sound h.exact.isPortable other.registry.declared?_clear
  have read : other.readLp (String.ofList (layout m)) = .ok n :=
    bind_eq_ok.2 ⟨_, ofText_layout h.writable, resolved⟩
  exact ⟨n, read, h.reread rereads read, layout_reread h rereads read,
    listsBoundedFirst_reread h rereads read⟩

/-- A model that is written, read and written again is written with the variables that have bounds
of their own before the others. So the text is the same if and only if they come first in each list
of names, and what has been written again stays as it is. -/
theorem toLp_reread {m : Model} {text : String} (reachable : m.Reachable) (exact : m.IsExact)
    (finite : m.DoublesFinite)
    (single : ∀ v ∈ m.registry.vars, v.name.map Char.toLower ∉ ["subject", "such"])
    (written : m.toLp = .ok text) (other : Model) :
    ∃ n again, other.readLp text = .ok n ∧ n.toLp = .ok again ∧
      m.boundsFirst.toLp = .ok again ∧ (again = text ↔ m.ListsBoundedFirst) ∧
        ∀ another : Model, ∃ n', another.readLp again = .ok n' ∧ n'.toLp = .ok again := by
  have sound := reachable.wellFormed
  obtain ⟨writable, safe⟩ := writable_of_toLp written sound exact single
    fun e member c v w among d product => finite e member _ among rfl d product
  have h : Rewritable m := ⟨sound, exact, writable, safe⟩
  obtain rfl : String.ofList (layout m) = text := by
    rw [h.toLp] at written
    exact Except.ok.inj written
  -- After one round the variables with bounds come first, and so they stay.
  obtain ⟨n, read, again, texts, ordered⟩ := h.readLp other
  refine ⟨n, _, read, again.toLp, ?_, ?_, fun another => ?_⟩
  · rw [texts]
    exact h.toLp_boundsFirst
  · rw [texts, ← layout_boundsFirst_iff h]
    constructor
    · exact String.ofList_injective
    · exact congrArg String.ofList
  · obtain ⟨n', read', third, same, -⟩ := again.readLp another
    have fixed : layout n' = layout n := same.trans ((layout_boundsFirst_iff again).2 ordered)
    refine ⟨n', read', ?_⟩
    rw [← fixed]
    exact third.toLp

namespace Sample

def listedOps : List Model.Operation := [
  .addVar { name := .text "a", kind := .text "INTEGER" },
  .addVar { name := .text "b", upper := (5 : Number), kind := .text "INTEGER" }]

def listed : Model :=
  (Model.empty 0).run listedOps

def listText (first second : String) : String :=
  "Maximize\nobj:\nSubject To\nBounds\n 0 <= b <= 5\nGeneral\n " ++ first ++ "\n " ++ second
    ++ "\nEnd\n"

theorem toLp_listed : listed.toLp = .ok (listText "a" "b") := by
  have written : listed.toLp.toOption = some (listText "a" "b") := by decide +kernel
  exact toOption_eq_some.1 written

end Sample

theorem sample_toLp_reread :
    ∃ n again, (Model.empty 1).readLp (Sample.listText "a" "b") = .ok n ∧ n.toLp = .ok again ∧
      Sample.listed.boundsFirst.toLp = .ok again ∧
        (again = Sample.listText "a" "b" ↔ Sample.listed.ListsBoundedFirst) ∧
          ∀ another : Model, ∃ n', another.readLp again = .ok n' ∧ n'.toLp = .ok again :=
  toLp_reread ⟨0, Sample.listedOps, rfl⟩ (by decide +kernel) (by decide +kernel) (by decide +kernel)
    Sample.toLp_listed (Model.empty 1)

/-- The variable with an upper bound is declared first when the text is read. -/
theorem list_changes :
    Sample.listed.Reachable ∧ Sample.listed.IsExact ∧ Sample.listed.DoublesFinite ∧
    (∀ v ∈ Sample.listed.registry.vars, v.name.map Char.toLower ∉ ["subject", "such"]) ∧
    Sample.listed.toLp = .ok (Sample.listText "a" "b") ∧
    ((Model.empty 1).readLp (Sample.listText "a" "b") >>= Model.toLp) =
      .ok (Sample.listText "b" "a") ∧ Sample.listText "b" "a" ≠ Sample.listText "a" "b" := by
  have again : ((Model.empty 1).readLp (Sample.listText "a" "b") >>= Model.toLp).toOption =
      some (Sample.listText "b" "a") := by decide +kernel
  refine ⟨⟨0, Sample.listedOps, rfl⟩, by decide +kernel, by decide +kernel, by decide +kernel,
    Sample.toLp_listed, toOption_eq_some.1 again, by decide +kernel⟩

end LpText

end LinOpt
