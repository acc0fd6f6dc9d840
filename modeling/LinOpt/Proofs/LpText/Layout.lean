import LinOpt.Proofs.LpText.Sum
import LinOpt.Proofs.Model.Exact

namespace LinOpt.LpText

def objectiveText (e : Expression) : List Char :=
  let sum := sumText ((writtenItems e true).map piece)
  "obj:".toList ++ if sum.isEmpty then [] else ' ' :: sum

def rowText (indexed : Constraint × Nat) : List Char :=
  let (c, index) := indexed
  let sum := sumText ((writtenItems c.lhs false).map piece)
  ("c" ++ toString (index + 1)).toList ++ ':' :: ' ' :: ((if sum.isEmpty then [] else sum ++ [' '])
    ++ (c.comparison.text.toList ++ ' ' :: (numeral c.rhs).first))

def limitText : Number → List Char
  | .real (.infinite negative) => (if negative then '-' else '+') :: "inf".toList
  | n => (Figure.ofNumber n).text

def boundText (v : Variable) : List Char :=
  limitText v.lower ++ (" <= ".toList ++ (v.name.toList ++ (" <= ".toList ++ limitText v.upper)))

def lineText (line : List Char) : List Char :=
  ' ' :: (line ++ ['\n'])

def sectionText (heading : String) (lines : List (List Char)) (rest : List Char) : List Char :=
  if lines.isEmpty then rest else heading.toList ++ '\n' :: (lines.flatMap lineText ++ rest)

def boundedVars (m : Model) : List Variable :=
  m.registry.vars.filter (!·.hasDefaultBounds)

def namesOfKind (m : Model) (kind : Kind) : List String :=
  (m.registry.vars.filter (·.kind == kind)).map (·.name)

def heading (m : Model) : String :=
  if m.objective.isMaximize then "Maximize" else "Minimize"

def sectionsText (m : Model) : List Char :=
  sectionText "Bounds" ((boundedVars m).map boundText) <|
    sectionText "General" ((namesOfKind m .integer).map String.toList) <|
      sectionText "Binary" ((namesOfKind m .binary).map String.toList) "End\n".toList

def layout (m : Model) : List Char :=
  (heading m).toList ++ '\n' :: (objectiveText m.objective.expression ++ '\n' ::
    ("Subject To\n".toList ++ (m.constraints.zipIdx.flatMap (lineText ∘ rowText)
      ++ sectionsText m)))

structure ShownModel (m : Model) : Prop where
  objective : ∀ i ∈ writtenItems m.objective.expression true, Shown i
  lhs : ∀ c ∈ m.constraints, ∀ i ∈ writtenItems c.lhs false, Shown i
  rhs : ∀ c ∈ m.constraints, c.rhs.toBinary64? ≠ none
  safe : ∀ v ∈ m.registry.vars, isSafeName v.name = true
  bounds : ∀ v ∈ m.registry.vars, v.WellFormed

/-- A model that is written in such a way that it can be read, if not as it was. -/
structure LegibleModel (m : Model) : Prop where
  objective : ∀ i ∈ writtenItems m.objective.expression true, Legible i
  lhs : ∀ c ∈ m.constraints, ∀ i ∈ writtenItems c.lhs false, Legible i
  rhs : ∀ c ∈ m.constraints, c.rhs.IsFinite
  names : ∀ v ∈ m.registry.vars, Readable v.name
  bounds : ∀ v ∈ m.registry.vars, v.WellFormed

/-- A model that is written in such a way that it can be read again. -/
structure WritableModel (m : Model) : Prop where
  objective : ∀ i ∈ writtenItems m.objective.expression true, Writable i
  lhs : ∀ c ∈ m.constraints, ∀ i ∈ writtenItems c.lhs false, Writable i
  rhs : ∀ c ∈ m.constraints, c.rhs.IsPortable
  names : ∀ v ∈ m.registry.vars, Readable v.name
  bounds : ∀ v ∈ m.registry.vars, v.WellFormed
  limits : ∀ v ∈ m.registry.vars, v.IsPortable

theorem WritableModel.legible {m : Model} (h : WritableModel m) : LegibleModel m where
  objective := fun i member => (h.objective i member).legible
  lhs := fun c among i member => (h.lhs c among i member).legible
  rhs := fun c member => (h.rhs c member).isFinite
  names := h.names
  bounds := h.bounds

theorem LegibleModel.shown {m : Model} (h : LegibleModel m)
    (safe : ∀ v ∈ m.registry.vars, isSafeName v.name = true) : ShownModel m where
  objective := fun i member => (h.objective i member).shown
  lhs := fun c among i member => (h.lhs c among i member).shown
  rhs := fun c member => readable_of_isFinite (h.rhs c member)
  safe
  bounds := h.bounds

def IsLimit (n : Number) : Prop :=
  (∃ negative, n = .real (.infinite negative)) ∨ n.IsFinite

theorem isLimit_lower {d : Declaration} (declared : d.WellFormed) : IsLimit d.lower :=
  declared.lower.eq_or_isFinite.imp_left fun infinite => ⟨true, infinite⟩

theorem isLimit_upper {d : Declaration} (declared : d.WellFormed) : IsLimit d.upper :=
  declared.upper.eq_or_isFinite.imp_left fun infinite => ⟨false, infinite⟩

theorem formatNumber_infinite (negative : Bool) :
    formatNumber (.real (.infinite negative)) =
      .ok (String.ofList (limitText (.real (.infinite negative)))) := by
  cases negative <;> rfl

theorem limitText_of_finite {n : Number} (isFinite : n.IsFinite) :
    limitText n = (Figure.ofNumber n).text := by
  have finite : n.double.isFinite = true := isFinite
  unfold limitText
  split
  next => cases finite
  next => rfl

theorem formatNumber_limit {n : Number} (limit : IsLimit n) :
    formatNumber n = .ok (String.ofList (limitText n)) := by
  rcases limit with ⟨s, rfl⟩ | finite
  · exact formatNumber_infinite s
  · rw [limitText_of_finite finite]
    exact formatNumber_of_finite finite

/-- What is read of a bound. -/
def limitValue : Number → Binary64
  | .real (.infinite negative) => .infinite negative
  | n => (Figure.ofNumber n).value

theorem limitValue_of_finite {n : Number} (isFinite : n.IsFinite) :
    limitValue n = (Figure.ofNumber n).value := by
  have finite : n.double.isFinite = true := isFinite
  unfold limitValue
  split
  next => cases finite
  next => rfl

theorem limitValue_eq {n : Number} {negative : Bool}
    (limit : n = .real (.infinite negative) ∨ n.IsPortable) : limitValue n = n.double.settled := by
  rcases limit with rfl | portable
  · rfl
  · rw [limitValue_of_finite portable.isFinite, Figure.value_ofNumber portable]

theorem isEmpty_ofList (cs : List Char) : (String.ofList cs).isEmpty = cs.isEmpty := by
  cases cs <;> simp

theorem objectiveLine_eq {e : Expression} (shown : ∀ i ∈ writtenItems e true, Shown i) :
    objectiveLine e = .ok (String.ofList (objectiveText e)) := by
  unfold objectiveLine
  rw [formatExpression_eq shown]
  refine congrArg Except.ok (String.toList_injective ?_)
  rw [isEmpty_ofList, objectiveText]
  cases (sumText ((writtenItems e true).map piece)).isEmpty <;> simp

theorem rowLine_eq {c : Constraint} {index : Nat}
    (shown : ∀ i ∈ writtenItems c.lhs false, Shown i) (readable : c.rhs.toBinary64? ≠ none) :
    rowLine index c = .ok (String.ofList (' ' :: rowText (c, index))) := by
  unfold rowLine
  rw [formatExpression_eq shown, formatNumber_eq readable]
  refine congrArg Except.ok (String.toList_injective ?_)
  rw [isEmpty_ofList]
  cases empty : (sumText ((writtenItems c.lhs false).map piece)).isEmpty <;>
    simp [rowText, empty]

theorem boundLine_eq {v : Variable} (declared : v.WellFormed) :
    boundLine v = .ok (String.ofList (' ' :: boundText v)) := by
  unfold boundLine
  rw [formatNumber_limit (isLimit_lower declared), formatNumber_limit (isLimit_upper declared)]
  refine congrArg Except.ok (String.toList_injective ?_)
  simp [boundText]

def ended (lines : List String) : List Char :=
  lines.flatMap fun line => line.toList ++ ['\n']

theorem ended_append (first second : List String) :
    ended (first ++ second) = ended first ++ ended second :=
  List.flatMap_append

theorem ended_map_ofList (lines : List α) (text : α → List Char) :
    ended (lines.map fun a => String.ofList (' ' :: text a)) = lines.flatMap (lineText ∘ text) := by
  rw [ended, List.flatMap_map]
  simp [Function.comp_def, lineText]

theorem ended_sectionLines (heading : String) (lines : List (List Char)) (rest : List Char) :
    ended (sectionLines heading (lines.map fun l => String.ofList (' ' :: l))) ++ rest =
      sectionText heading lines rest := by
  have all := ended_map_ofList lines id
  simp only [id_eq, Function.comp_id] at all
  cases lines with
  | nil => rfl
  | cons line lines =>
    simp only [sectionLines, sectionText, List.map_cons, List.isEmpty_cons, Bool.false_eq_true,
      if_false] at all ⊢
    rw [← all]
    simp [ended]

theorem checkNames_eq {vs : List Variable} (safe : ∀ v ∈ vs, isSafeName v.name = true) :
    vs.forM checkName = .ok () := by
  induction vs with
  | nil => rfl
  | cons v vs ih =>
    have rest := ih fun w member => safe w (List.mem_cons_of_mem v member)
    change (checkName v >>= fun _ => vs.forM checkName) = .ok ()
    rw [checkName, if_pos (safe v List.mem_cons_self), rest]
    rfl

theorem kindLines_eq (m : Model) (kind : Kind) :
    kindLines m kind =
      ((namesOfKind m kind).map String.toList).map fun l => String.ofList (' ' :: l) := by
  rw [kindLines, namesOfKind, List.map_map, List.map_map]
  refine List.map_congr_left fun v _ => String.toList_injective ?_
  simp

def writtenLines (m : Model) : List String :=
  [heading m, String.ofList (objectiveText m.objective.expression), "Subject To"]
    ++ (m.constraints.zipIdx.map fun i => String.ofList (' ' :: rowText i))
    ++ sectionLines "Bounds"
      (((boundedVars m).map boundText).map fun l => String.ofList (' ' :: l))
    ++ sectionLines "General"
      (((namesOfKind m .integer).map String.toList).map fun l => String.ofList (' ' :: l))
    ++ sectionLines "Binary"
      (((namesOfKind m .binary).map String.toList).map fun l => String.ofList (' ' :: l))
    ++ ["End"]

theorem lines_eq {m : Model} (shown : ShownModel m) :
    LpText.lines m = .ok (writtenLines m) := by
  have rows : (m.constraints.zipIdx.mapM fun (c, i) => rowLine i c) =
      .ok (m.constraints.zipIdx.map fun i => String.ofList (' ' :: rowText i)) := by
    refine mapM_eq_ok fun (c, i) member => ?_
    have among := List.fst_mem_of_mem_zipIdx member
    exact rowLine_eq (shown.lhs c among) (shown.rhs c among)
  have bounds : (boundedVars m).mapM boundLine =
      .ok (((boundedVars m).map boundText).map fun l => String.ofList (' ' :: l)) := by
    rw [List.map_map]
    exact mapM_eq_ok fun v member => boundLine_eq (shown.bounds v (List.mem_of_mem_filter member))
  unfold LpText.lines
  rw [checkNames_eq shown.safe, objectiveLine_eq shown.objective, rows]
  simp only [boundedVars] at bounds
  rw [bounds, writtenLines, boundedVars, ← kindLines_eq, ← kindLines_eq]
  rfl

theorem toList_join_ended (lines : List String) :
    (String.join (lines.map (· ++ "\n"))).toList = ended lines := by
  rw [String.toList_join, List.flatMap_map]
  simp [ended]

theorem toLp_eq {m : Model} (shown : ShownModel m) :
    m.toLp = .ok (String.ofList (layout m)) := by
  have rows := ended_map_ofList m.constraints.zipIdx rowText
  unfold Model.toLp
  rw [lines_eq shown]
  refine congrArg Except.ok (String.toList_injective ?_)
  have ending : ended ["End"] = "End\n".toList := rfl
  have front : ended [heading m, String.ofList (objectiveText m.objective.expression),
      "Subject To"] = (heading m).toList ++ '\n' :: (objectiveText m.objective.expression ++ '\n' ::
        "Subject To\n".toList) := by
    simp [ended]
  rw [toList_join_ended, String.toList_ofList, writtenLines, layout, sectionsText]
  rw [ended_append, ended_append, ended_append, ended_append, ended_append, front, rows, ending]
  simp only [List.append_assoc, List.cons_append]
  rw [ended_sectionLines "Binary", ended_sectionLines "General", ended_sectionLines "Bounds"]

theorem safe_of_checkNames {vs : List Variable} (h : vs.forM checkName = .ok ()) :
    ∀ v ∈ vs, isSafeName v.name = true := by
  induction vs with
  | nil => exact List.forall_mem_nil _
  | cons v vs ih =>
    obtain ⟨_, first, rest⟩ := bind_eq_ok.1 (h : (checkName v >>= fun _ => vs.forM checkName) = _)
    intro w member
    rcases List.mem_cons.1 member with rfl | member
    · unfold checkName at first
      split at first
      next safe => exact safe
      next => cases first
    · exact ih rest w member

theorem readable_of_formatNumber {n : Number} {text : String} (h : formatNumber n = .ok text) :
    n.toBinary64? ≠ none := by
  cases n with
  | real x => exact Option.some_ne_none x
  | _ =>
    obtain ⟨x, read, -⟩ := bind_eq_ok.1 h
    rw [inRange_eq_ok.1 read]
    exact Option.some_ne_none x

theorem shown_of_formatTerm {t : Term} {text : String} (h : formatTerm t = .ok text)
    (formed : ∀ v ∈ t.vars, Formed v.name) : Shown (.term t) := by
  cases t with
  | linear c v =>
    obtain ⟨shown, format, -⟩ := bind_eq_ok.1 h
    exact ⟨readable_of_formatNumber format, formed v List.mem_cons_self⟩
  | quadratic c v w =>
    obtain ⟨d, product, h⟩ := bind_eq_ok.1 h
    obtain ⟨shown, format, -⟩ := bind_eq_ok.1 h
    have product := inRange_eq_ok.1 product
    have same : doubled c = d := by
      rw [doubled, product, Option.getD_some]
    rw [← same] at product format
    exact ⟨⟨product, readable_of_formatNumber format⟩, formed v List.mem_cons_self,
      formed w (List.mem_cons_of_mem v List.mem_cons_self)⟩

theorem shown_of_formatExpression {e : Expression} {withConstant : Bool} {text : String}
    (h : formatExpression e withConstant = .ok text)
    (formed : ∀ t ∈ e.terms, ∀ v ∈ t.vars, Formed v.name) :
    ∀ i ∈ writtenItems e withConstant, Shown i := by
  obtain ⟨constants, numbers, h⟩ := bind_eq_ok.1 h
  obtain ⟨terms, written, -⟩ := bind_eq_ok.1 h
  intro i member
  rcases List.mem_append.1 member with member | member
  · split at member
    next nonzero =>
      rw [if_pos nonzero] at numbers
      obtain ⟨text, format⟩ := ok_of_mapM numbers (List.mem_singleton_self e.constant)
      rw [List.mem_singleton.1 member]
      exact readable_of_formatNumber format
    next => cases member
  · obtain ⟨t, among, rfl⟩ := List.mem_map.1 member
    obtain ⟨text, format⟩ := ok_of_mapM written among
    exact shown_of_formatTerm format (formed t among)

variable {m : Model} {text : String}

theorem formed_of_safe (safe : ∀ v ∈ m.registry.vars, isSafeName v.name = true)
    (sound : m.WellFormed) :
    ∀ e ∈ m.expressions, ∀ t ∈ e.terms, ∀ v ∈ t.vars, v ∈ m.registry.vars ∧ Formed v.name := by
  intro e member t among v ofTerm
  have own := Registry.mem_of_owns ((sound.expressions e member).2 t among v ofTerm)
  exact ⟨own, (isSafeName_iff.1 (safe v own)).1⟩

theorem shown_of_toLp (h : m.toLp = .ok text) (sound : m.WellFormed) : ShownModel m := by
  obtain ⟨lines, h, -⟩ := bind_eq_ok.1 h
  obtain ⟨_, checked, h⟩ := bind_eq_ok.1 h
  obtain ⟨objective, first, h⟩ := bind_eq_ok.1 h
  obtain ⟨rows, constraints, -⟩ := bind_eq_ok.1 h
  have safe := safe_of_checkNames checked
  have formed := formed_of_safe safe sound
  have row : ∀ c ∈ m.constraints, ∃ index line, rowLine index c = .ok line := by
    intro c member
    obtain ⟨index, place⟩ := List.mem_iff_getElem?.1 member
    have indexed := List.mk_mem_zipIdx_iff_getElem?.2 place
    obtain ⟨line, written⟩ := ok_of_mapM constraints indexed
    exact ⟨index, line, written⟩
  refine ⟨?_, fun c member => ?_, fun c member => ?_, safe, sound.registry.declared⟩
  · obtain ⟨shown, format, -⟩ := bind_eq_ok.1 first
    exact shown_of_formatExpression format fun t among v ofTerm =>
      (formed _ List.mem_cons_self t among v ofTerm).2
  · obtain ⟨index, line, written⟩ := row c member
    obtain ⟨shown, format, -⟩ := bind_eq_ok.1 written
    have among : c.lhs ∈ m.expressions :=
      List.mem_cons_of_mem _ (List.mem_map_of_mem (f := Constraint.lhs) member)
    exact shown_of_formatExpression format fun t isTerm v ofTerm =>
      (formed _ among t isTerm v ofTerm).2
  · obtain ⟨index, line, written⟩ := row c member
    obtain ⟨_, -, h⟩ := bind_eq_ok.1 written
    obtain ⟨rhs, format, -⟩ := bind_eq_ok.1 h
    exact readable_of_formatNumber format

theorem doubles_of_exact {c : Number} (exact : c.IsExact)
    (product : (2 : Number).mul c = some (doubled c)) (readable : (doubled c).toBinary64? ≠ none)
    (finite : (doubled c).isInfinite = false) : Doubles c := by
  obtain ⟨twice, halved⟩ := exact.twice product readable finite
  exact ⟨product, twice.isPortable, halved⟩

theorem writable_of_shown {e : Expression} {withConstant : Bool} (exact : e.IsExact)
    (shown : ∀ i ∈ writtenItems e withConstant, Shown i)
    (named : ∀ t ∈ e.terms, ∀ v ∈ t.vars, Readable v.name)
    (finite : ∀ c v w, .quadratic c v w ∈ e.terms → ∀ d, (2 : Number).mul c = some d →
      d.isInfinite = false) : ∀ i ∈ writtenItems e withConstant, Writable i := by
  intro i member
  have isShown := shown i member
  rcases List.mem_append.1 member with constant | term
  · split at constant
    · rw [List.mem_singleton.1 constant]
      exact exact.constant.isPortable
    · cases constant
  · obtain ⟨t, among, rfl⟩ := List.mem_map.1 term
    have names := named t among
    have coefficient := exact.coefficients t among
    cases t with
    | linear c v => exact ⟨coefficient.isPortable, names v List.mem_cons_self⟩
    | quadratic c v w =>
      obtain ⟨⟨product, readable⟩, -, -⟩ := isShown
      have doubles := doubles_of_exact coefficient product readable (finite c v w among _ product)
      exact ⟨doubles, names v List.mem_cons_self,
        names w (List.mem_cons_of_mem v List.mem_cons_self)⟩

theorem writable_of_toLp (h : m.toLp = .ok text) (sound : m.WellFormed) (exact : m.IsExact)
    (single : ∀ v ∈ m.registry.vars, v.name.map Char.toLower ∉ ["subject", "such"])
    (finite : ∀ e ∈ m.expressions, ∀ c v w, .quadratic c v w ∈ e.terms → ∀ d,
      (2 : Number).mul c = some d → d.isInfinite = false) :
    WritableModel m ∧ ∀ v ∈ m.registry.vars, isSafeName v.name = true := by
  have shown := shown_of_toLp h sound
  have names : ∀ v ∈ m.registry.vars, Readable v.name :=
    fun v member => readable_of_isSafeName (shown.safe v member) (single v member)
  have used : ∀ e ∈ m.expressions, ∀ t ∈ e.terms, ∀ v ∈ t.vars, Readable v.name :=
    fun e member t among v ofTerm =>
      names v (formed_of_safe shown.safe sound e member t among v ofTerm).1
  refine ⟨⟨?_, fun c member => ?_, exact.isPortable.rhs, names, sound.registry.declared,
    exact.isPortable.bounds⟩, shown.safe⟩
  · have among : m.objective.expression ∈ m.expressions := List.mem_cons_self
    exact writable_of_shown exact.objective shown.objective (used _ among) (finite _ among)
  · have among : c.lhs ∈ m.expressions :=
      List.mem_cons_of_mem _ (List.mem_map_of_mem (f := Constraint.lhs) member)
    exact writable_of_shown (exact.lhs c member) (shown.lhs c member) (used _ among)
      (finite _ among)

end LinOpt.LpText
