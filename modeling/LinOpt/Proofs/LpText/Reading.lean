import LinOpt.Proofs.LpText.Lines

namespace LinOpt.LpText

open Pattern Grammar Numeral

def described (m : Model) : Document where
  objective :=
    { sense := m.objective.sense
      label := some "obj"
      summands := (writtenItems m.objective.expression true).map summand }
  rows := m.constraints.zipIdx.map describedRow
  bounds := (boundedVars m).map describedBound
  general := namesOfKind m .integer
  binary := namesOfKind m .binary

/-- The document that the text of a model is read as. -/
def decodedDocument (m : Model) : Document :=
  { described m with
    objective :=
      { sense := m.objective.sense
        label := some "obj"
        summands := (writtenItems m.objective.expression true).map decoded }
    rows := m.constraints.zipIdx.map decodedRow
    bounds := (boundedVars m).map decodedBound }

variable {m : Model} {s t rest : List Char}

theorem decodedDocument_eq (writable : WritableModel m) : decodedDocument m = described m := by
  have objective : (writtenItems m.objective.expression true).map decoded =
      (writtenItems m.objective.expression true).map summand :=
    List.map_congr_left fun i member => decoded_eq (writable.objective i member)
  have rows : m.constraints.zipIdx.map decodedRow = m.constraints.zipIdx.map describedRow :=
    List.map_congr_left fun i indexed =>
      decodedRow_eq (writable.lhs i.1 (List.fst_mem_of_mem_zipIdx indexed))
        (writable.rhs i.1 (List.fst_mem_of_mem_zipIdx indexed))
  have bounds : (boundedVars m).map decodedBound = (boundedVars m).map describedBound :=
    List.map_congr_left fun v bounded =>
      decodedBound_eq (writable.limits v (List.mem_of_mem_filter bounded))
  rw [decodedDocument, objective, rows, bounds]
  rfl

theorem headed_section {heading : String} (member : heading ∈ headings) (lines : List (List Char))
    (headed : Headed rest) : Headed (sectionText heading lines rest) := by
  cases lines with
  | nil => exact headed
  | cons line lines => exact ⟨heading, member, _, rfl⟩

theorem section_repeats {heading : String} {lines : List (List Char)} {read : Section}
    {sections : List Section}
    (reads : lines ≠ [] → anySection.Reads (heading.toList ++ '\n' :: (lines.flatMap lineText
      ++ rest)) read rest) (others : Repeats anySection rest sections t) :
    Repeats anySection (sectionText heading lines rest)
      ((if lines.isEmpty then [] else [read]) ++ sections) t := by
  cases lines with
  | nil => exact others
  | cons line lines =>
    apply Repeats.step (reads (List.cons_ne_nil line lines)) _ others
    simp only [List.length_append, List.length_cons]
    omega

theorem boundsSection_reads (legible : LegibleModel m) (headed : Headed rest) :
    anySection.Reads ("Bounds".toList ++ '\n' ::
      (((boundedVars m).map boundText).flatMap lineText ++ rest))
      (.bounds ((boundedVars m).map decodedBound)) rest := by
  have member : ∀ v ∈ boundedVars m, v ∈ m.registry.vars := fun v => List.mem_of_mem_filter
  have entries := lines_read decodedBound (boundedVars m) (fun v among rest => bound_reads
    (legible.names v (member v among)) (legible.bounds v (member v among)) rest)
    (fun v _ s => by rw [boundText, List.append_assoc]; exact limit_solid v.lower _)
    headed (bound_fails headed)
  have keyword := reads_lexeme (bounds_reads ((boundedVars m).flatMap (lineText ∘ boundText)
    ++ rest))
  rw [List.flatMap_map]
  exact (((keyword.after entries.many).map _).rule.left _).rule

theorem nameList_reads {names : List String} (readable : ∀ x ∈ names, Readable x)
    (headed : Headed rest) :
    nameList.Reads (skip ('\n' :: ((names.map String.toList).flatMap lineText ++ rest))) names
      rest := by
  have entries := lines_read id names (fun x among rest => name_reads (readable x among) rest)
    (fun x among s => solid_name (readable x among) s) headed
    (fails_lexeme headed.variableName_fails)
  rw [List.map_id] at entries
  rw [List.flatMap_map]
  exact entries.many.rule

theorem of_namesOfKind {P : String → Prop} (named : ∀ v ∈ m.registry.vars, P v.name)
    (kind : Kind) : ∀ x ∈ namesOfKind m kind, P x := by
  intro x member
  obtain ⟨v, among, rfl⟩ := List.mem_map.1 member
  exact named v (List.mem_of_mem_filter among)

theorem generalSection_reads {names : List String} (list : nameList.Reads (skip ('\n' :: s)) names t) :
    anySection.Reads ("General".toList ++ '\n' :: s) (.general names) t := by
  have read := (((reads_lexeme (general_reads s)).after list).map Section.general).rule
  have noBounds (s : List Char) : boundsSection.Fails ("General".toList ++ s) := rfl
  exact ((read.left _).right (noBounds _)).rule

theorem binarySection_reads {names : List String} (list : nameList.Reads (skip ('\n' :: s)) names t) :
    anySection.Reads ("Binary".toList ++ '\n' :: s) (.binary names) t := by
  have read := (((reads_lexeme (binary_reads s)).after list).map Section.binary).rule
  have noBounds (s : List Char) : boundsSection.Fails ("Binary".toList ++ s) := rfl
  have noGenerals (s : List Char) : generalsSection.Fails ("Binary".toList ++ s) := rfl
  exact ((read.right (noGenerals _)).right (noBounds _)).rule

theorem headed_end : Headed "End\n".toList :=
  ⟨"End", by decide, [], rfl⟩

theorem anySection_fails (noBounds : boundsKeyword.Fails s) (noGeneral : generalsKeyword.Fails s)
    (noBinary : binariesKeyword.Fails s) : anySection.Fails s := by
  have bounds : boundsSection.Fails s := (((fails_lexeme noBounds).after _).map _).rule
  have general : generalsSection.Fails s := (((fails_lexeme noGeneral).after _).map _).rule
  have binary : binariesSection.Fails s := (((fails_lexeme noBinary).after _).map _).rule
  exact (bounds.either (general.either binary)).rule

theorem sections_fail {read : List Section} (sections : Repeats anySection s read t)
    (noEnd : endKeyword.Fails t) : (before (many anySection) (lexeme endKeyword)).Fails s :=
  (sections.many.pair_fails (fails_lexeme noEnd)).map _

def decodedSections (m : Model) : List Section :=
  (if ((boundedVars m).map boundText).isEmpty then []
    else [.bounds ((boundedVars m).map decodedBound)])
  ++ ((if ((namesOfKind m .integer).map String.toList).isEmpty then []
    else [.general (namesOfKind m .integer)])
  ++ ((if ((namesOfKind m .binary).map String.toList).isEmpty then []
    else [.binary (namesOfKind m .binary)]) ++ []))

theorem sections_repeat (legible : LegibleModel m) :
    Repeats anySection (sectionsText m) (decodedSections m) "End\n".toList := by
  have noMore : anySection.Fails "End\n".toList := rfl
  have binary := headed_section (by decide : "Binary" ∈ headings)
    ((namesOfKind m .binary).map String.toList) headed_end
  have general := headed_section (by decide : "General" ∈ headings)
    ((namesOfKind m .integer).map String.toList) binary
  apply section_repeats fun _ => boundsSection_reads legible general
  apply section_repeats fun _ =>
    generalSection_reads (nameList_reads (of_namesOfKind legible.names .integer) binary)
  apply section_repeats fun _ =>
    binarySection_reads (nameList_reads (of_namesOfKind legible.names .binary) headed_end)
  exact .stop (.inr noMore)

theorem headed_sections (m : Model) : Headed (sectionsText m) :=
  headed_section (by decide) _ (headed_section (by decide) _ (headed_section (by decide) _
    headed_end))

theorem addSections_decoded (m : Model) (objective : ObjectiveLine) (rows : List Row) :
    (decodedSections m).foldl Document.addSection { objective, rows } =
      { objective, rows
        bounds := (boundedVars m).map decodedBound
        general := namesOfKind m .integer
        binary := namesOfKind m .binary } := by
  unfold decodedSections
  cases boundedVars m <;> cases namesOfKind m .integer <;> cases namesOfKind m .binary <;> rfl

theorem senseKeyword_reads (m : Model) (solid : Solid s) :
    (lexeme senseKeyword).Reads ((heading m).toList ++ '\n' :: s) m.objective.sense s := by
  have large : "maximize".startsWith "max" = true := by decide +kernel
  have small : "minimize".startsWith "max" = false := by decide +kernel
  have read : senseKeyword.Reads ((heading m).toList ++ '\n' :: s) m.objective.sense
      ('\n' :: s) := by
    unfold heading Objective.isMaximize
    cases m.objective.sense with
    | maximize =>
      show some (if "maximize".startsWith "max" then Sense.maximize else .minimize, _) = _
      rw [large]
      rfl
    | minimize =>
      show some (if "minimize".startsWith "max" then Sense.maximize else .minimize, _) = _
      rw [small]
      rfl
  exact reads_blank read (by decide) solid

theorem skip_objective (items : List Item) (headed : Headed rest) :
    skip ((if (sumText (items.map piece)).isEmpty then [] else ' ' :: sumText (items.map piece))
      ++ '\n' :: rest) = beforeBlank items '\n' ++ rest := by
  have solid := beforeBlank_solid items '\n' headed.solid
  cases items with
  | nil => exact skip_newline headed.solid
  | cons i items =>
    have some : ¬(sumText ((i :: items).map piece)).isEmpty = true := by
      rw [sumText_isEmpty]
      exact Bool.false_ne_true
    rw [beforeBlank_cons, List.append_assoc] at solid ⊢
    rw [if_neg some]
    exact skip_space solid

theorem objective_reads {e : Option (List Summand)} (headed : Headed rest)
    (sum : (maybe expression).Reads (beforeBlank (writtenItems m.objective.expression true) '\n'
      ++ rest) e t) :
    objectiveSection.Reads ((heading m).toList ++ '\n' ::
      (objectiveText m.objective.expression ++ '\n' :: rest))
      ⟨m.objective.sense, some "obj", e.getD []⟩ t := by
  let items := writtenItems m.objective.expression true
  have label := label_reads readable_obj ((if (sumText (items.map piece)).isEmpty then []
    else ' ' :: sumText (items.map piece)) ++ '\n' :: rest)
  rw [skip_objective items headed] at label
  have text : objectiveText m.objective.expression ++ '\n' :: rest = "obj".toList ++ ':' ::
      ((if (sumText (items.map piece)).isEmpty then [] else ' ' :: sumText (items.map piece))
        ++ '\n' :: rest) := by
    simp [objectiveText, items]
  have sense := senseKeyword_reads m (solid_name readable_obj (':' :: ((if (sumText (items.map
    piece)).isEmpty then [] else ' ' :: sumText (items.map piece)) ++ '\n' :: rest)))
  rw [text]
  exact ((sense.pair ((label.maybe (by simp)).pair sum)).map _).rule

theorem rows_read {rows : List Row} (repeats : Repeats row (skip ('\n' :: s)) rows t) :
    rowsSection.Reads ("Subject To\n".toList ++ s) rows t := by
  have keyword := reads_lexeme (subject_reads s)
  exact (keyword.after repeats.many).rule

theorem rows_repeat {cs : List (Constraint × Nat)}
    (legible : ∀ i ∈ cs, ∀ j ∈ writtenItems i.1.lhs false, Legible j)
    (finite : ∀ i ∈ cs, i.1.rhs.IsFinite) {more : List Row}
    (others : Repeats row (skip ('\n' :: s)) more t) :
    Repeats row (skip ('\n' :: (cs.flatMap (lineText ∘ rowText) ++ s))) (cs.map decodedRow ++ more)
      t := by
  apply lines_repeat decodedRow cs (fun i among rest => row_reads (legible i among) (finite i among)
    rest) _ others
  intro i _ s
  rw [rowText, List.append_assoc]
  exact solid_name (readable_rowName (i.2 + 1)) _

theorem headed_rows (m : Model) : Headed ("Subject To\n".toList ++
    (m.constraints.zipIdx.flatMap (lineText ∘ rowText) ++ sectionsText m)) :=
  ⟨"Subject To", by decide, _, rfl⟩

theorem solid_layout (m : Model) : Solid (layout m) := by
  rw [layout, heading]
  split <;> exact solid_cons (by decide) _

theorem document_fails {o : ObjectiveLine} (objective : objectiveSection.Reads (layout m) o t)
    (noMore : (pair (maybe rowsSection) (before (many anySection) (lexeme endKeyword))).Fails t) :
    document.Fails (layout m) := by
  have start := blanks_reads (layout m)
  rw [skip_solid (solid_layout m)] at start
  exact ((start.pair_fails (objective.pair_fails noMore)).map Prod.snd).map _

theorem document_reads (objective : ∀ i ∈ writtenItems m.objective.expression true, Legible i)
    (lhs : ∀ c ∈ m.constraints, ∀ i ∈ writtenItems c.lhs false, Legible i)
    (rhs : ∀ c ∈ m.constraints, c.rhs.IsFinite)
    (sections : Repeats anySection (sectionsText m) (decodedSections m) "End\n".toList) :
    document.Reads (layout m) (decodedDocument m) [] := by
  have ending : (lexeme endKeyword).Reads "End\n".toList "end" [] := rfl
  have headed := headed_sections m
  have stop : Repeats row (skip ('\n' :: sectionsText m)) [] (sectionsText m) := by
    rw [skip_newline headed.solid]
    exact .stop (.inr (row_fails headed))
  have member : ∀ i ∈ m.constraints.zipIdx, i.1 ∈ m.constraints :=
    fun i => List.fst_mem_of_mem_zipIdx
  have rows := (rows_read (rows_repeat (fun i among => lhs i.1 (member i among))
    (fun i among => rhs i.1 (member i among)) stop)).maybe (by simp)
  rw [List.append_nil] at rows
  obtain ⟨e, sum, value⟩ := sum_reads objective (by decide : '\n' ∈ [' ', '\n'])
    (headed_rows m).noTerm
  have objective := objective_reads (headed_rows m) sum
  rw [value] at objective
  have start := blanks_reads (layout m)
  rw [skip_solid (solid_layout m)] at start
  have read : document.Reads _ _ _ :=
    ((start.after (objective.pair (rows.pair (sections.many.before ending)))).map _).rule
  have value := addSections_decoded m (decodedDocument m).objective (m.constraints.zipIdx.map
    decodedRow)
  exact (congrArg (fun d => document.Reads (layout m) d []) value).mp read

def Plain (cs : List Char) : Prop :=
  ∀ c ∈ cs, c.toNat < 128

@[simp]
theorem plain_nil : Plain [] :=
  List.forall_mem_nil _

@[simp]
theorem plain_cons {c : Char} {cs : List Char} : Plain (c :: cs) ↔ c.toNat < 128 ∧ Plain cs :=
  List.forall_mem_cons

@[simp]
theorem plain_append {cs ds : List Char} : Plain (cs ++ ds) ↔ Plain cs ∧ Plain ds :=
  List.forall_mem_append

theorem plain_flatMap {as : List α} {f : α → List Char} (h : ∀ a ∈ as, Plain (f a)) :
    Plain (as.flatMap f) := by
  intro c member
  obtain ⟨a, among, inside⟩ := List.mem_flatMap.1 member
  exact h a among c inside

theorem plain_digits {ds : List Char} (are : ∀ c ∈ ds, c.isDigit = true) : Plain ds := by
  intro c member
  have digit := are c member
  rw [isDigit_eq, Bool.and_eq_true, decide_eq_true_eq, decide_eq_true_eq] at digit
  omega

theorem plain_name {x : String} (formed : Formed x) : Plain x.toList := by
  intro c member
  have printable := printable_of_isNameChar (formed.named c member)
  omega

theorem plain_written {w : Written} (sound : w.Sound) : Plain w.text := by
  have part : Plain w.partText := by
    have are := sound.part
    rw [Written.partText]
    cases isPart : w.part with
    | none => exact plain_nil
    | some ds =>
      rw [isPart] at are
      exact plain_cons.2 ⟨by decide, plain_digits are⟩
  have power : Plain w.powerText := by
    rw [Written.powerText]
    cases isPower : w.power with
    | none => exact plain_nil
    | some found =>
      obtain ⟨negative, ds⟩ := found
      have are := (sound.power negative ds isPower).2
      cases negative <;> simp [plain_digits are]
  exact plain_append.2 ⟨plain_append.2 ⟨plain_digits sound.whole, part⟩, power⟩

theorem plain_figure (n : Number) : Plain (Figure.ofNumber n).text := by
  have written := plain_written (Figure.ofNumber_sound n)
  rw [Figure.text]
  cases (Figure.ofNumber n).negative <;> simp [written]

theorem plain_numeral (n : Number) : Plain (numeral n).first := by
  have body : Plain (numeral n).body := by
    have words : ∀ word ∈ ["nan".toList, "inf".toList, "+inf".toList], Plain word := by
      simp
    rcases numeral_cases n with ⟨w, sound, body⟩ | word
    · exact body ▸ plain_written sound
    · exact words _ word
  rw [Piece.first]
  cases (numeral n).negative <;> simp [body]

theorem plain_body {p : Piece} (plain : Plain p.first) : Plain p.body :=
  (plain_append.1 plain).2

theorem plain_piece {i : Item} (shown : Shown i) : Plain (piece i).body := by
  cases i with
  | number n => exact plain_body (plain_numeral n)
  | term t =>
    cases t with
    | linear c v => simp [piece, plain_body (plain_numeral c), plain_name shown.2]
    | quadratic c v w =>
      simp [piece, plain_numeral, plain_name shown.2.1, plain_name shown.2.2]

theorem plain_sum {items : List Item} (shown : ∀ i ∈ items, Shown i) :
    Plain (sumText (items.map piece)) := by
  cases items with
  | nil => exact plain_nil
  | cons i items =>
    have first := plain_piece (shown i List.mem_cons_self)
    have rest : Plain ((items.map piece).flatMap Piece.next) := by
      apply plain_flatMap
      intro p member
      obtain ⟨j, among, rfl⟩ := List.mem_map.1 member
      have body := plain_piece (shown j (List.mem_cons_of_mem i among))
      rw [Piece.next]
      cases (piece j).negative <;> simp [body]
    rw [List.map_cons, sumText, Piece.first]
    cases (piece i).negative <;> simp [first, rest]

theorem plain_limit (n : Number) : Plain (limitText n) := by
  unfold limitText
  split
  next negative => cases negative <;> simp
  next => exact plain_figure n

theorem plain_section {heading : String} {lines : List (List Char)} (title : Plain heading.toList)
    (are : ∀ line ∈ lines, Plain line) (plain : Plain rest) :
    Plain (sectionText heading lines rest) := by
  have body : Plain (lines.flatMap lineText) :=
    plain_flatMap fun line member => by simp [lineText, are line member]
  rw [sectionText]
  cases lines.isEmpty <;> simp [title, body, plain]

theorem plain_sections (formed : ∀ v ∈ m.registry.vars, Formed v.name) :
    Plain (sectionsText m) := by
  have bounds : ∀ line ∈ (boundedVars m).map boundText, Plain line := by
    intro line member
    obtain ⟨v, among, rfl⟩ := List.mem_map.1 member
    have name := plain_name (formed v (List.mem_of_mem_filter among))
    simp [boundText, plain_limit, name]
  have names (kind : Kind) : ∀ line ∈ (namesOfKind m kind).map String.toList, Plain line := by
    intro line member
    obtain ⟨x, among, rfl⟩ := List.mem_map.1 member
    exact plain_name (of_namesOfKind formed kind x among)
  apply plain_section (by simp) bounds
  apply plain_section (by simp) (names .integer)
  apply plain_section (by simp) (names .binary)
  simp

theorem plain_layout (objective : ∀ i ∈ writtenItems m.objective.expression true, Shown i)
    (lhs : ∀ c ∈ m.constraints, ∀ i ∈ writtenItems c.lhs false, Shown i)
    (formed : ∀ v ∈ m.registry.vars, Formed v.name) : Plain (layout m) := by
  have heading : Plain (heading m).toList := by
    rw [heading]
    split <;> simp
  have objective : Plain (objectiveText m.objective.expression) := by
    have sum := plain_sum objective
    rw [objectiveText]
    split <;> simp [sum]
  have rows : Plain (m.constraints.zipIdx.flatMap (lineText ∘ rowText)) := by
    apply plain_flatMap
    intro i member
    have sum := plain_sum (lhs _ (List.fst_mem_of_mem_zipIdx member))
    have label : Plain (Nat.toDigits 10 (i.2 + 1)) :=
      plain_digits fun _ member => Decimal.digits_of_mem member
    have comparison : Plain i.1.comparison.text.toList := by
      cases i.1.comparison <;> simp [Comparison.text]
    simp only [Function.comp_apply, lineText, rowText]
    split <;> simp [sum, label, comparison, plain_numeral]
  simp [layout, heading, objective, rows, plain_sections formed]

theorem hasNewDigit_of_plain {text : String} (plain : Plain text.toList) :
    hasNewDigit text = false := by
  have go : ∀ (comment : Bool) (cs : List Char), Plain cs → hasNewDigit.go comment cs = false := by
    intro comment cs
    induction cs generalizing comment with
    | nil => exact fun _ => by cases comment <;> rfl
    | cons c cs ih =>
      intro plain
      obtain ⟨basic, rest⟩ := plain_cons.1 plain
      cases comment with
      | true => exact ih _ rest
      | false =>
        rw [hasNewDigit.go, Text.isNewDigit_of_basic basic, Bool.false_or]
        exact ih _ rest
  exact go false text.toList plain

theorem read_of_reads {p : Pattern α} {cs : List Char} {a : α} (h : p.Reads cs a []) :
    p.read (String.ofList cs) = .whole a := by
  have run : p.run (String.ofList cs).toList = some (a, []) := by
    rw [String.toList_ofList]
    exact h
  rw [Pattern.read, run]
  rfl

theorem ofText_of_reads {cs : List Char} {d : Document} (reads : document.Reads cs d [])
    (plain : Plain cs) : Document.ofText (String.ofList cs) = .ok d := by
  have read : Document.read (String.ofList cs) = .ok d := by
    unfold Document.read
    rw [read_of_reads reads]
  have known : hasNewDigit (String.ofList cs) = false := by
    apply hasNewDigit_of_plain
    rwa [String.toList_ofList]
  rw [Document.ofText, read, known]
  rfl

theorem ofText_decoded (legible : LegibleModel m) :
    Document.ofText (String.ofList (layout m)) = .ok (decodedDocument m) :=
  ofText_of_reads
    (document_reads legible.objective legible.lhs legible.rhs (sections_repeat legible)) (plain_layout
    (fun i member => (legible.objective i member).shown)
    (fun c among i member => (legible.lhs c among i member).shown)
    fun v member => (legible.names v member).toFormed)

/-- What is written of a model is read as the document that describes it. -/
theorem ofText_layout (writable : WritableModel m) :
    Document.ofText (String.ofList (layout m)) = .ok (described m) := by
  rw [ofText_decoded writable.legible, decodedDocument_eq writable]

end LinOpt.LpText
