import LinOpt.Proofs.LpText.ReadNames
import LinOpt.Proofs.LpText.Widened

namespace LinOpt

namespace LpText

open Pattern Grammar

namespace Pattern

variable {p : Pattern α} {q : Pattern β} {s t : List Char}

/-- The pattern makes the same of two texts that are the same but for more blanks after one. -/
def Steady (p : Pattern α) : Prop :=
  ∀ s t, Widened false s t → Alike (p.run s) (p.run t)

def Advances (p : Pattern α) : Prop :=
  ∀ s a t, p.Reads s a t → t.length < s.length

theorem Steady.map (h : p.Steady) (f : α → β) : (Pattern.map f p).Steady :=
  fun s t wider => (h s t wider).map f

theorem Steady.pair (h : p.Steady) (g : q.Steady) : (Pattern.pair p q).Steady := by
  intro s t wider
  rw [run_pair, run_pair]
  exact (h s t wider).bind fun _ s t rest => (g s t rest).bind fun _ _ _ => alike_some

theorem Steady.before (h : p.Steady) (g : q.Steady) : (Pattern.before p q).Steady :=
  (h.pair g).map Prod.fst

theorem Steady.after (h : p.Steady) (g : q.Steady) : (Pattern.after p q).Steady :=
  (h.pair g).map Prod.snd

theorem Steady.either {q : Pattern α} (h : p.Steady) (g : q.Steady) :
    (Pattern.either p q).Steady := by
  intro s t wider
  rw [run_either, run_either]
  exact (h s t wider).or (g s t wider)

theorem Steady.maybe (h : p.Steady) : (Pattern.maybe p).Steady := by
  intro s t wider
  rw [run_maybe, run_maybe, wider.isEmpty]
  split
  · exact alike_some wider
  · exact ((h s t wider).map some).or (alike_some wider)

theorem Steady.unless (h : p.Steady) : (Pattern.unless p).Steady := by
  intro s t wider
  rw [run_unless, run_unless, (h s t wider).isSome]
  split
  · exact .none
  · exact alike_some wider

theorem Steady.rule (h : p.Steady) : (Pattern.rule p).Steady :=
  h

theorem Steady.repeated (h : p.Steady) (advances : p.Advances) {limit limit' : List Char}
    (wider : Widened false s t) (bound : s.length ≤ limit.length)
    (bound' : t.length ≤ limit'.length) :
    (repeated p.run limit s).1 = (repeated p.run limit' t).1 ∧
      Widened false (repeated p.run limit s).2 (repeated p.run limit' t).2 := by
  induction limit generalizing s t limit' with
  | nil =>
    have none : s = [] := List.length_eq_zero_iff.1 (Nat.le_zero.1 bound)
    subst none
    rw [wider.nil]
    cases limit' <;> exact ⟨rfl, .same []⟩
  | cons c limit ih =>
    by_cases nothing : s.isEmpty = true
    · rw [List.isEmpty_iff] at nothing
      subst nothing
      rw [wider.nil]
      cases limit' <;> exact ⟨rfl, .same []⟩
    · have some : t.isEmpty = false := wider.isEmpty.trans (Bool.eq_false_of_not_eq_true nothing)
      cases limit' with
      | nil =>
        rw [List.length_eq_zero_iff.1 (Nat.le_zero.1 bound')] at some
        cases some
      | cons c' limit' =>
        rw [Pattern.repeated, Pattern.repeated, some, Bool.eq_false_of_not_eq_true nothing]
        simp only [Bool.false_eq_true, if_false]
        rcases (h s t wider).cases with ⟨fails, fails'⟩ | ⟨a, u, v, reads, reads', rest⟩
        · rw [fails, fails']
          exact ⟨rfl, wider⟩
        · -- Every round shortens both texts, so that neither limit runs out before its text.
          have shorter : u.length < s.length := advances s a u reads
          have shorter' : v.length < t.length := advances t a v reads'
          rw [List.length_cons] at bound bound'
          have fits : u.length ≤ limit.length := by omega
          have fits' : v.length ≤ limit'.length := by omega
          obtain ⟨same, left⟩ := ih rest fits fits'
          rw [reads, reads']
          exact ⟨congrArg (List.cons a) same, left⟩

theorem Steady.many (h : p.Steady) (advances : p.Advances) : (Pattern.many p).Steady := by
  intro s t wider
  obtain ⟨same, rest⟩ := h.repeated advances wider (Nat.le_refl _) (Nat.le_refl _)
  exact .some ⟨same, rest⟩

theorem Advances.map (h : p.Advances) (f : α → β) : (Pattern.map f p).Advances := by
  intro s b t reads
  obtain ⟨⟨a, rest⟩, first, last⟩ := Option.map_eq_some_iff.1 reads
  cases last
  exact h s a _ first

theorem Advances.first (h : p.Advances) {Q : β → Prop} (g : ∀ text, q.Yields text Q) :
    (Pattern.pair p q).Advances := by
  intro s both u reads
  obtain ⟨⟨a, t⟩, first, reads⟩ := Option.bind_eq_some_iff.1 reads
  obtain ⟨⟨b, rest⟩, second, reads⟩ := Option.bind_eq_some_iff.1 reads
  cases reads
  have left := (g t t b _ (List.suffix_refl t) second).2.length_le
  exact Nat.lt_of_le_of_lt left (h s a t first)

theorem Advances.second {P : α → Prop} (h : ∀ text, p.Yields text P) (g : q.Advances) :
    (Pattern.pair p q).Advances := by
  intro s both u reads
  obtain ⟨⟨a, t⟩, first, reads⟩ := Option.bind_eq_some_iff.1 reads
  obtain ⟨⟨b, rest⟩, second, reads⟩ := Option.bind_eq_some_iff.1 reads
  cases reads
  have left := (h s s a t (List.suffix_refl s) first).2.length_le
  exact Nat.lt_of_lt_of_le (g t b _ second) left

theorem Advances.either {q : Pattern α} (h : p.Advances) (g : q.Advances) :
    (Pattern.either p q).Advances := by
  intro s a t reads
  rw [Reads, run_either, Option.or_eq_some_iff] at reads
  rcases reads with first | ⟨-, second⟩
  · exact h s a t first
  · exact g s a t second

theorem Advances.lexeme (h : p.Advances) : (lexeme p).Advances :=
  (h.first fun _ => blanks_yields).map Prod.fst

end Pattern

namespace Grammar

theorem filler_advances : filler.Advances := by
  have blanks : (token scanBlanks).Advances := by
    intro s _ t scanned
    rw [Reads, run_token] at scanned
    unfold scanBlanks at scanned
    split at scanned
    · split at scanned
      · cases scanned
        exact Nat.lt_succ_of_le (List.dropWhile_suffix _).length_le
      · cases scanned
    · cases scanned
  have comments : (token scanComment).Advances := by
    intro s _ t scanned
    rw [Reads, run_token] at scanned
    unfold scanComment at scanned
    split at scanned
    · cases scanned
      exact Nat.lt_succ_of_le (List.dropWhile_suffix _).length_le
    · cases scanned
  exact blanks.either (q := comment) comments

theorem blanks_steady : blanks.Steady := by
  have fillers : filler.Steady :=
    Steady.either (p := token scanBlanks) (fun _ _ => scanBlanks_widened) (q := comment)
      fun _ _ => scanComment_widened
  exact (fillers.many filler_advances).map _

theorem lexeme_steady {p : Pattern α} (h : p.Steady) : (lexeme p).Steady :=
  h.before blanks_steady

def IsSymbol (text : String) : Prop :=
  text ≠ "" ∧ ∀ c ∈ text.toList, IsSolid c

instance : DecidablePred IsSymbol := fun text =>
  have : Decidable (∀ c ∈ text.toList, IsSolid c) := List.decidableBAll _ text.toList
  inferInstanceAs (Decidable (_ ∧ _))

theorem literal_steady {text : String} (symbol : IsSymbol text) : (literal text).Steady :=
  fun _ _ => scanText_widened symbol.2

theorem literal_advances {text : String} (symbol : IsSymbol text) : (literal text).Advances := by
  intro s _ t scanned
  rw [Reads, literal, run_token, scanText] at scanned
  split at scanned
  next starts =>
    cases scanned
    have positive : text.toList.length ≠ 0 := by simpa using symbol.1
    have least := (List.isPrefixOf_iff_prefix.1 starts).length_le
    rw [List.length_drop]
    omega
  next => cases scanned

theorem oneOf_steady {value : α} {others : List (String × α)} {text : String}
    (symbol : IsSymbol text) (symbols : ∀ other ∈ others, IsSymbol other.1) :
    (oneOf text value others).Steady ∧ (oneOf text value others).Advances := by
  induction others generalizing text value with
  | nil => exact ⟨(literal_steady symbol).map _, (literal_advances symbol).map _⟩
  | cons other others ih =>
    obtain ⟨first, rest⟩ := List.forall_mem_cons.1 symbols
    obtain ⟨steady, advances⟩ := ih first rest
    exact ⟨((literal_steady symbol).map _).either steady,
      ((literal_advances symbol).map _).either advances⟩

theorem keyword_steady {words : List String} (solid : SolidWords words) :
    (keyword words).Steady :=
  fun _ _ => scanKeyword_widened solid

theorem keyword_advances {words : List String} (some : ∀ w ∈ words, w ≠ "") :
    (keyword words).Advances := by
  intro s word t scanned
  obtain ⟨w, member, fits⟩ := List.exists_of_findSome?_eq_some scanned
  obtain ⟨rest, after, fits⟩ := Option.bind_eq_some_iff.1 fits
  have left : rest = t := by
    split at fits
    · cases fits
    · cases fits
      rfl
  subst left
  -- Its first letter, or the first blank, is no longer there.
  cases letters : w.toList with
  | nil => exact absurd (String.toList_eq_nil_iff.1 letters) (some w member)
  | cons letter word =>
    rw [letters] at after
    cases s with
    | nil =>
      rw [afterWord] at after
      split at after <;> cases after
    | cons c s =>
      rw [afterWord] at after
      split at after
      · split at after
        · have ends := (suffix_afterWord after).trans (List.dropWhile_suffix Text.isBlank)
          exact Nat.lt_succ_of_le ends.length_le
        · cases after
      · split at after
        · exact Nat.lt_succ_of_le (suffix_afterWord after).length_le
        · cases after

theorem sign_steady : sign.Steady :=
  (oneOf_steady (by decide) (by decide)).1

theorem sign_advances : sign.Advances :=
  (oneOf_steady (by decide) (by decide)).2

theorem senseKeyword_steady : senseKeyword.Steady := by
  have solid : SolidWords ["maximize", "maximise", "maximum", "max",
      "minimize", "minimise", "minimum", "min"] := by decide
  exact fun _ _ wider => (scanKeyword_widened solid wider).map
    fun word => if word.startsWith "max" then Sense.maximize else Sense.minimize

theorem solid_of_digit (c : Char) (d : Nat) (value : digit? c = some d) : IsSolid c := by
  have isDigit : (digit? c).isSome = true := by rw [value]; rfl
  exact isSolid_of (p := fun c => (digit? c).isSome) (by decide) (by decide) isDigit

theorem number_steady : number.Steady :=
  fun _ _ wider => (Numeral.scan_widened solid_of_digit wider).map _

theorem signedNumber_steady : signedNumber.Steady :=
  ((lexeme_steady sign_steady.maybe).pair number_steady).map _

theorem boundValue_steady : boundValue.Steady :=
  Steady.either (p := infinity) (fun _ _ wider => (scanInfinity_widened wider).map _)
    signedNumber_steady

theorem reserved_steady : reserved.Steady :=
  have subject : subjectKeyword.Steady := keyword_steady (by decide)
  have bounds : boundsKeyword.Steady := keyword_steady (by decide)
  have generals : generalsKeyword.Steady := keyword_steady (by decide)
  have binaries : binariesKeyword.Steady := keyword_steady (by decide)
  have ending : endKeyword.Steady := keyword_steady (by decide)
  .rule (subject.either (bounds.either (generals.either (binaries.either ending))))

theorem variableName_steady : variableName.Steady :=
  reserved_steady.unless.after fun _ _ => scanName_widened

theorem variableName_advances : variableName.Advances := by
  have name : (token scanName).Advances := by
    intro s x t scanned
    rw [Reads, run_token] at scanned
    unfold scanName at scanned
    split at scanned
    · cases scanned
    · split at scanned
      · cases scanned
        exact Nat.lt_succ_of_le (List.dropWhile_suffix _).length_le
      · cases scanned
  exact (Advances.second (fun _ => yields_unless reserved) name).map Prod.snd

theorem symbol_steady {text : String} (symbol : IsSymbol text) :
    (lexeme (literal text)).Steady :=
  lexeme_steady (literal_steady symbol)

theorem symbol_yields (word : String) (text : List Char) :
    (lexeme (literal word)).Yields text fun _ => True :=
  Yields.lexeme (literal_yields word)

theorem name_steady : (lexeme variableName).Steady :=
  lexeme_steady variableName_steady

theorem name_yields (text : List Char) : (lexeme variableName).Yields text (· ≠ "") :=
  Yields.lexeme variableName_nonempty

theorem label_steady : label.Steady :=
  (name_steady.before (symbol_steady (by decide))).rule

theorem bound_steady : bound.Steady := by
  have value : (lexeme boundValue).Steady := lexeme_steady boundValue_steady
  have atMost : (lexeme atMost).Steady := lexeme_steady (oneOf_steady (by decide) (by decide)).1
  have atLeast : (lexeme atLeast).Steady := lexeme_steady (oneOf_steady (by decide) (by decide)).1
  have both : doubleBound.Steady :=
    ((value.before atMost).pair ((name_steady.before atMost).pair value)).map _
  have lower : lowerBound.Steady := ((value.before atMost).pair name_steady).map _
  have free : freeBound.Steady :=
    (name_steady.before (lexeme_steady (keyword_steady (by decide)))).map _
  have upper : upperBound.Steady := ((name_steady.before atMost).pair value).map _
  have below : atLeastBound.Steady := ((name_steady.before atLeast).pair value).map _
  have fixed : fixedBound.Steady := ((name_steady.before (symbol_steady (by decide))).pair value).map _
  exact (both.either (lower.either (free.either (upper.either (below.either fixed))))).rule

theorem bound_advances : bound.Advances := by
  have name : (lexeme variableName).Advances := variableName_advances.lexeme
  have value (text : List Char) : (lexeme boundValue).Yields text (·.isNaN = false) :=
    Yields.lexeme boundValue_yields
  have atMost (text : List Char) : (lexeme atMost).Yields text fun _ => True :=
    Yields.lexeme (.rule (oneOf_yields _ _ _))
  have atLeast (text : List Char) : (lexeme atLeast).Yields text fun _ => True :=
    Yields.lexeme (.rule (oneOf_yields _ _ _))
  have least (text : List Char) : (before (lexeme boundValue) (lexeme Grammar.atMost)).Yields text
      (·.isNaN = false) := (value text).before (atMost text)
  have before {β : Type} {q : Pattern β} (g : ∀ text, q.Yields text fun _ => True) :
      (Pattern.before (lexeme variableName) q).Advances := (name.first g).map Prod.fst
  have both : doubleBound.Advances := (Advances.second least ((before atMost).first value)).map _
  have lower : lowerBound.Advances := (Advances.second least name).map _
  have word (text : List Char) : (lexeme freeKeyword).Yields text fun _ => True :=
    Yields.lexeme (keyword_yields freeWords)
  have free : freeBound.Advances := (before word).map _
  have upper : upperBound.Advances := ((before atMost).first value).map _
  have below : atLeastBound.Advances := ((before atLeast).first value).map _
  have fixed : fixedBound.Advances := ((before (symbol_yields "=")).first value).map _
  exact both.either (lower.either (free.either (upper.either (below.either fixed))))

theorem nameList_steady : nameList.Steady :=
  (name_steady.many variableName_advances.lexeme).rule

theorem anySection_steady : anySection.Steady := by
  have heading {words : List String} (solid : SolidWords words) :
      (lexeme (keyword words)).Steady := lexeme_steady (keyword_steady solid)
  have bounds : boundsSection.Steady :=
    ((heading (by decide)).after (bound_steady.many bound_advances)).map _
  have general : generalsSection.Steady := ((heading (by decide)).after nameList_steady).map _
  have binary : binariesSection.Steady := ((heading (by decide)).after nameList_steady).map _
  exact (bounds.either (general.either binary)).rule

theorem anySection_advances : anySection.Advances := by
  have heading {words : List String} (some : ∀ w ∈ words, w ≠ "") :
      (lexeme (keyword words)).Advances := (keyword_advances some).lexeme
  have bounds : boundsSection.Advances :=
    (((heading (by decide)).first fun _ => (bound_yields variableName_nonempty).many).map _).map _
  have general : generalsSection.Advances :=
    (((heading (by decide)).first fun _ => nameList_yields variableName_nonempty).map _).map _
  have binary : binariesSection.Advances :=
    (((heading (by decide)).first fun _ => nameList_yields variableName_nonempty).map _).map _
  exact bounds.either (general.either binary)

theorem anySign_steady : (lexeme (maybe sign)).Steady :=
  lexeme_steady sign_steady.maybe

theorem signed_advances {p : Pattern α} {P : α → Prop} (yields : ∀ text, p.Yields text P) :
    (pair (lexeme sign) p).Advances :=
  sign_advances.lexeme.first yields

theorem quadraticTerm_steady : quadraticTerm.Steady := by
  have square : square.Steady :=
    ((symbol_steady (by decide)).pair (symbol_steady (by decide))).map _
  have product : product.Steady := ((symbol_steady (by decide)).after name_steady).map _
  have coefficient : leadingCoefficient.Steady := lexeme_steady number_steady
  exact (anySign_steady.pair (coefficient.maybe.pair
    (name_steady.pair (product.either square).rule))).map _

theorem quadraticBlock_steady : quadraticBlock.Steady := by
  have others := ((lexeme_steady sign_steady).pair quadraticTerm_steady).many
    (signed_advances fun _ => quadraticTerm_yields variableName_nonempty)
  have divisor : divisor.Steady :=
    ((symbol_steady (by decide)).after (lexeme_steady number_steady)).rule
  exact ((symbol_steady (by decide)).after (quadraticTerm_steady.pair (others.pair
    ((symbol_steady (by decide)).after divisor.maybe)))).map _

theorem term_steady : term.Steady := by
  have product : coefficientName.Steady :=
    ((lexeme_steady number_steady).pair variableName_steady).map _
  have body : termBody.Steady := quadraticBlock_steady.either
    (product.either ((number_steady.map _).either (variableName_steady.map _)))
  exact (anySign_steady.pair (lexeme_steady body)).map _

theorem expression_steady : expression.Steady :=
  (term_steady.pair (((lexeme_steady sign_steady).pair term_steady).many
    (signed_advances fun _ => term_yields variableName_nonempty))).map _

theorem row_steady : row.Steady := by
  have comparison : comparison.Steady := (oneOf_steady (by decide) (by decide)).1
  exact (label_steady.maybe.pair (expression_steady.maybe.pair
    ((lexeme_steady comparison).pair (lexeme_steady signedNumber_steady)))).map _

theorem row_advances : row.Advances := by
  have comparison : comparison.Advances := (oneOf_steady (by decide) (by decide)).2
  have sides : (pair (lexeme Grammar.comparison) (lexeme signedNumber)).Advances :=
    comparison.lexeme.first fun _ => Yields.lexeme signedNumber_yields
  exact (Advances.second (fun _ => (label_yields variableName_nonempty).maybe)
    (Advances.second (fun _ => (expression_yields variableName_nonempty).maybe) sides)).map _

theorem document_steady : document.Steady := by
  have objective : objectiveSection.Steady := ((lexeme_steady senseKeyword_steady).pair
    (label_steady.maybe.pair expression_steady.maybe)).map _
  have rows : rowsSection.Steady :=
    ((lexeme_steady (keyword_steady (by decide))).after (row_steady.many row_advances)).rule
  have ending : (lexeme endKeyword).Steady := lexeme_steady (keyword_steady (by decide))
  exact (blanks_steady.after (objective.pair (rows.maybe.pair
    ((anySection_steady.many anySection_advances).before ending)))).map _

end Grammar

namespace Document

theorem ofText_iff {text : String} {d : Document} :
    ofText text = .ok d ↔ Describes text d ∧ hasNewDigit text = false := by
  constructor
  · intro read
    refine ⟨describes_of_ofText read, ?_⟩
    obtain ⟨found, -, rest⟩ := bind_eq_ok.1 read
    cases digit : hasNewDigit text with
    | false => rfl
    | true =>
      rw [digit] at rest
      cases rest
  · rintro ⟨describes, known⟩
    rcases read_cases text with ⟨d', describes', read⟩ | ⟨none, -⟩
    · rw [describes.iff.1 describes'] at read
      rw [ofText, read, known]
      rfl
    · exact absurd ⟨d, describes⟩ none

theorem hasNewDigit_cons (inside : Bool) (c : Char) (s : List Char) :
    hasNewDigit.go inside (c :: s) =
      (!inside && Text.isNewDigit c || hasNewDigit.go (staysInComment inside c) s) := by
  cases inside <;> rfl

theorem hasNewDigit_blanks {bs : List Char} (blanks : ∀ b ∈ bs, Text.isBlank b = true)
    (s : List Char) : hasNewDigit.go false (bs ++ s) = hasNewDigit.go false s := by
  induction bs with
  | nil => rfl
  | cons b bs ih =>
    obtain ⟨blank, others⟩ := List.forall_mem_cons.1 blanks
    have known : Text.isNewDigit b = false ∧ staysInComment false b = false := forall_blank
      (p := fun b => Text.isNewDigit b = false ∧ staysInComment false b = false) (by decide) blank
    rw [List.cons_append, hasNewDigit_cons, known.1, known.2, Bool.and_false, Bool.false_or]
    exact ih others

theorem hasNewDigit_widened {inside : Bool} {s t : List Char} (wider : Widened inside s t) :
    hasNewDigit.go inside t = hasNewDigit.go inside s := by
  induction wider with
  | same => rfl
  | more _ outside blanks s =>
    rw [hasNewDigit_cons, hasNewDigit_cons, outside, hasNewDigit_blanks blanks]
  | later rest ih => rw [hasNewDigit_cons, hasNewDigit_cons, ih]

/-- How many blanks stand where one stands outside a comment, and which ones, does not matter. -/
theorem ofText_widened (front rest more : List Char) (c : Char) (blank : Text.isBlank c = true)
    (outside : endsInComment (front ++ [c]) = false) (blanks : ∀ b ∈ more, Text.isBlank b = true)
    (d : Document) : ofText (String.ofList (front ++ c :: (more ++ rest))) = .ok d ↔
      ofText (String.ofList (front ++ c :: rest)) = .ok d := by
  have wider := widened_append blank blanks rest front outside
  have known : hasNewDigit (String.ofList (front ++ c :: (more ++ rest))) =
      hasNewDigit (String.ofList (front ++ c :: rest)) := by
    simpa only [hasNewDigit, String.toList_ofList] using hasNewDigit_widened wider
  rw [ofText_iff, ofText_iff, known, Describes, Describes, String.toList_ofList,
    String.toList_ofList, Reads, Reads]
  refine and_congr_left fun _ => ?_
  -- The document is read alike from both texts, and both have come to their ends or neither has.
  rcases (Grammar.document_steady _ _ wider).cases with
    ⟨fails, fails'⟩ | ⟨e, s, t, reads, reads', left⟩
  · rw [fails, fails']
  · have ends : t = [] ↔ s = [] := by
      rw [← List.isEmpty_iff, ← List.isEmpty_iff, left.isEmpty]
    rw [reads, reads', Option.some.injEq, Option.some.injEq, Prod.mk.injEq, Prod.mk.injEq, ends]

def Sample.commented : Document where
  objective := { sense := .maximize, label := none, summands := [.linear (Binary64.ofInt 1) "x"] }
  rows := [{
    label := none, summands := [.linear (Binary64.ofInt 1) "x"], comparison := .le
    rhs := Binary64.ofInt 3 }]

theorem sample_ofText_widened :
    Text.isBlank '\n' = true ∧ endsInComment ("max x \\ all".toList ++ ['\n']) = false ∧
    (∀ b ∈ ['\n', '\t'], Text.isBlank b = true) ∧
    ofText (String.ofList
      ("max x \\ all".toList ++ '\n' :: (['\n', '\t'] ++ "such that x <= 3 end".toList))) =
        .ok Sample.commented := by
  have blank : Text.isBlank '\n' = true := by decide
  have outside : endsInComment ("max x \\ all".toList ++ ['\n']) = false := by decide +kernel
  have blanks : ∀ b ∈ ['\n', '\t'], Text.isBlank b = true :=
    List.forall_mem_cons.2 ⟨blank, List.forall_mem_singleton.2 (by decide)⟩
  have single : ofText (String.ofList
      ("max x \\ all".toList ++ '\n' :: "such that x <= 3 end".toList)) = .ok Sample.commented :=
    ofText_iff.2 ⟨by decide +kernel, by decide +kernel⟩
  exact ⟨blank, outside, blanks, (ofText_widened _ _ _ '\n' blank outside blanks _).2 single⟩

end Document

end LpText

end LinOpt
