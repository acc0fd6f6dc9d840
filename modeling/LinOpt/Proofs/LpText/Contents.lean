import LinOpt.Proofs.LpText.Pattern

namespace LinOpt.LpText

namespace Pattern

/-- Whatever the pattern reads in a text has the property, and an end of the text is left. -/
def Yields (p : Pattern α) (text : List Char) (P : α → Prop) : Prop :=
  ∀ s a t, s <:+ text → p.Reads s a t → P a ∧ t <:+ text

variable {text : List Char} {p : Pattern α} {q : Pattern β} {P : α → Prop} {Q : β → Prop}

theorem Yields.token {scan : List Char → Option (α × List Char)}
    (scans : ∀ s a t, scan s = some (a, t) → P a ∧ t <:+ s) : (token scan).Yields text P := by
  intro s a t inside reads
  obtain ⟨property, rest⟩ := scans s a t reads
  exact ⟨property, rest.trans inside⟩

theorem Yields.map (h : p.Yields text P) {f : α → β} (step : ∀ a, P a → Q (f a)) :
    (Pattern.map f p).Yields text Q := by
  intro s b t inside reads
  obtain ⟨⟨a, rest⟩, first, last⟩ := Option.map_eq_some_iff.1 reads
  cases last
  obtain ⟨property, left⟩ := h s a _ inside first
  exact ⟨step a property, left⟩

theorem Yields.pair (h : p.Yields text P) (g : q.Yields text Q) :
    (Pattern.pair p q).Yields text fun both => P both.1 ∧ Q both.2 := by
  intro s both u inside reads
  obtain ⟨⟨a, t⟩, first, reads⟩ := Option.bind_eq_some_iff.1 reads
  obtain ⟨⟨b, rest⟩, second, reads⟩ := Option.bind_eq_some_iff.1 reads
  cases reads
  obtain ⟨one, between⟩ := h s a t inside first
  obtain ⟨other, left⟩ := g t b _ between second
  exact ⟨⟨one, other⟩, left⟩

theorem Yields.before (h : p.Yields text P) (g : q.Yields text Q) :
    (Pattern.before p q).Yields text P :=
  (h.pair g).map fun _ both => both.1

theorem Yields.after (h : p.Yields text P) (g : q.Yields text Q) :
    (Pattern.after p q).Yields text Q :=
  (h.pair g).map fun _ both => both.2

theorem Yields.either {q : Pattern α} (h : p.Yields text P) (g : q.Yields text P) :
    (Pattern.either p q).Yields text P := by
  intro s a t inside reads
  rw [Reads, run_either, Option.or_eq_some_iff] at reads
  rcases reads with first | ⟨-, second⟩
  · exact h s a t inside first
  · exact g s a t inside second

theorem Yields.maybe (h : p.Yields text P) :
    (Pattern.maybe p).Yields text fun a? => ∀ a ∈ a?, P a := by
  have absent (s : List Char) (inside : s <:+ text) :
      (∀ a ∈ (none : Option α), P a) ∧ s <:+ text := ⟨by simp, inside⟩
  intro s a? t inside reads
  rw [Reads, run_maybe] at reads
  split at reads
  · cases reads
    exact absent s inside
  · rw [Option.or_eq_some_iff] at reads
    rcases reads with given | ⟨-, none⟩
    · obtain ⟨⟨b, rest⟩, first, same⟩ := Option.map_eq_some_iff.1 given
      cases same
      obtain ⟨property, left⟩ := h s b t inside first
      exact ⟨by simpa using property, left⟩
    · cases none
      exact absent s inside

theorem Yields.repeated (h : p.Yields text P) (limit : List Char) {s : List Char}
    (inside : s <:+ text) : (∀ a ∈ (repeated (run p) limit s).1, P a) ∧
      (Pattern.repeated (run p) limit s).2 <:+ text := by
  induction limit generalizing s with
  | nil => exact ⟨List.forall_mem_nil _, inside⟩
  | cons c limit ih =>
    rw [Pattern.repeated]
    split
    · exact ⟨List.forall_mem_nil _, inside⟩
    · split
      next => exact ⟨List.forall_mem_nil _, inside⟩
      next a rest found =>
        obtain ⟨property, left⟩ := h s a rest inside found
        obtain ⟨others, left⟩ := ih left
        exact ⟨List.forall_mem_cons.2 ⟨property, others⟩, left⟩

theorem Yields.many (h : p.Yields text P) :
    (Pattern.many p).Yields text fun as => ∀ a ∈ as, P a := by
  intro s as t inside reads
  have found : Pattern.repeated (run p) s s = (as, t) := Option.some.inj reads
  have read := h.repeated s inside
  rwa [found] at read

theorem yields_unless (p : Pattern α) : (Pattern.unless p).Yields text fun _ => True := by
  intro s a t inside reads
  rw [Reads, run_unless] at reads
  split at reads
  · cases reads
  · cases reads
    exact ⟨trivial, inside⟩

theorem Yields.rule (h : p.Yields text P) : (Pattern.rule p).Yields text P :=
  h

end Pattern

open Pattern

def Summand.Named (P : String → Prop) (s : Summand) : Prop :=
  ∀ x ∈ s.names, P x

structure BoundEntry.Sound (P : String → Prop) (entry : BoundEntry) : Prop where
  named : P entry.name
  lower : ∀ x ∈ entry.lower, x.isNaN = false
  upper : ∀ x ∈ entry.upper, x.isNaN = false

def Section.Sound (P : String → Prop) : Section → Prop
  | .bounds entries => ∀ entry ∈ entries, entry.Sound P
  | .general names | .binary names => ∀ x ∈ names, P x

structure Document.Sound (P : String → Prop) (d : Document) : Prop where
  objective : ∀ s ∈ d.objective.summands, s.Named P
  rows : ∀ row ∈ d.rows, ∀ s ∈ row.summands, s.Named P
  bounds : ∀ entry ∈ d.bounds, entry.Sound P
  general : ∀ x ∈ d.general, P x
  binary : ∀ x ∈ d.binary, P x

variable {P : String → Prop} {text : List Char}

theorem Document.Sound.addSection {d : Document} (h : d.Sound P) {part : Section}
    (sound : part.Sound P) : (d.addSection part).Sound P := by
  cases part with
  | bounds entries =>
    exact { h with bounds := List.forall_mem_append.2 ⟨h.bounds, sound⟩ }
  | general names =>
    exact { h with general := List.forall_mem_append.2 ⟨h.general, sound⟩ }
  | binary names =>
    exact { h with binary := List.forall_mem_append.2 ⟨h.binary, sound⟩ }

theorem Document.Sound.addSections {d : Document} (h : d.Sound P) {parts : List Section}
    (sound : ∀ part ∈ parts, part.Sound P) : (parts.foldl Document.addSection d).Sound P := by
  induction parts generalizing d with
  | nil => exact h
  | cons part parts ih =>
    obtain ⟨first, others⟩ := List.forall_mem_cons.1 sound
    exact ih (h.addSection first) others

namespace Summand

theorem Named.mapCoefficient {s : Summand} (h : s.Named P) (f : Binary64 → Binary64) :
    (s.mapCoefficient f).Named P := by
  cases s <;> exact h

theorem Named.signed {s : Summand} (h : s.Named P) (negative : Bool) :
    (s.signed negative).Named P := by
  unfold Summand.signed
  split
  · exact h.mapCoefficient _
  · exact h

end Summand

theorem not_isNaN_ofDecimal (negative : Bool) (d : Decimal) :
    (Binary64.ofDecimal negative d).isNaN = false := by
  have quotient (num den : Nat) : (Binary64.ofQuotient negative num den).isNaN = false := by
    unfold Binary64.ofQuotient
    dsimp only
    split <;> rfl
  unfold Binary64.ofDecimal
  dsimp only
  repeat' split
  · rfl
  · rfl
  · rfl
  · exact quotient _ _
  · exact quotient _ _

theorem not_isNaN_signedBy {x : Binary64} (number : x.isNaN = false) (negative : Option Bool) :
    (Grammar.signedBy negative x).isNaN = false := by
  unfold Grammar.signedBy
  split
  · cases x with
    | nan => cases number
    | infinite negative => rfl
    | finite negative quanta short bound => rfl
  · exact number

theorem suffix_dropWhile {s t : List Char} (p : Char → Bool) (c : Char)
    (rest : s.dropWhile p = t) : t <:+ c :: s :=
  rest ▸ (List.dropWhile_suffix p).trans (List.suffix_cons c s)

theorem suffix_afterWord {word s t : List Char} (h : afterWord word s = some t) : t <:+ s := by
  induction word generalizing s with
  | nil =>
    cases h
    exact List.suffix_refl _
  | cons letter word ih =>
    cases s with
    | nil =>
      rw [afterWord] at h
      split at h <;> cases h
    | cons c s =>
      rw [afterWord] at h
      split at h
      · split at h
        · exact (ih h).trans (suffix_dropWhile Text.isBlank c rfl)
        · cases h
      · split at h
        · exact (ih h).trans (List.suffix_cons c s)
        · cases h

theorem suffix_scanKeyword {words : List String} {s t : List Char} {word : String}
    (h : scanKeyword words s = some (word, t)) : t <:+ s := by
  obtain ⟨w, -, fits⟩ := List.exists_of_findSome?_eq_some h
  obtain ⟨rest, after, fits⟩ := Option.bind_eq_some_iff.1 fits
  split at fits
  · cases fits
  · cases fits
    exact suffix_afterWord after

theorem suffix_scanInfinity {s t : List Char} {negative : Bool}
    (h : scanInfinity s = some (negative, t)) : t <:+ s := by
  have signed (s' : List Char) (sign : s' <:+ s) {word : String}
      (fits : scanKeyword infinityWords (s'.dropWhile Text.isBlank) = some (word, t)) : t <:+ s :=
    ((suffix_scanKeyword fits).trans (List.dropWhile_suffix _)).trans sign
  obtain ⟨⟨word, rest⟩, fits, same⟩ := Option.map_eq_some_iff.1 h
  cases same
  split at fits
  · exact signed _ (List.suffix_cons _ _) fits
  · exact signed _ (List.suffix_cons _ _) fits
  · exact signed _ (List.suffix_refl _) fits

theorem suffix_digits {digit? : Char → Option Nat} {s t : List Char} {ds : List Nat}
    (h : Numeral.digits digit? s = (ds, t)) : t <:+ s := by
  induction s generalizing ds with
  | nil =>
    cases h
    exact List.suffix_refl _
  | cons c s ih =>
    rw [Numeral.digits] at h
    split at h
    · cases h
      exact (ih rfl).trans (List.suffix_cons c s)
    · cases h
      exact List.suffix_refl _

theorem suffix_fraction (digit? : Char → Option Nat) (s : List Char) :
    (Numeral.fraction digit? s).2 <:+ s := by
  unfold Numeral.fraction
  split
  · exact (suffix_digits rfl).trans (List.suffix_cons _ _)
  · exact List.suffix_refl _

theorem suffix_power (digit? : Char → Option Nat) (s : List Char) :
    (Numeral.power digit? s).2 <:+ s := by
  have sign (s : List Char) : (Numeral.sign s).2 <:+ s := by
    unfold Numeral.sign
    split
    · exact List.suffix_cons _ _
    · exact List.suffix_cons _ _
    · exact List.suffix_refl _
  cases s with
  | nil => exact List.suffix_refl _
  | cons e s =>
    rw [Numeral.power]
    dsimp only
    split
    next => exact List.suffix_refl _
    next d ds rest found =>
      split
      · exact ((suffix_digits found).trans (sign s)).trans (List.suffix_cons e s)
      · exact List.suffix_refl _

theorem suffix_scan {digit? : Char → Option Nat} {s t : List Char} {d : Decimal}
    (h : Numeral.scan digit? s = some (d, t)) : t <:+ s := by
  unfold Numeral.scan at h
  dsimp only at h
  split at h
  · cases h
  · cases h
    exact ((suffix_power digit? _).trans (suffix_fraction digit? _)).trans (suffix_digits rfl)

theorem scanName_nonempty {s t : List Char} {x : String} (h : scanName s = some (x, t)) :
    x ≠ "" ∧ t <:+ s := by
  unfold scanName at h
  split at h
  · cases h
  · split at h
    · cases h
      exact ⟨by simp, suffix_dropWhile isNameChar _ rfl⟩
    · cases h

namespace Grammar

theorem blanks_yields : blanks.Yields text fun _ => True := by
  have spaces : (token scanBlanks).Yields text fun _ => True := by
    refine .token fun s _ t scanned => ⟨trivial, ?_⟩
    unfold scanBlanks at scanned
    split at scanned
    · split at scanned
      · cases scanned
        exact suffix_dropWhile Text.isBlank _ rfl
      · cases scanned
    · cases scanned
  have comments : comment.Yields text fun _ => True := by
    refine .rule (.token fun s _ t scanned => ⟨trivial, ?_⟩)
    unfold scanComment at scanned
    split at scanned
    · cases scanned
      exact suffix_dropWhile _ _ rfl
    · cases scanned
  exact .rule ((Yields.rule (spaces.either comments)).many.map fun _ _ => trivial)

theorem Yields.lexeme {p : Pattern α} {P : α → Prop} (h : p.Yields text P) :
    (lexeme p).Yields text P :=
  h.before blanks_yields

theorem literal_yields (word : String) : (literal word).Yields text fun _ => True := by
  refine .token fun s _ t scanned => ⟨trivial, ?_⟩
  unfold scanText at scanned
  split at scanned
  · cases scanned
    exact List.drop_suffix _ _
  · cases scanned

theorem oneOf_yields (word : String) (value : α) (others : List (String × α)) :
    (oneOf word value others).Yields text fun _ => True := by
  induction others generalizing word value with
  | nil => exact (literal_yields word).map fun _ _ => trivial
  | cons other others ih =>
    exact ((literal_yields word).map fun _ _ => trivial).either (ih other.1 other.2)

theorem keyword_yields (words : List String) : (keyword words).Yields text fun _ => True :=
  .rule (.token fun _ _ _ scanned => ⟨trivial, suffix_scanKeyword scanned⟩)

theorem sign_yields : sign.Yields text fun _ => True :=
  .rule (oneOf_yields _ _ _)

theorem senseKeyword_yields : senseKeyword.Yields text fun _ => True := by
  refine .rule (.token fun s _ t scanned => ⟨trivial, ?_⟩)
  obtain ⟨⟨word, rest⟩, fits, same⟩ := Option.map_eq_some_iff.1 scanned
  cases same
  exact suffix_scanKeyword fits

theorem number_yields : number.Yields text (·.isNaN = false) := by
  have scanned : (token (Numeral.scan digit?)).Yields text fun _ => True :=
    .token fun _ _ _ scanned => ⟨trivial, suffix_scan scanned⟩
  exact .rule (scanned.map fun d _ => not_isNaN_ofDecimal false d)

theorem signedNumber_yields : signedNumber.Yields text (·.isNaN = false) :=
  .rule (((Yields.lexeme sign_yields.maybe).pair number_yields).map fun both number =>
    not_isNaN_signedBy number.2 both.1)

theorem boundValue_yields : boundValue.Yields text (·.isNaN = false) := by
  have scanned : (token scanInfinity).Yields text fun _ => True :=
    .token fun _ _ _ scanned => ⟨trivial, suffix_scanInfinity scanned⟩
  have isInfinite : infinity.Yields text (·.isNaN = false) := .rule (scanned.map fun _ _ => rfl)
  exact .rule (isInfinite.either signedNumber_yields)

theorem variableName_nonempty : variableName.Yields text (· ≠ "") :=
  .rule ((yields_unless _).after (.token fun _ _ _ => scanName_nonempty))

variable (named : variableName.Yields text P)

include named

theorem label_yields : label.Yields text P :=
  .rule ((Yields.lexeme named).before (Yields.lexeme (literal_yields _)))

theorem bound_yields : bound.Yields text (BoundEntry.Sound P) := by
  have name := Yields.lexeme named
  have value : (lexeme boundValue).Yields text (·.isNaN = false) := Yields.lexeme boundValue_yields
  have atMost : (lexeme atMost).Yields text fun _ => True :=
    Yields.lexeme (.rule (oneOf_yields _ _ _))
  have atLeast : (lexeme atLeast).Yields text fun _ => True :=
    Yields.lexeme (.rule (oneOf_yields _ _ _))
  have both : doubleBound.Yields text (BoundEntry.Sound P) :=
    .rule (((value.before atMost).pair ((name.before atMost).pair value)).map
      fun ⟨lower, x, upper⟩ ⟨isLower, named, isUpper⟩ =>
        { named, lower := by simpa using isLower, upper := by simpa using isUpper })
  have lower : lowerBound.Yields text (BoundEntry.Sound P) :=
    .rule (((value.before atMost).pair name).map fun ⟨lower, x⟩ ⟨isLower, named⟩ =>
      { named, lower := by simpa using isLower, upper := by simp })
  have free : freeBound.Yields text (BoundEntry.Sound P) :=
    .rule ((name.before (Yields.lexeme (keyword_yields _))).map fun x named =>
      { named, lower := by simp [Binary64.isNaN], upper := by simp [Binary64.isNaN] })
  have upper : upperBound.Yields text (BoundEntry.Sound P) :=
    .rule (((name.before atMost).pair value).map fun ⟨x, upper⟩ ⟨named, isUpper⟩ =>
      { named, lower := by simp, upper := by simpa using isUpper })
  have below : atLeastBound.Yields text (BoundEntry.Sound P) :=
    .rule (((name.before atLeast).pair value).map fun ⟨x, lower⟩ ⟨named, isLower⟩ =>
      { named, lower := by simpa using isLower, upper := by simp })
  have fixed : fixedBound.Yields text (BoundEntry.Sound P) :=
    .rule (((name.before (Yields.lexeme (literal_yields _))).pair value).map
      fun ⟨x, value⟩ ⟨named, number⟩ =>
        { named, lower := by simpa using number, upper := by simpa using number })
  -- A bound on both sides begins like one on the lower side, so it is tried first.
  exact .rule (both.either (lower.either (free.either (upper.either (below.either fixed)))))

theorem nameList_yields : nameList.Yields text fun names => ∀ x ∈ names, P x :=
  .rule (Yields.lexeme named).many

theorem anySection_yields : anySection.Yields text (Section.Sound P) := by
  have heading (words : List String) : (lexeme (keyword words)).Yields text fun _ => True :=
    Yields.lexeme (keyword_yields words)
  have bounds : boundsSection.Yields text (Section.Sound P) :=
    .rule (((heading _).after (bound_yields named).many).map fun _ sound => sound)
  have general : generalsSection.Yields text (Section.Sound P) :=
    .rule (((heading _).after (nameList_yields named)).map fun _ named => named)
  have binary : binariesSection.Yields text (Section.Sound P) :=
    .rule (((heading _).after (nameList_yields named)).map fun _ named => named)
  exact .rule (bounds.either (general.either binary))

theorem secondFactor_yields : secondFactor.Yields text fun y? => ∀ y ∈ y?, P y := by
  have symbol (word : String) : (lexeme (literal word)).Yields text fun _ => True :=
    Yields.lexeme (literal_yields word)
  have square : square.Yields text fun y? => ∀ y ∈ y?, P y :=
    .rule (((symbol _).pair (symbol _)).map fun _ _ => by simp)
  have product : product.Yields text fun y? => ∀ y ∈ y?, P y :=
    .rule (((symbol _).after (Yields.lexeme named)).map fun y named => by simpa using named)
  exact .rule (product.either square)

theorem quadraticTerm_yields : quadraticTerm.Yields text (Summand.Named P) := by
  have sign : (lexeme (maybe sign)).Yields text _ := Yields.lexeme sign_yields.maybe
  have coefficient : leadingCoefficient.Yields text (·.isNaN = false) :=
    .rule (Yields.lexeme number_yields)
  refine .rule ((sign.pair (coefficient.maybe.pair
    ((Yields.lexeme named).pair (secondFactor_yields named)))).map ?_)
  rintro ⟨negative, c, x, y?⟩ ⟨-, -, first, other⟩ z isName
  cases y? with
  | none =>
    have same : z = x := by simpa [quadraticSummand, Summand.names] using isName
    exact same ▸ first
  | some y =>
    have among : z = x ∨ z = y := by simpa [quadraticSummand, Summand.names] using isName
    rcases among with rfl | rfl
    · exact first
    · exact other _ rfl

omit named in
theorem divide_named {divisor? : Option Binary64} {summands : List Summand}
    (h : ∀ s ∈ summands, s.Named P) : ∀ s ∈ divide divisor? summands, s.Named P := by
  unfold divide
  split
  · exact h
  · split
    · exact h
    · exact List.forall_mem_map.2 fun s member => (h s member).mapCoefficient _

theorem quadraticBlock_yields :
    quadraticBlock.Yields text fun summands => ∀ s ∈ summands, s.Named P := by
  have symbol (word : String) : (lexeme (literal word)).Yields text fun _ => True :=
    Yields.lexeme (literal_yields word)
  have product := quadraticTerm_yields named
  have others := ((Yields.lexeme sign_yields).pair product).many
  have divisor : divisor.Yields text (·.isNaN = false) :=
    .rule ((symbol _).after (Yields.lexeme number_yields))
  refine .rule (((symbol _).after (product.pair (others.pair
    ((symbol _).after divisor.maybe)))).map ?_)
  rintro ⟨first, rest, divisor?⟩ ⟨named, restNamed, -⟩
  refine divide_named (List.forall_mem_cons.2 ⟨named, List.forall_mem_map.2 ?_⟩)
  exact fun both member => (restNamed both member).2.signed both.1

theorem termBody_yields : termBody.Yields text fun summands => ∀ s ∈ summands, s.Named P := by
  have product : coefficientName.Yields text fun summands => ∀ s ∈ summands, s.Named P :=
    .rule (((Yields.lexeme number_yields).pair named).map fun _ named => by
      simpa [Summand.Named, Summand.names] using named.2)
  refine .rule ((quadraticBlock_yields named).either (product.either (.either ?_ ?_)))
  · exact number_yields.map fun _ _ => by simp [Summand.Named, Summand.names]
  · exact named.map fun _ named => by
      simpa [Summand.Named, Summand.names] using named

theorem term_yields : term.Yields text fun summands => ∀ s ∈ summands, s.Named P := by
  refine .rule (((Yields.lexeme sign_yields.maybe).pair
    (Yields.lexeme (termBody_yields named))).map ?_)
  exact fun both named => List.forall_mem_map.2 fun s member => (named.2 s member).signed _

theorem expression_yields :
    expression.Yields text fun summands => ∀ s ∈ summands, s.Named P := by
  have term := term_yields named
  refine .rule ((term.pair ((Yields.lexeme sign_yields).pair term).many).map ?_)
  rintro ⟨first, rest⟩ ⟨named, restNamed⟩
  refine List.forall_mem_append.2 ⟨named, fun s member => ?_⟩
  obtain ⟨⟨negative, summands⟩, among, member⟩ := List.mem_flatMap.1 member
  obtain ⟨t, inside, rfl⟩ := List.mem_map.1 member
  exact ((restNamed _ among).2 t inside).signed negative

omit named in
theorem getD_named {summands? : Option (List Summand)}
    (h : ∀ summands ∈ summands?, ∀ s ∈ summands, s.Named P) :
    ∀ s ∈ summands?.getD [], s.Named P := by
  cases summands? with
  | none => exact List.forall_mem_nil _
  | some summands => exact h summands rfl

theorem row_yields : row.Yields text fun row => ∀ s ∈ row.summands, s.Named P := by
  have comparison : comparison.Yields text fun _ => True := .rule (oneOf_yields _ _ _)
  exact .rule (((label_yields named).maybe.pair ((expression_yields named).maybe.pair
    ((Yields.lexeme comparison).pair (Yields.lexeme signedNumber_yields)))).map
      fun _ named => getD_named named.2.1)

theorem objectiveSection_yields :
    objectiveSection.Yields text fun objective => ∀ s ∈ objective.summands, s.Named P :=
  .rule (((Yields.lexeme senseKeyword_yields).pair ((label_yields named).maybe.pair
    (expression_yields named).maybe)).map fun _ named => getD_named named.2.2)

theorem rowsSection_yields :
    rowsSection.Yields text fun rows => ∀ row ∈ rows, ∀ s ∈ row.summands, s.Named P :=
  .rule ((Yields.lexeme (keyword_yields _)).after (row_yields named).many)

theorem document_yields : document.Yields text (Document.Sound P) := by
  have sections := (anySection_yields named).many.before (Yields.lexeme (keyword_yields endWords))
  refine .rule ((blanks_yields.after ((objectiveSection_yields named).pair
    ((rowsSection_yields named).maybe.pair sections))).map ?_)
  rintro ⟨objective, rows?, sections⟩ ⟨isObjective, isRows, isSections⟩
  refine Document.Sound.addSections ⟨isObjective, ?_, ?_, ?_, ?_⟩ isSections
  · cases rows? with
    | none => exact List.forall_mem_nil _
    | some rows => exact isRows rows rfl
  all_goals exact List.forall_mem_nil _

end Grammar

end LinOpt.LpText
