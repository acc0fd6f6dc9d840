import LinOpt.Proofs.LpText.Terms

namespace LinOpt.LpText

open Pattern Grammar Numeral

variable {s rest : List Char} {c : Char}

theorem skip_cons (blank : c ∈ [' ', '\n']) (solid : Solid s) : skip (c :: s) = s := by
  simp only [List.mem_cons, List.not_mem_nil, or_false] at blank
  rcases blank with rfl | rfl
  · exact skip_space solid
  · exact skip_newline solid

theorem reads_blank {p : Pattern α} {t : List Char} {a : α} (read : p.Reads t a (c :: s))
    (blank : c ∈ [' ', '\n']) (solid : Solid s) : (lexeme p).Reads t a s := by
  have skipped := reads_lexeme read
  rwa [skip_cons blank solid] at skipped

theorem label_reads {x : String} (readable : Readable x) (s : List Char) :
    label.Reads (x.toList ++ ':' :: s) x (skip s) := by
  have name := reads_lexeme (variableName_reads readable (by decide : ':' ∈ nameStops) s)
  rw [skip_solid (solid_cons (by decide) s)] at name
  exact name.before (reads_lexeme (literal_reads ":" s))

theorem first_cons (i : Item) : ∃ d t, (piece i).first = d :: t := by
  obtain ⟨d, t, body, -⟩ := body_start i
  rw [Piece.first, body]
  cases (piece i).negative with
  | false => exact ⟨d, t, rfl⟩
  | true => exact ⟨'-', d :: t, rfl⟩

theorem sumText_isEmpty (items : List Item) :
    (sumText (items.map piece)).isEmpty = items.isEmpty := by
  cases items with
  | nil => rfl
  | cons i items =>
    obtain ⟨d, t, first⟩ := first_cons i
    rw [List.map_cons, sumText, first]
    rfl

def beforeBlank (items : List Item) (blank : Char) : List Char :=
  if (sumText (items.map piece)).isEmpty then [] else sumText (items.map piece) ++ [blank]

theorem beforeBlank_cons (i : Item) (items : List Item) (blank : Char) :
    beforeBlank (i :: items) blank = sumText ((i :: items).map piece) ++ [blank] := by
  have some : ¬(sumText ((i :: items).map piece)).isEmpty = true := by
    rw [sumText_isEmpty]
    exact Bool.false_ne_true
  rw [beforeBlank, if_neg some]

theorem beforeBlank_solid (items : List Item) (blank : Char) (solid : Solid s) :
    Solid (beforeBlank items blank ++ s) := by
  cases items with
  | nil => exact solid
  | cons i items =>
    rw [beforeBlank_cons, List.map_cons, sumText, Piece.first]
    simp only [List.append_assoc]
    cases (piece i).negative with
    | false => exact body_solid i _
    | true => exact solid_cons (by decide) _

theorem NoTerm.follows (noTerm : NoTerm s) (blank : c ∈ [' ', '\n']) : Follows (c :: s) where
  blank := ⟨c, s, rfl, blank⟩
  solid := by
    rw [skip_cons blank noTerm.solid]
    exact noTerm.solid
  notName := by
    rw [skip_cons blank noTerm.solid]
    exact noTerm.name

theorem sum_reads {items : List Item} (legible : ∀ i ∈ items, Legible i)
    (blank : c ∈ [' ', '\n']) (noTerm : NoTerm s) :
    ∃ e, (maybe expression).Reads (beforeBlank items c ++ s) e s ∧
      e.getD [] = items.map decoded := by
  cases items with
  | nil => exact ⟨none, noTerm.expression_fails.maybe, rfl⟩
  | cons i items =>
    have others : Repeats (pair (lexeme sign) term) (skip (c :: s)) [] s := by
      rw [skip_cons blank noTerm.solid]
      exact .stop (.inr ((fails_lexeme noTerm.sign).pair term))
    have read := expression_reads (List.cons_ne_nil i items) legible (noTerm.follows blank) others
    have nonempty : sumText ((i :: items).map piece) ++ c :: s ≠ [] := by
      simp
    rw [List.flatMap_nil, List.append_nil] at read
    rw [beforeBlank_cons, List.append_assoc]
    exact ⟨some _, read.maybe nonempty, rfl⟩

theorem noTerm_cons (symbol : c ∈ ['<', '=', '>']) (s : List Char) : NoTerm (c :: s) := by
  have symbols : ∀ c ∈ ['<', '=', '>'], (Text.isBlank c = false ∧ c ≠ '\\') ∧ (c ≠ '+' ∧ c ≠ '-') ∧
      '[' ≠ c ∧ c.toNat < 128 ∧ c.isDigit = false ∧ c ≠ '.' ∧ isNameStart c = false :=
    forall_of_all (by decide)
  obtain ⟨solid, sign, bracket, basic, notDigit, notPoint, notStart⟩ := symbols c symbol
  exact ⟨solid_cons solid s, sign_fails sign s, literal_fails_cons rfl bracket,
    number_fails basic notDigit notPoint s, variableName_fails_cons notStart s⟩

theorem comparison_noTerm (comparison : Comparison) (s : List Char) :
    NoTerm (comparison.text.toList ++ s) := by
  cases comparison <;> exact noTerm_cons (by decide) _

theorem comparison_reads (comparison : Comparison) (solid : Solid s) :
    (lexeme Grammar.comparison).Reads (comparison.text.toList ++ ' ' :: s) comparison s := by
  have read : Grammar.comparison.Reads (comparison.text.toList ++ ' ' :: s) comparison
      (' ' :: s) := by
    cases comparison <;> rfl
  exact reads_blank read (by decide) solid

def describedRow (indexed : Constraint × Nat) : Row where
  label := some ("c" ++ toString (indexed.2 + 1))
  summands := (writtenItems indexed.1.lhs false).map summand
  comparison := indexed.1.comparison
  rhs := indexed.1.rhs.double.settled

def decodedRow (indexed : Constraint × Nat) : Row :=
  { describedRow indexed with
    summands := (writtenItems indexed.1.lhs false).map decoded
    rhs := (Figure.ofNumber indexed.1.rhs).value }

theorem decodedRow_eq {indexed : Constraint × Nat}
    (writable : ∀ i ∈ writtenItems indexed.1.lhs false, Writable i)
    (rhs : indexed.1.rhs.IsPortable) : decodedRow indexed = describedRow indexed := by
  rw [decodedRow, List.map_congr_left fun i member => decoded_eq (writable i member),
    Figure.value_ofNumber rhs]
  rfl

theorem solid_numeral (n : Number) (s : List Char) : Solid ((numeral n).first ++ s) := by
  have body := body_solid (.number n) s
  rw [Piece.first]
  split
  · exact solid_cons (by decide) _
  · exact body

theorem rowText_eq (constraint : Constraint) (index : Nat) (rest : List Char) :
    rowText (constraint, index) ++ rest = ("c" ++ toString (index + 1)).toList ++
      ':' :: ' ' :: (beforeBlank (writtenItems constraint.lhs false) ' ' ++
        (constraint.comparison.text.toList ++ ' ' :: ((numeral constraint.rhs).first ++ rest))) := by
  simp [rowText, beforeBlank]

theorem rowLabel_reads (constraint : Constraint) (index : Nat) (rest : List Char) :
    (maybe label).Reads (rowText (constraint, index) ++ rest) (some ("c" ++ toString (index + 1)))
      (beforeBlank (writtenItems constraint.lhs false) ' ' ++ (constraint.comparison.text.toList ++
        ' ' :: ((numeral constraint.rhs).first ++ rest))) := by
  have noTerm := comparison_noTerm constraint.comparison
    (' ' :: ((numeral constraint.rhs).first ++ rest))
  have solid := beforeBlank_solid (writtenItems constraint.lhs false) ' ' noTerm.solid
  have label := label_reads (readable_rowName (index + 1)) (' ' ::
    (beforeBlank (writtenItems constraint.lhs false) ' ' ++ (constraint.comparison.text.toList ++
      ' ' :: ((numeral constraint.rhs).first ++ rest))))
  rw [skip_space solid] at label
  rw [rowText_eq]
  exact label.maybe (by simp)

theorem row_reads {indexed : Constraint × Nat}
    (legible : ∀ i ∈ writtenItems indexed.1.lhs false, Legible i)
    (finite : indexed.1.rhs.IsFinite) (rest : List Char) :
    row.Reads (rowText indexed ++ '\n' :: rest) (decodedRow indexed) (skip ('\n' :: rest)) := by
  obtain ⟨constraint, index⟩ := indexed
  have rhs := reads_lexeme (signedNumber_reads constraint.rhs ends_newline rest)
  rw [← first_of_finite finite] at rhs
  have comparison := comparison_reads constraint.comparison
    (solid_numeral constraint.rhs ('\n' :: rest))
  have noTerm := comparison_noTerm constraint.comparison
    (' ' :: ((numeral constraint.rhs).first ++ '\n' :: rest))
  obtain ⟨e, sum, value⟩ := sum_reads legible (by decide : ' ' ∈ [' ', '\n']) noTerm
  have label := rowLabel_reads constraint index ('\n' :: rest)
  have read : row.Reads _ ⟨some ("c" ++ toString (index + 1)), e.getD [], constraint.comparison,
      (Figure.ofNumber constraint.rhs).value⟩ (skip ('\n' :: rest)) :=
    ((label.pair (sum.pair (comparison.pair rhs))).map _).rule
  rw [value] at read
  exact read

theorem row_fails (h : Headed s) : row.Fails s := by
  have label : label.Fails s := ((fails_lexeme h.variableName_fails).pair _).map _
  have comparison : comparison.Fails s := by
    obtain ⟨t, rfl | rfl | rfl | rfl | rfl⟩ := h.cases <;> rfl
  exact ((label.maybe.pair_fails (h.noTerm.expression_fails.maybe.pair_fails
    ((fails_lexeme comparison).pair _))).map _).rule

theorem isLetter_digit {d : Char} (digit : d.isDigit = true) : isLetter 'i' d = false := by
  have named : isNameChar d = true := by
    rw [isNameChar, digit, Bool.or_true, Bool.true_or]
  have notUpper : ¬(d.val ≥ 'A'.val ∧ d.val ≤ 'Z'.val) := by
    simp [Char.isDigit, UInt32.le_iff_toNat_le] at digit ⊢
    omega
  by_contra letter
  have unchanged : d.toLower = d := dif_neg notUpper
  obtain rfl : d = 'i' :=
    unchanged.symm.trans (toLower_of_isLetter named (Bool.eq_true_of_not_eq_false letter))
  cases digit

theorem scanKeyword_digit {d : Char} (digit : d.isDigit = true) (s : List Char) :
    scanKeyword infinityWords (d :: s) = none := by
  have letter := isLetter_digit digit
  have first : afterWord "infinity".toList (d :: s) = none := by
    show (if isLetter 'i' d then _ else none) = none
    rw [if_neg (by simp [letter])]
  have second : afterWord "inf".toList (d :: s) = none := by
    show (if isLetter 'i' d then _ else none) = none
    rw [if_neg (by simp [letter])]
  simp only [scanKeyword, infinityWords, List.findSome?_cons, first, second]
  rfl

theorem scanInfinity_unsigned (notSign : c ≠ '+' ∧ c ≠ '-') (s : List Char) :
    scanInfinity (c :: s) = (scanKeyword infinityWords ((c :: s).dropWhile Text.isBlank)).map
      fun (_, rest) => (false, rest) := by
  unfold scanInfinity
  split
  next negative t found =>
    split at found
    next u same => exact absurd (List.cons.inj same).1 notSign.1
    next u same => exact absurd (List.cons.inj same).1 notSign.2
    next =>
      cases found
      rfl

theorem infinity_fails_figure (n : Number) (s : List Char) :
    infinity.Fails ((Figure.ofNumber n).text ++ s) := by
  obtain ⟨d, t, text, digit⟩ := written_start (Figure.ofNumber_sound n)
  have notBlank : Text.isBlank d = false := (solid_digit digit [] d [] rfl).1
  have blank : (d :: (t ++ s)).dropWhile Text.isBlank = d :: (t ++ s) := by
    rw [List.dropWhile_cons, notBlank]
    rfl
  have scanned : scanInfinity ((Figure.ofNumber n).text ++ s) = none := by
    rw [Figure.text, text]
    cases (Figure.ofNumber n).negative with
    | true =>
      show (scanKeyword infinityWords ((d :: (t ++ s)).dropWhile Text.isBlank)).map _ = none
      rw [blank, scanKeyword_digit digit]
      rfl
    | false =>
      show scanInfinity (d :: (t ++ s)) = none
      rw [scanInfinity_unsigned (notSign_digit digit), blank, scanKeyword_digit digit]
      rfl
  have failed : (token scanInfinity).Fails ((Figure.ofNumber n).text ++ s) := scanned
  exact failed.map _

theorem limit_reads {n : Number} (limit : IsLimit n) (blank : c ∈ [' ', '\n']) (rest : List Char) :
    boundValue.Reads (limitText n ++ c :: rest) (limitValue n) (c :: rest) := by
  rcases limit with ⟨negative, rfl⟩ | finite
  · have read : infinity.Reads (limitText (.real (.infinite negative)) ++ c :: rest)
        (.infinite negative) (c :: rest) := by
      simp only [List.mem_cons, List.not_mem_nil, or_false] at blank
      rcases blank with rfl | rfl <;> cases negative <;> rfl
    exact (read.left _).rule
  · have read := signedNumber_reads n (ends_of_mem blank) rest
    rw [limitText_of_finite finite, limitValue_of_finite finite]
    exact (read.right (infinity_fails_figure n _)).rule

theorem limit_solid (n : Number) (s : List Char) : Solid (limitText n ++ s) := by
  unfold limitText
  split
  next negative => cases negative <;> exact solid_cons (by decide) _
  next => exact solid_figure n s

theorem atMost_reads (solid : Solid s) :
    (lexeme atMost).Reads ('<' :: '=' :: ' ' :: s) () s := by
  have read : atMost.Reads ('<' :: '=' :: ' ' :: s) () (' ' :: s) :=
    ((literal_reads "<=" (' ' :: s)).replaced ()).left _
  exact reads_blank read (by decide) solid

def describedBound (v : Variable) : BoundEntry where
  name := v.name
  lower := some v.lower.double.settled
  upper := some v.upper.double.settled

def decodedBound (v : Variable) : BoundEntry where
  name := v.name
  lower := some (limitValue v.lower)
  upper := some (limitValue v.upper)

theorem decodedBound_eq {v : Variable} (portable : v.IsPortable) :
    decodedBound v = describedBound v := by
  rw [decodedBound, limitValue_eq portable.lower, limitValue_eq portable.upper]
  rfl

theorem bound_reads {v : Variable} (readable : Readable v.name) (declared : v.WellFormed)
    (rest : List Char) :
    bound.Reads (boundText v ++ '\n' :: rest) (decodedBound v) (skip ('\n' :: rest)) := by
  have upper := reads_lexeme (limit_reads (isLimit_upper declared) (by decide : '\n' ∈ [' ', '\n'])
    rest)
  have second := atMost_reads (limit_solid v.upper ('\n' :: rest))
  have name := reads_blank (variableName_reads readable (by decide : ' ' ∈ nameStops) _)
    (by decide) (solid_cons (c := '<') (by decide) ('=' :: ' ' ::
      (limitText v.upper ++ '\n' :: rest)))
  have first := atMost_reads (solid_name readable (' ' :: '<' :: '=' :: ' ' ::
    (limitText v.upper ++ '\n' :: rest)))
  have lower := reads_blank (limit_reads (isLimit_lower declared) (by decide : ' ' ∈ [' ', '\n']) _)
    (by decide) (solid_cons (c := '<') (by decide) ('=' :: ' ' :: (v.name.toList ++ ' ' :: '<' ::
      '=' :: ' ' :: (limitText v.upper ++ '\n' :: rest))))
  have read : doubleBound.Reads _ (decodedBound v) (skip ('\n' :: rest)) :=
    (((lower.before first).pair ((name.before second).pair upper)).map _).rule
  have text : boundText v ++ '\n' :: rest = limitText v.lower ++ ' ' :: '<' :: '=' :: ' ' ::
      (v.name.toList ++ ' ' :: '<' :: '=' :: ' ' :: (limitText v.upper ++ '\n' :: rest)) := by
    simp [boundText]
  rw [text]
  exact (read.left _).rule

theorem bound_fails (h : Headed s) : bound.Fails s := by
  have noSign := reads_lexeme h.sign_fails.maybe
  rw [skip_solid h.solid] at noSign
  have signed : signedNumber.Fails s := ((noSign.pair_fails h.number_fails).map _).rule
  have value := fails_lexeme (h.infinity_fails.either signed).rule
  have name := fails_lexeme h.variableName_fails
  have double : doubleBound.Fails s := (((value.before _).pair _).map _).rule
  have lower : lowerBound.Fails s := (((value.before _).pair _).map _).rule
  have free : freeBound.Fails s := ((name.before _).map _).rule
  have upper : upperBound.Fails s := (((name.before _).pair _).map _).rule
  have atLeast : atLeastBound.Fails s := (((name.before _).pair _).map _).rule
  have fixed : fixedBound.Fails s := (((name.before _).pair _).map _).rule
  exact (double.either (lower.either (free.either (upper.either (atLeast.either fixed))))).rule

theorem name_reads {x : String} (readable : Readable x) (rest : List Char) :
    (lexeme variableName).Reads (x.toList ++ '\n' :: rest) x (skip ('\n' :: rest)) :=
  reads_lexeme (variableName_reads readable (by decide) rest)

theorem lines_repeat {p : Pattern β} {text : α → List Char} (value : α → β) (items : List α)
    (reads : ∀ a ∈ items, ∀ rest, p.Reads (text a ++ '\n' :: rest) (value a) (skip ('\n' :: rest)))
    (solid : ∀ a ∈ items, ∀ s, Solid (text a ++ s)) {more : List β}
    (others : Repeats p (skip ('\n' :: s)) more rest) :
    Repeats p (skip ('\n' :: (items.flatMap (lineText ∘ text) ++ s))) (items.map value ++ more)
      rest := by
  induction items with
  | nil => exact others
  | cons a items ih =>
    have others := ih (fun b member => reads b (List.mem_cons_of_mem a member))
      fun b member => solid b (List.mem_cons_of_mem a member)
    have read := reads a List.mem_cons_self (items.flatMap (lineText ∘ text) ++ s)
    have line : '\n' :: ((a :: items).flatMap (lineText ∘ text) ++ s) =
        '\n' :: ' ' :: (text a ++ '\n' :: (items.flatMap (lineText ∘ text) ++ s)) := by
      simp [lineText]
    have shorter := skip_length ('\n' :: (items.flatMap (lineText ∘ text) ++ s))
    rw [line, skip_newline_space (solid a List.mem_cons_self _)]
    have some : 0 < (text a).length := by
      apply List.length_pos_iff.2
      intro nothing
      have blank := solid a List.mem_cons_self ['\n']
      rw [nothing] at blank
      cases (blank '\n' [] rfl).1
    apply Repeats.step read _ others
    simp only [List.length_cons, List.length_append] at shorter ⊢
    omega

theorem lines_read {p : Pattern β} {text : α → List Char} (value : α → β) (items : List α)
    (reads : ∀ a ∈ items, ∀ rest, p.Reads (text a ++ '\n' :: rest) (value a) (skip ('\n' :: rest)))
    (solid : ∀ a ∈ items, ∀ s, Solid (text a ++ s)) (headed : Headed s) (fails : p.Fails s) :
    Repeats p (skip ('\n' :: (items.flatMap (lineText ∘ text) ++ s))) (items.map value) s := by
  have stop : Repeats p (skip ('\n' :: s)) [] s := by
    rw [skip_newline headed.solid]
    exact .stop (.inr fails)
  have lines := lines_repeat value items reads solid stop
  rwa [List.append_nil] at lines

end LinOpt.LpText
