import LinOpt.Proofs.LpText.Tokens

namespace LinOpt.LpText

open Pattern Grammar Numeral

def summand : Item → Summand
  | .number n => .constant n.double.settled
  | .term (.linear c v) => .linear c.double.settled v.name
  | .term (.quadratic c v w) => .quadratic c.double.settled v.name w.name

def word : Number → String
  | .real .nan => "nan"
  | _ => "inf"

/-- What is read of an item after the sign that is taken up in a sum. The word for a number that is
not finite is read as the name of a variable. -/
def unsigned : Item → Summand
  | .number n =>
    if n.IsFinite then .constant (Figure.ofNumber n).magnitude
    else .linear (Binary64.ofInt 1) (word n)
  | .term (.linear c v) => .linear (Figure.ofNumber c).magnitude v.name
  | .term (.quadratic c v w) =>
    .quadratic ((Figure.ofNumber (doubled c)).value.mul Binary64.half) v.name w.name

def decoded (i : Item) : Summand :=
  (unsigned i).signed (piece i).negative

/-- What may come after a summand: a blank, and no name after that. -/
structure Follows (rest : List Char) : Prop where
  blank : ∃ c t, rest = c :: t ∧ c ∈ [' ', '\n']
  solid : Solid (skip rest)
  notName : variableName.Fails (skip rest)

theorem ends_of_mem {c : Char} (member : c ∈ [' ', '\n']) : Ends c := by
  simp only [List.mem_cons, List.not_mem_nil, or_false] at member
  rcases member with rfl | rfl
  · exact ends_space
  · exact ends_newline

theorem stop_of_mem {c : Char} (member : c ∈ [' ', '\n']) : c ∈ nameStops :=
  List.mem_append_left [':'] member

theorem signed_eq (negative : Bool) (s : Summand) :
    s.signed negative = if negative then s.mapCoefficient Binary64.neg else s :=
  rfl

theorem signed_magnitude (f : Figure) (make : Binary64 → Summand)
    (map : ∀ f x, (make x).mapCoefficient f = make (f x)) :
    (make f.magnitude).signed f.negative = make f.value := by
  rw [signed_eq, map, Figure.value]
  cases f.negative with
  | false => rw [if_neg Bool.false_ne_true, if_neg Bool.false_ne_true]
  | true => rw [if_pos rfl, if_pos rfl]

theorem decoded_eq {i : Item} (writable : Writable i) : decoded i = summand i := by
  cases i with
  | number n =>
    have finite : n.IsFinite := Number.IsPortable.isFinite writable
    have value := Figure.value_ofNumber writable
    have read := signed_magnitude (Figure.ofNumber n) Summand.constant fun _ _ => rfl
    rw [decoded, piece, numeral_of_finite finite, unsigned, if_pos finite, read, value]
    rfl
  | term t =>
    cases t with
    | linear c v =>
      have value := Figure.value_ofNumber writable.1
      have read := signed_magnitude (Figure.ofNumber c) (.linear · v.name) fun _ _ => rfl
      rw [decoded, piece, numeral_of_finite writable.1.isFinite, unsigned, read, value]
      rfl
    | quadratic c v w =>
      rw [decoded, unsigned, Figure.value_ofNumber writable.1.portable, writable.1.halved]
      rfl

variable {rest s : List Char}

theorem block_fails {w : Written} (sound : w.Sound) (s : List Char) :
    quadraticBlock.Fails (w.text ++ s) := by
  obtain ⟨d, ds, text, digit⟩ := written_start sound
  have bracket : (literal "[").Fails (w.text ++ s) := by
    rw [text]
    apply literal_fails_cons rfl
    rintro rfl
    cases digit
  exact (((fails_lexeme bracket).after _).map _).rule

theorem termBody_number {n : Number} (finite : n.IsFinite) (follows : Follows rest) :
    termBody.Reads ((piece (.number n)).body ++ rest) [unsigned (.number n)] rest := by
  obtain ⟨c, t, rfl, member⟩ := follows.blank
  have sound := Figure.ofNumber_sound n
  have read := number_reads sound (ends_of_mem member) t
  have noName : coefficientName.Fails ((Figure.ofNumber n).written.text ++ c :: t) :=
    (((reads_lexeme read).pair_fails follows.notName).map _).rule
  rw [piece, numeral_of_finite finite, unsigned, if_pos finite]
  exact ((((read.map fun x => [Summand.constant x]).left _).right noName).right
    (block_fails sound _)).rule

theorem termBody_linear {c : Number} (finite : c.IsFinite) {v : Variable} (named : Readable v.name)
    (follows : Follows rest) :
    termBody.Reads ((piece (.term (.linear c v))).body ++ rest) [unsigned (.term (.linear c v))]
      rest := by
  obtain ⟨d, t, rfl, member⟩ := follows.blank
  have sound := Figure.ofNumber_sound c
  have coefficient := reads_lexeme (number_reads sound ends_space (v.name.toList ++ d :: t))
  rw [skip_space (solid_name named _)] at coefficient
  have name := variableName_reads named (stop_of_mem member) t
  have both : coefficientName.Reads ((Figure.ofNumber c).written.text ++ ' ' ::
      (v.name.toList ++ d :: t)) [unsigned (.term (.linear c v))] (d :: t) :=
    ((coefficient.pair name).map _).rule
  have text : (piece (.term (.linear c v))).body ++ d :: t =
      (Figure.ofNumber c).written.text ++ ' ' :: (v.name.toList ++ d :: t) := by
    rw [piece, numeral_of_finite finite]
    exact List.append_assoc ..
  rw [text]
  exact ((both.left _).right (block_fails sound _)).rule

theorem star_reads {x : String} (named : Readable x) (s : List Char) :
    (lexeme (literal "*")).Reads ('*' :: ' ' :: (x.toList ++ s)) () (x.toList ++ s) := by
  have read := reads_lexeme (literal_reads "*" (' ' :: (x.toList ++ s)))
  rwa [skip_space (solid_name named s)] at read

theorem closing_solid (s : List Char) : Solid (']' :: s) :=
  solid_cons (by decide) s

theorem product_reads {y : String} (second : Readable y) (s : List Char) :
    secondFactor.Reads ('*' :: ' ' :: (y.toList ++ ' ' :: ']' :: s)) (some y) (']' :: s) := by
  have name := reads_lexeme (variableName_reads second (by decide : ' ' ∈ nameStops) (']' :: s))
  rw [skip_space (closing_solid s)] at name
  have both : product.Reads ('*' :: ' ' :: (y.toList ++ ' ' :: ']' :: s)) (some y) (']' :: s) :=
    (((star_reads second _).after name).map some).rule
  exact (both.left _).rule

theorem quadraticTerm_reads (n : Number) {x y : String} (first : Readable x) (second : Readable y)
    (s : List Char) :
    quadraticTerm.Reads ((Figure.ofNumber n).text ++ ' ' :: (x.toList ++ ' ' :: '*' :: ' ' ::
      (y.toList ++ ' ' :: ']' :: s))) (.quadratic (Figure.ofNumber n).value x y) (']' :: s) := by
  have sound := Figure.ofNumber_sound n
  have starred : Solid ('*' :: ' ' :: (y.toList ++ ' ' :: ']' :: s)) := solid_cons (by decide) _
  have signed := maybeSign_reads (solid_written sound _) (sign_fails_written sound (' ' ::
    (x.toList ++ ' ' :: '*' :: ' ' :: (y.toList ++ ' ' :: ']' :: s)))) (Figure.ofNumber n).negative
  have coefficient := reads_lexeme (number_reads sound ends_space
    (x.toList ++ ' ' :: '*' :: ' ' :: (y.toList ++ ' ' :: ']' :: s)))
  rw [skip_space (solid_name first _)] at coefficient
  have name := reads_lexeme (variableName_reads first (by decide : ' ' ∈ nameStops)
    ('*' :: ' ' :: (y.toList ++ ' ' :: ']' :: s)))
  rw [skip_space starred] at name
  have text : (Figure.ofNumber n).written.text ++ ' ' :: (x.toList ++ ' ' :: '*' :: ' ' ::
      (y.toList ++ ' ' :: ']' :: s)) ≠ [] := by simp
  have factors := (coefficient.rule.maybe text).pair (name.pair (product_reads second s))
  have value : quadraticSummand (if (Figure.ofNumber n).negative then some true else none)
      (some (Figure.ofNumber n).magnitude) x (some y) =
        .quadratic (Figure.ofNumber n).value x y := by
    rw [Figure.value]
    cases (Figure.ofNumber n).negative <;> rfl
  rw [← value, Figure.text, List.append_assoc]
  exact ((signed.pair factors).map _).rule

theorem two_reads (s : List Char) (ends : ∃ c t, s = c :: t ∧ c ∈ [' ', '\n']) :
    number.Reads ('2' :: s) Binary64.two s := by
  obtain ⟨c, t, rfl, member⟩ := ends
  have sound : Written.Sound ⟨['2'], none, none⟩ :=
    ⟨by simp, by simp, by simp, fun _ _ none => by cases none⟩
  have read := number_reads sound (ends_of_mem member) t
  have decimal : Written.decimal ⟨['2'], none, none⟩ = ⟨2, 0⟩ := by decide
  have value : Binary64.ofDecimal false ⟨2, 0⟩ = Binary64.two := by
    rw [Binary64.two]
    exact Figure.ofDecimal_quanta _ _ rfl
  rw [decimal, value] at read
  exact read

theorem divisor_reads (follows : Follows rest) :
    divisor.Reads ('/' :: '2' :: rest) Binary64.two (skip rest) := by
  have slash := reads_lexeme (literal_reads "/" ('2' :: rest))
  rw [skip_solid (solid_digit rfl rest)] at slash
  exact (slash.after (reads_lexeme (two_reads rest follows.blank))).rule

theorem two_isZero : (Number.real Binary64.two).isZero = false := by
  have positive : 0 < 2 * Binary64.scale := Nat.mul_pos (by decide) Binary64.scale_pos
  by_contra zero
  have rank := Number.isZero_iff.1 (Bool.eq_true_of_not_eq_false zero)
  rw [Binary64.two, Number.rank?_finite, Option.some.injEq, Prod.mk.injEq] at rank
  have quanta : ((2 * Binary64.scale : Nat) : Int) = 0 := Rat.intCast_eq_zero_iff.1 rank.2
  exact absurd (Int.natCast_eq_zero.1 quanta) positive.ne'

theorem divide_doubled (c : Number) (v w : Variable) :
    divide (some Binary64.two) [.quadratic (Figure.ofNumber (doubled c)).value v.name w.name] =
      [unsigned (.term (.quadratic c v w))] := by
  unfold divide
  dsimp only
  rw [if_neg (by rw [two_isZero]; exact Bool.false_ne_true), List.map_singleton,
    Summand.mapCoefficient, Binary64.one_div_two]
  rfl

theorem termBody_quadratic {c : Number} {v w : Variable} (finite : (doubled c).IsFinite)
    (first : Readable v.name) (second : Readable w.name) (follows : Follows rest) :
    termBody.Reads ((piece (.term (.quadratic c v w))).body ++ rest)
      [unsigned (.term (.quadratic c v w))] (skip rest) := by
  have text : (piece (.term (.quadratic c v w))).body ++ rest = '[' :: ' ' ::
      ((Figure.ofNumber (doubled c)).text ++ ' ' :: (v.name.toList ++ ' ' :: '*' :: ' ' ::
        (w.name.toList ++ ' ' :: ']' :: '/' :: '2' :: rest))) := by
    simp [piece, first_of_finite finite]
  have opening := reads_lexeme (literal_reads "[" (' ' :: ((Figure.ofNumber (doubled c)).text ++
    ' ' :: (v.name.toList ++ ' ' :: '*' :: ' ' ::
      (w.name.toList ++ ' ' :: ']' :: '/' :: '2' :: rest)))))
  rw [skip_space (solid_figure _ _)] at opening
  have inside := quadraticTerm_reads (doubled c) first second ('/' :: '2' :: rest)
  have noMore : (lexeme sign).Fails (']' :: '/' :: '2' :: rest) :=
    fails_lexeme (sign_fails (by decide) _)
  have others := (Repeats.stop (.inr (noMore.pair quadraticTerm))).many
  have closing := reads_lexeme (literal_reads "]" ('/' :: '2' :: rest))
  rw [skip_solid (solid_cons (by decide) _)] at closing
  have half := (divisor_reads follows).maybe (List.cons_ne_nil _ _)
  have value : divide (some Binary64.two)
      [.quadratic (Figure.ofNumber (doubled c)).value v.name w.name] =
        [unsigned (.term (.quadratic c v w))] := divide_doubled c v w
  have block : quadraticBlock.Reads ((piece (.term (.quadratic c v w))).body ++ rest)
      [unsigned (.term (.quadratic c v w))] (skip rest) := by
    rw [text, ← value]
    exact ((opening.after (inside.pair (others.pair (closing.after half)))).map _).rule
  exact (block.left _).rule

theorem term_of_body {body t : List Char} {summands : List Summand} (solid : Solid body)
    (noSign : sign.Fails body) (read : (lexeme termBody).Reads body summands t) (negative : Bool) :
    term.Reads ((if negative then ['-'] else []) ++ body) (summands.map (·.signed negative)) t := by
  have signed := maybeSign_reads solid noSign negative
  have whole : term.Reads _ _ _ := ((signed.pair read).map _).rule
  cases negative with
  | false => exact whole
  | true => exact whole

theorem term_of_plus {body t : List Char} {summands : List Summand} (solid : Solid body)
    (read : (lexeme termBody).Reads body summands t) :
    term.Reads ('+' :: body) (summands.map (·.signed false)) t := by
  have signed := reads_lexeme ((plus_reads body).maybe (List.cons_ne_nil _ _))
  rw [skip_solid solid] at signed
  exact ((signed.pair read).map _).rule

theorem ne_of_isNameStart {c d : Char} (start : isNameStart c = true)
    (other : isNameStart d = false) : c ≠ d := by
  rintro rfl
  rw [other] at start
  cases start

theorem number_fails_name {x : String} (readable : Readable x) (s : List Char) :
    number.Fails (x.toList ++ s) := by
  obtain ⟨c, t, chars, start⟩ := readable.start
  have basic := printable_of_isNameChar (readable.named c (chars ▸ List.mem_cons_self))
  rw [chars]
  exact number_fails (by omega) (notDigit_of_isNameStart start) (ne_of_isNameStart start rfl) _

theorem sign_fails_name {x : String} (readable : Readable x) (s : List Char) :
    sign.Fails (x.toList ++ s) := by
  obtain ⟨c, t, chars, start⟩ := readable.start
  rw [chars]
  exact sign_fails ⟨ne_of_isNameStart start rfl, ne_of_isNameStart start rfl⟩ _

theorem literal_fails_name {x text : String} (readable : Readable x) {d : Char} {ds : List Char}
    (symbol : text.toList = d :: ds) (other : isNameStart d = false) (s : List Char) :
    (literal text).Fails (x.toList ++ s) := by
  obtain ⟨c, t, chars, start⟩ := readable.start
  rw [chars]
  exact literal_fails_cons symbol (ne_of_isNameStart start other).symm

theorem termBody_name {x : String} (readable : Readable x) (s : List Char) {c : Char}
    (stop : c ∈ [' ', '\n']) :
    termBody.Reads (x.toList ++ c :: s) [.linear (Binary64.ofInt 1) x] (c :: s) := by
  have noNumber := number_fails_name readable (c :: s)
  have noBlock : quadraticBlock.Fails (x.toList ++ c :: s) :=
    (((fails_lexeme (literal_fails_name readable rfl rfl _)).after _).map _).rule
  have noCoefficient : coefficientName.Fails (x.toList ++ c :: s) :=
    (((fails_lexeme noNumber).pair _).map _).rule
  have name := (variableName_reads readable (stop_of_mem stop) s).map fun x =>
    [Summand.linear (Binary64.ofInt 1) x]
  exact (((name.right (noNumber.map _)).right noCoefficient).right noBlock).rule

theorem readable_word (n : Number) : Readable (word n) := by
  have readable : ∀ x ∈ ["nan", "inf"], Readable x := by
    intro x member
    simp only [List.mem_cons, List.not_mem_nil, or_false] at member
    rcases member with rfl | rfl
    · exact ⟨⟨⟨'n', ['a', 'n'], rfl, rfl⟩, forall_of_all (by decide)⟩, by decide⟩
    · exact ⟨⟨⟨'i', ['n', 'f'], rfl, rfl⟩, forall_of_all (by decide)⟩, by decide⟩
  apply readable
  unfold word
  split <;> decide

theorem term_word {n : Number} (notFinite : ¬n.IsFinite) (readable : n.toBinary64? ≠ none)
    {negative : Bool} (taken : negative = true → (numeral n).negative = true) (s : List Char)
    {c : Char} (stop : c ∈ [' ', '\n']) :
    term.Reads ((if negative then ['-'] else []) ++ ((numeral n).body ++ c :: s))
      [(Summand.linear (Binary64.ofInt 1) (word n)).signed negative] (skip (c :: s)) := by
  have isWord := readable_word n
  have read := reads_lexeme (termBody_name isWord s stop)
  have solid := solid_name isWord (c :: s)
  have unsigned := term_of_body solid (sign_fails_name isWord (c :: s)) read negative
  rcases cases_of_toBinary64? readable with finite | rfl | ⟨sign, rfl⟩
  · exact absurd finite notFinite
  · exact unsigned
  · cases sign with
    | true => exact unsigned
    | false =>
      obtain rfl : negative = false := by
        cases negative with
        | false => rfl
        | true => exact absurd (taken rfl) Bool.false_ne_true
      exact term_of_plus solid read

theorem body_start (i : Item) : ∃ c t, (piece i).body = c :: t ∧
    (c.isDigit = true ∨ c ∈ ['[', 'n', 'i', '+']) := by
  have numbers (n : Number) (t : List Char) : ∃ c u, (numeral n).body ++ t = c :: u ∧
      (c.isDigit = true ∨ c ∈ ['[', 'n', 'i', '+']) := by
    have words : ∀ word ∈ ["nan".toList, "inf".toList, "+inf".toList],
        ∃ c u, word = c :: u ∧ c ∈ ['[', 'n', 'i', '+'] := by
      simp
    rcases numeral_cases n with ⟨w, sound, body⟩ | word
    · obtain ⟨c, u, text, digit⟩ := written_start sound
      exact ⟨c, u ++ t, by rw [body, text]; rfl, .inl digit⟩
    · obtain ⟨c, u, text, letter⟩ := words _ word
      exact ⟨c, u ++ t, by rw [text]; rfl, .inr letter⟩
  cases i with
  | number n =>
    have start := numbers n []
    rwa [List.append_nil] at start
  | term t =>
    cases t with
    | linear c v => exact numbers c _
    | quadratic c v w => exact ⟨'[', _, rfl, .inr (by decide)⟩

theorem body_solid (i : Item) (s : List Char) : Solid ((piece i).body ++ s) := by
  have letters : ∀ c ∈ ['[', 'n', 'i', '+'], Text.isBlank c = false ∧ c ≠ '\\' :=
    forall_of_all (by decide)
  obtain ⟨c, t, body, digit | letter⟩ := body_start i
  · rw [body]
    exact solid_digit digit _
  · rw [body]
    exact solid_cons (letters c letter) _

theorem term_reads {i : Item} (legible : Legible i) (follows : Follows rest) (negative : Bool)
    (taken : negative = true → (piece i).negative = true) :
    term.Reads ((if negative then ['-'] else []) ++ ((piece i).body ++ rest))
      [(unsigned i).signed negative] (skip rest) := by
  have figure {n : Number} (finite : n.IsFinite) {t : List Char} {summands : List Summand}
      (read : termBody.Reads ((numeral n).body ++ t) summands rest) :
      term.Reads ((if negative then ['-'] else []) ++ ((numeral n).body ++ t))
        (summands.map (·.signed negative)) (skip rest) := by
    have sound := Figure.ofNumber_sound n
    rw [numeral_of_finite finite] at read ⊢
    exact term_of_body (solid_written sound t) (sign_fails_written sound t) (reads_lexeme read)
      negative
  cases i with
  | number n =>
    by_cases finite : n.IsFinite
    · exact figure finite (termBody_number finite follows)
    · obtain ⟨c, s, rfl, stop⟩ := follows.blank
      rw [unsigned, if_neg finite]
      exact term_word finite legible taken s stop
  | term t =>
    cases t with
    | linear c v =>
      obtain ⟨finite, name⟩ := legible
      have read := termBody_linear finite name follows
      rw [piece, List.append_assoc] at read ⊢
      exact figure finite read
    | quadratic c v w =>
      obtain ⟨⟨-, finite⟩, first, second⟩ := legible
      have read := reads_lexeme (termBody_quadratic finite first second follows)
      rw [skip_solid follows.solid] at read
      exact term_of_body (solid_cons (by decide) _) (sign_fails (by decide) _) read negative

theorem sign_solid (negative : Bool) (s : List Char) :
    Solid ((if negative then '-' else '+') :: s) := by
  apply solid_cons
  cases negative <;> decide

theorem variableName_fails_cons {c : Char} (notStart : isNameStart c = false) (s : List Char) :
    variableName.Fails (c :: s) := by
  have noName : (token scanName).Fails (c :: s) := by
    simp [Fails, run_token, scanName, notStart]
  by_cases word : (reserved.run (c :: s)).isSome
  · have fails : (Pattern.unless reserved).Fails (c :: s) := by
      rw [Fails, run_unless, if_pos word]
    exact fails.after _
  · have reads : (Pattern.unless reserved).Reads (c :: s) () (c :: s) := by
      rw [Reads, run_unless, if_neg word]
    exact (reads.pair_fails noName).map _

theorem skip_next (i : Item) (s : List Char) : skip ((piece i).next ++ s) =
    (if (piece i).negative then '-' else '+') :: ' ' :: ((piece i).body ++ s) :=
  skip_space (sign_solid _ _)

theorem follows_next (i : Item) (s : List Char) : Follows ((piece i).next ++ s) where
  blank := ⟨' ', _, rfl, List.mem_cons_self⟩
  solid := by
    rw [skip_next]
    exact sign_solid _ _
  notName := by
    rw [skip_next]
    apply variableName_fails_cons
    cases (piece i).negative <;> decide

theorem follows_flatMap {items : List Item} (follows : Follows rest) :
    Follows ((items.map piece).flatMap Piece.next ++ rest) := by
  cases items with
  | nil => exact follows
  | cons i items =>
    rw [List.map_cons, List.flatMap_cons, List.append_assoc]
    exact follows_next i _

theorem terms_repeat {items : List Item} (legible : ∀ i ∈ items, Legible i)
    (follows : Follows rest) {more : List (Bool × List Summand)}
    (others : Repeats (pair (lexeme sign) term) (skip rest) more s) :
    Repeats (pair (lexeme sign) term) (skip ((items.map piece).flatMap Piece.next ++ rest))
      ((items.map fun i => ((piece i).negative, [unsigned i])) ++ more) s := by
  induction items with
  | nil => exact others
  | cons i items ih =>
    have others := ih fun j member => legible j (List.mem_cons_of_mem i member)
    generalize split : (items.map piece).flatMap Piece.next ++ rest = after at others
    have text : ((i :: items).map piece).flatMap Piece.next ++ rest = (piece i).next ++ after := by
      simp [← split]
    have signed := reads_lexeme (sign_reads (piece i).negative (' ' :: ((piece i).body ++ after)))
    rw [skip_space (body_solid i after)] at signed
    have read := term_reads (legible i List.mem_cons_self) (split ▸ follows_flatMap follows)
      false (fun none => (nomatch none))
    have shorter : (skip after).length ≤ after.length := skip_length after
    rw [text, skip_next]
    apply Repeats.step (signed.pair read) _ others
    simp only [List.length_cons, List.length_append]
    omega

theorem expression_reads {items : List Item} (some : items ≠ []) (legible : ∀ i ∈ items, Legible i)
    (follows : Follows rest) {more : List (Bool × List Summand)}
    (others : Repeats (pair (lexeme sign) term) (skip rest) more s) :
    expression.Reads (sumText (items.map piece) ++ rest)
      (items.map decoded ++ more.flatMap signedTerm) s := by
  cases items with
  | nil => exact absurd rfl some
  | cons i items =>
    have blank : Follows ((items.map piece).flatMap Piece.next ++ rest) := follows_flatMap follows
    have first := term_reads (legible i List.mem_cons_self) blank (piece i).negative id
    have others := (terms_repeat (fun j member => legible j (List.mem_cons_of_mem i member)) follows
      others).many
    have value : [(unsigned i).signed (piece i).negative] ++
        ((items.map fun i => ((piece i).negative, [unsigned i])) ++ more).flatMap signedTerm =
          (i :: items).map decoded ++ more.flatMap signedTerm := by
      rw [List.flatMap_append, List.flatMap_map, ← List.append_assoc]
      congr 1
      rw [List.map_eq_flatMap, List.flatMap_cons]
      rfl
    rw [← value, List.map_cons, sumText, List.append_assoc, Piece.first, List.append_assoc]
    exact ((first.pair others).map _).rule

theorem term_fails (solid : Solid s) (noSign : sign.Fails s) (noBlock : quadraticBlock.Fails s)
    (noNumber : number.Fails s) (noName : variableName.Fails s) : term.Fails s := by
  have unsigned := reads_lexeme noSign.maybe
  rw [skip_solid solid] at unsigned
  have named : coefficientName.Fails s := (((fails_lexeme noNumber).pair _).map _).rule
  have body : termBody.Fails s :=
    (noBlock.either (named.either ((noNumber.map _).either (noName.map _)))).rule
  exact ((unsigned.pair_fails (fails_lexeme body)).map _).rule

theorem expression_fails (noTerm : term.Fails s) : expression.Fails s :=
  ((noTerm.pair _).map _).rule

structure NoTerm (s : List Char) : Prop where
  solid : Solid s
  sign : sign.Fails s
  bracket : (literal "[").Fails s
  number : number.Fails s
  name : variableName.Fails s

theorem NoTerm.expression_fails (h : NoTerm s) : expression.Fails s := by
  have block : quadraticBlock.Fails s := (((fails_lexeme h.bracket).after _).map _).rule
  exact LpText.expression_fails (term_fails h.solid h.sign block h.number h.name)

theorem Headed.noTerm (h : Headed s) : NoTerm s where
  solid := h.solid
  sign := h.sign_fails
  bracket := h.literal_fails rfl (by decide)
  number := h.number_fails
  name := h.variableName_fails

end LinOpt.LpText
