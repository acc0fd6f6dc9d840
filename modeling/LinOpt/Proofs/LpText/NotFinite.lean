import LinOpt.Proofs.LpText.ReadNames
import LinOpt.Proofs.LpText.RoundTrip

namespace LinOpt

namespace LpText

open Pattern Grammar

variable {rest s : List Char} {i : Item}

/-- A text at which neither a sum nor a row nor a document goes on. -/
structure Stuck (s : List Char) : Prop where
  summand : (pair (lexeme sign) term).Fails s
  comparison : Grammar.comparison.Fails s
  reserved : reserved.Fails s

theorem comparison_fails {c : Char} (other : c ∉ ['<', '=', '>']) (s : List Char) :
    Grammar.comparison.Fails (c :: s) := by
  have symbol (text : String) (value : Comparison) {d : Char} {ds : List Char}
      (chars : text.toList = d :: ds) (member : d ∈ ['<', '=', '>']) :
      (replaced value (literal text)).Fails (c :: s) :=
    (literal_fails_cons chars (ne_of_mem_of_not_mem member other)).map _
  exact (symbol "<=" .le rfl (by decide)).either <| (symbol "=<" .le rfl (by decide)).either <|
    (symbol ">=" .ge rfl (by decide)).either <| (symbol "=>" .ge rfl (by decide)).either <|
    (symbol "<" .le rfl (by decide)).either <| (symbol ">" .ge rfl (by decide)).either <|
    symbol "=" .eq rfl (by decide)

theorem stuck_name {x : String} (readable : Readable x) {c : Char} (stop : c ∈ [' ', '\n'])
    (s : List Char) : Stuck (x.toList ++ c :: s) where
  summand := (fails_lexeme (sign_fails_name readable _)).pair term
  comparison := by
    have symbols : ∀ d ∈ ['<', '=', '>'], isNameStart d = false := forall_of_all (by decide)
    obtain ⟨d, t, chars, start⟩ := readable.start
    rw [chars]
    apply comparison_fails
    intro symbol
    rw [symbols d symbol] at start
    cases start
  reserved := reserved_fails readable (stop_of_mem stop)

theorem stuck_plus (fails : term.Fails s) (solid : Solid s) : Stuck ('+' :: ' ' :: s) where
  summand := by
    have sign := reads_lexeme (plus_reads (' ' :: s))
    rw [skip_space solid] at sign
    exact sign.pair_fails fails
  comparison := rfl
  reserved := rfl

theorem stuck_bracket (s : List Char) : Stuck ('[' :: s) where
  summand := (fails_lexeme (sign_fails (by decide) s)).pair term
  comparison := rfl
  reserved := rfl

theorem numeral_word {n : Number} (notFinite : ¬n.IsFinite) (readable : n.toBinary64? ≠ none) :
    ∃ sign ∈ [[], ['+'], ['-']], (numeral n).first = sign ++ (word n).toList := by
  rcases cases_of_toBinary64? readable with finite | rfl | ⟨negative, rfl⟩
  · exact absurd finite notFinite
  · exact ⟨[], by simp, rfl⟩
  · cases negative with
    | false => exact ⟨['+'], by simp, rfl⟩
    | true => exact ⟨['-'], by simp, rfl⟩

theorem anySign_reads {sign : List Char} (member : sign ∈ [[], ['+'], ['-']]) (solid : Solid s)
    (fails : Grammar.sign.Fails s) :
    ∃ negative, (lexeme (maybe Grammar.sign)).Reads (sign ++ s) negative s := by
  simp only [List.mem_cons, List.not_mem_nil, or_false] at member
  rcases member with rfl | rfl | rfl
  · exact ⟨_, maybeSign_reads solid fails false⟩
  · have plus := reads_lexeme ((plus_reads s).maybe (List.cons_ne_nil _ _))
    rw [skip_solid solid] at plus
    exact ⟨_, plus⟩
  · exact ⟨_, maybeSign_reads solid fails true⟩

theorem signedNumber_fails {n : Number} (notFinite : ¬n.IsFinite) (readable : n.toBinary64? ≠ none)
    (s : List Char) : signedNumber.Fails ((numeral n).first ++ s) := by
  obtain ⟨sign, member, text⟩ := numeral_word notFinite readable
  have isWord := readable_word n
  obtain ⟨negative, signed⟩ := anySign_reads member (solid_name isWord s) (sign_fails_name isWord s)
  rw [text, List.append_assoc]
  exact ((signed.pair_fails (number_fails_name isWord s)).map _).rule

def Broken : Item → Prop
  | .number _ => False
  | .term (.linear c v) => (¬c.IsFinite ∧ c.toBinary64? ≠ none) ∧ Readable v.name
  | .term (.quadratic c v w) =>
    (¬(doubled c).IsFinite ∧ (doubled c).toBinary64? ≠ none) ∧ Readable v.name ∧ Readable w.name

theorem legible_or_broken (shown : Shown i)
    (readable : ∀ t, i = .term t → ∀ v ∈ t.vars, Readable v.name) : Legible i ∨ Broken i := by
  cases i with
  | number n => exact .inl shown
  | term t =>
    have names := readable t rfl
    cases t with
    | linear c v =>
      have name := names v List.mem_cons_self
      by_cases finite : c.IsFinite
      · exact .inl ⟨finite, name⟩
      · exact .inr ⟨⟨finite, shown.1⟩, name⟩
    | quadratic c v w =>
      have first := names v List.mem_cons_self
      have second := names w (List.mem_cons_of_mem v List.mem_cons_self)
      by_cases finite : (doubled c).IsFinite
      · exact .inl ⟨⟨shown.1.1, finite⟩, first, second⟩
      · exact .inr ⟨⟨finite, shown.1.2⟩, first, second⟩

theorem linear_reads {c : Number} {v : Variable} (broken : Broken (.term (.linear c v)))
    (negative : Bool) (taken : negative = true → (numeral c).negative = true) (s : List Char) :
    term.Reads ((if negative then ['-'] else []) ++ ((piece (.term (.linear c v))).body ++ s))
      [(Summand.linear (Binary64.ofInt 1) (word c)).signed negative] (v.name.toList ++ s) := by
  obtain ⟨⟨notFinite, readable⟩, name⟩ := broken
  have read := term_word notFinite readable taken (v.name.toList ++ s)
    (by decide : ' ' ∈ [' ', '\n'])
  rw [skip_space (solid_name name s)] at read
  rw [piece, List.append_assoc]
  exact read

theorem quadraticTerm_fails {n : Number} (notFinite : ¬n.IsFinite) (readable : n.toBinary64? ≠ none)
    {x : String} (named : Readable x) (s : List Char) :
    quadraticTerm.Fails ((numeral n).first ++ ' ' :: (x.toList ++ s)) := by
  obtain ⟨sign, member, text⟩ := numeral_word notFinite readable
  have isWord := readable_word n
  obtain ⟨negative, signed⟩ := anySign_reads member (solid_name isWord (' ' :: (x.toList ++ s)))
    (sign_fails_name isWord (' ' :: (x.toList ++ s)))
  have noCoefficient := (fails_lexeme (number_fails_name isWord (' ' :: (x.toList ++ s)))).rule.maybe
  have name := reads_lexeme (variableName_reads isWord (by decide : ' ' ∈ nameStops)
    (x.toList ++ s))
  rw [skip_space (solid_name named s)] at name
  have product : product.Fails (x.toList ++ s) :=
    (((fails_lexeme (literal_fails_name named rfl rfl s)).after _).map _).rule
  have square : square.Fails (x.toList ++ s) :=
    (((fails_lexeme (literal_fails_name named rfl rfl s)).pair _).map _).rule
  have second : secondFactor.Fails (x.toList ++ s) := (product.either square).rule
  rw [text, List.append_assoc]
  exact ((signed.pair_fails (noCoefficient.pair_fails (name.pair_fails second))).map _).rule

theorem quadratic_fails {c : Number} {v w : Variable} (broken : Broken (.term (.quadratic c v w)))
    (s : List Char) : term.Fails ((piece (.term (.quadratic c v w))).body ++ s) := by
  obtain ⟨⟨notFinite, readable⟩, first, -⟩ := broken
  let factors := [' ', '*', ' '] ++ (w.name.toList ++ [' ', ']', '/', '2']) ++ s
  have text : (piece (.term (.quadratic c v w))).body ++ s =
      '[' :: ' ' :: ((numeral (doubled c)).first ++ ' ' :: (v.name.toList ++ factors)) := by
    simp [piece, factors]
  have opening := reads_lexeme (literal_reads "["
    (' ' :: ((numeral (doubled c)).first ++ ' ' :: (v.name.toList ++ factors))))
  rw [skip_space (solid_numeral _ _)] at opening
  have product := quadraticTerm_fails notFinite readable first factors
  have block : quadraticBlock.Fails ('[' :: ' ' :: ((numeral (doubled c)).first ++ ' ' ::
      (v.name.toList ++ factors))) :=
    ((opening.pair_fails (product.pair _)).map Prod.snd).map _
  rw [text]
  exact term_fails (solid_cons (by decide) _) (sign_fails (by decide) _) block
    (number_fails (by decide) rfl (by decide) _) (variableName_fails_cons rfl _)

theorem broken_first (broken : Broken i) (follows : Follows rest) :
    ∃ e t, (maybe expression).Reads ((piece i).first ++ rest) e t ∧ Stuck t := by
  obtain ⟨c, s, rfl, stop⟩ := follows.blank
  cases i with
  | number n => exact broken.elim
  | term t =>
    cases t with
    | linear d v =>
      have first := linear_reads broken (numeral d).negative id (c :: s)
      have stuck := stuck_name broken.2 stop s
      have read : expression.Reads _ _ _ :=
        ((first.pair (Repeats.stop (.inr stuck.summand)).many).map _).rule
      have nonempty : (piece (.term (.linear d v))).first ++ c :: s ≠ [] := by
        simp
      rw [Piece.first, List.append_assoc] at nonempty ⊢
      exact ⟨_, _, read.maybe nonempty, stuck⟩
    | quadratic d v w =>
      exact ⟨none, _, (expression_fails (quadratic_fails broken (c :: s))).maybe, stuck_bracket _⟩

theorem broken_next (broken : Broken i) (follows : Follows rest) :
    ∃ more t, Repeats (pair (lexeme sign) term) (skip ((piece i).next ++ rest)) more t ∧
      Stuck t := by
  obtain ⟨c, s, rfl, stop⟩ := follows.blank
  rw [skip_next]
  cases i with
  | number n => exact broken.elim
  | term t =>
    cases t with
    | linear d v =>
      have signed := reads_lexeme (sign_reads (piece (.term (.linear d v))).negative
        (' ' :: ((piece (.term (.linear d v))).body ++ c :: s)))
      rw [skip_space (body_solid _ _)] at signed
      have read := linear_reads broken false (fun none => (nomatch none)) (c :: s)
      have stuck := stuck_name broken.2 stop s
      refine ⟨_, _, .step (signed.pair read) ?_ (.stop (.inr stuck.summand)), stuck⟩
      simp only [piece, List.length_append, List.length_cons]
      omega
    | quadratic d v w =>
      have fails := quadratic_fails broken (c :: s)
      have stuck := stuck_plus fails (body_solid (.term (.quadratic d v w)) (c :: s))
      exact ⟨[], _, .stop (.inr stuck.summand), stuck⟩

theorem broken_sum {before : List Item} (after : List Item) (legible : ∀ j ∈ before, Legible j)
    (broken : Broken i) (follows : Follows rest) :
    ∃ e t, (maybe expression).Reads (sumText ((before ++ i :: after).map piece) ++ rest) e t ∧
      Stuck t := by
  have others : Follows ((after.map piece).flatMap Piece.next ++ rest) := follows_flatMap follows
  cases before with
  | nil =>
    obtain ⟨e, t, read, stuck⟩ := broken_first broken others
    rw [List.nil_append, List.map_cons, sumText, List.append_assoc]
    exact ⟨e, t, read, stuck⟩
  | cons j before =>
    obtain ⟨more, t, repeats, stuck⟩ := broken_next broken others
    have read := expression_reads (List.cons_ne_nil j before) legible (follows_next i _) repeats
    have text : sumText ((j :: before ++ i :: after).map piece) ++ rest =
        sumText ((j :: before).map piece) ++ ((piece i).next ++
          ((after.map piece).flatMap Piece.next ++ rest)) := by
      simp [sumText]
    obtain ⟨c, u, last, -⟩ := others.blank
    have nonempty : sumText ((j :: before).map piece) ++ ((piece i).next ++
        ((after.map piece).flatMap Piece.next ++ rest)) ≠ [] := by
      simp [last]
    rw [text]
    exact ⟨_, t, read.maybe nonempty, stuck⟩

theorem all_or_first {p q : α → Prop} {as : List α} (h : ∀ a ∈ as, p a ∨ q a) :
    (∀ a ∈ as, p a) ∨ ∃ before a after, as = before ++ a :: after ∧ (∀ b ∈ before, p b) ∧ q a := by
  induction as with
  | nil => exact .inl (List.forall_mem_nil _)
  | cons a as ih =>
    obtain ⟨first, others⟩ := List.forall_mem_cons.1 h
    rcases first with holds | breaks
    · rcases ih others with all | ⟨before, b, after, rfl, front, breaks⟩
      · exact .inl (List.forall_mem_cons.2 ⟨holds, all⟩)
      · exact .inr ⟨a :: before, b, after, rfl, List.forall_mem_cons.2 ⟨holds, front⟩, breaks⟩
    · exact .inr ⟨[], a, as, rfl, List.forall_mem_nil _, breaks⟩

def BrokenSum (items : List Item) : Prop :=
  ∃ before i after, items = before ++ i :: after ∧ (∀ j ∈ before, Legible j) ∧ Broken i

theorem BrokenSum.reads {items : List Item} (broken : BrokenSum items) {c : Char}
    (stop : c ∈ [' ', '\n']) (noTerm : NoTerm s) :
    ∃ e t, (maybe expression).Reads (beforeBlank items c ++ s) e t ∧ Stuck t := by
  obtain ⟨before, i, after, rfl, legible, broken⟩ := broken
  have read := broken_sum after legible broken (noTerm.follows stop)
  have some : before ++ i :: after ≠ [] := by simp
  obtain ⟨j, items, same⟩ := List.exists_cons_of_ne_nil some
  rw [same] at read ⊢
  rwa [beforeBlank_cons, List.append_assoc]

def BrokenRow (c : Constraint) : Prop :=
  BrokenSum (writtenItems c.lhs false) ∨
    (∀ i ∈ writtenItems c.lhs false, Legible i) ∧ ¬c.rhs.IsFinite ∧ c.rhs.toBinary64? ≠ none

theorem BrokenRow.fails {c : Constraint} (broken : BrokenRow c) (index : Nat) (rest : List Char) :
    row.Fails (rowText (c, index) ++ '\n' :: rest) := by
  have label := rowLabel_reads c index ('\n' :: rest)
  have noTerm := comparison_noTerm c.comparison (' ' :: ((numeral c.rhs).first ++ '\n' :: rest))
  rcases broken with broken | ⟨legible, notFinite, readable⟩
  · obtain ⟨e, t, sum, stuck⟩ := broken.reads (by decide : ' ' ∈ [' ', '\n']) noTerm
    have comparison := (fails_lexeme stuck.comparison).pair (lexeme signedNumber)
    exact ((label.pair_fails (sum.pair_fails comparison)).map _).rule
  · obtain ⟨e, sum, -⟩ := sum_reads legible (by decide : ' ' ∈ [' ', '\n']) noTerm
    have comparison := comparison_reads c.comparison (solid_numeral c.rhs ('\n' :: rest))
    have rhs := fails_lexeme (signedNumber_fails notFinite readable ('\n' :: rest))
    exact ((label.pair_fails (sum.pair_fails (comparison.pair_fails rhs))).map _).rule

variable {m : Model}

theorem sections_fail_of_reserved (fails : reserved.Fails s) :
    (before (many anySection) (lexeme endKeyword)).Fails s := by
  obtain ⟨-, bounds, general, binary, ending⟩ := reserved_fails_iff.1 fails
  exact sections_fail (.stop (.inr (anySection_fails bounds general binary))) ending

theorem document_fails_of_objective (broken : BrokenSum (writtenItems m.objective.expression true)) :
    document.Fails (layout m) := by
  have headed := headed_rows m
  obtain ⟨e, t, sum, stuck⟩ := broken.reads (by decide : '\n' ∈ [' ', '\n']) headed.noTerm
  have subject := (reserved_fails_iff.1 stuck.reserved).1
  have rows : rowsSection.Fails t := ((fails_lexeme subject).after _).rule
  exact document_fails (objective_reads headed sum)
    (rows.maybe.pair_fails (sections_fail_of_reserved stuck.reserved))

theorem document_fails_of_row
    (objective : ∀ i ∈ writtenItems m.objective.expression true, Legible i)
    (broken : ∃ before i after, m.constraints.zipIdx = before ++ i :: after ∧
      (∀ j ∈ before, (∀ k ∈ writtenItems j.1.lhs false, Legible k) ∧ j.1.rhs.IsFinite) ∧
      BrokenRow i.1) : document.Fails (layout m) := by
  obtain ⟨before, ⟨c, index⟩, after, split, legible, broken⟩ := broken
  have headed := headed_rows m
  obtain ⟨e, sum, -⟩ := sum_reads objective (by decide : '\n' ∈ [' ', '\n']) headed.noTerm
  -- The rows before the broken one are read, and then its label is where the reader stands.
  let later := after.flatMap (lineText ∘ rowText) ++ sectionsText m
  have labelled : rowText (c, index) ++ '\n' :: later = ("c" ++ toString (index + 1)).toList ++
      ':' :: ' ' :: (beforeBlank (writtenItems c.lhs false) ' ' ++ (c.comparison.text.toList ++
        ' ' :: ((numeral c.rhs).first ++ '\n' :: later))) := rowText_eq c index _
  have solid : Solid (rowText (c, index) ++ '\n' :: later) := by
    rw [labelled]
    exact solid_name (readable_rowName (index + 1)) _
  have stop : Repeats row (skip ('\n' :: ' ' :: (rowText (c, index) ++ '\n' :: later))) []
      (rowText (c, index) ++ '\n' :: later) := by
    rw [skip_newline_space solid]
    exact .stop (.inr (broken.fails index later))
  have rows := (rows_read (rows_repeat (fun i member => (legible i member).1)
    (fun i member => (legible i member).2) stop)).maybe (by simp)
  have reserved : reserved.Fails (rowText (c, index) ++ '\n' :: later) := by
    rw [labelled]
    exact reserved_fails (readable_rowName (index + 1)) (by decide)
  have text : m.constraints.zipIdx.flatMap (lineText ∘ rowText) ++ sectionsText m =
      before.flatMap (lineText ∘ rowText) ++ ' ' :: (rowText (c, index) ++ '\n' :: later) := by
    rw [split]
    simp [lineText, later]
  rw [← text] at rows
  exact document_fails (objective_reads headed sum)
    (rows.pair_fails (sections_fail_of_reserved reserved))

end LpText

end LinOpt
