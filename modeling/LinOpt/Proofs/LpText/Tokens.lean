import LinOpt.Proofs.LpText.Layout

namespace LinOpt.LpText

open Pattern Grammar Numeral

theorem solid_cons {c : Char} (solid : Text.isBlank c = false ∧ c ≠ '\\') (s : List Char) :
    Solid (c :: s) := by
  intro d t same
  rw [← (List.cons.inj same).1]
  exact solid

theorem solid_formed {x : String} (formed : Formed x) (s : List Char) : Solid (x.toList ++ s) := by
  obtain ⟨c, t, chars, -⟩ := formed.start
  have named := formed.named c (chars ▸ List.mem_cons_self)
  rw [chars]
  refine solid_cons ⟨notBlank_of_isNameChar named, fun comment => ?_⟩ _
  rw [comment] at named
  cases named

theorem solid_name {x : String} (readable : Readable x) (s : List Char) :
    Solid (x.toList ++ s) :=
  solid_formed readable.toFormed s

theorem solid_digit {c : Char} (digit : c.isDigit = true) (s : List Char) : Solid (c :: s) := by
  have named : isNameChar c = true := by
    rw [isNameChar, digit, Bool.or_true, Bool.true_or]
  refine solid_cons ⟨notBlank_of_isNameChar named, fun comment => ?_⟩ s
  rw [comment] at digit
  cases digit

theorem solid_written {w : Written} (sound : w.Sound) (s : List Char) : Solid (w.text ++ s) := by
  obtain ⟨c, t, text, digit⟩ := written_start sound
  rw [text]
  exact solid_digit digit _

theorem solid_figure (n : Number) (s : List Char) : Solid ((Figure.ofNumber n).text ++ s) := by
  have numeral := solid_written (Figure.ofNumber_sound n) s
  rw [Figure.text]
  split
  · exact solid_cons ⟨rfl, by decide⟩ _
  · exact numeral

variable {s t rest : List Char} {c : Char}

@[simp]
theorem skip_space (solid : Solid s) : skip (' ' :: s) = s :=
  skip_append (forall_of_all (by decide) : ∀ b ∈ [' '], Text.isBlank b = true) solid

@[simp]
theorem skip_newline (solid : Solid s) : skip ('\n' :: s) = s :=
  skip_append (forall_of_all (by decide) : ∀ b ∈ ['\n'], Text.isBlank b = true) solid

@[simp]
theorem skip_newline_space (solid : Solid s) : skip ('\n' :: ' ' :: s) = s :=
  skip_append (forall_of_all (by decide) : ∀ b ∈ ['\n', ' '], Text.isBlank b = true) solid

theorem literal_reads (text : String) (s : List Char) :
    (literal text).Reads (text.toList ++ s) () s := by
  have starts : text.toList.isPrefixOf (text.toList ++ s) = true :=
    List.isPrefixOf_iff_prefix.2 (List.prefix_append _ _)
  rw [Reads, literal, run_token, scanText, if_pos starts, List.drop_left]

theorem literal_fails {text : String} (other : text.toList.isPrefixOf s = false) :
    (literal text).Fails s := by
  rw [Fails, literal, run_token, scanText, if_neg (by simp [other])]

theorem literal_fails_cons {text : String} {d : Char} {ds : List Char}
    (chars : text.toList = d :: ds) (different : d ≠ c) : (literal text).Fails (c :: s) := by
  refine literal_fails ?_
  rw [chars, List.isPrefixOf, beq_eq_false_iff_ne.2 different, Bool.false_and]

theorem plus_reads (s : List Char) : sign.Reads ('+' :: s) false s :=
  ((literal_reads "+" s).replaced false).left _

theorem minus_reads (s : List Char) : sign.Reads ('-' :: s) true s := by
  have plus : (replaced false (literal "+")).Fails ('-' :: s) :=
    (literal_fails_cons rfl (by decide)).map _
  exact Reads.right ((literal_reads "-" s).replaced true) plus

theorem sign_reads (negative : Bool) (s : List Char) :
    sign.Reads ((if negative then '-' else '+') :: s) negative s := by
  cases negative with
  | false => exact plus_reads s
  | true => exact minus_reads s

theorem sign_fails (notSign : c ≠ '+' ∧ c ≠ '-') (s : List Char) : sign.Fails (c :: s) :=
  ((literal_fails_cons rfl notSign.1.symm).map _).either
    ((literal_fails_cons rfl notSign.2.symm).map _)

theorem notSign_digit (digit : c.isDigit = true) : c ≠ '+' ∧ c ≠ '-' := by
  constructor
  · rintro rfl
    cases digit
  · rintro rfl
    cases digit

theorem sign_fails_digit (digit : c.isDigit = true) (s : List Char) : sign.Fails (c :: s) :=
  sign_fails (notSign_digit digit) s

theorem maybeSign_reads (solid : Solid s) (fails : sign.Fails s) (negative : Bool) :
    (lexeme (maybe sign)).Reads ((if negative then ['-'] else []) ++ s)
      (if negative then some true else none) s := by
  cases negative with
  | true =>
    have read := reads_lexeme ((minus_reads s).maybe (List.cons_ne_nil _ _))
    rw [skip_solid solid] at read
    exact read
  | false =>
    have read := reads_lexeme fails.maybe
    rw [skip_solid solid] at read
    exact read

theorem sign_fails_written {w : Written} (sound : w.Sound) (s : List Char) :
    sign.Fails (w.text ++ s) := by
  obtain ⟨c, t, text, digit⟩ := written_start sound
  rw [text]
  exact sign_fails_digit digit _

theorem number_reads {w : Written} (sound : w.Sound) (ends : Ends c) (rest : List Char) :
    number.Reads (w.text ++ c :: rest) (.ofDecimal false w.decimal) (c :: rest) := by
  have scanned : (token (Numeral.scan digit?)).Reads (w.text ++ c :: rest) w.decimal (c :: rest) :=
    scan_written basic_digit sound ends
  exact scanned.map _

theorem number_fails (basic : c.toNat < 128) (notDigit : c.isDigit = false) (notPoint : c ≠ '.')
    (s : List Char) : number.Fails (c :: s) := by
  have whole : digits digit? (c :: s) = ([], c :: s) := by
    rw [digits, basic_digit.other c basic notDigit]
  have part : fraction digit? (c :: s) = ([], c :: s) := by
    unfold fraction
    split
    next same => exact absurd (List.cons.inj same).1 notPoint
    next => rfl
  have scanned : (token (Numeral.scan digit?)).Fails (c :: s) := by
    rw [Fails, run_token, scan, whole]
    dsimp only
    rw [part]
    rfl
  exact scanned.map _

theorem signedNumber_reads (n : Number) (ends : Ends c) (rest : List Char) :
    signedNumber.Reads ((Figure.ofNumber n).text ++ c :: rest) (Figure.ofNumber n).value
      (c :: rest) := by
  have sound := Figure.ofNumber_sound n
  have signed := maybeSign_reads (solid_written sound (c :: rest))
    (sign_fails_written sound (c :: rest)) (Figure.ofNumber n).negative
  have both := signed.pair (number_reads sound ends rest)
  have value : signedBy (if (Figure.ofNumber n).negative then some true else none)
      (Figure.ofNumber n).magnitude = (Figure.ofNumber n).value := by
    rw [Figure.value]
    cases (Figure.ofNumber n).negative <;> rfl
  have read := both.map fun parts => signedBy parts.1 parts.2
  rw [← List.append_assoc] at read
  exact value ▸ read

def headings : List String :=
  ["Subject To", "Bounds", "General", "Binary", "End"]

def Headed (s : List Char) : Prop :=
  ∃ h ∈ headings, ∃ t, s = h.toList ++ '\n' :: t

theorem subject_reads (s : List Char) :
    subjectKeyword.Reads ("Subject To".toList ++ '\n' :: s) "subject to" ('\n' :: s) :=
  rfl

theorem bounds_reads (s : List Char) :
    boundsKeyword.Reads ("Bounds".toList ++ '\n' :: s) "bounds" ('\n' :: s) :=
  rfl

theorem general_reads (s : List Char) :
    generalsKeyword.Reads ("General".toList ++ '\n' :: s) "general" ('\n' :: s) :=
  rfl

theorem binary_reads (s : List Char) :
    binariesKeyword.Reads ("Binary".toList ++ '\n' :: s) "binary" ('\n' :: s) :=
  rfl

namespace Headed

theorem cases (h : Headed s) : ∃ t, s = "Subject To".toList ++ '\n' :: t ∨
    s = "Bounds".toList ++ '\n' :: t ∨ s = "General".toList ++ '\n' :: t ∨
    s = "Binary".toList ++ '\n' :: t ∨ s = "End".toList ++ '\n' :: t := by
  obtain ⟨heading, member, t, rfl⟩ := h
  refine ⟨t, ?_⟩
  simp only [headings, List.mem_cons, List.not_mem_nil, or_false] at member
  rcases member with rfl | rfl | rfl | rfl | rfl <;> simp

theorem start (h : Headed s) :
    ∃ c t, s = c :: t ∧ c ∈ ['S', 'B', 'G', 'E'] := by
  obtain ⟨t, rfl | rfl | rfl | rfl | rfl⟩ := h.cases <;> exact ⟨_, _, rfl, by decide⟩

theorem solid (h : Headed s) : Solid s := by
  have letters : ∀ c ∈ ['S', 'B', 'G', 'E'], Text.isBlank c = false ∧ c ≠ '\\' :=
    forall_of_all (by decide)
  obtain ⟨c, t, rfl, member⟩ := h.start
  exact solid_cons (letters c member) t

theorem reserved_reads (h : Headed s) : ∃ word t, reserved.Reads s word t := by
  obtain ⟨t, rfl | rfl | rfl | rfl | rfl⟩ := h.cases <;> exact ⟨_, _, rfl⟩

theorem variableName_fails (h : Headed s) : variableName.Fails s := by
  obtain ⟨word, t, reads⟩ := h.reserved_reads
  exact reads.unless.after _

theorem sign_fails (h : Headed s) : sign.Fails s := by
  have letters : ∀ c ∈ ['S', 'B', 'G', 'E'], c ≠ '+' ∧ c ≠ '-' := forall_of_all (by decide)
  obtain ⟨c, t, rfl, member⟩ := h.start
  exact LpText.sign_fails (letters c member) t

theorem number_fails (h : Headed s) : number.Fails s := by
  have letters : ∀ c ∈ ['S', 'B', 'G', 'E'], c.toNat < 128 ∧ c.isDigit = false ∧ c ≠ '.' :=
    forall_of_all (by decide)
  obtain ⟨c, t, rfl, member⟩ := h.start
  obtain ⟨basic, notDigit, notPoint⟩ := letters c member
  exact LpText.number_fails basic notDigit notPoint t

theorem literal_fails (h : Headed s) {text : String} {d : Char} {ds : List Char}
    (chars : text.toList = d :: ds) (other : d ∉ ['S', 'B', 'G', 'E']) : (literal text).Fails s := by
  obtain ⟨c, t, rfl, member⟩ := h.start
  refine literal_fails_cons chars fun same => other ?_
  rw [same]
  exact member

theorem infinity_fails (h : Headed s) : infinity.Fails s := by
  obtain ⟨t, rfl | rfl | rfl | rfl | rfl⟩ := h.cases <;> rfl

end Headed

end LinOpt.LpText
