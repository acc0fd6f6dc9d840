import LinOpt.Proofs.LpText.Pattern
import LinOpt.Proofs.Text.Digits

namespace LinOpt.LpText

open Pattern Grammar

def nameStops : List Char :=
  [' ', '\n', ':']

def reservedWords : List String :=
  subjectWords ++ boundWords ++ generalWords ++ binaryWords ++ endWords

def headOf (word : List Char) : List Char :=
  word.takeWhile (· != ' ')

/-- A name that has the form of one, whether it is a keyword or not. -/
structure Formed (x : String) : Prop where
  start : ∃ c s, x.toList = c :: s ∧ isNameStart c = true
  named : ∀ c ∈ x.toList, isNameChar c = true

structure Readable (x : String) : Prop extends Formed x where
  unreserved : ∀ w ∈ reservedWords, x.toList.map Char.toLower ≠ headOf w.toList

theorem printable_of_isNameChar {c : Char} (h : isNameChar c = true) :
    33 ≤ c.toNat ∧ c.toNat < 127 := by
  have symbols : ∀ d ∈ nameSymbols, 33 ≤ d.toNat ∧ d.toNat < 127 := forall_of_all (by decide)
  simp only [isNameChar, isNameStart, Bool.or_eq_true, List.contains_iff_mem, beq_iff_eq] at h
  rcases h with ((letter | symbol) | digit) | rfl
  · delta Char.isAlpha Char.isUpper Char.isLower at letter
    simp [UInt32.le_iff_toNat_le] at letter
    omega
  · exact symbols c symbol
  · simp [Char.isDigit, UInt32.le_iff_toNat_le] at digit
    omega
  · decide

theorem notBlank_of_isNameChar {c : Char} (h : isNameChar c = true) : Text.isBlank c = false := by
  have printable := printable_of_isNameChar h
  simp [Text.isBlank]
  omega

theorem notDigit_of_isNameStart {c : Char} (h : isNameStart c = true) : c.isDigit = false := by
  have symbols : ∀ d ∈ nameSymbols, d.isDigit = false := forall_of_all (by decide)
  simp only [isNameStart, Bool.or_eq_true, List.contains_iff_mem] at h
  rcases h with letter | symbol
  · delta Char.isAlpha Char.isUpper Char.isLower at letter
    simp [Char.isDigit, UInt32.le_iff_toNat_le] at letter ⊢
    omega
  · exact symbols c symbol

theorem toLower_of_isLetter {letter c : Char} (named : isNameChar c = true)
    (h : isLetter letter c = true) : c.toLower = letter := by
  have printable := printable_of_isNameChar named
  simp only [isLetter, Bool.or_eq_true, Bool.and_eq_true, decide_eq_true_eq] at h
  rcases h with (same | ⟨-, rfl⟩) | ⟨-, rfl⟩
  · exact same
  · exact absurd printable (by decide)
  · exact absurd printable (by decide)

theorem toLower_ne_space {c : Char} (named : isNameChar c = true) : c.toLower ≠ ' ' := by
  have printable := printable_of_isNameChar named
  intro space
  unfold Char.toLower at space
  split at space
  next upper =>
    have code : (c.val + 32).toNat = 32 := congrArg (fun d => d.val.toNat) space
    have letter : c.val.toNat ≤ 90 := upper.2
    have positive : 33 ≤ c.val.toNat := printable.1
    rw [UInt32.toNat_add] at code
    simp at code
    omega
  next =>
    subst space
    exact absurd printable (by decide)

theorem afterWord_lower {cs : List Char} (named : ∀ c ∈ cs, isNameChar c = true)
    (word t : List Char) : afterWord (cs.map Char.toLower ++ word) (cs ++ t) = afterWord word t := by
  induction cs with
  | nil => rfl
  | cons c cs ih =>
    obtain ⟨isName, others⟩ := List.forall_mem_cons.1 named
    have letter : isLetter c.toLower c = true := by
      rw [isLetter, decide_eq_true rfl, Bool.true_or, Bool.true_or]
    rw [List.map_cons, List.cons_append, List.cons_append, afterWord,
      if_neg (toLower_ne_space isName)]
    rw [if_pos letter]
    exact ih others

theorem afterWord_whole {x : String} (named : ∀ c ∈ x.toList, isNameChar c = true)
    (t : List Char) : afterWord (x.map Char.toLower).toList (x.toList ++ t) = some t := by
  have whole := afterWord_lower named [] t
  rw [List.append_nil] at whole
  rw [String.toList_map, whole, afterWord]

theorem afterWord_name {word x rest t : List Char} {d : Char}
    (named : ∀ c ∈ x, isNameChar c = true)
    (stops : ∀ letter ∈ word, letter ≠ ' ' → isLetter letter d = false)
    (h : afterWord word (x ++ d :: rest) = some t) :
    x.map Char.toLower = headOf word ∨ ∃ c s, t = c :: s ∧ isNameChar c = true := by
  induction word generalizing x with
  | nil =>
    cases h
    cases x with
    | nil => exact .inl rfl
    | cons c x => exact .inr ⟨c, _, rfl, named c List.mem_cons_self⟩
  | cons letter word ih =>
    have others := fun l member => stops l (List.mem_cons_of_mem letter member)
    unfold afterWord at h
    split at h
    next space =>
      -- No character of a name is a blank, so the name ends where the blank of the keyword stands.
      subst space
      cases x with
      | nil => exact .inl rfl
      | cons c x =>
        have blank := notBlank_of_isNameChar (named c List.mem_cons_self)
        simp [blank] at h
    next notSpace =>
      cases x with
      | nil => simp [stops letter List.mem_cons_self notSpace] at h
      | cons c x =>
        have isName := named c List.mem_cons_self
        have rest := fun e member => named e (List.mem_cons_of_mem c member)
        dsimp only [List.cons_append] at h
        split at h
        next fits =>
          rcases ih rest others h with same | inside
          · refine .inl ?_
            have different : (letter != ' ') = true := bne_iff_ne.2 notSpace
            rw [List.map_cons, toLower_of_isLetter isName fits, same, headOf, headOf,
              List.takeWhile_cons, different]
            rfl
          · exact .inr inside
        next => cases h

variable {x : String} {d : Char} {rest : List Char}

theorem extendsKeyword_of_isNameChar {c : Char} (h : isNameChar c = true) :
    extendsKeyword c = true := by
  rw [extendsKeyword, h, Bool.true_or]

theorem scanKeyword_name {words : List String} (named : ∀ c ∈ x.toList, isNameChar c = true)
    (stops : ∀ w ∈ words, ∀ letter ∈ w.toList, letter ≠ ' ' → isLetter letter d = false)
    (different : ∀ w ∈ words, x.toList.map Char.toLower ≠ headOf w.toList) :
    scanKeyword words (x.toList ++ d :: rest) = none := by
  rw [scanKeyword, List.findSome?_eq_none_iff]
  intro w member
  cases fits : afterWord w.toList (x.toList ++ d :: rest) with
  | none => rfl
  | some t =>
    rcases afterWord_name named (stops w member) fits with same | ⟨c, s, rfl, inside⟩
    · exact absurd same (different w member)
    · simp [extendsKeyword_of_isNameChar inside]

theorem isLetter_of_stop (stop : d ∈ nameStops) {w : String} (known : w ∈ reservedWords)
    {letter : Char} (member : letter ∈ w.toList) (notBlank : letter ≠ ' ') :
    isLetter letter d = false := by
  have stops : (nameStops.all fun d => reservedWords.all fun w => w.toList.all fun letter =>
      letter == ' ' || !isLetter letter d) = true := by decide
  simp only [List.all_eq_true, Bool.or_eq_true, beq_iff_eq, Bool.not_eq_true'] at stops
  exact (stops d stop w known letter member).resolve_left notBlank

theorem keyword_fails {words : List String} (formed : Formed x) (stop : d ∈ nameStops)
    (reserved : ∀ w ∈ words, w ∈ reservedWords)
    (different : ∀ w ∈ words, x.toList.map Char.toLower ≠ headOf w.toList) (rest : List Char) :
    (keyword words).Fails (x.toList ++ d :: rest) := by
  apply scanKeyword_name formed.named _ different
  exact fun w member letter => isLetter_of_stop stop (reserved w member)

theorem reserved_fails (readable : Readable x) (stop : d ∈ nameStops) :
    reserved.Fails (x.toList ++ d :: rest) := by
  have fails (words : List String) (member : ∀ w ∈ words, w ∈ reservedWords) :
      (keyword words).Fails (x.toList ++ d :: rest) :=
    keyword_fails readable.toFormed stop member
      (fun w among => readable.unreserved w (member w among)) rest
  exact (fails subjectWords (by decide)).either <| (fails boundWords (by decide)).either <|
    (fails generalWords (by decide)).either <| (fails binaryWords (by decide)).either <|
    fails endWords (by decide)

theorem reserved_fails_iff {s : List Char} : reserved.Fails s ↔
    subjectKeyword.Fails s ∧ boundsKeyword.Fails s ∧ generalsKeyword.Fails s ∧
      binariesKeyword.Fails s ∧ endKeyword.Fails s := by
  rw [← fails_either, ← fails_either, ← fails_either, ← fails_either]
  rfl

theorem notNameChar_of_stop {d : Char} (stop : d ∈ nameStops) : isNameChar d = false := by
  have all : ∀ d ∈ nameStops, isNameChar d = false := forall_of_all (by decide)
  exact all d stop

theorem scanName_reads (formed : Formed x) (stop : d ∈ nameStops) :
    scanName (x.toList ++ d :: rest) = some (x, d :: rest) := by
  obtain ⟨c, s, chars, start⟩ := formed.start
  have named : ∀ e ∈ s, isNameChar e = true := by
    intro e member
    refine formed.named e ?_
    rw [chars]
    exact List.mem_cons_of_mem c member
  have ends := notNameChar_of_stop stop
  have taken : (s ++ d :: rest).takeWhile isNameChar = s := by
    rw [List.takeWhile_append_of_pos named, List.takeWhile_cons_of_neg (by simp [ends]),
      List.append_nil]
  have dropped : (s ++ d :: rest).dropWhile isNameChar = d :: rest := by
    rw [List.dropWhile_append_of_pos named, List.dropWhile_cons_of_neg (by simp [ends])]
  rw [chars, List.cons_append, scanName, if_pos start, taken, dropped, ← chars, String.ofList_toList]

theorem variableName_of_reserved (fails : reserved.Fails (x.toList ++ d :: rest)) (formed : Formed x)
    (stop : d ∈ nameStops) : variableName.Reads (x.toList ++ d :: rest) x (d :: rest) :=
  fails.unless.after (scanName_reads formed stop)

theorem variableName_reads (readable : Readable x) (stop : d ∈ nameStops) (rest : List Char) :
    variableName.Reads (x.toList ++ d :: rest) x (d :: rest) :=
  variableName_of_reserved (reserved_fails readable stop) readable.toFormed stop

theorem isSafeName_iff : isSafeName x = true ↔ Formed x ∧ isKeyword x = false := by
  rw [isSafeName, Bool.and_eq_true, Bool.not_eq_true']
  refine and_congr_left fun _ => ?_
  constructor
  · intro formed
    split at formed
    next => cases formed
    next c s chars =>
      obtain ⟨start, rest⟩ := Bool.and_eq_true_iff.1 formed
      refine ⟨⟨c, s, chars, start⟩, fun e member => ?_⟩
      rw [chars] at member
      rcases List.mem_cons.1 member with rfl | member
      · rw [isNameChar, start, Bool.true_or, Bool.true_or]
      · exact List.all_eq_true.1 rest e member
  · rintro ⟨⟨c, s, chars, start⟩, named⟩
    rw [chars] at named ⊢
    show (isNameStart c && s.all isNameChar) = true
    rw [start, Bool.true_and, List.all_eq_true]
    exact fun e member => named e (List.mem_cons_of_mem c member)

theorem lower_eq_ofList {cs : List Char} (same : x.toList.map Char.toLower = cs) :
    x.map Char.toLower = String.ofList cs := by
  rw [← same, ← String.toList_map, String.ofList_toList]

theorem head_of_isSafeName (safe : isSafeName x = true) {w : String} (member : w ∈ reservedWords)
    (same : x.toList.map Char.toLower = headOf w.toList) :
    x.map Char.toLower ∈ ["subject", "such"] := by
  obtain ⟨-, notKeyword⟩ := isSafeName_iff.1 safe
  have heads : ∀ w ∈ reservedWords, String.ofList (headOf w.toList) ∈ ["subject", "such"] ∨
      String.ofList (headOf w.toList) ∈ ["s.t.", "st"] ++ boundWords ++ generalWords
        ++ binaryWords ++ endWords ++ freeWords ++ infinityWords := by decide
  have whole := lower_eq_ofList same
  rw [isKeyword, whole] at notKeyword
  rcases heads w member with two | keyword
  · exact whole ▸ two
  · rw [List.contains_iff_mem.2 keyword] at notKeyword
    cases notKeyword

/-- A name that can be written is read again, unless it is the first word of one of the two keywords
that have two. -/
theorem readable_of_isSafeName (safe : isSafeName x = true)
    (single : x.map Char.toLower ∉ ["subject", "such"]) : Readable x := by
  obtain ⟨formed, -⟩ := isSafeName_iff.1 safe
  exact ⟨formed, fun w member same => single (head_of_isSafeName safe member same)⟩

theorem readable_obj : Readable "obj" where
  start := ⟨'o', ['b', 'j'], rfl, rfl⟩
  named := forall_of_all (by decide)
  unreserved := by decide

theorem toList_rowName (n : Nat) : ("c" ++ toString n).toList = 'c' :: Nat.toDigits 10 n := by
  rw [String.toList_append, toList_toString]
  rfl

theorem readable_rowName (n : Nat) : Readable ("c" ++ toString n) where
  start := ⟨'c', _, toList_rowName n, rfl⟩
  named := by
    intro e member
    rw [toList_rowName] at member
    rcases List.mem_cons.1 member with rfl | member
    · rfl
    · have digit : e.isDigit = true := Nat.isDigit_of_mem_toDigits (by decide) (by decide) member
      rw [isNameChar, digit, Bool.or_true, Bool.true_or]
  unreserved := by
    have heads : ∀ w ∈ reservedWords, (headOf w.toList).head? ≠ some 'c' := by decide
    intro w member same
    refine heads w member ?_
    rw [← same, toList_rowName]
    rfl

end LinOpt.LpText
