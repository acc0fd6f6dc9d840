import LinOpt.Proofs.LpText.Pattern

namespace LinOpt

namespace LpText

def blankChars : List Char :=
  ['\t', '\n', '\x0b', '\x0c', '\r', ' ', '\u0085', '\u00a0', '\u1680', '\u2000', '\u2001', '\u2002',
    '\u2003', '\u2004', '\u2005', '\u2006', '\u2007', '\u2008', '\u2009', '\u200a', '\u2028',
    '\u2029', '\u202f', '\u205f', '\u3000']

theorem mem_blankChars {c : Char} (blank : Text.isBlank c = true) : c ∈ blankChars := by
  have codes : c.toNat ∈ blankChars.map Char.toNat := by
    simp only [Text.isBlank, Bool.or_eq_true, Bool.and_eq_true, decide_eq_true_eq,
      beq_iff_eq] at blank
    simp only [blankChars, List.map_cons, List.map_nil, List.mem_cons, List.not_mem_nil, or_false]
    simp only [Char.reduceToNat]
    omega
  obtain ⟨d, member, same⟩ := List.mem_map.1 codes
  rwa [← Char.toNat_inj.1 same]

theorem forall_blank {p : Char → Prop} [DecidablePred p]
    (h : (blankChars.all fun c => decide (p c)) = true) {c : Char}
    (blank : Text.isBlank c = true) : p c :=
  forall_of_all h c (mem_blankChars blank)

def IsSolid (c : Char) : Prop :=
  Text.isBlank c = false ∧ c ≠ '\\'

instance : DecidablePred IsSolid := fun _ => inferInstanceAs (Decidable (_ ∧ _))

theorem isSolid_of {p : Char → Bool} (blanks : (blankChars.all fun c => decide (p c = false)) = true)
    (comment : p '\\' = false) {c : Char} (h : p c = true) : IsSolid c := by
  constructor
  · refine Bool.eq_false_iff.2 fun blank => ?_
    rw [forall_blank blanks blank] at h
    cases h
  · rintro rfl
    rw [comment] at h
    cases h

/-- Whether a comment is open after a character, and `inside` whether one was before it. -/
def staysInComment (inside : Bool) (c : Char) : Bool :=
  if inside then c != '\n' else c == '\\'

def endsInComment (s : List Char) : Bool :=
  s.foldl staysInComment false

/-- Two texts that are the same but for more blanks after one blank of the first that is in no
comment; `inside` says whether both texts start in a comment. -/
inductive Widened : Bool → List Char → List Char → Prop
  | same {inside : Bool} (s : List Char) : Widened inside s s
  | more {inside : Bool} {c : Char} {bs : List Char} (blank : Text.isBlank c = true)
      (outside : staysInComment inside c = false) (blanks : ∀ b ∈ bs, Text.isBlank b = true)
      (s : List Char) : Widened inside (c :: s) (c :: (bs ++ s))
  | later {inside : Bool} {c : Char} {s t : List Char}
      (rest : Widened (staysInComment inside c) s t) : Widened inside (c :: s) (c :: t)

theorem widened_append {c : Char} {bs : List Char} (blank : Text.isBlank c = true)
    (blanks : ∀ b ∈ bs, Text.isBlank b = true) (s front : List Char) {inside : Bool}
    (outside : (front ++ [c]).foldl staysInComment inside = false) :
    Widened inside (front ++ c :: s) (front ++ c :: (bs ++ s)) := by
  induction front generalizing inside with
  | nil => exact .more blank outside blanks s
  | cons d front ih => exact .later (ih outside)

namespace Widened

variable {inside : Bool} {c : Char} {s t u : List Char}

theorem nil (h : Widened inside [] t) : t = [] := by
  cases h
  rfl

theorem cons (h : Widened inside (c :: s) u) : ∃ t, u = c :: t := by
  cases h with
  | same => exact ⟨s, rfl⟩
  | more => exact ⟨_, rfl⟩
  | later => exact ⟨_, rfl⟩

theorem head? (h : Widened inside s t) : t.head? = s.head? := by
  cases h <;> rfl

theorem isEmpty (h : Widened inside s t) : t.isEmpty = s.isEmpty := by
  cases h <;> rfl

theorem rest (h : Widened inside (c :: s) u) (notBlank : Text.isBlank c = false) :
    ∃ t, u = c :: t ∧ Widened (staysInComment inside c) s t := by
  cases h with
  | same => exact ⟨s, rfl, .same s⟩
  | more blank =>
    rw [notBlank] at blank
    cases blank
  | later rest => exact ⟨_, rfl, rest⟩

theorem solid (h : Widened false (c :: s) u) (solid : IsSolid c) :
    ∃ t, u = c :: t ∧ Widened false s t := by
  obtain ⟨t, same, rest⟩ := h.rest solid.1
  have outside : staysInComment false c = false := beq_eq_false_iff_ne.2 solid.2
  exact ⟨t, same, outside ▸ rest⟩

theorem dropBlanks (h : Widened false s t) :
    Widened false (s.dropWhile Text.isBlank) (t.dropWhile Text.isBlank) := by
  induction s generalizing t with
  | nil =>
    rw [h.nil]
    exact .same _
  | cons c s ih =>
    by_cases blank : Text.isBlank c = true
    · cases h with
      | same => exact .same _
      | more _ _ blanks =>
        rw [List.dropWhile_cons_of_pos blank, List.dropWhile_cons_of_pos blank,
          List.dropWhile_append_of_pos blanks]
        exact .same _
      | later rest =>
        have outside : staysInComment false c = false :=
          forall_blank (p := fun c => staysInComment false c = false) (by decide) blank
        rw [List.dropWhile_cons_of_pos blank, List.dropWhile_cons_of_pos blank]
        exact ih (outside ▸ rest)
    · obtain ⟨t, rfl⟩ := h.cons
      rwa [List.dropWhile_cons_of_neg blank, List.dropWhile_cons_of_neg blank]

theorem dropComment (h : Widened true s t) :
    Widened false (s.dropWhile (· != '\n')) (t.dropWhile (· != '\n')) := by
  induction s generalizing t with
  | nil =>
    rw [h.nil]
    exact .same _
  | cons c s ih =>
    by_cases newline : c = '\n'
    · -- The comment ends here, so that from here on the text is in none.
      subst newline
      obtain ⟨t, rfl⟩ := h.cons
      rw [List.dropWhile_cons_of_neg (by decide), List.dropWhile_cons_of_neg (by decide)]
      cases h with
      | same => exact .same _
      | more blank _ blanks => exact .more blank rfl blanks s
      | later rest => exact .later rest
    · have other : (c != '\n') = true := bne_iff_ne.2 newline
      have goesOn : staysInComment true c = true := other
      cases h with
      | same => exact .same _
      | more _ outside =>
        rw [goesOn] at outside
        cases outside
      | later rest =>
        simp only [List.dropWhile_cons, other, if_true]
        exact ih (goesOn ▸ rest)

theorem takeWhile {p : Char → Bool} (solid : ∀ {c}, p c = true → IsSolid c)
    (h : Widened false s t) : t.takeWhile p = s.takeWhile p ∧
      Widened false (s.dropWhile p) (t.dropWhile p) := by
  induction s generalizing t with
  | nil =>
    rw [h.nil]
    exact ⟨rfl, .same _⟩
  | cons c s ih =>
    by_cases member : p c = true
    · obtain ⟨t, rfl, rest⟩ := h.solid (solid member)
      obtain ⟨taken, dropped⟩ := ih rest
      rw [List.takeWhile_cons_of_pos member, List.takeWhile_cons_of_pos member,
        List.dropWhile_cons_of_pos member, List.dropWhile_cons_of_pos member, taken]
      exact ⟨rfl, dropped⟩
    · obtain ⟨t, rfl⟩ := h.cons
      rw [List.takeWhile_cons_of_neg member, List.takeWhile_cons_of_neg member,
        List.dropWhile_cons_of_neg member, List.dropWhile_cons_of_neg member]
      exact ⟨rfl, h⟩

end Widened

def Alike : Option (α × List Char) → Option (α × List Char) → Prop :=
  Option.Rel fun x y => x.1 = y.1 ∧ Widened false x.2 y.2

variable {s t : List Char}

theorem alike_some {a : α} (rest : Widened false s t) : Alike (some (a, s)) (some (a, t)) :=
  .some ⟨rfl, rest⟩

namespace Alike

variable {x y x' y' : Option (α × List Char)}

theorem cases (h : Alike x y) : (x = none ∧ y = none) ∨
    ∃ a s t, x = some (a, s) ∧ y = some (a, t) ∧ Widened false s t := by
  cases h with
  | none => exact .inl ⟨rfl, rfl⟩
  | @some u v both =>
    obtain ⟨a, s⟩ := u
    obtain ⟨b, t⟩ := v
    obtain ⟨same, rest⟩ := both
    cases same
    exact .inr ⟨a, s, t, rfl, rfl, rest⟩

theorem bind (h : Alike x y) {f : α × List Char → Option (β × List Char)}
    (step : ∀ a s t, Widened false s t → Alike (f (a, s)) (f (a, t))) :
    Alike (x.bind f) (y.bind f) := by
  rcases h.cases with ⟨rfl, rfl⟩ | ⟨a, s, t, rfl, rfl, rest⟩
  · exact .none
  · exact step a s t rest

theorem map (h : Alike x y) (f : α → β) :
    Alike (x.map fun (a, rest) => (f a, rest)) (y.map fun (a, rest) => (f a, rest)) := by
  cases h with
  | none => exact .none
  | some both => exact .some ⟨congrArg f both.1, both.2⟩

theorem or (h : Alike x y) (g : Alike x' y') : Alike (x.or x') (y.or y') := by
  cases h with
  | none => exact g
  | some both => exact .some both

theorem isSome (h : Alike x y) : y.isSome = x.isSome := by
  cases h <;> rfl

end Alike

end LpText

namespace Numeral

open LpText

variable {digit? : Char → Option Nat} {s t : List Char}

theorem digits_widened (solid : ∀ c d, digit? c = some d → IsSolid c) (h : Widened false s t) :
    (digits digit? t).1 = (digits digit? s).1 ∧
      Widened false (digits digit? s).2 (digits digit? t).2 := by
  induction s generalizing t with
  | nil =>
    rw [h.nil]
    exact ⟨rfl, .same _⟩
  | cons c s ih =>
    cases digit : digit? c with
    | none =>
      obtain ⟨t, rfl⟩ := h.cons
      simp only [digits, digit, true_and]
      exact h
    | some d =>
      obtain ⟨t, rfl, rest⟩ := h.solid (solid c d digit)
      obtain ⟨same, left⟩ := ih rest
      simp only [digits, digit, same, true_and]
      exact left

theorem fraction_widened (solid : ∀ c d, digit? c = some d → IsSolid c) (h : Widened false s t) :
    (fraction digit? t).1 = (fraction digit? s).1 ∧
      Widened false (fraction digit? s).2 (fraction digit? t).2 := by
  cases s with
  | nil =>
    rw [h.nil]
    exact ⟨rfl, .same _⟩
  | cons c s =>
    by_cases point : c = '.'
    · subst point
      obtain ⟨t, rfl, rest⟩ := h.solid (by decide)
      exact digits_widened solid rest
    · obtain ⟨t, rfl⟩ := h.cons
      have none (u : List Char) : fraction digit? (c :: u) = ([], c :: u) := by
        unfold fraction
        split
        next same => cases same; exact absurd rfl point
        next => rfl
      rw [none, none]
      exact ⟨rfl, h⟩

theorem sign_widened (h : Widened false s t) :
    (sign t).1 = (sign s).1 ∧ Widened false (sign s).2 (sign t).2 := by
  cases s with
  | nil =>
    rw [h.nil]
    exact ⟨rfl, .same _⟩
  | cons c s =>
    by_cases plus : c = '+'
    · subst plus
      obtain ⟨t, rfl, rest⟩ := h.solid (by decide)
      exact ⟨rfl, rest⟩
    by_cases minus : c = '-'
    · subst minus
      obtain ⟨t, rfl, rest⟩ := h.solid (by decide)
      exact ⟨rfl, rest⟩
    obtain ⟨t, rfl⟩ := h.cons
    have unsigned (u : List Char) : sign (c :: u) = (false, c :: u) := by
      unfold sign
      split
      next same => cases same; exact absurd rfl plus
      next same => cases same; exact absurd rfl minus
      next => rfl
    rw [unsigned, unsigned]
    exact ⟨rfl, h⟩

theorem power_cons (c : Char) (u : List Char) : power digit? (c :: u) =
    if (c = 'e' ∨ c = 'E') ∧ (digits digit? (sign u).2).1 ≠ [] then
      (Binary64.signed (sign u).1 (valueOf (digits digit? (sign u).2).1),
        (digits digit? (sign u).2).2)
    else (0, c :: u) := by
  rw [power]
  dsimp only
  split
  next none => simp [none]
  next some => simp [some]

theorem power_widened (solid : ∀ c d, digit? c = some d → IsSolid c) (h : Widened false s t) :
    (power digit? t).1 = (power digit? s).1 ∧
      Widened false (power digit? s).2 (power digit? t).2 := by
  cases s with
  | nil =>
    rw [h.nil]
    exact ⟨rfl, .same _⟩
  | cons c s =>
    by_cases letter : c = 'e' ∨ c = 'E'
    · have notBlank : IsSolid c := by rcases letter with rfl | rfl <;> decide
      obtain ⟨t, rfl, rest⟩ := h.solid notBlank
      obtain ⟨sameSign, afterSign⟩ := sign_widened rest
      obtain ⟨sameDigits, afterDigits⟩ := digits_widened solid afterSign
      rw [power_cons, power_cons, sameSign, sameDigits]
      split
      · exact ⟨rfl, afterDigits⟩
      · exact ⟨rfl, h⟩
    · obtain ⟨t, rfl⟩ := h.cons
      rw [power_cons, power_cons, if_neg fun both => letter both.1,
        if_neg fun both => letter both.1]
      exact ⟨rfl, h⟩

theorem scan_widened (solid : ∀ c d, digit? c = some d → IsSolid c) (h : Widened false s t) :
    Alike (scan digit? s) (scan digit? t) := by
  obtain ⟨whole, afterWhole⟩ := digits_widened solid h
  obtain ⟨part, afterPart⟩ := fraction_widened solid afterWhole
  obtain ⟨exponent, rest⟩ := power_widened solid afterPart
  unfold scan
  dsimp only
  rw [whole, part, exponent]
  split
  · exact .none
  · exact alike_some rest

end Numeral

namespace LpText

variable {s t : List Char}

theorem isSolid_of_isLetter {letter c : Char} (solid : IsSolid letter)
    (fits : isLetter letter c = true) : IsSolid c := by
  simp only [isLetter, Bool.or_eq_true, Bool.and_eq_true, decide_eq_true_eq] at fits
  rcases fits with (lower | ⟨-, rfl⟩) | ⟨-, rfl⟩
  · constructor
    · refine Bool.eq_false_iff.2 fun blank => ?_
      have same : c.toLower = c := forall_blank (p := fun c => c.toLower = c) (by decide) blank
      rw [← lower, same] at solid
      exact Bool.false_ne_true (solid.1.symm.trans blank)
    · rintro rfl
      exact solid.2 lower.symm
  · decide
  · decide

def SolidWords (words : List String) : Prop :=
  ∀ w ∈ words, ∀ letter ∈ w.toList, letter = ' ' ∨ IsSolid letter

instance : DecidablePred SolidWords := fun words =>
  have (w : String) : Decidable (∀ letter ∈ w.toList, letter = ' ' ∨ IsSolid letter) :=
    List.decidableBAll _ w.toList
  List.decidableBAll _ words

theorem afterWord_widened {word : List Char} (solid : ∀ letter ∈ word, letter = ' ' ∨ IsSolid letter)
    (h : Widened false s t) : Option.Rel (Widened false) (afterWord word s) (afterWord word t) := by
  induction word generalizing s t with
  | nil => exact .some h
  | cons letter word ih =>
    obtain ⟨first, others⟩ := List.forall_mem_cons.1 solid
    cases s with
    | nil =>
      rw [h.nil]
      unfold afterWord
      split <;> exact .none
    | cons c s =>
      obtain ⟨t, rfl⟩ := h.cons
      unfold afterWord
      -- A space of the keyword takes all the blanks that stand there, any other letter only itself.
      by_cases space : letter = ' '
      · simp only [space, if_true]
        by_cases blank : Text.isBlank c = true
        · have rest := h.dropBlanks
          rw [List.dropWhile_cons_of_pos blank, List.dropWhile_cons_of_pos blank] at rest
          rw [if_pos blank, if_pos blank]
          exact ih others rest
        · rw [if_neg blank, if_neg blank]
          exact .none
      · simp only [space, if_false]
        by_cases fits : isLetter letter c = true
        · obtain ⟨_, same, rest⟩ := h.solid (isSolid_of_isLetter (first.resolve_left space) fits)
          cases same
          rw [if_pos fits, if_pos fits]
          exact ih others rest
        · rw [if_neg fits, if_neg fits]
          exact .none

theorem scanKeyword_widened {words : List String} (solid : SolidWords words)
    (h : Widened false s t) : Alike (scanKeyword words s) (scanKeyword words t) := by
  induction words with
  | nil => exact .none
  | cons w words ih =>
    obtain ⟨first, others⟩ := List.forall_mem_cons.1 solid
    have rest := ih others
    unfold scanKeyword at rest ⊢
    rw [List.findSome?_cons, List.findSome?_cons]
    have after := afterWord_widened first h
    revert after
    generalize afterWord w.toList s = x
    generalize afterWord w.toList t = y
    intro after
    cases after with
    | none => exact rest
    | @some u v wider =>
      simp only [Option.bind_eq_bind, Option.bind_some, wider.head?]
      cases u.head?.any extendsKeyword with
      | true => exact rest
      | false => exact alike_some wider

theorem scanText_widened {text : List Char} (solid : ∀ c ∈ text, IsSolid c)
    (h : Widened false s t) : Alike (scanText text s) (scanText text t) := by
  induction text generalizing s t with
  | nil => exact alike_some h
  | cons c text ih =>
    obtain ⟨first, others⟩ := List.forall_mem_cons.1 solid
    cases s with
    | nil =>
      rw [h.nil]
      exact .none
    | cons d s =>
      by_cases same : c = d
      · subst same
        obtain ⟨t, rfl, rest⟩ := h.solid first
        simpa [scanText] using ih others rest
      · obtain ⟨t, rfl⟩ := h.cons
        simp [scanText, same, Alike]

theorem isSolid_of_isNameChar {c : Char} : isNameChar c = true → IsSolid c :=
  isSolid_of (by decide) (by decide)

theorem scanName_widened (h : Widened false s t) : Alike (scanName s) (scanName t) := by
  cases s with
  | nil =>
    rw [h.nil]
    exact .none
  | cons c s =>
    by_cases start : isNameStart c = true
    · have named : isNameChar c = true := by rw [isNameChar, start, Bool.true_or, Bool.true_or]
      obtain ⟨t, rfl, rest⟩ := h.solid (isSolid_of_isNameChar named)
      obtain ⟨taken, dropped⟩ := rest.takeWhile isSolid_of_isNameChar
      rw [scanName, scanName, if_pos start, if_pos start, taken]
      exact alike_some dropped
    · obtain ⟨t, rfl⟩ := h.cons
      rw [scanName, scanName, if_neg start, if_neg start]
      exact .none

theorem scanBlanks_widened (h : Widened false s t) : Alike (scanBlanks s) (scanBlanks t) := by
  cases s with
  | nil =>
    rw [h.nil]
    exact .none
  | cons c s =>
    have rest := h.dropBlanks
    obtain ⟨t, rfl⟩ := h.cons
    by_cases blank : Text.isBlank c = true
    · rw [List.dropWhile_cons_of_pos blank, List.dropWhile_cons_of_pos blank] at rest
      rw [scanBlanks, scanBlanks, if_pos blank, if_pos blank]
      exact alike_some rest
    · rw [scanBlanks, scanBlanks, if_neg blank, if_neg blank]
      exact .none

theorem scanComment_widened (h : Widened false s t) : Alike (scanComment s) (scanComment t) := by
  cases s with
  | nil =>
    rw [h.nil]
    exact .none
  | cons c s =>
    by_cases comment : c = '\\'
    · subst comment
      obtain ⟨t, rfl, rest⟩ := h.rest (by decide)
      exact alike_some rest.dropComment
    · obtain ⟨t, rfl⟩ := h.cons
      simp [scanComment, comment, Alike]

theorem infinityWords_solid : SolidWords infinityWords := by
  decide

theorem scanInfinity_widened (h : Widened false s t) :
    Alike (scanInfinity s) (scanInfinity t) := by
  obtain ⟨sign, rest⟩ := Numeral.sign_widened h
  have signed (u : List Char) : scanInfinity u =
      (scanKeyword infinityWords ((Numeral.sign u).2.dropWhile Text.isBlank)).map
        fun found => ((Numeral.sign u).1, found.2) := rfl
  rw [signed, signed, sign]
  exact (scanKeyword_widened infinityWords_solid rest.dropBlanks).map fun _ => (Numeral.sign s).1

end LpText

end LinOpt
