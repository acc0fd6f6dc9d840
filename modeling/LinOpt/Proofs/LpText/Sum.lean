import LinOpt.Proofs.LpText.Figure
import LinOpt.Proofs.LpText.Name
import LinOpt.Proofs.Outcome

namespace LinOpt.LpText

def Tight : List Char → Prop
  | [] => True
  | c :: cs => (c = '+' → ∃ d t, cs = d :: t ∧ d ≠ ' ') ∧ Tight cs

theorem Tight.append {cs ds : List Char} (first : Tight cs) (second : Tight ds) :
    Tight (cs ++ ds) := by
  induction cs with
  | nil => exact second
  | cons c cs ih =>
    refine ⟨fun plus => ?_, ih first.2⟩
    obtain ⟨d, t, rfl, notSpace⟩ := first.1 plus
    exact ⟨d, t ++ ds, rfl, notSpace⟩

theorem tight_of_forall {cs : List Char} (h : ∀ c ∈ cs, c ≠ '+') : Tight cs := by
  induction cs with
  | nil => trivial
  | cons c cs ih =>
    refine ⟨fun plus => absurd plus (h c List.mem_cons_self), ih fun d member => ?_⟩
    exact h d (List.mem_cons_of_mem c member)

theorem mergeSigns_cons {c : Char} {s : List Char} (h : c = '+' → ∃ d t, s = d :: t ∧ d ≠ ' ') :
    mergeSigns (c :: s) = c :: mergeSigns s := by
  rw [mergeSigns.eq_def]
  split
  next rest same =>
    obtain ⟨plus, same⟩ := List.cons.inj same
    obtain ⟨d, t, rfl, notSpace⟩ := h plus
    exact absurd (List.cons.inj same).1 notSpace
  next same =>
    obtain ⟨rfl, rfl⟩ := List.cons.inj same
    rfl
  next same => cases same

theorem mergeSigns_plus {c : Char} (notMinus : c ≠ '-') (s : List Char) :
    mergeSigns ('+' :: ' ' :: c :: s) = '+' :: ' ' :: mergeSigns (c :: s) := by
  have space : mergeSigns (' ' :: c :: s) = ' ' :: mergeSigns (c :: s) :=
    mergeSigns_cons fun plus => absurd plus (by decide)
  rw [mergeSigns.eq_def]
  split
  next rest same =>
    have minus := (List.cons.inj (List.cons.inj (List.cons.inj same).2).2).1
    exact absurd minus notMinus
  next same =>
    obtain ⟨rfl, rfl⟩ := List.cons.inj same
    rw [space]
  next same => cases same

theorem mergeSigns_append {cs : List Char} (tight : Tight cs) (rest : List Char) :
    mergeSigns (cs ++ rest) = cs ++ mergeSigns rest := by
  induction cs with
  | nil => rfl
  | cons c cs ih =>
    rw [List.cons_append, mergeSigns_cons, ih tight.2]
    · rfl
    · intro plus
      obtain ⟨d, t, rfl, notSpace⟩ := tight.1 plus
      exact ⟨d, t ++ rest, rfl, notSpace⟩

/-- What stands between two signs of a sum, and the sign before it. -/
structure Piece where
  negative : Bool
  body : List Char

namespace Piece

def first (p : Piece) : List Char :=
  (if p.negative then ['-'] else []) ++ p.body

def next (p : Piece) : List Char :=
  ' ' :: (if p.negative then '-' else '+') :: ' ' :: p.body

structure Sound (p : Piece) : Prop where
  tight : Tight p.body
  start : ∃ c s, p.body = c :: s ∧ c ≠ '-'

theorem mergeSigns_next {p : Piece} (sound : p.Sound) (rest : List Char) :
    mergeSigns (' ' :: '+' :: ' ' :: (p.first ++ rest)) = p.next ++ mergeSigns rest := by
  obtain ⟨c, s, body, notMinus⟩ := sound.start
  have merged := mergeSigns_append sound.tight rest
  rw [mergeSigns_cons fun plus => absurd plus (by decide), first, next]
  cases p.negative with
  | true =>
    change ' ' :: mergeSigns ('+' :: ' ' :: '-' :: (p.body ++ rest)) = _
    rw [mergeSigns, merged]
    rfl
  | false =>
    change ' ' :: mergeSigns ('+' :: ' ' :: (p.body ++ rest)) = _
    rw [body, List.cons_append] at merged ⊢
    rw [mergeSigns_plus notMinus, merged]
    rfl

theorem Sound.tight_first {p : Piece} (sound : p.Sound) : Tight p.first := by
  refine Tight.append ?_ sound.tight
  split
  · exact tight_of_forall (forall_of_all (by decide))
  · trivial

end Piece

def sumText : List Piece → List Char
  | [] => []
  | p :: ps => p.first ++ ps.flatMap Piece.next

theorem intercalate_cons (separator first : List Char) (rest : List (List Char)) :
    separator.intercalate (first :: rest) = first ++ rest.flatMap (separator ++ ·) := by
  induction rest generalizing first with
  | nil => simp
  | cons second rest ih =>
    rw [List.intercalate_cons_cons, ih second, List.flatMap_cons, List.append_assoc,
      List.append_assoc]

theorem mergeSigns_flatMap {ps : List Piece} (sound : ∀ p ∈ ps, p.Sound) :
    mergeSigns ((ps.map Piece.first).flatMap ([' ', '+', ' '] ++ ·)) = ps.flatMap Piece.next := by
  induction ps with
  | nil => rfl
  | cons p ps ih =>
    have rest := ih fun q member => sound q (List.mem_cons_of_mem p member)
    have step := Piece.mergeSigns_next (sound p List.mem_cons_self)
      ((ps.map Piece.first).flatMap ([' ', '+', ' '] ++ ·))
    rw [rest] at step
    exact step

theorem mergeSigns_sum {ps : List Piece} (sound : ∀ p ∈ ps, p.Sound) :
    mergeSigns ([' ', '+', ' '].intercalate (ps.map Piece.first)) = sumText ps := by
  cases ps with
  | nil => rfl
  | cons p ps =>
    have rest := mergeSigns_flatMap fun q member => sound q (List.mem_cons_of_mem p member)
    have tight := (sound p List.mem_cons_self).tight_first
    rw [List.map_cons, intercalate_cons, mergeSigns_append tight, rest]
    rfl

theorem joinTerms_eq {texts : List String} {ps : List Piece} (sound : ∀ p ∈ ps, p.Sound)
    (same : texts.map String.toList = ps.map Piece.first) :
    joinTerms texts = String.ofList (sumText ps) := by
  rw [joinTerms, String.toList_intercalate, same]
  exact congrArg String.ofList (mergeSigns_sum sound)

/-- What is written of a number: the sign that a sum takes up, and what comes after it. Plus infinity
has a sign of its own there. -/
def numeral : Number → Piece
  | .real .nan => ⟨false, "nan".toList⟩
  | .real (.infinite negative) => ⟨negative, (if negative then "inf" else "+inf").toList⟩
  | n => ⟨(Figure.ofNumber n).negative, (Figure.ofNumber n).written.text⟩

theorem numeral_of_finite {n : Number} (isFinite : n.IsFinite) :
    numeral n = ⟨(Figure.ofNumber n).negative, (Figure.ofNumber n).written.text⟩ := by
  cases n with
  | real x =>
    have finite : x.isFinite = true := isFinite
    cases x with
    | nan => cases finite
    | infinite negative => cases finite
    | finite negative quanta short bound => rfl
  | _ => rfl

theorem first_of_finite {n : Number} (isFinite : n.IsFinite) :
    (numeral n).first = (Figure.ofNumber n).text := by
  rw [numeral_of_finite isFinite]
  rfl

theorem numeral_cases (n : Number) :
    (∃ w : Numeral.Written, w.Sound ∧ (numeral n).body = w.text) ∨
      (numeral n).body ∈ ["nan".toList, "inf".toList, "+inf".toList] := by
  have figure : ∃ w : Numeral.Written, w.Sound ∧ (Figure.ofNumber n).written.text = w.text :=
    ⟨_, Figure.ofNumber_sound n, rfl⟩
  cases n with
  | real x =>
    cases x with
    | nan => exact .inr (by decide)
    | infinite negative => cases negative <;> exact .inr (by decide)
    | finite negative quanta short bound => exact .inl figure
  | _ => exact .inl figure

theorem cases_of_toBinary64? {n : Number} (readable : n.toBinary64? ≠ none) :
    n.IsFinite ∨ n = .real .nan ∨ ∃ negative, n = .real (.infinite negative) := by
  cases n with
  | real x =>
    cases x with
    | nan => exact .inr (.inl rfl)
    | infinite negative => exact .inr (.inr ⟨negative, rfl⟩)
    | finite negative quanta short bound => exact .inl rfl
  | _ =>
    refine .inl (Number.isFinite_of_readable (fun x same => ?_) readable)
    cases same

theorem formatNumber_eq {n : Number} (readable : n.toBinary64? ≠ none) :
    formatNumber n = .ok (String.ofList (numeral n).first) := by
  rcases cases_of_toBinary64? readable with finite | rfl | ⟨negative, rfl⟩
  · rw [first_of_finite finite]
    exact formatNumber_of_finite finite
  · rfl
  · cases negative <;> rfl

def doubled (c : Number) : Number :=
  ((2 : Number).mul c).getD 0

def piece : Item → Piece
  | .number n => numeral n
  | .term (.linear c v) => ⟨(numeral c).negative, (numeral c).body ++ ' ' :: v.name.toList⟩
  | .term (.quadratic c v w) =>
    ⟨false, ['[', ' '] ++ ((numeral (doubled c)).first ++ ' ' :: (v.name.toList ++
      [' ', '*', ' '] ++ (w.name.toList ++ [' ', ']', '/', '2'])))⟩

def Shown : Item → Prop
  | .number n => n.toBinary64? ≠ none
  | .term (.linear c v) => c.toBinary64? ≠ none ∧ Formed v.name
  | .term (.quadratic c v w) =>
    ((2 : Number).mul c = some (doubled c) ∧ (doubled c).toBinary64? ≠ none) ∧ Formed v.name ∧
      Formed w.name

/-- Items that are written in such a way that they can be read, if not as they were. -/
def Legible : Item → Prop
  | .number n => n.toBinary64? ≠ none
  | .term (.linear c v) => c.IsFinite ∧ Readable v.name
  | .term (.quadratic c v w) =>
    ((2 : Number).mul c = some (doubled c) ∧ (doubled c).IsFinite) ∧ Readable v.name ∧
      Readable w.name

/-- What makes a quadratic coefficient survive its doubling. -/
structure Doubles (c : Number) : Prop where
  product : (2 : Number).mul c = some (doubled c)
  portable : (doubled c).IsPortable
  halved : (doubled c).double.settled.mul Binary64.half = c.double.settled

def Writable : Item → Prop
  | .number n => n.IsPortable
  | .term (.linear c v) => c.IsPortable ∧ Readable v.name
  | .term (.quadratic c v w) => Doubles c ∧ Readable v.name ∧ Readable w.name

theorem readable_of_isFinite {n : Number} (finite : n.IsFinite) : n.toBinary64? ≠ none := by
  rw [finite.toBinary64?]
  exact Option.some_ne_none _

theorem Legible.shown {i : Item} (legible : Legible i) : Shown i := by
  match i, legible with
  | .number n, readable => exact readable
  | .term (.linear c v), ⟨finite, name⟩ => exact ⟨readable_of_isFinite finite, name.toFormed⟩
  | .term (.quadratic c v w), ⟨⟨product, finite⟩, first, second⟩ =>
    exact ⟨⟨product, readable_of_isFinite finite⟩, first.toFormed, second.toFormed⟩

theorem Writable.legible {i : Item} (writable : Writable i) : Legible i := by
  match i, writable with
  | .number n, portable => exact readable_of_isFinite (Number.IsPortable.isFinite portable)
  | .term (.linear c v), ⟨portable, name⟩ => exact ⟨portable.isFinite, name⟩
  | .term (.quadratic c v w), ⟨doubles, names⟩ =>
    exact ⟨⟨doubles.product, doubles.portable.isFinite⟩, names⟩

theorem written_start {w : Numeral.Written} (sound : w.Sound) :
    ∃ c s, w.text = c :: s ∧ c.isDigit = true := by
  obtain ⟨c, s, whole⟩ := List.exists_cons_of_ne_nil sound.nonempty
  refine ⟨c, s ++ w.partText ++ w.powerText, ?_, sound.whole c ?_⟩
  · rw [Numeral.Written.text, whole]
    rfl
  · rw [whole]
    exact List.mem_cons_self

theorem tight_digits {ds : List Char} (are : ∀ c ∈ ds, c.isDigit = true) : Tight ds := by
  refine tight_of_forall fun c member plus => ?_
  have digit := are c member
  rw [plus] at digit
  cases digit

theorem tight_written {w : Numeral.Written} (sound : w.Sound) : Tight w.text := by
  have part : Tight w.partText := by
    have are := sound.part
    rw [Numeral.Written.partText]
    cases isPart : w.part with
    | none => trivial
    | some ds =>
      rw [isPart] at are
      exact ⟨fun plus => absurd plus (by decide), tight_digits are⟩
  have power : Tight w.powerText := by
    rw [Numeral.Written.powerText]
    cases isPower : w.power with
    | none => trivial
    | some found =>
      obtain ⟨negative, ds⟩ := found
      obtain ⟨nonempty, are⟩ := sound.power negative ds isPower
      refine ⟨fun plus => absurd plus (by decide), fun _ => ?_, tight_digits are⟩
      obtain ⟨d, t, rfl⟩ := List.exists_cons_of_ne_nil nonempty
      refine ⟨d, t, rfl, fun space => ?_⟩
      have digit := are d List.mem_cons_self
      rw [space] at digit
      cases digit
  exact ((tight_digits sound.whole).append part).append power

theorem tight_numeral (n : Number) : Tight (numeral n).body := by
  have words : ∀ word ∈ ["nan".toList, "inf".toList, "+inf".toList], Tight word := by
    simp [Tight]
  rcases numeral_cases n with ⟨w, sound, body⟩ | word
  · rw [body]
    exact tight_written sound
  · exact words _ word

theorem tight_cons {c : Char} {s : List Char} (notPlus : c ≠ '+') (tight : Tight s) :
    Tight (c :: s) :=
  ⟨fun plus => absurd plus notPlus, tight⟩

theorem tight_first (n : Number) : Tight (numeral n).first := by
  rw [Piece.first]
  split
  · exact tight_cons (by decide) (tight_numeral n)
  · exact tight_numeral n

theorem numeral_start (n : Number) (rest : List Char) :
    ∃ c s, (numeral n).body ++ rest = c :: s ∧ c ≠ '-' := by
  have words : ∀ word ∈ ["nan".toList, "inf".toList, "+inf".toList],
      ∃ c s, word = c :: s ∧ c ≠ '-' := by
    simp
  rcases numeral_cases n with ⟨w, sound, body⟩ | word
  · obtain ⟨c, s, text, digit⟩ := written_start sound
    refine ⟨c, s ++ rest, by rw [body, text]; rfl, ?_⟩
    rintro rfl
    cases digit
  · obtain ⟨c, s, text, notMinus⟩ := words _ word
    exact ⟨c, s ++ rest, by rw [text]; rfl, notMinus⟩

theorem tight_name {x : String} (formed : Formed x) : Tight x.toList := by
  refine tight_of_forall fun c member plus => ?_
  have isName := formed.named c member
  rw [plus] at isName
  cases isName

theorem piece_sound {i : Item} (shown : Shown i) : (piece i).Sound := by
  match i, shown with
  | .number n, _ =>
    have start := numeral_start n []
    rw [List.append_nil] at start
    exact ⟨tight_numeral n, start⟩
  | .term (.linear c v), ⟨_, named⟩ =>
    have rest : Tight (' ' :: v.name.toList) := tight_cons (by decide) (tight_name named)
    exact ⟨(tight_numeral c).append rest, numeral_start c _⟩
  | .term (.quadratic c v w), ⟨_, first, second⟩ =>
    have symbols : ∀ cs ∈ [['[', ' '], [' ', '*', ' '], [' ', ']', '/', '2']], Tight cs := by
      simp [Tight]
    have factors := ((tight_name first).append (symbols [' ', '*', ' '] (by simp))).append
      ((tight_name second).append (symbols [' ', ']', '/', '2'] (by simp)))
    have all := (tight_first (doubled c)).append (tight_cons (c := ' ') (by decide) factors)
    exact ⟨(symbols ['[', ' '] (by simp)).append all, '[', _, rfl, by decide⟩

theorem formatTerm_eq {t : Term} (shown : Shown (.term t)) :
    formatTerm t = .ok (String.ofList (piece (.term t)).first) := by
  match t, shown with
  | .linear c v, ⟨readable, _⟩ =>
    rw [formatTerm, formatNumber_eq readable]
    refine congrArg Except.ok (String.toList_injective ?_)
    cases sign : (numeral c).negative <;> simp [piece, Piece.first, sign]
  | .quadratic c v w, ⟨⟨product, readable⟩, _, _⟩ =>
    rw [formatTerm, product]
    change (do return "[ " ++ (← formatNumber (doubled c)) ++ " " ++ v.name ++ " * " ++ w.name
      ++ " ]/2" : Except Error String) = _
    rw [formatNumber_eq readable]
    refine congrArg Except.ok (String.toList_injective ?_)
    simp [piece, Piece.first]

def writtenItems (e : Expression) (withConstant : Bool) : List Item :=
  (if withConstant && !e.constant.isZero then [.number e.constant] else []) ++ e.terms.map .term

theorem formatExpression_eq {e : Expression} {withConstant : Bool}
    (shown : ∀ i ∈ writtenItems e withConstant, Shown i) :
    formatExpression e withConstant =
      .ok (String.ofList (sumText ((writtenItems e withConstant).map piece))) := by
  have terms : e.terms.mapM formatTerm =
      .ok (e.terms.map fun t => String.ofList (piece (.term t)).first) := by
    refine mapM_eq_ok fun t member => formatTerm_eq (shown (.term t) ?_)
    exact List.mem_append_right _ (List.mem_map_of_mem member)
  have sound : ∀ p ∈ (writtenItems e withConstant).map piece, p.Sound := by
    intro p member
    obtain ⟨i, among, rfl⟩ := List.mem_map.1 member
    exact piece_sound (shown i among)
  have constants : (if withConstant && !e.constant.isZero then [e.constant] else []).mapM
      formatNumber = .ok ((if withConstant && !e.constant.isZero then [e.constant] else []).map
        fun n => String.ofList (numeral n).first) := by
    refine mapM_eq_ok fun n member => formatNumber_eq (shown (.number n) ?_)
    refine List.mem_append_left _ ?_
    split at member
    next nonzero =>
      rw [if_pos nonzero, List.mem_singleton.1 member]
      exact List.mem_singleton_self _
    next => cases member
  have texts : ((if withConstant && !e.constant.isZero then [e.constant] else []).map
        (fun n => String.ofList (numeral n).first)
      ++ e.terms.map fun t => String.ofList (piece (.term t)).first).map String.toList =
        ((writtenItems e withConstant).map piece).map Piece.first := by
    simp only [writtenItems, List.map_append, List.map_map]
    refine congrArg₂ (· ++ ·) ?_ (List.map_congr_left fun t _ => String.toList_ofList)
    split
    · simp [piece]
    · rfl
  unfold formatExpression
  dsimp only
  rw [constants, terms]
  exact congrArg Except.ok (joinTerms_eq sound texts)

end LinOpt.LpText
