import LinOpt.Proofs.LpText.Accepted
import LinOpt.Proofs.LpText.Registered

namespace LinOpt

namespace LpText

open Pattern Grammar

variable {s t text : List Char} {x : String}

theorem scanKeyword_misses {words : List String} (named : ∀ c ∈ x.toList, isNameChar c = true)
    (word : x.map Char.toLower ∈ words) (misses : scanKeyword words (x.toList ++ t) = none) :
    ∃ c rest, t = c :: rest ∧ extendsKeyword c = true := by
  have fits := List.findSome?_eq_none_iff.1 misses _ word
  rw [afterWord_whole named, Option.bind_eq_bind, Option.bind_some] at fits
  cases t with
  | nil => cases fits
  | cons c rest =>
    refine ⟨c, rest, rfl, ?_⟩
    by_contra other
    simp [other] at fits

theorem scanName_eq_some (scanned : scanName s = some (x, t)) :
    s = x.toList ++ t ∧ Formed x ∧ ∀ c rest, t = c :: rest → isNameChar c = false := by
  unfold scanName at scanned
  split at scanned
  · cases scanned
  next c s =>
    split at scanned
    next start =>
      cases scanned
      refine ⟨?_, ⟨⟨c, _, String.toList_ofList, start⟩, ?_⟩, ?_⟩
      · rw [String.toList_ofList, List.cons_append, List.takeWhile_append_dropWhile]
      · rw [String.toList_ofList]
        intro d member
        rcases List.mem_cons.1 member with rfl | member
        · rw [isNameChar, start, Bool.true_or, Bool.true_or]
        · exact List.all_eq_true.1 List.all_takeWhile d member
      · intro d rest same
        have head : (s.dropWhile isNameChar).head? = some d := by rw [same]; rfl
        have stops := List.head?_dropWhile_not isNameChar s
        rw [head] at stops
        simpa using stops
    next => cases scanned

theorem reserved_misses (named : ∀ c ∈ x.toList, isNameChar c = true)
    (word : x.map Char.toLower ∈ reservedWords) (fails : reserved.Fails (x.toList ++ t)) :
    ∃ c rest, t = c :: rest ∧ extendsKeyword c = true := by
  obtain ⟨subject, bounds, general, binary, ending⟩ := reserved_fails_iff.1 fails
  simp only [reservedWords, List.mem_append] at word
  rcases word with (((word | word) | word) | word) | word
  · exact scanKeyword_misses named word subject
  · exact scanKeyword_misses named word bounds
  · exact scanKeyword_misses named word general
  · exact scanKeyword_misses named word binary
  · exact scanKeyword_misses named word ending

theorem cases_of_isKeyword (keyword : isKeyword x = true) :
    x.map Char.toLower ∈ freeWords ++ infinityWords ∨ x.map Char.toLower ∈ reservedWords := by
  have word := List.contains_iff_mem.1 keyword
  simp only [List.mem_append] at word
  simp only [reservedWords, List.mem_append]
  rcases word with (((((word | word) | word) | word) | word) | word) | word
  · have subject : ∀ w ∈ ["s.t.", "st"], w ∈ subjectWords := by decide
    exact .inr (.inl (.inl (.inl (.inl (subject _ word)))))
  · exact .inr (.inl (.inl (.inl (.inr word))))
  · exact .inr (.inl (.inl (.inr word)))
  · exact .inr (.inl (.inr word))
  · exact .inr (.inr word)
  · exact .inl (.inl word)
  · exact .inl (.inr word)

/-- A keyword that is read as a name: a word that is a keyword in bounds only, or one with a letter
after it that no name has and that keywords stop at. -/
def KeywordAsName (text : List Char) (x : String) : Prop :=
  x.map Char.toLower ∈ freeWords ++ infinityWords ∨
    isKeyword x = true ∧
      ∃ c, isNameChar c = false ∧ extendsKeyword c = true ∧ x.toList ++ [c] <:+: text

/-- What holds of every name that is read somewhere in a text. -/
structure NameOf (text : List Char) (x : String) : Prop where
  formed : Formed x
  keyword : isKeyword x = true → KeywordAsName text x

theorem NameOf.refused_iff (h : NameOf text x) : isSafeName x = false ↔ KeywordAsName text x := by
  have safe : isSafeName x = false ↔ isKeyword x = true := by
    rw [← Bool.not_eq_true, isSafeName_iff, ← Bool.not_eq_false]
    simp [h.formed]
  rw [safe]
  constructor
  · exact h.keyword
  · rintro (free | ⟨keyword, -⟩)
    · rw [isKeyword, List.contains_iff_mem, List.append_assoc]
      exact List.mem_append_right _ free
    · exact keyword

theorem variableName_yields : variableName.Yields text (NameOf text) := by
  intro s x t inside reads
  obtain ⟨_, s', unreserved, scanned⟩ := exists_of_after reads
  obtain ⟨fails, rfl⟩ := reads_unless.1 unreserved
  obtain ⟨rfl, formed, ends⟩ := scanName_eq_some scanned
  refine ⟨⟨formed, ?_⟩, (List.suffix_append _ _).trans inside⟩
  intro keyword
  rcases cases_of_isKeyword keyword with free | word
  · exact .inl free
  · obtain ⟨c, rest, rfl, extend⟩ := reserved_misses formed.named word fails
    refine .inr ⟨keyword, c, ends c rest rfl, extend, ?_⟩
    have start : x.toList ++ [c] <+: x.toList ++ c :: rest := ⟨rest, by simp⟩
    exact start.isInfix.trans inside.isInfix

end LpText

namespace Number

theorem IsAddable.readable {n : Number} (h : n.IsAddable) : n.toBinary64? ≠ none := by
  rcases h with rfl | ⟨x, rfl⟩
  · exact LpText.readable_of_isFinite isExact_zero.isFinite
  · exact Option.some_ne_none x

theorem IsAddable.doubled {n : Number} (h : n.IsAddable) :
    (2 : Number).mul n = some (LpText.doubled n) ∧ (LpText.doubled n).IsAddable := by
  rcases h with rfl | ⟨x, rfl⟩
  · exact ⟨rfl, .inl rfl⟩
  · rw [LpText.doubled, two_mul_real]
    exact ⟨rfl, isAddable_real _⟩

end Number

namespace LpText

open Pattern Grammar

variable {m n : Model} {text : String}

theorem shown_of_isAddable {e : Expression} (addable : e.IsAddable)
    (formed : ∀ t ∈ e.terms, ∀ v ∈ t.vars, Formed v.name) (withConstant : Bool) :
    ∀ i ∈ writtenItems e withConstant, Shown i := by
  intro i member
  rcases List.mem_append.1 member with constant | term
  · split at constant
    · rw [List.mem_singleton.1 constant]
      exact addable.constant.readable
    · cases constant
  · obtain ⟨t, among, rfl⟩ := List.mem_map.1 term
    have coefficient := addable.terms t among
    have names := formed t among
    cases t with
    | linear c v => exact ⟨coefficient.readable, names v List.mem_cons_self⟩
    | quadratic c v w =>
      obtain ⟨product, twice⟩ := coefficient.doubled
      exact ⟨⟨product, twice.readable⟩, names v List.mem_cons_self,
        names w (List.mem_cons_of_mem v List.mem_cons_self)⟩

theorem checkNames_cases (vs : List Variable) :
    (∀ v ∈ vs, isSafeName v.name = true) ∨ ∃ v ∈ vs, isSafeName v.name = false ∧
      vs.forM checkName = .error (.invalidVariable (.unwritableName v.name)) := by
  induction vs with
  | nil => exact .inl (List.forall_mem_nil _)
  | cons v vs ih =>
    by_cases safe : isSafeName v.name = true
    · have checked : checkName v = .ok () := if_pos safe
      rcases ih with others | ⟨w, member, refused, stop⟩
      · exact .inl (List.forall_mem_cons.2 ⟨safe, others⟩)
      · refine .inr ⟨w, List.mem_cons_of_mem v member, refused, ?_⟩
        exact bind_eq_error.2 (.inr ⟨(), checked, stop⟩)
    · have refused : checkName v = .error (.invalidVariable (.unwritableName v.name)) := if_neg safe
      refine .inr ⟨v, List.mem_cons_self, Bool.eq_false_of_not_eq_true safe, ?_⟩
      exact bind_eq_error.2 (.inl refused)

theorem describes_of_ofText {d : Document} (h : Document.ofText text = .ok d) :
    Document.Describes text d := by
  obtain ⟨found, read, rest⟩ := bind_eq_ok.1 h
  have same : found = d := by
    split at rest
    · cases rest
    · exact Except.ok.inj rest
  have read := mapError_eq_ok.1 read
  rcases Document.read_cases text with ⟨d', describes, ok⟩ | ⟨-, mismatch, failed⟩
  · rw [ok] at read
    rwa [← same, ← Except.ok.inj read]
  · rw [failed] at read
    cases read

theorem not_ofText_of_fails {cs : List Char} (fails : document.Fails cs) :
    ¬∃ d, Document.ofText (String.ofList cs) = .ok d := by
  rintro ⟨d, read⟩
  have reads : document.Reads (String.ofList cs).toList d [] := describes_of_ofText read
  rw [String.toList_ofList, Reads, fails] at reads
  cases reads

theorem Document.Sound.mentioned {P : String → Prop} {d : Document} (h : d.Sound P) :
    ∀ x ∈ d.mentioned, P x := by
  have bounds : ∀ x ∈ d.bounds.map BoundEntry.name, P x :=
    List.forall_mem_map.2 fun entry member => (h.bounds entry member).named
  exact List.forall_mem_append.2 ⟨List.forall_mem_append.2
    ⟨List.forall_mem_append.2 ⟨bounds, h.binary⟩, h.general⟩, h.usedNames⟩

theorem readLp_contents (read : m.readLp text = .ok n) :
    n.IsAddable ∧ ∀ x ∈ n.registry.names, NameOf text.toList x := by
  obtain ⟨d, isDocument, names⟩ := names_readLp read
  have resolved : d.resolve m.registry.clear = .ok n := by
    rwa [Model.readLp, isDocument] at read
  have describes := describes_of_ofText isDocument
  have named : d.Sound (NameOf text.toList) :=
    (document_yields variableName_yields _ _ _ (List.suffix_refl _) describes).1
  have sound := (document_yields variableName_nonempty _ _ _ (List.suffix_refl _) describes).1
  constructor
  · rcases Document.resolve_cases sound (Registry.declared?_clear m.registry) with
      ⟨-, fault, failed⟩ | ⟨-, n', ok, addable⟩
    · rw [resolved] at failed
      cases failed
    · rw [resolved] at ok
      rwa [Except.ok.inj ok]
  · rw [names]
    intro x member
    exact named.mentioned x (List.mem_eraseDups.1 member)

/-- A model that was read is written, unless one of its names cannot be written; then this name is
refused. The names that cannot be written are the words for infinities and for free bounds, and
keywords that were not read as such because of the letter after them. -/
theorem toLp_of_readLp {m n : Model} {text : String} (read : m.readLp text = .ok n) :
    (((∀ x ∈ n.registry.names, isSafeName x = true) ∧ ∃ written, n.toLp = .ok written) ∨
      ∃ x ∈ n.registry.names, isSafeName x = false ∧
        n.toLp = .error (.invalidVariable (.unwritableName x))) ∧
    ∀ x ∈ n.registry.names, isSafeName x = false ↔ KeywordAsName text.toList x := by
  obtain ⟨addable, named⟩ := readLp_contents read
  have sound := (Model.readLp_wellFormed read).1
  have formed : ∀ v ∈ n.registry.vars, Formed v.name :=
    fun v member => (named v.name (List.mem_map_of_mem member)).formed
  refine ⟨?_, fun x member => (named x member).refused_iff⟩
  -- The names are gone through first, and nothing after them can be refused.
  rcases checkNames_cases n.registry.vars with safe | ⟨v, member, refused, stop⟩
  · left
    have used : ∀ e ∈ n.expressions, ∀ t ∈ e.terms, ∀ v ∈ t.vars, Formed v.name :=
      fun e member t among v ofTerm => (formed_of_safe safe sound e member t among v ofTerm).2
    have shown : ShownModel n := {
      objective := shown_of_isAddable addable.objective (used _ List.mem_cons_self) true
      lhs := fun c member => shown_of_isAddable (addable.constraints c member).lhs
        (used _ (List.mem_cons_of_mem _ (List.mem_map_of_mem member))) false
      rhs := fun c member => (addable.constraints c member).rhs.readable
      safe
      bounds := sound.registry.declared }
    exact ⟨List.forall_mem_map.2 safe, _, toLp_eq shown⟩
  · right
    refine ⟨v.name, List.mem_map_of_mem member, refused, ?_⟩
    exact bind_eq_error.2 (.inl (bind_eq_error.2 (.inl stop)))

def Sample.freeText : String :=
  "Maximize\n free\nEnd\n"

theorem sample_toLp_of_readLp :
    ∃ n, (Model.empty 0).readLp Sample.freeText = .ok n ∧
      (((∀ x ∈ n.registry.names, isSafeName x = true) ∧ ∃ written, n.toLp = .ok written) ∨
        ∃ x ∈ n.registry.names, isSafeName x = false ∧
          n.toLp = .error (.invalidVariable (.unwritableName x))) ∧
      ∀ x ∈ n.registry.names,
        isSafeName x = false ↔ KeywordAsName Sample.freeText.toList x := by
  have read : ((Model.empty 0).readLp Sample.freeText).toOption.isSome = true := by decide +kernel
  obtain ⟨n, isRead⟩ := Option.isSome_iff_exists.1 read
  exact ⟨n, toOption_eq_some.1 isRead, toLp_of_readLp (toOption_eq_some.1 isRead)⟩

theorem free_not_written :
    ∃ n, (Model.empty 0).readLp Sample.freeText = .ok n ∧ n.registry.names = ["free"] ∧
      ¬∃ written, n.toLp = .ok written := by
  have outcome : ((Model.empty 0).readLp Sample.freeText).toOption.map
      (fun n => (n.registry.names, n.toLp.toOption)) = some (["free"], none) := by decide +kernel
  obtain ⟨n, read, same⟩ := Option.map_eq_some_iff.1 outcome
  refine ⟨n, toOption_eq_some.1 read, congrArg Prod.fst same, ?_⟩
  rintro ⟨written, ok⟩
  rw [ok] at same
  cases congrArg Prod.snd same

end LpText

end LinOpt
