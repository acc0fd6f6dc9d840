import LinOpt.Proofs.LpText.BoundedFirst
import LinOpt.Proofs.LpText.ReadNames

namespace LinOpt

namespace LpText

open Pattern Grammar

def twoWords : List (String × String) :=
  [("subject", "to"), ("such", "that")]

/-- Two names that are read as a keyword when the second one follows the first. -/
def FormKeyword (x y : String) : Prop :=
  (x.map Char.toLower, y.map Char.toLower) ∈ twoWords

instance (x y : String) : Decidable (FormKeyword x y) :=
  inferInstanceAs (Decidable (_ ∈ _))

variable {x y : String} {names : List String} {s rest : List Char}

theorem twoWords_subject {two : String × String} (member : two ∈ twoWords) :
    two.1 ++ " " ++ two.2 ∈ subjectWords := by
  have all : ∀ two ∈ twoWords, two.1 ++ " " ++ two.2 ∈ subjectWords := by decide
  exact all two member

theorem afterWord_twoWords {first second : String} (named : ∀ c ∈ x.toList, isNameChar c = true)
    (same : x.map Char.toLower = first) (rest : List Char) :
    afterWord (first ++ " " ++ second).toList (x.toList ++ '\n' :: rest) =
      afterWord second.toList (rest.dropWhile Text.isBlank) := by
  have letters : (first ++ " " ++ second).toList =
      x.toList.map Char.toLower ++ ' ' :: second.toList := by
    simp [← same]
  rw [letters, afterWord_lower named]
  rfl

theorem subjectKeyword_fails (safe : isSafeName x = true)
    (next : ∀ two ∈ twoWords, x.map Char.toLower = two.1 →
      scanKeyword [two.2] (rest.dropWhile Text.isBlank) = none) :
    subjectKeyword.Fails (x.toList ++ '\n' :: rest) := by
  have named := (isSafeName_iff.1 safe).1.named
  have heads : ∀ w ∈ subjectWords, String.ofList (headOf w.toList) ∈ ["subject", "such"] →
      ∃ two ∈ twoWords, w = two.1 ++ " " ++ two.2 ∧ String.ofList (headOf w.toList) = two.1 := by
    decide
  show scanKeyword subjectWords (x.toList ++ '\n' :: rest) = none
  rw [scanKeyword, List.findSome?_eq_none_iff]
  intro w member
  cases fits : afterWord w.toList (x.toList ++ '\n' :: rest) with
  | none => rfl
  | some t =>
    have known : w ∈ reservedWords := by simp [reservedWords, member]
    have stops : ∀ letter ∈ w.toList, letter ≠ ' ' → isLetter letter '\n' = false :=
      fun letter => isLetter_of_stop (by decide) known
    rcases afterWord_name named stops fits with same | ⟨c, u, rfl, inside⟩
    · have whole := lower_eq_ofList same
      obtain ⟨two, among, rfl, head⟩ := heads w member (whole ▸ head_of_isSafeName safe known same)
      rw [afterWord_twoWords named (whole.trans head)] at fits
      have misses := next two among (whole.trans head)
      simp [scanKeyword, fits] at misses
      simp [misses]
    · simp [extendsKeyword_of_isNameChar inside]

theorem keyword_fails_safe (safe : isSafeName x = true) {words : List String}
    (member : words ∈ [boundWords, generalWords, binaryWords, endWords]) (rest : List Char) :
    (keyword words).Fails (x.toList ++ '\n' :: rest) := by
  have known : ∀ words ∈ [boundWords, generalWords, binaryWords, endWords], ∀ w ∈ words,
      w ∈ reservedWords ∧ String.ofList (headOf w.toList) ∉ ["subject", "such"] := by decide
  apply keyword_fails (isSafeName_iff.1 safe).1 (by decide)
  · exact fun w among => (known words member w among).1
  intro w among same
  obtain ⟨reserved, other⟩ := known words member w among
  apply other
  rw [← lower_eq_ofList same]
  exact head_of_isSafeName safe reserved same

theorem name_reads_before (safe : isSafeName x = true)
    (next : ∀ two ∈ twoWords, x.map Char.toLower = two.1 →
      scanKeyword [two.2] (rest.dropWhile Text.isBlank) = none) :
    (lexeme variableName).Reads (x.toList ++ '\n' :: rest) x (skip ('\n' :: rest)) := by
  have reserved : reserved.Fails (x.toList ++ '\n' :: rest) :=
    reserved_fails_iff.2 ⟨subjectKeyword_fails safe next, keyword_fails_safe safe (by decide) rest,
      keyword_fails_safe safe (by decide) rest, keyword_fails_safe safe (by decide) rest,
      keyword_fails_safe safe (by decide) rest⟩
  exact reads_lexeme (variableName_of_reserved reserved (isSafeName_iff.1 safe).1 (by decide))

theorem dropWhile_name (formed : Formed y) (s : List Char) :
    (' ' :: (y.toList ++ s)).dropWhile Text.isBlank = y.toList ++ s := by
  obtain ⟨c, t, chars, -⟩ := formed.start
  have notBlank := notBlank_of_isNameChar (formed.named c (chars ▸ List.mem_cons_self))
  have blank : Text.isBlank ' ' = true := rfl
  rw [chars, List.cons_append, List.dropWhile_cons_of_pos blank,
    List.dropWhile_cons_of_neg (by rw [notBlank]; exact Bool.false_ne_true)]

theorem second_misses (formed : Formed y) {two : String × String} (member : two ∈ twoWords)
    (other : y.map Char.toLower ≠ two.2) (s : List Char) :
    scanKeyword [two.2] (y.toList ++ '\n' :: s) = none := by
  have heads : ∀ two ∈ twoWords, String.ofList (headOf two.2.toList) = two.2 := by decide
  apply scanKeyword_name formed.named
  · intro w among
    obtain rfl := List.mem_singleton.1 among
    intro letter second
    have whole : letter ∈ (two.1 ++ " " ++ two.2).toList := by simp [second]
    exact isLetter_of_stop (by decide) (by simp [reservedWords, twoWords_subject member]) whole
  · intro w among same
    rw [List.mem_singleton.1 among] at same
    exact other ((lower_eq_ofList same).trans (heads two member))

theorem name_fails_before (first : Formed x) (second : Formed y) (form : FormKeyword x y)
    (s : List Char) : variableName.Fails (x.toList ++ '\n' :: ' ' :: (y.toList ++ '\n' :: s)) := by
  have fits : afterWord (x.map Char.toLower ++ " " ++ y.map Char.toLower).toList
      (x.toList ++ '\n' :: ' ' :: (y.toList ++ '\n' :: s)) = some ('\n' :: s) := by
    rw [afterWord_twoWords first.named rfl, dropWhile_name second,
      afterWord_whole second.named]
  have keyword : ¬reserved.Fails (x.toList ++ '\n' :: ' ' :: (y.toList ++ '\n' :: s)) := by
    intro fails
    have subject := (reserved_fails_iff.1 fails).1
    have misses := List.findSome?_eq_none_iff.1 subject _ (twoWords_subject form)
    dsimp only at misses
    rw [fits] at misses
    cases misses
  exact (fails_unless keyword).after _

/-- A text where a list of names stops without being at its end. -/
structure InsideList (s : List Char) : Prop where
  noSection : anySection.Fails s
  noEnd : endKeyword.Fails s

theorem insideList_of_safe (safe : isSafeName x = true) (rest : List Char) :
    InsideList (x.toList ++ '\n' :: rest) where
  noSection := anySection_fails (keyword_fails_safe safe (by decide) rest)
    (keyword_fails_safe safe (by decide) rest) (keyword_fails_safe safe (by decide) rest)
  noEnd := keyword_fails_safe safe (by decide) rest

def listText (names : List String) : List Char :=
  (names.map String.toList).flatMap lineText ++ "End\n".toList

theorem listText_cons (x : String) (names : List String) :
    listText (x :: names) = ' ' :: (x.toList ++ '\n' :: listText names) := by
  simp [listText, lineText]

theorem skip_listText_cons (formed : Formed x) (names : List String) :
    skip ('\n' :: listText (x :: names)) = x.toList ++ '\n' :: listText names := by
  rw [listText_cons, skip_newline_space (solid_formed formed _)]

theorem listed_name_reads (safe : ∀ y ∈ x :: names, isSafeName y = true)
    (apart : ∀ y, names.head? = some y → ¬FormKeyword x y) :
    (lexeme variableName).Reads (x.toList ++ '\n' :: listText names) x
      (skip ('\n' :: listText names)) := by
  obtain ⟨isSafe, others⟩ := List.forall_mem_cons.1 safe
  apply name_reads_before isSafe
  intro two member same
  cases names with
  | nil =>
    have ending : ∀ two ∈ twoWords,
        scanKeyword [two.2] ((listText []).dropWhile Text.isBlank) = none := by decide
    exact ending two member
  | cons y names =>
    have formed := (isSafeName_iff.1 (others y List.mem_cons_self)).1
    rw [listText_cons, dropWhile_name formed]
    apply second_misses formed member
    intro second
    apply apart y rfl
    rw [FormKeyword, same, second]
    exact member

theorem skip_listText_shorter (formed : Formed x) (names : List String) :
    (skip ('\n' :: listText names)).length < (x.toList ++ '\n' :: listText names).length := by
  obtain ⟨c, t, chars, -⟩ := formed.start
  have shorter := skip_length ('\n' :: listText names)
  simp only [chars, List.length_append, List.length_cons] at shorter ⊢
  omega

/-- Names that can be written are read one after the other up to the end of their list, or up to the
first two of them that form a keyword. -/
theorem names_repeat {names : List String} (safe : ∀ x ∈ names, isSafeName x = true) :
    ∃ read t, Repeats (lexeme variableName) (skip ('\n' :: listText names)) read t ∧
      ((names.IsChain (¬FormKeyword · ·) ∧ read = names ∧ t = "End\n".toList) ∨
        (¬names.IsChain (¬FormKeyword · ·) ∧ InsideList t)) := by
  induction names with
  | nil =>
    have stop := fails_lexeme headed_end.variableName_fails
    exact ⟨[], _, .stop (.inr stop), .inl ⟨.nil, rfl, rfl⟩⟩
  | cons x names ih =>
    obtain ⟨isSafe, others⟩ := List.forall_mem_cons.1 safe
    have formed := (isSafeName_iff.1 isSafe).1
    have smaller := skip_listText_shorter formed names
    obtain ⟨read, t, repeats, outcome⟩ := ih others
    rw [skip_listText_cons formed]
    cases names with
    | nil =>
      have first := listed_name_reads safe fun y none => (nomatch none)
      rcases outcome with ⟨-, rfl, rfl⟩ | ⟨broken, -⟩
      · exact ⟨[x], _, .step first smaller repeats, .inl ⟨.singleton x, rfl, rfl⟩⟩
      · exact absurd .nil broken
    | cons y names =>
      have next := (isSafeName_iff.1 (others y List.mem_cons_self)).1
      by_cases form : FormKeyword x y
      · -- The two names are a keyword, and the list is read only up to them.
        have stop : (lexeme variableName).Fails (x.toList ++ '\n' :: listText (y :: names)) := by
          rw [listText_cons]
          exact fails_lexeme (name_fails_before formed next form (listText names))
        have broken : ¬(x :: y :: names).IsChain (¬FormKeyword · ·) :=
          fun chain => (List.isChain_cons_cons.1 chain).1 form
        exact ⟨[], _, .stop (.inr stop), .inr ⟨broken, insideList_of_safe isSafe _⟩⟩
      · have first := listed_name_reads safe fun z head => by
          obtain rfl : y = z := Option.some.inj head
          exact form
        refine ⟨x :: read, t, .step first smaller repeats, ?_⟩
        rw [List.isChain_cons_cons]
        rcases outcome with ⟨chain, rfl, rfl⟩ | ⟨broken, inside⟩
        · exact .inl ⟨⟨form, chain⟩, rfl, rfl⟩
        · exact .inr ⟨fun both => broken both.2, inside⟩

variable {m : Model} {kind : Kind}

def listed (kind : Kind) (x : String) : Declaration :=
  { name := x, kind }

/-- A model of variables that it says nothing about but their kind. -/
structure Lists (m : Model) (kind : Kind) (names : List String) : Prop where
  declarations : m.registry.vars.map Variable.toDeclaration = names.map (listed kind)
  objective : m.objective.expression = {}
  constraints : m.constraints = []

namespace Lists

theorem toDeclaration (h : Lists m kind names) {v : Variable} (member : v ∈ m.registry.vars) :
    v.name ∈ names ∧ v.toDeclaration = listed kind v.name := by
  have among : v.toDeclaration ∈ names.map (listed kind) := by
    rw [← h.declarations]
    exact List.mem_map_of_mem member
  obtain ⟨x, isName, same⟩ := List.mem_map.1 among
  have name : x = v.name := congrArg Declaration.name same
  rw [← name]
  exact ⟨isName, same.symm⟩

theorem names_eq (h : Lists m kind names) : m.registry.names = names := by
  have named := congrArg (List.map Declaration.name) h.declarations
  rw [List.map_map, List.map_map] at named
  exact named.trans (List.map_id names)

theorem hasDefaultBounds (h : Lists m kind names) {v : Variable} (member : v ∈ m.registry.vars) :
    v.hasDefaultBounds = true := by
  rw [(h.toDeclaration member).2]
  exact hasDefaultBounds_default v.name kind

theorem boundedVars_eq (h : Lists m kind names) : boundedVars m = [] := by
  apply List.filter_eq_nil_iff.2
  intro v member
  simp [h.hasDefaultBounds member]

theorem filter_kind (h : Lists m kind names) (other : Kind) :
    m.registry.vars.filter (·.kind == other) = if other = kind then m.registry.vars else [] := by
  have kinds : ∀ v ∈ m.registry.vars, v.kind = kind := by
    intro v member
    rw [(h.toDeclaration member).2]
    rfl
  split
  next same =>
    apply List.filter_eq_self.2
    intro v member
    rw [kinds v member, same]
    exact beq_self_eq_true kind
  next different =>
    apply List.filter_eq_nil_iff.2
    intro v member
    rw [kinds v member, beq_iff_eq]
    exact fun same => different same.symm

theorem namesOfKind_eq (h : Lists m kind names) (other : Kind) :
    namesOfKind m other = if other = kind then names else [] := by
  rw [namesOfKind, h.filter_kind]
  split
  · exact h.names_eq
  · rfl

theorem writtenItems_eq (h : Lists m kind names) :
    writtenItems m.objective.expression true = [] := by
  rw [h.objective]
  simp [writtenItems, Number.isZero_zero]

theorem plain (h : Lists m kind names) (safe : ∀ x ∈ names, isSafeName x = true) :
    Plain (layout m) := by
  apply plain_layout
  · rw [h.writtenItems_eq]
    exact List.forall_mem_nil _
  · rw [h.constraints]
    exact List.forall_mem_nil _
  · exact fun v member => (isSafeName_iff.1 (safe v.name (h.toDeclaration member).1)).1

theorem mentionedVars_eq (h : Lists m kind names) (discrete : kind ≠ .continuous) :
    mentionedVars m = m.registry.vars := by
  rw [mentionedVars, h.boundedVars_eq, h.filter_kind, h.filter_kind, Model.expressions, h.objective,
    h.constraints]
  cases kind with
  | continuous => exact absurd rfl discrete
  | integer => simp
  | binary => simp

end Lists

def listSection (kind : Kind) (names : List String) : Section :=
  if kind = .binary then .binary names else .general names

theorem listSection_reads (h : Lists m kind names) (discrete : kind ≠ .continuous)
    (some : names ≠ []) {read : List String} {t : List Char}
    (list : nameList.Reads (skip ('\n' :: listText names)) read t) :
    anySection.Reads (sectionsText m) (listSection kind read) t ∧
      decodedSections m = [listSection kind names] ∧
      (skip ('\n' :: listText names)).length < (sectionsText m).length := by
  have shorter := skip_length ('\n' :: listText names)
  obtain ⟨x, names, rfl⟩ := List.exists_cons_of_ne_nil some
  rw [sectionsText, decodedSections, h.boundedVars_eq, h.namesOfKind_eq, h.namesOfKind_eq]
  cases kind with
  | continuous => exact absurd rfl discrete
  | integer =>
    refine ⟨generalSection_reads list, rfl, ?_⟩
    show _ < ("General".toList ++ '\n' :: listText (x :: names)).length
    rw [List.length_append]
    exact Nat.lt_of_le_of_lt shorter (Nat.lt_add_of_pos_left (by decide))
  | binary =>
    refine ⟨binarySection_reads list, rfl, ?_⟩
    show _ < ("Binary".toList ++ '\n' :: listText (x :: names)).length
    rw [List.length_append]
    exact Nat.lt_of_le_of_lt shorter (Nat.lt_add_of_pos_left (by decide))

theorem sections_cases (h : Lists m kind names) (discrete : kind ≠ .continuous)
    (safe : ∀ x ∈ names, isSafeName x = true) :
    (names.IsChain (¬FormKeyword · ·) ∧
        Repeats anySection (sectionsText m) (decodedSections m) "End\n".toList) ∨
      (¬names.IsChain (¬FormKeyword · ·) ∧
        (before (many anySection) (lexeme endKeyword)).Fails (sectionsText m)) := by
  have noMore : anySection.Fails "End\n".toList := rfl
  by_cases empty : names = []
  · subst empty
    rw [sectionsText, decodedSections, h.boundedVars_eq, h.namesOfKind_eq, h.namesOfKind_eq]
    refine .inl ⟨.nil, ?_⟩
    simp only [List.map_nil, ite_self]
    exact .stop (.inr noMore)
  · obtain ⟨read, t, repeats, outcome⟩ := names_repeat safe
    obtain ⟨first, described, shorter⟩ := listSection_reads h discrete empty repeats.many.rule
    have smaller := Nat.lt_of_le_of_lt repeats.length_le shorter
    rcases outcome with ⟨chain, rfl, rfl⟩ | ⟨broken, inside⟩
    · rw [described]
      exact .inl ⟨chain, .step first smaller (.stop (.inr noMore))⟩
    · exact .inr ⟨broken,
        sections_fail (.step first smaller (.stop (.inr inside.noSection))) inside.noEnd⟩

theorem toLp_lists (h : Lists m kind names) (sound : m.WellFormed)
    (safe : ∀ x ∈ names, isSafeName x = true) : m.toLp = .ok (String.ofList (layout m)) := by
  apply toLp_eq
  constructor
  · rw [h.writtenItems_eq]
    exact List.forall_mem_nil _
  · rw [h.constraints]
    exact List.forall_mem_nil _
  · rw [h.constraints]
    exact List.forall_mem_nil _
  · exact fun v member => safe v.name (h.toDeclaration member).1
  · exact sound.registry.declared

theorem document_cases (h : Lists m kind names) (discrete : kind ≠ .continuous)
    (safe : ∀ x ∈ names, isSafeName x = true) :
    (names.IsChain (¬FormKeyword · ·) ∧ document.Reads (layout m) (described m) []) ∨
      (¬names.IsChain (¬FormKeyword · ·) ∧ document.Fails (layout m)) := by
  have items : ∀ i ∈ writtenItems m.objective.expression true, Legible i := by
    rw [h.writtenItems_eq]
    exact List.forall_mem_nil _
  rcases sections_cases h discrete safe with ⟨chain, sections⟩ | ⟨broken, fails⟩
  · have rows {P : Constraint → Prop} : ∀ c ∈ m.constraints, P c := by
      rw [h.constraints]
      exact List.forall_mem_nil _
    have same : decodedDocument m = described m := by
      rw [decodedDocument, described, h.writtenItems_eq, h.constraints, h.boundedVars_eq]
      rfl
    exact .inl ⟨chain, same ▸ document_reads items rows rows sections⟩
  · have text : m.constraints.zipIdx.flatMap (lineText ∘ rowText) ++ sectionsText m =
        sectionsText m := by
      rw [h.constraints]
      rfl
    have stop : Repeats row (skip ('\n' :: sectionsText m)) [] (sectionsText m) := by
      rw [skip_newline (headed_sections m).solid]
      exact .stop (.inr (row_fails (headed_sections m)))
    have rows := (rows_read stop).maybe (by simp)
    rw [← text] at rows fails
    have headed := headed_rows m
    obtain ⟨e, sum, -⟩ := sum_reads items (by decide : '\n' ∈ [' ', '\n']) headed.noTerm
    exact .inr ⟨broken, document_fails (objective_reads headed sum) (rows.pair_fails fails)⟩

theorem lists_of_read (h : Lists m kind names) (discrete : kind ≠ .continuous)
    (sound : m.WellFormed) {n other : Model} (rereads : Rereads m n)
    (read : other.readLp (String.ofList (layout m)) = .ok n)
    (document : Document.ofText (String.ofList (layout m)) = .ok (described m)) :
    Lists n kind names where
  declarations := by
    have distinct : m.registry.vars.Nodup := .of_map _ sound.registry.nodup
    have same : ∀ v ∈ m.registry.vars, redeclared v = v.toDeclaration := by
      intro v member
      rw [redeclared, if_pos (h.hasDefaultBounds member), (h.toDeclaration member).2]
      rfl
    rw [declarations_reread sound rereads read document, h.mentionedVars_eq discrete,
      eraseDups_of_nodup distinct, List.map_congr_left same, h.declarations]
  objective := by
    rw [rereads.objective, h.objective]
    simp [reread, Number.isZero_zero]
  constraints := by
    rw [rereads.constraints, h.constraints, List.map_nil]

theorem readLp_cases (h : Lists m kind names) (discrete : kind ≠ .continuous) (sound : m.WellFormed)
    (safe : ∀ x ∈ names, isSafeName x = true) (other : Model) :
    (names.IsChain (¬FormKeyword · ·) ∧
        ∃ n, other.readLp (String.ofList (layout m)) = .ok n ∧ Lists n kind names) ∨
      (¬names.IsChain (¬FormKeyword · ·) ∧
        ¬∃ n, other.readLp (String.ofList (layout m)) = .ok n) := by
  rcases document_cases h discrete safe with ⟨chain, reads⟩ | ⟨broken, fails⟩
  · have portable : m.IsPortable := by
      constructor
      · rw [h.objective]
        exact ⟨Number.isExact_zero.isPortable, List.forall_mem_nil _⟩
      · rw [h.constraints]
        exact List.forall_mem_nil _
      · rw [h.constraints]
        exact List.forall_mem_nil _
      · intro v member
        rw [(h.toDeclaration member).2]
        exact ⟨.inr Number.isExact_zero.isPortable, .inl rfl⟩
    have document := ofText_of_reads reads (h.plain safe)
    obtain ⟨n, resolved, rereads⟩ := resolve_described sound portable other.registry.declared?_clear
    have read : other.readLp (String.ofList (layout m)) = .ok n :=
      bind_eq_ok.2 ⟨_, document, resolved⟩
    exact .inl ⟨chain, n, read, lists_of_read h discrete sound rereads read document⟩
  · refine .inr ⟨broken, ?_⟩
    rintro ⟨n, read⟩
    obtain ⟨d, document, -⟩ := bind_eq_ok.1 read
    exact not_ofText_of_fails fails ⟨d, document⟩

theorem addVars_lists (distinct : names.Nodup) (named : ∀ x ∈ names, x ≠ "") (kind : Kind)
    (owner : Nat) (elsewhere : Valuation) :
    ∃ m vs, (Model.empty owner).addVars (.list (names.map .text)) (0 : Number)
      Number.infinity (.text kind.text) elsewhere = (m, .ok vs) ∧ Lists m kind names := by
  let r : Registry := { owner }
  let ds := names.map (listed kind)
  have free : Registry.freshNames r.names (names.map .text) = .ok names :=
    Registry.freshNames_of_nodup distinct fun x _ => List.not_mem_nil
  have checked : (names.mapM fun name => Spec.check { name := .text name, kind := .text kind.text }) =
      .ok ds := mapM_eq_ok fun x member => check_default (named x member) kind
  have declared : r.declareMany (.list (names.map .text)) (0 : Number) Number.infinity
      (.text kind.text) = .ok ds := by
    unfold Registry.declareMany
    dsimp only [Value.items?]
    rw [free]
    exact checked
  have told : ∀ d ∈ ds, d.notice ≠ none := by
    intro d member
    obtain ⟨x, -, rfl⟩ := List.mem_map.1 member
    exact default_told x kind
  have added : r.addMany (.list (names.map .text)) (0 : Number) Number.infinity (.text kind.text) =
      ((r.registerAll ds).1, .ok (r.registerAll ds).2) := by
    rw [Registry.addMany, declared]
    exact Registry.enterAll_eq told
  refine ⟨{ registry := (r.registerAll ds).1 }, (r.registerAll ds).2, ?_,
    Registry.declarations_registerAll r ds, rfl, rfl⟩
  rw [Model.addVars]
  dsimp only [Model.empty]
  rw [added]
  rfl

/-- Names that can be written are read back in their order and with their kind, if no two of them
that follow each other form a keyword; otherwise the text is refused. -/
theorem readLp_toLp_names {names : List String} {kind : Kind} (distinct : names.Nodup)
    (safe : ∀ x ∈ names, isSafeName x = true) (discrete : kind ≠ .continuous) (owner : Nat)
    (elsewhere : Valuation) :
    ∃ m vs text, (Model.empty owner).addVars (.list (names.map .text)) (0 : Number)
        Number.infinity (.text kind.text) elsewhere = (m, .ok vs) ∧
      Lists m kind names ∧ m.toLp = .ok text ∧ ∀ other : Model,
        ((∃ n, other.readLp text = .ok n) ↔ names.IsChain (¬FormKeyword · ·)) ∧
        ∀ n, other.readLp text = .ok n → Lists n kind names := by
  have named : ∀ x ∈ names, x ≠ "" := by
    intro x member empty
    have refused : isSafeName "" = false := by decide +kernel
    rw [← empty, safe x member] at refused
    cases refused
  obtain ⟨m, vs, added, lists⟩ := addVars_lists distinct named kind owner elsewhere
  have reachable : m.Reachable := by
    refine ⟨owner, [.addVars (.list (names.map .text)) (0 : Number) Number.infinity
      (.text kind.text) elsewhere], ?_⟩
    exact congrArg Prod.fst added.symm
  have sound := reachable.wellFormed
  refine ⟨m, vs, _, added, lists, toLp_lists lists sound safe, fun other => ?_⟩
  -- Every text of names is either read or broken off at a keyword, hence the equivalence.
  rcases readLp_cases lists discrete sound safe other with ⟨chain, n, read, same⟩ | ⟨broken, unread⟩
  · refine ⟨⟨fun _ => chain, fun _ => ⟨n, read⟩⟩, fun n' read' => ?_⟩
    rw [read] at read'
    obtain rfl : n = n' := Except.ok.inj read'
    exact same
  · exact ⟨⟨fun read => absurd read unread, fun chain => absurd chain broken⟩,
      fun n read => absurd ⟨n, read⟩ unread⟩

theorem sample_readLp_toLp_names :
    ∃ m vs text, (Model.empty 0).addVars (.list (["to", "subject"].map .text)) (0 : Number)
        Number.infinity (.text Kind.binary.text) (fun _ => .null) = (m, .ok vs) ∧
      Lists m .binary ["to", "subject"] ∧ m.toLp = .ok text ∧ ∀ other : Model,
        ((∃ n, other.readLp text = .ok n) ↔ ["to", "subject"].IsChain (¬FormKeyword · ·)) ∧
        ∀ n, other.readLp text = .ok n → Lists n .binary ["to", "subject"] :=
  readLp_toLp_names (by decide) (by decide +kernel) (by decide) 0 fun _ => .null

namespace Sample

def subjectToOps : List Model.Operation := [
  .addVars (.list [.text "subject", .text "to"]) (0 : Number) Number.infinity
    (.text Kind.integer.text)]

def subjectTo : Model :=
  (Model.empty 0).run subjectToOps

def subjectToText : String :=
  "Maximize\nobj:\nSubject To\nGeneral\n subject\n to\nEnd\n"

end Sample

/-- Two names that can be written, in a text that is not read. -/
theorem subject_to_not_read :
    (∀ x ∈ ["subject", "to"], isSafeName x = true) ∧ Sample.subjectTo.Reachable ∧
    Lists Sample.subjectTo .integer ["subject", "to"] ∧
    Sample.subjectTo.toLp = .ok Sample.subjectToText ∧
    ¬∃ n, (Model.empty 0).readLp Sample.subjectToText = .ok n := by
  have written : Sample.subjectTo.toLp.toOption = some Sample.subjectToText := by decide +kernel
  have unread : ((Model.empty 0).readLp Sample.subjectToText).toOption.isNone = true := by
    decide +kernel
  have lists : Lists Sample.subjectTo .integer ["subject", "to"] :=
    ⟨by decide +kernel, by decide +kernel, by decide +kernel⟩
  refine ⟨by decide +kernel, ⟨0, Sample.subjectToOps, rfl⟩, lists, toOption_eq_some.1 written, ?_⟩
  rintro ⟨n, read⟩
  rw [read] at unread
  cases unread

end LpText

end LinOpt
