import LinOpt.Proofs.LpText.Registered
import LinOpt.Proofs.LpText.RoundTrip

namespace LinOpt

def Model.boundsFirst (m : Model) : Model :=
  { m with registry := { m.registry with
    vars := m.registry.vars.filter (!·.hasDefaultBounds) ++
      m.registry.vars.filter (·.hasDefaultBounds) } }

/-- In the lists of integer and of binary variables no variable with default bounds stands before one
with other bounds. -/
def Model.ListsBoundedFirst (m : Model) : Prop :=
  ∀ kind ∈ [Kind.integer, Kind.binary], (m.registry.vars.filter (·.kind == kind)).Pairwise
    fun v w => v.hasDefaultBounds = true → w.hasDefaultBounds = true

theorem Number.same_congr {a b c : Number} (h : a.same b = true) : a.same c = b.same c := by
  obtain ⟨place, first, second⟩ := same_iff.1 h
  simp only [same, compares, first, second]

namespace LpText

open Registry

variable {m n : Model}

theorem hasDefaultBounds_default (x : String) (kind : Kind) :
    ({ name := x, kind } : Declaration).hasDefaultBounds = true := by
  show ((0 : Number).same 0 && Number.infinity.same .infinity) = true
  decide +kernel

theorem hasDefaultBounds_redeclared {v : Variable} (exact : v.IsExact) :
    (redeclared v).hasDefaultBounds = v.hasDefaultBounds := by
  unfold redeclared
  split
  next isDefault =>
    rw [isDefault]
    exact hasDefaultBounds_default v.name v.kind
  next =>
    have lower := Number.same_congr (c := 0) (Number.same_settled exact.lower_same)
    have upper := Number.same_congr (c := .infinity) (Number.same_settled exact.upper_same)
    show ((Number.real v.lower.double.settled).same 0 &&
      (Number.real v.upper.double.settled).same .infinity) =
        (v.lower.same 0 && v.upper.same .infinity)
    rw [lower, upper]

def mentionedVars (m : Model) : List Variable :=
  boundedVars m ++ m.registry.vars.filter (·.kind == .binary) ++
    m.registry.vars.filter (·.kind == .integer) ++
      m.expressions.flatMap fun e => e.terms.flatMap Term.vars

theorem mentioned_described (m : Model) :
    (described m).mentioned = (mentionedVars m).map (·.name) := by
  have bounds : (described m).bounds.map BoundEntry.name = (boundedVars m).map (·.name) := by
    show ((boundedVars m).map describedBound).map BoundEntry.name = _
    rw [List.map_map]
    rfl
  rw [Document.mentioned, bounds, usedNames_described, mentionedVars, List.map_append,
    List.map_append, List.map_append, List.map_flatMap]
  simp only [List.map_flatMap]
  rfl

theorem mem_of_mentionedVars (sound : m.WellFormed) :
    ∀ v ∈ mentionedVars m, v ∈ m.registry.vars := by
  intro v member
  rcases List.mem_append.1 member with member | used
  · rcases List.mem_append.1 member with member | integer
    · rcases List.mem_append.1 member with bounded | binary
      · exact List.mem_of_mem_filter bounded
      · exact List.mem_of_mem_filter binary
    · exact List.mem_of_mem_filter integer
  · obtain ⟨e, among, member⟩ := List.mem_flatMap.1 used
    obtain ⟨t, isTerm, ofTerm⟩ := List.mem_flatMap.1 member
    exact mem_of_owns ((sound.expressions e among).2 t isTerm v ofTerm)

theorem declarations_reread {other : Model} (sound : m.WellFormed) (rereads : Rereads m n)
    (read : other.readLp (String.ofList (layout m)) = .ok n)
    (document : Document.ofText (String.ofList (layout m)) = .ok (described m)) :
    n.registry.vars.map Variable.toDeclaration =
      (mentionedVars m).eraseDups.map redeclared := by
  have distinct := (Model.readLp_wellFormed read).1.registry.nodup
  have apart : ∀ v ∈ mentionedVars m, ∀ w ∈ mentionedVars m, v.name = w.name → v = w :=
    fun v first w second same => sound.registry.eq_of_name
      (mem_of_mentionedVars sound v first) (mem_of_mentionedVars sound w second) same
  have names : n.registry.names = (mentionedVars m).eraseDups.map (·.name) := by
    obtain ⟨d, isDocument, names⟩ := names_readLp read
    rw [document] at isDocument
    cases isDocument
    rw [names, mentioned_described, map_eraseDups apart]
  have among : ∀ d ∈ (mentionedVars m).eraseDups.map redeclared,
      ∃ v ∈ m.registry.vars, d = redeclared v := by
    intro d member
    obtain ⟨v, mentioned, rfl⟩ := List.mem_map.1 member
    exact ⟨v, mem_of_mentionedVars sound v (List.mem_eraseDups.1 mentioned), rfl⟩
  -- Every declaration is the one that belongs to its name.
  apply eq_of_map_eq (f := Declaration.name)
  · intro d first e second same
    obtain ⟨w, isRead, rfl⟩ := List.mem_map.1 first
    obtain ⟨v, own, -, isDeclared⟩ := rereads.declared distinct isRead
    obtain ⟨v', own', rfl⟩ := among e second
    rw [isDeclared, name_redeclared, name_redeclared] at same
    rw [isDeclared, sound.registry.eq_of_name own own' same]
  · rw [List.map_map, List.map_map]
    apply names.trans
    apply List.map_congr_left
    intro v _
    exact (name_redeclared v).symm

theorem declarations_filter {other : Model} (sound : m.WellFormed) (rereads : Rereads m n)
    (read : other.readLp (String.ofList (layout m)) = .ok n)
    (document : Document.ofText (String.ofList (layout m)) = .ok (described m))
    {p : Declaration → Bool} (kept : ∀ v ∈ m.registry.vars, p (redeclared v) = p v.toDeclaration) :
    (n.registry.vars.filter (p ·.toDeclaration)).map Variable.toDeclaration =
      ((mentionedVars m).filter (p ·.toDeclaration)).eraseDups.map redeclared := by
  have all := congrArg (List.filter p) (declarations_reread sound rereads read document)
  rw [List.filter_map, List.filter_map] at all
  have same : (mentionedVars m).eraseDups.filter (p ∘ redeclared) =
      (mentionedVars m).eraseDups.filter (p ·.toDeclaration) := by
    apply List.filter_congr
    intro v member
    exact kept v (mem_of_mentionedVars sound v (List.mem_eraseDups.1 member))
  rw [same, filter_eraseDups] at all
  exact all

theorem mem_boundsFirst {v : Variable} :
    v ∈ m.boundsFirst.registry.vars ↔ v ∈ m.registry.vars := by
  simp only [Model.boundsFirst, List.mem_append, List.mem_filter, ← and_or_left]
  cases v.hasDefaultBounds <;> simp

theorem boundedVars_boundsFirst (m : Model) : boundedVars m.boundsFirst = boundedVars m := by
  simp [boundedVars, Model.boundsFirst, List.filter_append, List.filter_filter]

theorem filter_boundsFirst (m : Model) (p : Variable → Bool) :
    m.boundsFirst.registry.vars.filter p =
      (m.registry.vars.filter p).filter (!·.hasDefaultBounds) ++
        (m.registry.vars.filter p).filter (·.hasDefaultBounds) := by
  rw [Model.boundsFirst, List.filter_append, List.filter_filter, List.filter_filter,
    List.filter_filter, List.filter_filter]
  simp only [Bool.and_comm]

theorem bounded_mentioned (sound : m.WellFormed) :
    ((mentionedVars m).filter (!·.hasDefaultBounds)).eraseDups = boundedVars m := by
  have nodup : m.registry.vars.Nodup := .of_map _ sound.registry.nodup
  have front : (boundedVars m).filter (!·.hasDefaultBounds) = boundedVars m := by
    simp [boundedVars, List.filter_filter]
  obtain ⟨rest, split⟩ : ∃ rest, mentionedVars m = boundedVars m ++ rest := by
    simp only [mentionedVars, List.append_assoc]
    exact ⟨_, rfl⟩
  have known : ∀ v ∈ rest.filter (!·.hasDefaultBounds), v ∈ boundedVars m := by
    intro v member
    obtain ⟨among, bounded⟩ := List.mem_filter.1 member
    have own := mem_of_mentionedVars sound v (split ▸ List.mem_append_right _ among)
    exact List.mem_filter.2 ⟨own, bounded⟩
  rw [split, List.filter_append, front, eraseDups_append_of_subset known]
  exact eraseDups_of_nodup (nodup.filter _)

theorem ofKind_mentioned (sound : m.WellFormed) {kind : Kind} (listed : kind ≠ .continuous) :
    ((mentionedVars m).filter (·.kind == kind)).eraseDups =
      m.boundsFirst.registry.vars.filter (·.kind == kind) := by
  have nodup : m.registry.vars.Nodup := .of_map _ sound.registry.nodup
  let ofKind := m.registry.vars.filter (·.kind == kind)
  let used := m.expressions.flatMap fun e => e.terms.flatMap Term.vars
  have front : (boundedVars m).filter (·.kind == kind) = ofKind.filter (!·.hasDefaultBounds) := by
    rw [boundedVars, List.filter_filter, List.filter_filter]
    simp only [Bool.and_comm]
  have all : ofKind.filter (·.kind == kind) = ofKind := by
    simp [ofKind, List.filter_filter]
  have none {other : Kind} (different : other ≠ kind) :
      (m.registry.vars.filter (·.kind == other)).filter (·.kind == kind) = [] := by
    rw [List.filter_filter, List.filter_eq_nil_iff]
    intro v _ both
    obtain ⟨isKind, isOther⟩ := Bool.and_eq_true_iff.1 both
    exact different ((eq_of_beq isOther).symm.trans (eq_of_beq isKind))
  -- They are mentioned with their bounds, then in the list of their kind, then in the sums.
  have list : (mentionedVars m).filter (·.kind == kind) =
      ofKind.filter (!·.hasDefaultBounds) ++ ofKind ++ used.filter (·.kind == kind) := by
    rw [mentionedVars, List.filter_append, List.filter_append, List.filter_append, front]
    cases kind with
    | continuous => exact absurd rfl listed
    | binary => rw [all, none (by decide), List.append_nil]
    | integer => rw [all, none (by decide), List.append_nil]
  have known : ∀ v ∈ used.filter (·.kind == kind),
      v ∈ ofKind.filter (!·.hasDefaultBounds) ++ ofKind := by
    intro v member
    obtain ⟨among, isKind⟩ := List.mem_filter.1 member
    have own := mem_of_mentionedVars sound v (List.mem_append_right _ among)
    exact List.mem_append_right _ (List.mem_filter.2 ⟨own, isKind⟩)
  rw [list, eraseDups_append_of_subset known, eraseDups_filter_append (nodup.filter _),
    filter_boundsFirst]
  simp only [Bool.not_not]

theorem pairwise_append {α : Type} {p : α → Bool} {as bs : List α}
    (without : ∀ a ∈ as, p a = false) (having : ∀ b ∈ bs, p b = true) :
    (as ++ bs).Pairwise fun a b => p a = true → p b = true := by
  rw [List.pairwise_append]
  refine ⟨List.pairwise_of_forall_mem_list fun a first b _ holds => ?_,
    List.pairwise_of_forall_mem_list fun a _ b second _ => having b second,
    fun a _ b second _ => having b second⟩
  rw [without a first] at holds
  cases holds

theorem partition_eq_iff {α : Type} (p : α → Bool) (as : List α) :
    as.filter (!p ·) ++ as.filter p = as ↔ as.Pairwise fun a b => p a = true → p b = true := by
  constructor
  · intro same
    rw [← same]
    apply pairwise_append
    · intro a member
      exact (Bool.not_eq_true' _).mp (List.mem_filter.1 member).2
    · exact fun b member => (List.mem_filter.1 member).2
  · intro ordered
    induction as with
    | nil => rfl
    | cons a as ih =>
      obtain ⟨first, rest⟩ := List.pairwise_cons.1 ordered
      by_cases holds : p a = true
      · have all : as.filter p = as := List.filter_eq_self.2 fun b member => first b member holds
        have none : as.filter (!p ·) = [] := by
          rw [List.filter_eq_nil_iff]
          intro b member
          simp [first b member holds]
        simp [holds, all, none]
      · simp [holds, ih rest]

end LpText

end LinOpt
