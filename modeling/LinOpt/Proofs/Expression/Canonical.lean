import LinOpt.Objective
import LinOpt.Constraint
import LinOpt.Proofs.Expression.Items
import LinOpt.Proofs.Variable.Registry
import Mathlib.Data.Multiset.MapFold

namespace LinOpt

namespace Term

def subject (t : Term) : Multiset String :=
  ↑(t.vars.map (·.name))

def Ordered : Term → Prop
  | linear .. => True
  | quadratic _ v w => v.name ≤ w.name

def OwnedBy (r : Registry) (t : Term) : Prop :=
  ∀ v ∈ t.vars, r.owns v = true

def AllowedBy (registry : Option Registry) (t : Term) : Prop :=
  ∀ v ∈ t.vars, registry.all (·.owns v) = true

@[simp]
theorem vars_withCoefficient (c : Number) (t : Term) : (t.withCoefficient c).vars = t.vars := by
  cases t <;> rfl

@[simp]
theorem coefficient_withCoefficient (c : Number) (t : Term) :
    (t.withCoefficient c).coefficient = c := by
  cases t <;> rfl

@[simp]
theorem key_withCoefficient (c : Number) (t : Term) : (t.withCoefficient c).key = t.key := by
  cases t <;> rfl

theorem ordered_withCoefficient {c : Number} {t : Term} (h : t.Ordered) :
    (t.withCoefficient c).Ordered := by
  cases t <;> exact h

theorem product_ordered (c : Number) (v w : Variable) : (product c v w).Ordered := by
  unfold product
  split
  · rename_i smaller
    exact String.not_lt.1 (String.lt_asymm smaller)
  · rename_i notSmaller
    exact String.not_lt.1 notSmaller

theorem vars_product (c : Number) (v w : Variable) : (product c v w).vars.Perm [v, w] := by
  unfold product
  split
  · exact List.Perm.swap v w []
  · exact List.Perm.refl _

theorem mem_vars_product {c : Number} {v w u : Variable} (member : u ∈ (product c v w).vars) :
    u = v ∨ u = w :=
  List.mem_pair.1 ((vars_product c v w).subset member)

theorem subject_eq_of_key_eq {s t : Term} (same : s.key = t.key) : s.subject = t.subject := by
  cases s <;> cases t <;> simp_all [key, subject, vars]

theorem key_eq_of_subject_eq {s t : Term} (hs : s.Ordered) (ht : t.Ordered)
    (same : s.subject = t.subject) : s.key = t.key := by
  have perm : (s.vars.map (·.name)).Perm (t.vars.map (·.name)) := Multiset.coe_eq_coe.1 same
  cases s with
  | linear c v =>
    cases t with
    | linear d w =>
      have names : v.name = w.name := by simpa [vars] using perm
      simp [key, names]
    | quadratic d w x => simpa [vars] using perm.length_eq
  | quadratic c v w =>
    cases t with
    | linear d x => simpa [vars] using perm.length_eq
    | quadratic d x y =>
      have swap : (v.name = x.name ∧ w.name = y.name) ∨ (v.name = y.name ∧ w.name = x.name) := by
        have first : v.name ∈ [x.name, y.name] := perm.subset List.mem_cons_self
        rcases List.mem_pair.1 first with here | here
        · left
          have rest : [w.name].Perm [y.name] := by
            simpa [vars, here] using perm
          exact ⟨here, by simpa using rest⟩
        · right
          have rest : [w.name].Perm [x.name] := by
            have turned : [v.name, w.name].Perm [y.name, x.name] :=
              perm.trans (List.Perm.swap _ _ _)
            simpa [here] using turned
          exact ⟨here, by simpa using rest⟩
      rcases swap with ⟨first, second⟩ | ⟨first, second⟩
      · simp [key, first, second]
      · -- Both terms are ordered: turned around, they can only be about one name twice.
        have both : v.name = w.name := by
          apply String.le_antisymm hs
          rw [first, second]
          exact ht
        simp [key, ← first, ← second, both]

end Term

namespace Item

def Sound (registry : Option Registry) : Item → Prop
  | number _ => True
  | term t => t.Ordered ∧ t.AllowedBy registry

variable {registry : Option Registry}

theorem read_sound {value : Value} {i : Item} (h : Item.read registry value = .ok i) :
    i.Sound registry := by
  have only {c : Number} {v : Variable} (allowed : registry.all (·.owns v) = true) :
      (term (.linear c v)).Sound registry :=
    ⟨trivial, fun _ member => List.mem_singleton.1 member ▸ allowed⟩
  cases read_eq_ok.1 h with
  | number n => trivial
  | single v allowed => exact only allowed
  | linear c v parts allowed => exact only allowed
  | quadratic c v w parts first second =>
    refine ⟨Term.product_ordered c v w, fun u member => ?_⟩
    rcases Term.mem_vars_product member with rfl | rfl
    · exact first
    · exact second

end Item

namespace Expression

structure IsCanonical (e : Expression) : Prop where
  distinct : (e.terms.map Term.subject).Nodup
  nonzero : ∀ t ∈ e.terms, t.coefficient.isZero = false
  ordered : ∀ t ∈ e.terms, t.Ordered

def OwnedBy (r : Registry) (e : Expression) : Prop :=
  ∀ t ∈ e.terms, t.OwnedBy r

def AllowedBy (registry : Option Registry) (e : Expression) : Prop :=
  ∀ t ∈ e.terms, t.AllowedBy registry

/-- A sum in the making: terms about different things, all of them ordered and allowed. -/
structure Collected (registry : Option Registry) (e : Expression) : Prop where
  distinct : (e.terms.map Term.key).Nodup
  ordered : ∀ t ∈ e.terms, t.Ordered
  allowed : e.AllowedBy registry

variable {registry : Option Registry}

theorem collected_empty (registry : Option Registry) : Collected registry {} where
  distinct := List.nodup_nil
  ordered := fun _ member => absurd member List.not_mem_nil
  allowed := fun _ member => absurd member List.not_mem_nil

theorem addTerm_eq_some {t : Term} {terms sum : List Term} (h : addTerm t terms = some sum) :
    sum.map Term.key =
        (if t.key ∈ terms.map Term.key then terms.map Term.key else terms.map Term.key ++ [t.key]) ∧
      ∀ u ∈ sum, u = t ∨ ∃ s ∈ terms, ∃ c, u = s.withCoefficient c := by
  induction terms generalizing sum with
  | nil =>
    cases h
    exact ⟨rfl, fun u member => .inl (List.mem_singleton.1 member)⟩
  | cons s terms ih =>
    unfold addTerm at h
    split at h
    · rename_i same
      obtain ⟨c, -, h⟩ := Option.bind_eq_some_iff.1 h
      cases h
      refine ⟨by simp [same], fun u member => .inr ?_⟩
      rcases List.mem_cons.1 member with rfl | member
      · exact ⟨s, List.mem_cons_self, c, rfl⟩
      · exact ⟨u, List.mem_cons_of_mem s member, u.coefficient, by cases u <;> rfl⟩
    · rename_i differs
      obtain ⟨rest, added, h⟩ := Option.bind_eq_some_iff.1 h
      cases h
      obtain ⟨keys, origin⟩ := ih added
      constructor
      · rw [List.map_cons, keys]
        by_cases known : t.key ∈ terms.map Term.key
        · simp only [known, List.map_cons, if_true, List.mem_cons, or_true]
        · have unknown : t.key ∉ Term.key s :: terms.map Term.key := fun member =>
            (List.mem_cons.1 member).elim (fun same => differs same.symm) known
          simp only [known, if_false, List.map_cons, unknown, List.cons_append]
      · intro u member
        rcases List.mem_cons.1 member with rfl | member
        · exact .inr ⟨u, List.mem_cons_self, u.coefficient, by cases u <;> rfl⟩
        · rcases origin u member with rfl | ⟨v, among, same⟩
          · exact .inl rfl
          · exact .inr ⟨v, List.mem_cons_of_mem s among, same⟩

theorem Collected.addItem {e sum : Expression} {i : Item} (h : Collected registry e)
    (sound : i.Sound registry) (added : e.addItem i = some sum) : Collected registry sum := by
  cases i with
  | number n =>
    obtain ⟨c, -, added⟩ := Option.bind_eq_some_iff.1 added
    cases added
    exact ⟨h.distinct, h.ordered, h.allowed⟩
  | term t =>
    obtain ⟨terms, found, added⟩ := Option.bind_eq_some_iff.1 added
    cases added
    obtain ⟨keys, origin⟩ := addTerm_eq_some found
    refine ⟨?_, fun u member => ?_, fun u member => ?_⟩
    · change (terms.map Term.key).Nodup
      rw [keys]
      split
      · exact h.distinct
      · rename_i unknown
        refine List.nodup_append.2 ⟨h.distinct, List.nodup_singleton _, ?_⟩
        rintro x known y new rfl
        exact unknown (List.mem_singleton.1 new ▸ known)
    · rcases origin u member with rfl | ⟨s, among, c, rfl⟩
      · exact sound.1
      · exact Term.ordered_withCoefficient (h.ordered s among)
    · rcases origin u member with rfl | ⟨s, among, c, rfl⟩
      · exact sound.2
      · intro v ofTerm
        exact h.allowed s among v (Term.vars_withCoefficient c s ▸ ofTerm)

theorem Collected.addItems {items : List Item} {e sum : Expression}
    (h : Collected registry e) (sound : ∀ i ∈ items, i.Sound registry)
    (added : items.foldlM Expression.addItem e = some sum) : Collected registry sum := by
  induction items generalizing e with
  | nil =>
    cases added
    exact h
  | cons i items ih =>
    obtain ⟨next, first, rest⟩ := Option.bind_eq_some_iff.1 added
    have collected := h.addItem (sound i List.mem_cons_self) first
    exact ih collected (fun j member => sound j (List.mem_cons_of_mem i member)) rest

theorem Collected.dropZeros_isCanonical {e : Expression} (h : Collected registry e) :
    e.dropZeros.IsCanonical where
  distinct := by
    have keys : (e.dropZeros.terms.map Term.key).Nodup :=
      h.distinct.sublist (List.filter_sublist.map Term.key)
    refine List.pairwise_map.2 ((List.pairwise_map.1 keys).imp_of_mem ?_)
    intro s t hs ht differs same
    have first := h.ordered s (List.mem_filter.1 hs).1
    have second := h.ordered t (List.mem_filter.1 ht).1
    exact differs (Term.key_eq_of_subject_eq first second same)
  nonzero := by
    intro t member
    simpa using (List.mem_filter.1 member).2
  ordered := fun t member => h.ordered t (List.mem_filter.1 member).1

theorem Collected.dropZeros_allowedBy {e : Expression} (h : Collected registry e) :
    e.dropZeros.AllowedBy registry :=
  fun t member => h.allowed t (List.mem_filter.1 member).1

theorem IsCanonical.keys_nodup {e : Expression} (h : e.IsCanonical) :
    (e.terms.map Term.key).Nodup := by
  refine List.pairwise_map.2 ((List.pairwise_map.1 h.distinct).imp ?_)
  exact fun differs same => differs (Term.subject_eq_of_key_eq same)

theorem ofItems_sound {r : Registry} {items : List Item} {e : Expression}
    (sound : ∀ i ∈ items, i.Sound r) (h : ofItems items = some e) :
    e.IsCanonical ∧ e.OwnedBy r := by
  obtain ⟨sum, added, rfl⟩ := Option.map_eq_some_iff.1 h
  have collected := (collected_empty (some r)).addItems sound added
  exact ⟨collected.dropZeros_isCanonical, collected.dropZeros_allowedBy⟩

theorem addTerm_fresh {t : Term} {terms : List Term} (fresh : t.key ∉ terms.map Term.key) :
    addTerm t terms = some (terms ++ [t]) := by
  induction terms with
  | nil => rfl
  | cons s terms ih =>
    rw [List.map_cons, List.mem_cons, not_or] at fresh
    rw [addTerm, if_neg (Ne.symm fresh.1), ih fresh.2]
    rfl

theorem key_fresh {t : Term} {before after : List Term}
    (distinct : ((before ++ t :: after).map Term.key).Nodup) : t.key ∉ before.map Term.key := by
  rw [List.map_append, List.map_cons] at distinct
  exact fun member => (List.nodup_append.1 distinct).2.2 _ member _ List.mem_cons_self rfl

theorem addItems_terms {e : Expression} {terms : List Term}
    (distinct : ((e.terms ++ terms).map Term.key).Nodup) :
    (terms.map Item.term).foldlM addItem e = some { e with terms := e.terms ++ terms } := by
  induction terms generalizing e with
  | nil => simp
  | cons t terms ih =>
    have moved : e.terms ++ t :: terms = e.terms ++ [t] ++ terms := by simp
    have first : e.addItem (.term t) = some { e with terms := e.terms ++ [t] } := by
      rw [addItem, addTerm_fresh (key_fresh distinct)]
      rfl
    rw [moved] at distinct ⊢
    rw [List.map_cons, List.foldlM_cons, first]
    exact ih distinct

theorem dropZeros_eq {e : Expression} (nonzero : ∀ t ∈ e.terms, t.coefficient.isZero = false) :
    e.dropZeros = e := by
  have kept : e.terms.filter (fun t => !t.coefficient.isZero) = e.terms :=
    List.filter_eq_self.2 fun t member => by rw [nonzero t member]; rfl
  rw [dropZeros, kept]

/-- What a value offers as the items of an expression. -/
def offered? : Value → Option (List Value)
  | .list items | .tuple items => some items
  | .map entries => some (entries.map Prod.fst)
  | _ => none

theorem canonicalize_of_offered {registry : Option Registry} {given : Value} {items : List Value}
    (offered : offered? given = some items) :
    canonicalize registry given = canonicalize.sum registry items := by
  cases given <;> cases offered <;> rfl

theorem sum_sound {items : List Value} {e : Expression}
    (h : canonicalize.sum registry items = .ok e) : e.IsCanonical ∧ e.AllowedBy registry := by
  obtain ⟨sum, added, h⟩ := bind_eq_ok.1 h
  cases h
  have collected : Collected registry sum := by
    refine foldlM_keeps (Collected registry) ?_ (collected_empty registry) added
    intro value _ e next good step
    obtain ⟨i, isItem, step⟩ := bind_eq_ok.1 step
    exact good.addItem (Item.read_sound isItem) (inRange_eq_ok.1 step)
  exact ⟨collected.dropZeros_isCanonical, collected.dropZeros_allowedBy⟩

theorem exists_offered {given : Value} {e : Expression} (h : canonicalize registry given = .ok e) :
    ∃ items, offered? given = some items ∧ canonicalize.sum registry items = .ok e := by
  unfold canonicalize at h
  split at h
  · exact ⟨_, rfl, h⟩
  · exact ⟨_, rfl, h⟩
  · exact ⟨_, rfl, h⟩
  · cases h

theorem canonicalize_sound {given : Value} {e : Expression}
    (h : canonicalize registry given = .ok e) : e.IsCanonical ∧ e.AllowedBy registry := by
  obtain ⟨items, -, h⟩ := exists_offered h
  exact sum_sound h

theorem items_sound {e : Expression} (canonical : e.IsCanonical) (allowed : e.AllowedBy registry) :
    ∀ i ∈ e.items, i.Sound registry := by
  intro i member
  rcases List.mem_cons.1 member with rfl | member
  · trivial
  · obtain ⟨t, among, rfl⟩ := List.mem_map.1 member
    exact ⟨canonical.ordered t among, allowed t among⟩

theorem negated_sound {e : Expression} (canonical : e.IsCanonical) (allowed : e.AllowedBy registry) :
    ∀ i ∈ e.negated, i.Sound registry := by
  intro i member
  rcases List.mem_cons.1 member with rfl | member
  · trivial
  · obtain ⟨t, among, rfl⟩ := List.mem_map.1 member
    refine ⟨Term.ordered_withCoefficient (canonical.ordered t among), fun v ofTerm => ?_⟩
    exact allowed t among v (Term.vars_withCoefficient _ t ▸ ofTerm)

theorem sides_sound {left right : Expression} (onLeft : left.IsCanonical ∧ left.AllowedBy registry)
    (onRight : right.IsCanonical ∧ right.AllowedBy registry) :
    ∀ i ∈ left.items ++ right.negated, i.Sound registry :=
  List.forall_mem_append.2
    ⟨items_sound onLeft.1 onLeft.2, negated_sound onRight.1 onRight.2⟩

theorem OwnedBy.extends {r s : Registry} {e : Expression} (owned : e.OwnedBy r)
    (h : r.Extends s) : e.OwnedBy s :=
  fun t member v ofTerm => h.owns (owned t member v ofTerm)

end Expression

namespace Constraint

/-- A row as it is kept: terms on the left side only, and no constant among them. -/
structure WellFormed (r : Registry) (c : Constraint) : Prop where
  canonical : c.lhs.IsCanonical
  owned : c.lhs.OwnedBy r
  constant : c.lhs.constant = 0

theorem ofSides_wellFormed {r : Registry} {left right : Expression} {comparison : Comparison}
    {c : Constraint} (leftSound : left.IsCanonical ∧ left.OwnedBy r)
    (rightSound : right.IsCanonical ∧ right.OwnedBy r)
    (h : ofSides left comparison right = some c) : c.WellFormed r := by
  obtain ⟨whole, summed, h⟩ := Option.bind_eq_some_iff.1 h
  cases h
  have sound : ∀ i ∈ left.items ++ right.negated, i.Sound r :=
    Expression.sides_sound leftSound rightSound
  obtain ⟨canonical, owned⟩ := Expression.ofItems_sound sound summed
  exact ⟨⟨canonical.distinct, canonical.nonzero, canonical.ordered⟩, owned, rfl⟩

theorem build_wellFormed {r : Registry} {lhs comparison rhs : Value} {c : Constraint}
    (h : build (some r) lhs comparison rhs = .ok c) : c.WellFormed r := by
  obtain ⟨comparison, -, h⟩ := bind_eq_ok.1 h
  obtain ⟨left, isLeft, h⟩ := bind_eq_ok.1 h
  have leftSound := Expression.canonicalize_sound isLeft
  dsimp only at h
  split at h
  · obtain ⟨right, isRight, h⟩ := bind_eq_ok.1 h
    exact ofSides_wellFormed leftSound (Expression.canonicalize_sound isRight) (inRange_eq_ok.1 h)
  · obtain ⟨right, isRight, h⟩ := bind_eq_ok.1 h
    exact ofSides_wellFormed leftSound (Expression.canonicalize_sound isRight) (inRange_eq_ok.1 h)

theorem WellFormed.extends {r s : Registry} {c : Constraint} (h : c.WellFormed r)
    (more : r.Extends s) : c.WellFormed s :=
  ⟨h.canonical, h.owned.extends more, h.constant⟩

end Constraint

namespace Objective

theorem build_sound {r : Registry} {expression sense : Value} {o : Objective}
    (h : build r expression sense = .ok o) :
    o.expression.IsCanonical ∧ o.expression.OwnedBy r := by
  obtain ⟨sense, -, h⟩ := bind_eq_ok.1 h
  obtain ⟨e, summed, h⟩ := bind_eq_ok.1 h
  cases h
  exact Expression.canonicalize_sound summed

end Objective

end LinOpt
