import LinOpt.Expression.Evaluation
import LinOpt.Proofs.Expression.Totals
import Mathlib.Algebra.BigOperators.Group.List.Basic
import Mathlib.Algebra.BigOperators.Group.Multiset.Basic
import Mathlib.Tactic.Ring

namespace LinOpt

namespace Value

variable {items : List Value}

def worth (point : String → Int) (item : Value) : Int :=
  item.amount * (item.factors.map fun v => point v.name).prod

def worthOf (point : String → Int) (items : List Value) : Int :=
  (items.map (worth point)).sum

def Assigns (valuation : Valuation) (point : String → Int) (items : List Value) : Prop :=
  ∀ item ∈ items, ∀ v ∈ item.factors, valuation v = .int (point v.name)

theorem worth_eq (point : String → Int) (item : Value) :
    item.worth point = item.amount * (item.subject.map point).prod := by
  rw [worth, subject, Multiset.map_coe, Multiset.prod_coe, List.map_map]
  rfl

theorem worthOf_eq_sum {ks : List (Multiset String)} (distinct : ks.Nodup)
    (known : ∀ item ∈ items, item.subject ∈ ks) (point : String → Int) :
    worthOf point items = (ks.map fun k => total items k * (k.map point).prod).sum := by
  induction items using List.reverseRecOn with
  | nil =>
    have nothing (k : Multiset String) : total [] k = 0 := rfl
    simp [nothing, worthOf]
  | append_singleton items item ih =>
    have before := ih fun item member => known item (List.mem_append_left _ member)
    have last : item.subject ∈ ks := known item (List.mem_append_right _ List.mem_cons_self)
    have step (k : Multiset String) : total (items ++ [item]) k * (k.map point).prod =
        total items k * (k.map point).prod +
          if k = item.subject then item.amount * (k.map point).prod else 0 := by
      rw [total_concat, add_mul, ite_mul, zero_mul]
    have once : (ks.map fun k =>
        if k = item.subject then item.amount * (k.map point).prod else 0).sum =
        item.worth point := by
      rw [List.sum_map_ite_eq, List.count_eq_one_of_mem distinct last, worth_eq]
      simp
    simp only [step]
    rw [List.sum_map_add, ← before, once, worthOf, List.map_append, List.sum_append,
      List.map_singleton, List.sum_singleton, worthOf]

theorem subject_known (items : List Value) :
    ∀ item ∈ items, item.subject ∈ (0 :: subjects items) := by
  intro item member
  by_cases zero : item.subject = 0
  · exact zero ▸ List.mem_cons_self
  · exact List.mem_cons_of_mem _ (List.mem_eraseDups.2
      (List.mem_filter.2 ⟨List.mem_map_of_mem member, decide_eq_true zero⟩))

theorem worthOf_eq (point : String → Int) (items : List Value) :
    worthOf point items = total items 0 +
      ((subjects items).map fun k => total items k * (k.map point).prod).sum := by
  have distinct : (0 :: subjects items).Nodup :=
    List.nodup_cons.2 ⟨zero_not_mem_subjects items, nodup_subjects items⟩
  rw [worthOf_eq_sum distinct (subject_known items), List.map_cons, List.sum_cons,
    Multiset.map_zero, Multiset.prod_zero, mul_one]

theorem total_perm {others : List Value} (perm : items.Perm others) (k : Multiset String) :
    total items k = total others k :=
  ((perm.filter _).map amount).sum_eq

theorem worthOf_congr {others : List Value} (same : ∀ k, total items k = total others k)
    (point : String → Int) : worthOf point items = worthOf point others := by
  have distinct := nodup_eraseDups (items ++ others |>.map subject)
  have known : ∀ item ∈ items ++ others, item.subject ∈ (items ++ others |>.map subject).eraseDups :=
    fun item member => List.mem_eraseDups.2 (List.mem_map_of_mem member)
  rw [worthOf_eq_sum distinct fun item member => known item (List.mem_append_left _ member),
    worthOf_eq_sum distinct fun item member => known item (List.mem_append_right _ member)]
  simp only [same]

end Value

theorem sum_filter_map {as : List α} {p : α → Bool} {f : α → Int}
    (vanishes : ∀ a ∈ as, p a = false → f a = 0) :
    ((as.filter p).map f).sum = (as.map f).sum := by
  induction as with
  | nil => rfl
  | cons a as ih =>
    obtain ⟨here, vanishes⟩ := List.forall_mem_cons.1 vanishes
    cases kept : p a with
    | true => rw [List.filter_cons_of_pos kept, List.map_cons, List.map_cons, List.sum_cons,
        List.sum_cons, ih vanishes]
    | false => rw [List.filter_cons_of_neg (by simp [kept]), List.map_cons, List.sum_cons, here kept,
        zero_add, ih vanishes]

namespace Expression

open Value

variable {valuation : Valuation} {point : String → Int}

theorem multiply_whole {vs : List Variable}
    (assigned : ∀ v ∈ vs, valuation v = .int (point v.name)) (c : Int) :
    multiply (.number (.int c)) (vs.map valuation) =
      .ok (some (.number (.int (c * (vs.map fun v => point v.name).prod)))) := by
  induction vs generalizing c with
  | nil => rw [List.map_nil, List.map_nil, List.prod_nil, mul_one, multiply]
  | cons v vs ih =>
    obtain ⟨here, assigned⟩ := List.forall_mem_cons.1 assigned
    have next := ih assigned (c * point v.name)
    rw [mul_assoc, ← List.prod_cons] at next
    rw [List.map_cons, here, multiply]
    exact next

theorem evaluateTerms_whole {terms : List Term} {ks : List (Multiset String)}
    {f : Multiset String → Int} (entries : terms.map entry = ks.map fun k => (k, .int (f k)))
    (assigned : ∀ t ∈ terms, ∀ v ∈ t.vars, valuation v = .int (point v.name)) (total : Int) :
    evaluateTerms valuation (.int total) terms =
      .ok (some (.int (total + (ks.map fun k => f k * (k.map point).prod).sum))) := by
  induction terms generalizing ks total with
  | nil =>
    obtain rfl := List.map_eq_nil_iff.1 entries.symm
    rw [List.map_nil, List.sum_nil, add_zero, evaluateTerms]
  | cons t terms ih =>
    obtain ⟨k, ks, rfl, here, rest⟩ := List.map_eq_cons_iff.1 entries.symm
    obtain ⟨first, assigned⟩ := List.forall_mem_cons.1 assigned
    obtain ⟨isSubject, isCoefficient⟩ := Prod.mk.inj here
    have names : (t.vars.map fun v => point v.name).prod = (k.map point).prod := by
      rw [isSubject, Term.subject, Multiset.map_coe, Multiset.prod_coe, List.map_map]
      rfl
    have product : multiply (.number t.coefficient) (t.vars.map valuation) =
        .ok (some (.number (.int (f k * (k.map point).prod)))) := by
      rw [← isCoefficient, multiply_whole first, names]
    have later := ih rest.symm assigned (total + f k * (k.map point).prod)
    rw [List.map_cons, List.sum_cons, ← add_assoc, evaluateTerms]
    rw [product, ok_bind]
    exact later

namespace IsTotalOf

variable {e : Expression} {items : List Value}

theorem evaluateTerms (h : e.IsTotalOf items) (assigned : Assigns valuation point items)
    (start : Int) : Expression.evaluateTerms valuation (.int start) e.terms =
      .ok (some (.int (start + (worthOf point items - total items 0)))) := by
  have known : ∀ t ∈ e.terms, ∀ v ∈ t.vars, valuation v = .int (point v.name) := by
    intro t member v ofTerm
    obtain ⟨item, among, factor⟩ := h.vars t member v ofTerm
    exact assigned item among v factor
  have vanishes : ∀ k ∈ subjects items, decide (total items k ≠ 0) = false →
      total items k * (k.map point).prod = 0 := by
    intro k _ cancels
    rw [not_not.1 (of_decide_eq_false cancels), zero_mul]
  rw [evaluateTerms_whole h.entries known, sum_filter_map vanishes, worthOf_eq, add_sub_cancel_left]

theorem evaluate (h : e.IsTotalOf items) (assigned : Assigns valuation point items) :
    e.evaluate valuation = .ok (some (.int (worthOf point items))) := by
  rw [Expression.evaluate, h.constant, h.evaluateTerms assigned, add_sub_cancel]

theorem coefficientsOf_congr (h : e.IsTotalOf items) {f : Expression} {others : List Value}
    (g : f.IsTotalOf others) (same : ∀ k, total items k = total others k) (k : Multiset String) :
    f.coefficientsOf k = e.coefficientsOf k := by
  by_cases zero : k = 0
  · rw [zero, coefficientsOf_zero, coefficientsOf_zero]
  · rw [h.coefficientsOf zero, g.coefficientsOf zero, same]

end IsTotalOf

/-- Items with whole numbers are added up by what they are about, in any order to the same
coefficients, and come to what the items come to. -/
theorem canonicalize_isTotalOf {registry : Option Registry} {given : Value} {items : List Value}
    (offered : offered? given = some items) (whole : WholeItems registry items) :
    ∃ e, canonicalize registry given = .ok e ∧ e.IsTotalOf items ∧
      (∀ k, k ≠ 0 → e.coefficientsOf k =
        if total items k = 0 then [] else [.int (total items k)]) ∧
      (∀ others, items.Perm others → ∃ f, canonicalize registry (.list others) = .ok f ∧
        f.constant = e.constant ∧ ∀ k, f.coefficientsOf k = e.coefficientsOf k) ∧
      ∀ valuation point, Assigns valuation point items →
        e.evaluate valuation = .ok (some (.int (worthOf point items))) := by
  obtain ⟨e, summed, isTotal⟩ := exists_isTotalOf offered whole
  refine ⟨e, summed, isTotal, fun k nonzero => isTotal.coefficientsOf nonzero,
    fun others perm => ?_, fun valuation point assigned => isTotal.evaluate assigned⟩
  have alsoWhole : WholeItems registry others := fun item member =>
    whole item (perm.symm.subset member)
  have listed : offered? (.list others) = some others := rfl
  obtain ⟨f, alsoSummed, alsoTotal⟩ := exists_isTotalOf listed alsoWhole
  have same := total_perm perm
  refine ⟨f, alsoSummed, ?_, isTotal.coefficientsOf_congr alsoTotal same⟩
  rw [alsoTotal.constant, isTotal.constant, same]

namespace Sample

def items : List Value := [
  .number 2,
  .list [.int 3, .var y, .var x],
  .var x,
  .tuple [.int (-1), .var x],
  .var y,
  .list [.int 4, .var x, .var y],
  .list [.int (-1), .var y],
  .int (-5),
  .list [.int 10, .var x]]

end Sample

theorem sample_canonicalize_isTotalOf :
    WholeItems (some Sample.registry) Sample.items ∧
      ∃ e, canonicalize (some Sample.registry) (.list Sample.items) = .ok e ∧
        e.constant = .int (-3) ∧
        e.terms.map entry = [({"x", "y"}, .int 7), ({"x"}, .int 10)] ∧
        e.coefficientsOf {"y"} = [] ∧
        (∃ f, canonicalize (some Sample.registry) (.list Sample.items.reverse) = .ok f ∧
          f.coefficientsOf {"y", "x"} = [.int 7]) ∧
        e.evaluate (fun _ => .int 2) = .ok (some (.int 45)) := by
  have whole : WholeItems (some Sample.registry) Sample.items := by decide +kernel
  have listed : offered? (.list Sample.items) = some Sample.items := rfl
  obtain ⟨e, summed, isTotal, coefficients, reordered, evaluated⟩ :=
    canonicalize_isTotalOf listed whole
  obtain ⟨f, alsoSummed, -, same⟩ := reordered _ Sample.items.reverse_perm.symm
  have assigned : Assigns (fun _ => .int 2) (fun _ => 2) Sample.items := fun _ _ _ _ => rfl
  have constant : total Sample.items 0 = -3 := by decide +kernel
  have entries : ((subjects Sample.items).filter fun k => total Sample.items k ≠ 0).map
      (fun k => (k, Number.int (total Sample.items k))) =
      [({"x", "y"}, .int 7), ({"x"}, .int 10)] := by decide +kernel
  have cancelled : total Sample.items {"y"} = 0 := by decide +kernel
  have pair : total Sample.items {"y", "x"} = 7 := by decide +kernel
  have value : worthOf (fun _ => 2) Sample.items = 45 := by decide +kernel
  refine ⟨whole, e, summed, constant ▸ isTotal.constant, isTotal.entries.trans entries, ?_,
    ⟨f, alsoSummed, ?_⟩, value ▸ evaluated _ _ assigned⟩
  · rw [coefficients _ (by decide), cancelled, if_pos rfl]
  · rw [same, coefficients _ (by decide), pair, if_neg (by decide)]

end Expression

end LinOpt
