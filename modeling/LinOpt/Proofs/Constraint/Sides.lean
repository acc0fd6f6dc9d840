import LinOpt.Constraint
import LinOpt.Proofs.Expression.WholeValue
import LinOpt.Proofs.Number.Order

namespace LinOpt

namespace Number

theorem int?_neg (n : Number) : n.neg.int? = n.int?.map (-·) := by
  cases n <;> rfl

theorem le_int {m n : Int} : (int m).le (int n) = true ↔ m ≤ n := by
  rw [le_iff_of_toRat? (a := int m) (b := int n) rfl rfl, Int.cast_le]

end Number

namespace Comparison

def spellings : List (String × Comparison) :=
  [("<=", le), ("=", eq), ("==", eq), (">=", ge)]

theorem read_spelling {op : String} {comparison : Comparison}
    (spelling : (op, comparison) ∈ spellings) : Comparison.read (.text op) = .ok comparison := by
  have known : ∀ pair ∈ spellings, ofText? pair.1 = some pair.2 := by decide
  rw [Comparison.read, known _ spelling]

def Holds : Comparison → Int → Int → Prop
  | le, m, n => m ≤ n
  | eq, m, n => m = n
  | ge, m, n => n ≤ m

instance : (comparison : Comparison) → (m n : Int) → Decidable (comparison.Holds m n)
  | le, m, n => inferInstanceAs (Decidable (m ≤ n))
  | eq, m, n => inferInstanceAs (Decidable (m = n))
  | ge, m, n => inferInstanceAs (Decidable (n ≤ m))

theorem holds_congr (comparison : Comparison) {k l m n : Int} (same : k - l = m - n) :
    comparison.Holds k l ↔ comparison.Holds m n := by
  cases comparison <;> simp only [Holds] <;> omega

end Comparison

namespace Value

variable {registry : Option Registry} {items : List Value}

def asItems : Value → Value
  | .number n => .list [.number n]
  | given => given

def opposite : Value → Value
  | .number n => .number n.neg
  | .var v => .tuple [.int (-1), .var v]
  | .list (.number c :: parts) => .list (.number c.neg :: parts)
  | .tuple (.number c :: parts) => .tuple (.number c.neg :: parts)
  | item => item

theorem factors_opposite (item : Value) : item.opposite.factors = item.factors := by
  unfold opposite
  split <;> rfl

theorem subject_opposite (item : Value) : item.opposite.subject = item.subject := by
  rw [subject, factors_opposite, subject]

theorem amount?_opposite (item : Value) : item.opposite.amount? = item.amount?.map (-·) := by
  unfold opposite
  split
  next n => exact n.int?_neg
  next => rfl
  next c _ => exact c.int?_neg
  next c _ => exact c.int?_neg
  next number var list tuple =>
    have nothing : item.amount? = none := by
      unfold amount?
      split <;> simp_all
    rw [nothing, Option.map_none]

theorem amount_opposite (item : Value) : item.opposite.amount = -item.amount := by
  rw [amount, amount?_opposite, amount]
  cases item.amount? <;> rfl

theorem reads_opposite {item : Value} {i : Item} (h : Item.Reads registry item i) :
    ∃ j, Item.Reads registry item.opposite j := by
  cases h with
  | number n => exact ⟨_, .number n.neg⟩
  | single v allowed => exact ⟨_, .linear (.int (-1)) v rfl allowed⟩
  | linear c v parts allowed =>
    cases item <;> cases parts <;> exact ⟨_, .linear c.neg v rfl allowed⟩
  | quadratic c v w parts first second =>
    cases item <;> cases parts <;> exact ⟨_, .quadratic c.neg v w rfl first second⟩

theorem wholeItem_opposite {item : Value}
    (whole : (Item.read registry item).isOk = true ∧ item.amount?.isSome = true) :
    (Item.read registry item.opposite).isOk = true ∧ item.opposite.amount?.isSome = true := by
  obtain ⟨i, isItem⟩ := Item.isOk_read.1 whole.1
  refine ⟨Item.isOk_read.2 (reads_opposite isItem), ?_⟩
  rw [amount?_opposite, Option.isSome_map, whole.2]

theorem total_opposite (items : List Value) (k : Multiset String) :
    total (items.map opposite) k = -total items k := by
  induction items with
  | nil => rfl
  | cons item items ih =>
    rw [List.map_cons, total_cons, total_cons, ih, subject_opposite, amount_opposite]
    split <;> omega

theorem worthOf_append (point : String → Int) (items others : List Value) :
    worthOf point (items ++ others) = worthOf point items + worthOf point others := by
  rw [worthOf, List.map_append, List.sum_append, worthOf, worthOf]

theorem worth_opposite (point : String → Int) (item : Value) :
    item.opposite.worth point = -item.worth point := by
  rw [worth, amount_opposite, factors_opposite, worth, neg_mul]

theorem worthOf_opposite (point : String → Int) (items : List Value) :
    worthOf point (items.map opposite) = -worthOf point items := by
  rw [worthOf, worthOf, List.sum_neg, List.map_map, List.map_map]
  exact congrArg List.sum (List.map_congr_left fun item _ => worth_opposite point item)

theorem assigns_opposite {valuation : Valuation} {point : String → Int}
    (assigned : Assigns valuation point items) : Assigns valuation point (items.map opposite) := by
  refine List.forall_mem_map.2 fun item member => ?_
  rw [factors_opposite]
  exact assigned item member

/-- One item has gone from its side to the other one and changed its sign. -/
def Moves (source target source' target' : List Value) : Prop :=
  ∃ item, source.Perm (item :: source') ∧ target'.Perm (item.opposite :: target)

section

variable {source target source' target' : List Value}

theorem Moves.wholeItems (moves : Moves source target source' target')
    (fromSource : WholeItems registry source) (ofTarget : WholeItems registry target) :
    WholeItems registry source' ∧ WholeItems registry target' := by
  obtain ⟨item, taken, put⟩ := moves
  obtain ⟨first, kept⟩ := List.forall_mem_cons.1 fun other member =>
    fromSource other (taken.symm.subset member)
  refine ⟨kept, fun other member => ?_⟩
  rcases List.mem_cons.1 (put.subset member) with rfl | before
  · exact wholeItem_opposite first
  · exact ofTarget other before

theorem Moves.total_sub (moves : Moves source target source' target') (k : Multiset String) :
    total source' k - total target' k = total source k - total target k := by
  obtain ⟨item, taken, put⟩ := moves
  rw [total_perm taken, total_perm put, total_cons, total_cons, subject_opposite, amount_opposite]
  split <;> omega

end

end Value

namespace Expression

open Value

namespace IsTotalOf

variable {e : Expression} {items : List Value}

theorem wholeItems (h : e.IsTotalOf items) : WholeItems none (e.items.map Item.toValue) := by
  refine List.forall_mem_map.2 fun i member => ⟨?_, ?_⟩
  · rw [Item.read_toValue (items_sound h.isCanonical (allowedBy_none e) i member)]
    rfl
  · rcases List.mem_cons.1 member with rfl | member
    · rw [Item.toValue, h.constant]
      rfl
    · obtain ⟨t, among, rfl⟩ := List.mem_map.1 member
      obtain ⟨k, coefficient, -⟩ := h.exists_int among
      rw [Item.toValue, coefficient]
      rfl

theorem assigns (h : e.IsTotalOf items) {valuation : Valuation} {point : String → Int}
    (assigned : Assigns valuation point items) :
    Assigns valuation point (e.items.map Item.toValue) := by
  refine List.forall_mem_map.2 fun i member v factor => ?_
  rcases List.mem_cons.1 member with rfl | member
  · exact absurd factor List.not_mem_nil
  · obtain ⟨t, among, rfl⟩ := List.mem_map.1 member
    have ofTerm : v ∈ t.vars := by
      cases t <;> exact factor
    obtain ⟨item, isItem, written⟩ := h.vars t among v ofTerm
    exact assigned item isItem v written

theorem total_items (h : e.IsTotalOf items) (k : Multiset String) :
    total (e.items.map Item.toValue) k = total items k := by
  have settled : e.constant.settled = e.constant := by
    rw [h.constant]
    rfl
  -- A second canonicalization gives the same expression, so that it is the total of both lists.
  have again := canonicalize_toValue h.isCanonical (allowedBy_none e) settled
  have offered : offered? e.toValue = some (e.items.map Item.toValue) := rfl
  obtain ⟨f, summed, isTotal⟩ := exists_isTotalOf offered h.wholeItems
  rw [again] at summed
  cases summed
  exact isTotal.total_eq h k

end IsTotalOf

theorem negated_toValue (e : Expression) :
    e.negated.map Item.toValue = (e.items.map Item.toValue).map opposite := by
  have terms : e.terms.map (fun t => (Item.term t.neg).toValue) =
      e.terms.map fun t => (Item.term t).toValue.opposite :=
    List.map_congr_left fun t _ => by cases t <;> rfl
  simp only [negated, items, List.map_cons, List.map_map]
  exact congrArg _ terms

def joined (left right : Expression) : List Value :=
  left.items.map Item.toValue ++ (right.items.map Item.toValue).map opposite

section

variable {l r : Expression} {left right : List Value}

theorem total_joined (first : l.IsTotalOf left) (second : r.IsTotalOf right)
    (k : Multiset String) : total (joined l r) k = total left k - total right k := by
  rw [joined, total_append, total_opposite, first.total_items, second.total_items,
    Int.sub_eq_add_neg]

theorem worthOf_joined (first : l.IsTotalOf left) (second : r.IsTotalOf right)
    (point : String → Int) :
    worthOf point (joined l r) = worthOf point left - worthOf point right := by
  rw [joined, worthOf_append, worthOf_opposite, worthOf_congr first.total_items,
    worthOf_congr second.total_items, Int.sub_eq_add_neg]

theorem canonicalize_joined {registry : Option Registry}
    (onLeft : l.IsCanonical ∧ l.AllowedBy registry)
    (onRight : r.IsCanonical ∧ r.AllowedBy registry) :
    canonicalize registry (.list (joined l r)) = inRange (ofItems (l.items ++ r.negated)) := by
  have offered : offered? (.list (joined l r)) = some (joined l r) := rfl
  have written : joined l r = (l.items ++ r.negated).map Item.toValue := by
    rw [List.map_append, negated_toValue, joined]
  rw [canonicalize_of_offered offered, written, sum_toValue (sides_sound onLeft onRight)]

theorem exists_joined (first : l.IsTotalOf left) (second : r.IsTotalOf right) :
    ∃ whole, ofItems (l.items ++ r.negated) = some whole ∧ whole.IsTotalOf (joined l r) := by
  have wholeItems : WholeItems none (joined l r) := by
    refine List.forall_mem_append.2 ⟨first.wholeItems, List.forall_mem_map.2 fun item member => ?_⟩
    exact wholeItem_opposite (second.wholeItems item member)
  have offered : offered? (.list (joined l r)) = some (joined l r) := rfl
  obtain ⟨whole, summed, isTotal⟩ := exists_isTotalOf offered wholeItems
  rw [canonicalize_joined ⟨first.isCanonical, allowedBy_none l⟩
    ⟨second.isCanonical, allowedBy_none r⟩] at summed
  exact ⟨whole, inRange_eq_ok.1 summed, isTotal⟩

end

end Expression

namespace Constraint

open Value Expression

/-- A row with the differences of two sides: of the terms on the left, of the numbers alone on the
right. -/
structure IsDifferenceOf (left right : List Value) (c : Constraint) : Prop where
  constant : c.lhs.constant = 0
  canonical : c.lhs.IsCanonical
  coefficients : ∀ k, k ≠ 0 → c.lhs.coefficientsOf k =
    if total left k = total right k then [] else [.int (total left k - total right k)]
  rhs : c.rhs = .int (total right 0 - total left 0)

/-- At these values the row is true if and only if the claim is, and its check says so. -/
def Means (valuation : Valuation) (claim : Prop) (c : Constraint) : Prop :=
  ∃ activity bound : Int, c.lhs.evaluate valuation = .ok (some (.int activity)) ∧
    c.rhs = .int bound ∧ (c.comparison.Holds activity bound ↔ claim) ∧
    ∃ satisfied, c.isSatisfied valuation (0 : Number) = .ok (some satisfied) ∧
      (satisfied = true ↔ claim)

theorem isSatisfied_whole {c : Constraint} {valuation : Valuation} {activity bound : Int}
    (evaluated : c.lhs.evaluate valuation = .ok (some (.int activity)))
    (isBound : c.rhs = .int bound) :
    ∃ satisfied, c.isSatisfied valuation (0 : Number) = .ok (some satisfied) ∧
      (satisfied = true ↔ c.comparison.Holds activity bound) := by
  have zero : Value.asNumber (0 : Number) = .ok 0 := rfl
  unfold Comparison.Holds
  cases comparison : c.comparison with
  | le =>
    refine ⟨(Number.int activity).le (.int (bound + 0)), ?_, ?_⟩
    · simp only [isSatisfied, evaluated, comparison, isBound, zero, bind, Except.bind]
      rfl
    · rw [Number.le_int, Int.add_zero]
  | ge =>
    refine ⟨(Number.int (bound + -0)).le (.int activity), ?_, ?_⟩
    · simp only [isSatisfied, evaluated, comparison, isBound, zero, bind, Except.bind]
      rfl
    · rw [Number.le_int, Int.neg_zero, Int.add_zero]
  | eq =>
    refine ⟨(Number.int (activity + -bound).natAbs).le (.int 0), ?_, ?_⟩
    · simp only [isSatisfied, evaluated, comparison, isBound, zero, bind, Except.bind]
      rfl
    · rw [Number.le_int]
      omega

theorem build_eq (registry : Option Registry) (lhs comparison rhs : Value) :
    build registry lhs comparison rhs = (do
      let comparison ← Comparison.read comparison
      let left ← canonicalize registry lhs
      let right ← canonicalize registry rhs.asItems
      inRange (ofSides left comparison right)) := by
  cases rhs <;> rfl

def ofWhole (whole : Expression) (comparison : Comparison) (bound : Int) : Constraint where
  lhs := { whole with constant := 0 }
  comparison := comparison
  rhs := .int bound

section

variable {l r whole : Expression} {left right : List Value}

theorem ofSides_eq (first : l.IsTotalOf left) (second : r.IsTotalOf right)
    (comparison : Comparison) :
    ∃ whole : Expression, whole.IsTotalOf (joined l r) ∧
      ofSides l comparison r = some (ofWhole whole comparison (total right 0 - total left 0)) := by
  obtain ⟨whole, summed, isTotal⟩ := exists_joined first second
  have rhs : (if whole.constant.isZero then 0 else whole.constant.neg) =
      Number.int (total right 0 - total left 0) := by
    rw [isTotal.constant, total_joined first second, Number.isZero_int, Number.neg, Int.neg_sub]
    split
    next cancels =>
      rw [← Int.neg_sub, of_decide_eq_true cancels]
      rfl
    next => rfl
  refine ⟨whole, isTotal, Option.bind_eq_some_iff.2 ⟨whole, summed, ?_⟩⟩
  rw [rhs]
  rfl

theorem isDifferenceOf_ofWhole (first : l.IsTotalOf left) (second : r.IsTotalOf right)
    (isTotal : whole.IsTotalOf (joined l r)) (comparison : Comparison) :
    (ofWhole whole comparison (total right 0 - total left 0)).IsDifferenceOf left right where
  constant := rfl
  canonical :=
    have canonical := isTotal.isCanonical
    ⟨canonical.distinct, canonical.nonzero, canonical.ordered⟩
  coefficients := fun k nonzero => by
    have here := isTotal.coefficientsOf nonzero
    simp only [total_joined first second, Int.sub_eq_zero] at here
    exact here
  rhs := rfl

theorem means_ofWhole (first : l.IsTotalOf left) (second : r.IsTotalOf right)
    (isTotal : whole.IsTotalOf (joined l r)) (comparison : Comparison) {valuation : Valuation}
    {point : String → Int} (assigned : Assigns valuation point (left ++ right)) :
    (ofWhole whole comparison (total right 0 - total left 0)).Means valuation
      (comparison.Holds (worthOf point left) (worthOf point right)) := by
  obtain ⟨onLeft, onRight⟩ := List.forall_mem_append.1 assigned
  have known : Assigns valuation point (joined l r) :=
    List.forall_mem_append.2 ⟨first.assigns onLeft, assigns_opposite (second.assigns onRight)⟩
  have activity := isTotal.evaluateTerms known 0
  rw [Int.zero_add, worthOf_joined first second, total_joined first second] at activity
  have apart : worthOf point left - worthOf point right - (total left 0 - total right 0) -
      (total right 0 - total left 0) = worthOf point left - worthOf point right := by omega
  have same := comparison.holds_congr apart
  obtain ⟨satisfied, checked, isSatisfied⟩ :=
    isSatisfied_whole (c := ofWhole whole comparison _) activity rfl
  exact ⟨_, _, activity, rfl, same, satisfied, checked, isSatisfied.trans same⟩

end

theorem IsDifferenceOf.congr {c d : Constraint} {left right left' right' : List Value}
    (h : c.IsDifferenceOf left right) (g : d.IsDifferenceOf left' right')
    (same : ∀ k, total left' k - total right' k = total left k - total right k) :
    d.rhs = c.rhs ∧ ∀ k, d.lhs.coefficientsOf k = c.lhs.coefficientsOf k := by
  constructor
  · rw [h.rhs, g.rhs, ← Int.neg_sub, same, Int.neg_sub]
  · intro k
    by_cases zero : k = 0
    · rw [zero, coefficientsOf_zero, coefficientsOf_zero]
    · have cancels : total left' k = total right' k ↔ total left k = total right k := by
        rw [← Int.sub_eq_zero, same, Int.sub_eq_zero]
      rw [h.coefficients k zero, g.coefficients k zero, same]
      simp only [cancels]

section

variable {registry : Option Registry} {lhs rhs : Value} {op : String} {comparison : Comparison}
  {left right : List Value}

theorem exists_build (offeredLeft : offered? lhs = some left)
    (offeredRight : offered? rhs.asItems = some right)
    (spelling : (op, comparison) ∈ Comparison.spellings)
    (wholeLeft : WholeItems registry left) (wholeRight : WholeItems registry right) :
    ∃ l r whole : Expression, canonicalize registry lhs = .ok l ∧ l.IsTotalOf left ∧
      canonicalize registry rhs.asItems = .ok r ∧ r.IsTotalOf right ∧
      whole.IsTotalOf (joined l r) ∧ build registry lhs (.text op) rhs =
        .ok (ofWhole whole comparison (total right 0 - total left 0)) := by
  obtain ⟨l, isLeft, first⟩ := exists_isTotalOf offeredLeft wholeLeft
  obtain ⟨r, isRight, second⟩ := exists_isTotalOf offeredRight wholeRight
  obtain ⟨whole, isTotal, joins⟩ := ofSides_eq first second comparison
  refine ⟨l, r, whole, isLeft, first, isRight, second, isTotal, ?_⟩
  rw [build_eq, Comparison.read_spelling spelling, isLeft, isRight]
  exact inRange_eq_ok.2 joins

/-- A row from two sides with whole numbers: the terms of the right side are taken from the left one,
the numbers alone go to the right, and the row is true exactly where the comparison of the sides is. -/
theorem build_isDifferenceOf (offeredLeft : offered? lhs = some left)
    (offeredRight : offered? rhs.asItems = some right)
    (spelling : (op, comparison) ∈ Comparison.spellings)
    (whole : WholeItems registry (left ++ right)) :
    ∃ l r c, canonicalize registry lhs = .ok l ∧ canonicalize registry rhs.asItems = .ok r ∧
      build registry lhs (.text op) rhs = .ok c ∧ c.comparison = comparison ∧
      c.IsDifferenceOf left right ∧
      (∀ valuation point, Assigns valuation point (left ++ right) →
        l.evaluate valuation = .ok (some (.int (worthOf point left))) ∧
        r.evaluate valuation = .ok (some (.int (worthOf point right))) ∧
        c.Means valuation (comparison.Holds (worthOf point left) (worthOf point right))) ∧
      ∀ left' right', Moves left right left' right' ∨ Moves right left right' left' →
        ∃ d, build registry (.list left') (.text op) (.list right') = .ok d ∧ d.rhs = c.rhs ∧
          ∀ k, d.lhs.coefficientsOf k = c.lhs.coefficientsOf k := by
  obtain ⟨wholeLeft, wholeRight⟩ := List.forall_mem_append.1 whole
  obtain ⟨l, r, sum, isLeft, first, isRight, second, isTotal, built⟩ :=
    exists_build offeredLeft offeredRight spelling wholeLeft wholeRight
  have difference := isDifferenceOf_ofWhole first second isTotal comparison
  refine ⟨l, r, _, isLeft, isRight, built, rfl, difference, ?_, ?_⟩
  · intro valuation point assigned
    obtain ⟨onLeft, onRight⟩ := List.forall_mem_append.1 assigned
    exact ⟨first.evaluate onLeft, second.evaluate onRight,
      means_ofWhole first second isTotal comparison assigned⟩
  · -- An item that changes sides changes its sign, and the difference of the totals is the same.
    intro left' right' moves
    have stillWhole : WholeItems registry left' ∧ WholeItems registry right' := by
      rcases moves with toRight | toLeft
      · exact toRight.wholeItems wholeLeft wholeRight
      · exact (toLeft.wholeItems wholeRight wholeLeft).symm
    have same (k : Multiset String) :
        total left' k - total right' k = total left k - total right k := by
      rcases moves with toRight | toLeft
      · exact toRight.total_sub k
      · rw [← Int.neg_sub, toLeft.total_sub, Int.neg_sub]
    have listed (items : List Value) : offered? (Value.list items).asItems = some items := rfl
    obtain ⟨l', r', sum', -, first', -, second', isTotal', alsoBuilt⟩ :=
      exists_build (listed left') (listed right') spelling stillWhole.1 stillWhole.2
    have difference' := isDifferenceOf_ofWhole first' second' isTotal' comparison
    exact ⟨_, alsoBuilt, difference.congr difference' same⟩

end

namespace Sample

def left : List Value :=
  [.list [.int 2, .var Sample.x], .int 3, .tuple [.int 4, .var Sample.y, .var Sample.x]]

def right : List Value :=
  [.var Sample.x, .list [.int 4, .var Sample.x, .var Sample.y], .int 10, .var Sample.y]

def left' : List Value :=
  [.list [.int 2, .var Sample.x], .tuple [.int 4, .var Sample.y, .var Sample.x]]

end Sample

theorem sample_build_isDifferenceOf :
    ("<=", Comparison.le) ∈ Comparison.spellings ∧
      WholeItems (some Sample.registry) (Sample.left ++ Sample.right) ∧
      ∃ c, build (some Sample.registry) (.list Sample.left) (.text "<=")
          (.list Sample.right) = .ok c ∧ c.comparison = .le ∧ c.rhs = .int 7 ∧
        c.lhs.coefficientsOf {"x"} = [.int 1] ∧ c.lhs.coefficientsOf {"y"} = [.int (-1)] ∧
        c.lhs.coefficientsOf {"x", "y"} = [] ∧
        c.isSatisfied (fun _ => .int 2) (0 : Number) = .ok (some true) ∧
        ∃ d, build (some Sample.registry) (.list Sample.left') (.text "<=")
          (.list (.int (-3) :: Sample.right)) = .ok d ∧ d.rhs = c.rhs := by
  have spelling : ("<=", Comparison.le) ∈ Comparison.spellings := by decide
  have whole : WholeItems (some Sample.registry) (Sample.left ++ Sample.right) := by
    decide +kernel
  have offeredLeft : offered? (.list Sample.left) = some Sample.left := rfl
  have offeredRight : offered? (Value.list Sample.right).asItems = some Sample.right := rfl
  obtain ⟨l, r, c, -, -, built, isComparison, difference, means, moved⟩ :=
    build_isDifferenceOf offeredLeft offeredRight spelling whole
  have bound : total Sample.right 0 - total Sample.left 0 = 7 := by decide +kernel
  have coefficients : total Sample.left {"x"} = 2 ∧ total Sample.right {"x"} = 1 ∧
      total Sample.left {"y"} = 0 ∧ total Sample.right {"y"} = 1 ∧
      total Sample.left {"x", "y"} = 4 ∧ total Sample.right {"x", "y"} = 4 := by decide +kernel
  obtain ⟨xLeft, xRight, yLeft, yRight, bothLeft, bothRight⟩ := coefficients
  have assigned : Assigns (fun _ => .int 2) (fun _ => 2) (Sample.left ++ Sample.right) :=
    fun _ _ _ _ => rfl
  have holds : Comparison.le.Holds (worthOf (fun _ => 2) Sample.left)
      (worthOf (fun _ => 2) Sample.right) := by decide +kernel
  obtain ⟨-, -, activity, b, -, -, -, satisfied, checked, isSatisfied⟩ := means _ _ assigned
  have moves : Moves Sample.left Sample.right Sample.left' (.int (-3) :: Sample.right) :=
    ⟨.int 3, List.Perm.swap _ _ _, List.Perm.refl _⟩
  obtain ⟨d, alsoBuilt, same, -⟩ := moved _ _ (.inl moves)
  refine ⟨spelling, whole, c, built, isComparison, bound ▸ difference.rhs, ?_, ?_, ?_, ?_,
    d, alsoBuilt, same⟩
  · rw [difference.coefficients _ (by decide), xLeft, xRight]
    rfl
  · rw [difference.coefficients _ (by decide), yLeft, yRight]
    rfl
  · rw [difference.coefficients _ (by decide), bothLeft, bothRight, if_pos rfl]
  · rw [checked, isSatisfied.2 holds]

end Constraint

end LinOpt
