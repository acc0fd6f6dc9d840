import LinOpt.Proofs.Program.OfModel
import LinOpt.Proofs.Program.Outcome

namespace LinOpt

def Constraint.isEquation (c : Constraint) : Bool :=
  c.comparison == .eq

def Constraint.sides (c : Constraint) : List Bool :=
  if c.isEquation then [] else [c.comparison == .ge]

namespace LinearProgram

open Builder

/-- The marginal that an outcome has for a constraint. -/
def marginal? (cs : List Constraint) (outcome : Outcome) (i : Nat) : Option Binary64 := do
  let c ← cs[i]?
  let marginals ← if c.isEquation then outcome.equalMarginals else outcome.upperMarginals
  marginals[(cs.take i).countP fun d => d.isEquation == c.isEquation]?

/-- A solver minimizes, and it is given a lower limit as an upper one with the other sign. -/
def sensitivity? (maximize : Bool) (cs : List Constraint) (outcome : Outcome) (i : Nat) :
    Option Binary64 := do
  let c ← cs[i]?
  return signed maximize (signed (c.comparison == .ge) (← marginal? cs outcome i)).settled

theorem getElem?_filter_countP {p : α → Bool} {as : List α} {i : Nat} {a : α}
    (here : as[i]? = some a) (holds : p a = true) :
    (as.filter p)[(as.take i).countP p]? = some a := by
  obtain ⟨bound, rfl⟩ := List.getElem?_eq_some_iff.1 here
  have parts : as = as.take i ++ as[i] :: as.drop (i + 1) := by
    rw [← List.drop_eq_getElem_cons bound, List.take_append_drop]
  have kept : as.filter p = (as.take i).filter p ++ as[i] :: (as.drop (i + 1)).filter p := by
    conv_lhs => rw [parts]
    rw [List.filter_append, List.filter_cons_of_pos holds]
  rw [kept, List.countP_eq_length_filter, List.getElem?_append_right (Nat.le_refl _), Nat.sub_self]
  rfl

theorem getElem?_foldl_addAt (entries : List (Nat × Binary64)) (duals : List Binary64) (i : Nat) :
    (entries.foldl (fun duals (row, x) => addAt row x duals) duals)[i]? =
      duals[i]?.map fun dual =>
        ((entries.filter (·.1 == i)).map Prod.snd).foldl Binary64.add dual := by
  induction entries generalizing duals with
  | nil => simp
  | cons entry entries ih =>
    obtain ⟨row, x⟩ := entry
    rw [List.foldl_cons, ih]
    simp only [addAt, List.getElem?_modify]
    by_cases here : row = i
    · cases duals[i]? <;> simp [here]
    · cases duals[i]? <;> simp [here]

theorem length_foldl_addAt (entries : List (Nat × Binary64)) (duals : List Binary64) :
    (entries.foldl (fun duals (row, x) => addAt row x duals) duals).length = duals.length := by
  induction entries generalizing duals with
  | nil => rfl
  | cons entry entries ih =>
    rw [List.foldl_cons, ih]
    exact List.length_modify ..

theorem filter_key {entries : List (Nat × Binary64)} (nodup : (entries.map Prod.fst).Nodup)
    {i : Nat} {x : Binary64} (member : (i, x) ∈ entries) :
    entries.filter (·.1 == i) = [(i, x)] := by
  induction entries with
  | nil => cases member
  | cons entry entries ih =>
    obtain ⟨alone, nodup⟩ := List.nodup_cons.1 nodup
    rcases List.mem_cons.1 member with rfl | member
    · have others : entries.filter (·.1 == i) = [] := by
        rw [List.filter_eq_nil_iff]
        exact fun e among same => alone (List.mem_map.2 ⟨e, among, beq_iff_eq.1 same⟩)
      rw [List.filter_cons_of_pos (by simp), others]
    · have differs : ¬ (entry.1 == i) = true := fun same =>
        alone (List.mem_map.2 ⟨_, member, (beq_iff_eq.1 same).symm⟩)
      rw [List.filter_cons_of_neg (by exact differs), ih nodup member]

section Rows

variable {p : LinearProgram} {cs : List Constraint} {outcome : Outcome}

theorem isEquation_range {c : Constraint} (isFinite : c.rhs.IsFinite) :
    isEquation (range c.comparison c.rhs.double) = c.isEquation := by
  have finite : c.rhs.double.isFinite = true := isFinite
  have equal : (Number.real c.rhs.double).same (.real c.rhs.double) = true := by
    match c.rhs.double, finite with
    | .finite .., _ => exact Number.same_refl_of_rank (Option.some_ne_none _)
  unfold Constraint.isEquation
  cases c.comparison with
  | eq => exact equal
  | _ =>
    match c.rhs.double, finite with
    | .finite .., _ =>
      simp [range, isEquation, Number.same, Number.compares, Binary64.signed]
      rfl

def sidesOf (limits : Binary64 × Binary64) : List Bool :=
  if isEquation limits then []
  else (if limits.2.isInfinite then [] else [false])
    ++ (if limits.1.isInfinite then [] else [true])

theorem partsOf_eq (limits : Binary64 × Binary64) (row : Nat) :
    partsOf (limits, row) = (sidesOf limits).map (Part.mk row) := by
  unfold partsOf sidesOf
  dsimp only
  cases isEquation limits <;> cases limits.1.isInfinite <;> cases limits.2.isInfinite <;> rfl

theorem sidesOf_range {c : Constraint} (finite : c.rhs.IsFinite) :
    sidesOf (range c.comparison c.rhs.double) = c.sides := by
  have limited := finite.notInfinite
  have unlimited (negative : Bool) : (Binary64.infinite negative).isInfinite = true := rfl
  rw [sidesOf, isEquation_range finite, Constraint.sides, Constraint.isEquation]
  cases c.comparison <;> simp [range, limited, unlimited]

/-- A program has a row of the right sort for each constraint, and no others. -/
structure LimitedBy (p : LinearProgram) (cs : List Constraint) : Prop where
  equations : p.limits.map isEquation = cs.map (·.isEquation)
  sides : p.limits.map sidesOf = cs.map (·.sides)
  count : p.rowCount = cs.length

theorem limitedBy_of_limits (finite : ∀ c ∈ cs, c.rhs.IsFinite)
    (limits : p.limits = cs.map fun c => range c.comparison c.rhs.double)
    (count : p.rowCount = cs.length) : p.LimitedBy cs where
  equations := by
    rw [limits, List.map_map]
    exact List.map_congr_left fun c member => isEquation_range (finite c member)
  sides := by
    rw [limits, List.map_map]
    exact List.map_congr_left fun c member => sidesOf_range (finite c member)
  count

theorem flatMap_ite {test : α → Bool} {f : α → β} (as : List α) :
    (as.flatMap fun a => if test a then [] else [f a]) = (as.filter fun a => !test a).map f := by
  induction as with
  | nil => rfl
  | cons a as ih => cases here : test a <;> simp [here, ih]

theorem filterMap_ite {test : α → Bool} {f : α → β} (as : List α) :
    (as.filterMap fun a => if test a then some (f a) else none) = (as.filter test).map f := by
  induction as with
  | nil => rfl
  | cons a as ih => cases here : test a <;> simp [here, ih]

theorem upperParts_eq (rows : p.LimitedBy cs) :
    p.upperParts = (cs.zipIdx.filter fun indexed => !indexed.1.isEquation).map
      fun indexed => ⟨indexed.2, indexed.1.comparison == .ge⟩ := by
  have parts : p.upperParts = (p.limits.map sidesOf).zipIdx.flatMap fun indexed =>
      indexed.1.map (Part.mk indexed.2) := by
    rw [upperParts, List.zipIdx_map, List.flatMap_map]
    exact List.flatMap_congr fun indexed _ => partsOf_eq indexed.1 indexed.2
  rw [parts, rows.sides, List.zipIdx_map, List.flatMap_map, ← flatMap_ite]
  refine List.flatMap_congr fun indexed _ => ?_
  simp only [Prod.map, Constraint.sides, id_eq]
  split <;> rfl

theorem equationRows_eq (rows : p.LimitedBy cs) :
    p.equationRows = (cs.zipIdx.filter fun indexed => indexed.1.isEquation).map Prod.snd := by
  have equations : p.equationRows = (p.limits.map isEquation).zipIdx.filterMap fun indexed =>
      if indexed.1 then some indexed.2 else none := by
    rw [equationRows, List.zipIdx_map, List.filterMap_map]
    rfl
  rw [equations, rows.equations, List.zipIdx_map, List.filterMap_map, ← filterMap_ite]
  rfl

theorem countP_take_zipIdx (test : Constraint → Bool) (i : Nat) :
    (cs.zipIdx.take i).countP (fun indexed => test indexed.1) = (cs.take i).countP test := by
  have places : (cs.zipIdx.take i).map Prod.fst = cs.take i := by
    rw [List.map_take, List.zipIdx_map_fst]
  rw [← places, List.countP_map]
  rfl

theorem getElem?_sort {i : Nat} {c : Constraint} (here : cs[i]? = some c) (test : Constraint → Bool)
    (holds : test c = true) :
    (cs.zipIdx.filter fun indexed => test indexed.1)[(cs.take i).countP test]? = some (c, i) := by
  have indexed : cs.zipIdx[i]? = some (c, i) := by simp [here]
  rw [← countP_take_zipIdx]
  exact getElem?_filter_countP indexed holds

theorem keys_rowMarginals (rows : p.LimitedBy cs) (fits : outcome.Fits p)
    (complete : p.lacksMarginals outcome = false) :
    ((p.rowMarginals outcome).map Prod.fst).Nodup := by
  obtain ⟨uppers, equals⟩ := length_ofParts fits complete
  have keys : (p.rowMarginals outcome).map Prod.fst =
      (cs.zipIdx.filter fun indexed => !indexed.1.isEquation).map Prod.snd ++
        (cs.zipIdx.filter fun indexed => indexed.1.isEquation).map Prod.snd := by
    have parts : (p.upperParts.zip (outcome.upperMarginals.getD [])).map Prod.fst = p.upperParts :=
      List.map_fst_zip uppers.ge
    have equations : (p.equationRows.zip (outcome.equalMarginals.getD [])).map Prod.fst =
        p.equationRows := List.map_fst_zip equals.ge
    rw [rowMarginals, List.map_append, equations, List.map_map, ← equationRows_eq rows]
    congr 1
    have rowOf := congrArg (List.map Part.row) parts
    rw [List.map_map] at rowOf
    refine rowOf.trans ?_
    rw [upperParts_eq rows, List.map_map]
    rfl
  have all := (List.filter_append_perm (fun indexed => indexed.1.isEquation) cs.zipIdx).map Prod.snd
  rw [keys, List.nodup_append_comm, ← List.map_append]
  refine all.nodup_iff.2 ?_
  rw [List.zipIdx_map_snd]
  exact List.nodup_range'

theorem exists_marginal {given : Option (List Binary64)} {parts : List α}
    (length : (given.getD []).length = parts.length) {k : Nat} {part : α}
    (here : parts[k]? = some part) :
    ∃ x, (given >>= fun xs => xs[k]?) = some x ∧ (part, x) ∈ parts.zip (given.getD []) := by
  have bound := length ▸ (List.getElem?_eq_some_iff.1 here).1
  cases given with
  | none => exact absurd bound (Nat.not_lt_zero k)
  | some xs =>
    have value : xs[k]? = some (xs.get ⟨k, bound⟩) := List.getElem?_eq_getElem bound
    refine ⟨_, value, List.mem_of_getElem? (i := k) ?_⟩
    exact List.getElem?_zip_eq_some.2 ⟨here, value⟩

theorem exists_rowMarginal (rows : p.LimitedBy cs) (fits : outcome.Fits p)
    (complete : p.lacksMarginals outcome = false) {i : Nat} {c : Constraint} (here : cs[i]? = some c) :
    ∃ x, marginal? cs outcome i = some x ∧
      (i, signed (c.comparison == .ge) x) ∈ p.rowMarginals outcome := by
  obtain ⟨uppers, equals⟩ := length_ofParts fits complete
  cases sort : c.isEquation with
  | true =>
    have place : p.equationRows[(cs.take i).countP (·.isEquation)]? = some i := by
      rw [equationRows_eq rows, List.getElem?_map, getElem?_sort here (·.isEquation) sort]
      rfl
    obtain ⟨x, value, member⟩ := exists_marginal equals place
    have unsigned : (c.comparison == .ge) = false := by
      rw [eq_of_beq sort]
      rfl
    refine ⟨x, ?_, List.mem_append_right _ (unsigned ▸ member)⟩
    simpa [marginal?, here, sort] using value
  | false =>
    have place : p.upperParts[(cs.take i).countP (!·.isEquation)]? =
        some ⟨i, c.comparison == .ge⟩ := by
      rw [upperParts_eq rows, List.getElem?_map,
        getElem?_sort here (!·.isEquation) (by simp [sort])]
      rfl
    obtain ⟨x, value, member⟩ := exists_marginal uppers place
    refine ⟨x, ?_, List.mem_append_left _ (List.mem_map.2 ⟨_, member, rfl⟩)⟩
    simpa [marginal?, here, sort] using value

theorem getElem?_marginalSums (rows : p.LimitedBy cs) (fits : outcome.Fits p)
    (complete : p.lacksMarginals outcome = false) (i : Nat) :
    ((p.marginalSums outcome).map p.directed)[i]? = sensitivity? p.maximize cs outcome i := by
  cases here : cs[i]? with
  | none =>
    have beyond : p.rowCount ≤ i := rows.count ▸ List.getElem?_eq_none_iff.1 here
    rw [List.getElem?_map, marginalSums, getElem?_foldl_addAt]
    simp [sensitivity?, here, beyond]
  | some c =>
    obtain ⟨x, given, member⟩ := exists_rowMarginal rows fits complete here
    have bound : i < p.rowCount := rows.count ▸ (List.getElem?_eq_some_iff.1 here).1
    have nodup := keys_rowMarginals rows fits complete
    rw [List.getElem?_map, marginalSums, getElem?_foldl_addAt, filter_key nodup member]
    simp [sensitivity?, here, given, bound, Binary64.zero_add]
    rfl

def HasMarginals (cs : List Constraint) (outcome : Outcome) : Prop :=
  ∀ c ∈ cs, (if c.isEquation then outcome.equalMarginals else outcome.upperMarginals).isSome = true

instance : Decidable (HasMarginals cs outcome) :=
  inferInstanceAs (Decidable (∀ c ∈ cs, _ = true))

theorem filter_zipIdx_eq_nil_iff (test : Constraint → Bool) :
    (cs.zipIdx.filter fun indexed => test indexed.1) = [] ↔ ∀ c ∈ cs, test c = false := by
  rw [List.filter_eq_nil_iff]
  constructor
  · intro none c member
    obtain ⟨i, bound, rfl⟩ := List.mem_iff_getElem.1 member
    have listed : (cs[i], i) ∈ cs.zipIdx := List.mem_zipIdx_iff_getElem?.2 (by simp)
    simpa using none _ listed
  · intro none indexed member
    simpa using none _ (List.fst_mem_of_mem_zipIdx member)

theorem upperParts_eq_nil_iff (rows : p.LimitedBy cs) :
    p.upperParts = [] ↔ ∀ c ∈ cs, c.isEquation = true := by
  rw [upperParts_eq rows, List.map_eq_nil_iff, filter_zipIdx_eq_nil_iff (!·.isEquation)]
  simp

theorem equationRows_eq_nil_iff (rows : p.LimitedBy cs) :
    p.equationRows = [] ↔ ∀ c ∈ cs, c.isEquation = false := by
  rw [equationRows_eq rows, List.map_eq_nil_iff, filter_zipIdx_eq_nil_iff (·.isEquation)]

theorem lacksMarginals_iff (rows : p.LimitedBy cs) :
    p.lacksMarginals outcome = false ↔ HasMarginals cs outcome := by
  have complete : p.lacksMarginals outcome = false ↔
      (p.upperParts = [] ∨ outcome.upperMarginals.isSome = true) ∧
        (p.equationRows = [] ∨ outcome.equalMarginals.isSome = true) := by
    unfold lacksMarginals
    cases outcome.upperMarginals <;> cases outcome.equalMarginals <;> simp
  rw [complete, upperParts_eq_nil_iff rows, equationRows_eq_nil_iff rows, HasMarginals]
  constructor
  · rintro ⟨inequalities, equations⟩ c member
    cases sort : c.isEquation with
    | true => exact equations.resolve_left fun none => by simp [none c member] at sort
    | false => exact inequalities.resolve_left fun all => by simp [all c member] at sort
  · intro all
    -- Of each sort there is either no constraint or a list of marginals.
    refine ⟨?_, ?_⟩
    · by_contra lacking
      obtain ⟨notAll, missing⟩ := not_or.1 lacking
      refine notAll fun c member => by_contra fun inequality => missing ?_
      simpa [inequality] using all c member
    · by_contra lacking
      obtain ⟨notNone, missing⟩ := not_or.1 lacking
      refine notNone fun c member => Bool.eq_false_iff.2 fun equation => missing ?_
      simpa [equation] using all c member

end Rows

end LinearProgram

end LinOpt
