import LinOpt.Model.Feasibility
import LinOpt.Proofs.Bridge.Decoded

namespace LinOpt

namespace Value

/-- Nothing, or what counts as a number. -/
inductive IsNumeric : Value → Prop
  | null : IsNumeric null
  | bool (b : Bool) : IsNumeric (bool b)
  | number (n : Number) : IsNumeric (number n)

namespace IsNumeric

instance decidable : (x : Value) → Decidable x.IsNumeric
  | .null => isTrue null
  | .bool b => isTrue (bool b)
  | .number n => isTrue (number n)
  | .text _ | .list _ | .tuple _ | .map _ | .var _ => isFalse nofun

theorem ofOption_real (x : Option Binary64) : (ofOption real x).IsNumeric := by
  cases x with
  | none => exact null
  | some x => exact number (.real x)

theorem of_isNull {x : Value} (unset : x.isNull = true) : x.IsNumeric := by
  cases x with
  | null => exact null
  | _ => cases unset

theorem asNumber {x : Value} (numeric : x.IsNumeric) (set : x.isNull = false) :
    ∃ n, x.asNumber = .ok n := by
  cases numeric with
  | null => cases set
  | bool b => exact ⟨_, rfl⟩
  | number n => exact ⟨n, rfl⟩

theorem of_asNumber {x : Value} {n : Number} (whole : x.asNumber = .ok n) : x.IsNumeric := by
  cases x with
  | bool b => exact bool b
  | number n => exact number n
  | null | text | list | tuple | map | var => cases whole

theorem product {x : Value} (numeric : x.IsNumeric) (set : x.isNull = false) :
    ∃ n, Product.ofValue x = .ok (.number n) := by
  cases numeric with
  | null => cases set
  | bool b => exact ⟨_, rfl⟩
  | number n => exact ⟨n, rfl⟩

end IsNumeric

end Value

section numeric

variable {values : Valuation}

namespace Expression

theorem multiply_cons {factor n : Number} {x : Value} (set : x.isNull = false)
    (isNumber : Product.ofValue x = .ok (.number n)) (xs : List Value) :
    multiply (.number factor) (x :: xs) =
      inRange (factor.mul n) >>= fun product => multiply (.number product) xs := by
  have times : (Product.number factor).times (.number n) =
      Product.number <$> inRange (factor.mul n) := by simp only [Product.times]
  simp only [multiply, set, Bool.false_eq_true, if_false, isNumber, bind, Except.bind, times]
  cases factor.mul n <;> rfl

theorem multiply_numeric (factor : Number) {xs : List Value} (numeric : ∀ x ∈ xs, x.IsNumeric) :
    multiply (.number factor) xs = .error .overflow ∨
      ∃ found : Option Number, multiply (.number factor) xs = .ok (found.map .number) := by
  induction xs generalizing factor with
  | nil => exact .inr ⟨some factor, rfl⟩
  | cons x xs ih =>
    obtain ⟨own, others⟩ := List.forall_mem_cons.1 numeric
    cases set : x.isNull with
    | true =>
      refine .inr ⟨none, ?_⟩
      rw [multiply, if_pos set]
      rfl
    | false =>
      obtain ⟨n, isNumber⟩ := own.product set
      rw [multiply_cons set isNumber]
      cases factor.mul n with
      | none => exact .inl rfl
      | some product => exact ih product others

variable (numeric : ∀ v, (values v).IsNumeric)
include numeric

theorem evaluateTerms_failsOnly (terms : List Term) (total : Number) :
    FailsOnly (· = .overflow) (evaluateTerms values total terms) := by
  induction terms generalizing total with
  | nil => exact .ok _
  | cons t terms ih =>
    have all : ∀ x ∈ t.vars.map values, x.IsNumeric := by
      intro x member
      obtain ⟨v, -, rfl⟩ := List.mem_map.1 member
      exact numeric v
    unfold evaluateTerms
    rcases multiply_numeric t.coefficient all with large | ⟨_ | product, multiplied⟩
    · rw [large]
      exact fun e failed => (Except.error.inj failed).symm
    · rw [multiplied]
      exact .ok none
    · rw [multiplied]
      exact (FailsOnly.inRange (total.add product)).bind fun sum _ => ih sum

theorem evaluate_failsOnly (e : Expression) :
    FailsOnly (· = .overflow) (e.evaluate values) :=
  evaluateTerms_failsOnly numeric e.terms e.constant

end Expression

namespace Constraint

theorem isSatisfied_failsOnly (numeric : ∀ v, (values v).IsNumeric) (tolerance : Number)
    (c : Constraint) : FailsOnly (· = .overflow) (c.isSatisfied values tolerance) := by
  refine (c.lhs.evaluate_failsOnly numeric).bind fun found _ => ?_
  cases found with
  | none => exact .ok none
  | some activity =>
    cases comparison : c.comparison with
    | le => exact (FailsOnly.inRange (c.rhs.add tolerance)).bind fun _ _ => .ok _
    | eq => exact (FailsOnly.inRange (activity.sub c.rhs)).bind fun _ _ => .ok _
    | ge => exact (FailsOnly.inRange (c.rhs.sub tolerance)).bind fun _ _ => .ok _

end Constraint

namespace Model

/-- How a check of numbers can fail: a number is too large, or it is no number at all, which is not
near to any whole one. -/
def IsArithmetic (e : Error) : Prop :=
  e = .overflow ∨ e = .wrongValue

theorem inRange_failsOnly (x : Option α) : FailsOnly IsArithmetic (inRange x) :=
  (FailsOnly.inRange x).mono fun _ => .inl

theorem distanceToInt_failsOnly (n : Number) : FailsOnly IsArithmetic (distanceToInt n) := by
  cases n with
  | int k => exact .ok 0
  | ratio q => exact .ok _
  | real x =>
    cases x with
    | nan => exact fun e failed => .inr (Except.error.inj failed).symm
    | infinite negative =>
      exact (inRange_failsOnly _).bind fun _ _ => (inRange_failsOnly _).bind fun _ _ => .ok _
    | finite negative quanta short bound =>
      exact (inRange_failsOnly _).bind fun _ _ => (inRange_failsOnly _).bind fun _ _ => .ok _

theorem variableViolations_failsOnly (tolerance : Number) (v : Variable) {x : Value}
    (numeric : x.IsNumeric) (set : x.isNull = false) :
    FailsOnly IsArithmetic (variableViolations tolerance v x) := by
  refine (FailsOnly.ok tolerance).bind fun t _ => ?_
  refine (inRange_failsOnly (v.effectiveBounds.1.sub t)).bind fun least _ => ?_
  refine (FailsOnly.of_eq_ok (numeric.asNumber set)).bind fun n _ => ?_
  refine (inRange_failsOnly (v.effectiveBounds.2.add t)).bind fun greatest _ => ?_
  dsimp only
  split
  · exact ((distanceToInt_failsOnly n).map _).bind fun _ _ => .ok _
  · exact .ok _

theorem rowViolations_failsOnly (numeric : ∀ v, (values v).IsNumeric) (tolerance : Number)
    (i : Nat) (c : Constraint) : FailsOnly (· = .overflow) (rowViolations values tolerance i c) := by
  refine (c.isSatisfied_failsOnly numeric tolerance).bind fun holds _ => ?_
  split
  · exact .ok []
  · refine (c.lhs.evaluate_failsOnly numeric).bind fun activity _ => ?_
    cases activity with
    | none => exact .ok []
    | some activity => exact .ok _

theorem checkFeasibility_failsOnly {m : Model} (numeric : ∀ v, (m.value v).IsNumeric)
    (tolerance : Number) : FailsOnly IsArithmetic (m.checkFeasibility tolerance) := by
  refine FailsOnly.bind (.mapM fun v valued => ?_) fun onVariables _ => ?_
  · have set : (m.value v).isNull = false := by simpa using (List.mem_filter.1 valued).2
    exact variableViolations_failsOnly tolerance v (numeric v) set
  · refine FailsOnly.bind (.mapM fun (c, i) _ => ?_) fun onRows _ => .ok _
    exact (rowViolations_failsOnly numeric tolerance i c).mono fun _ => .inl

theorem isNumeric_of_checkFeasibility {m : Model} {tolerance : Value} {found : Feasibility}
    (checked : m.checkFeasibility tolerance = .ok found) {v : Variable}
    (own : v ∈ m.registry.vars) : (m.value v).IsNumeric := by
  cases set : (m.value v).isNull with
  | true => exact .of_isNull set
  | false =>
    obtain ⟨onVariables, run, -⟩ := bind_eq_ok.1 checked
    have valued : v ∈ m.registry.vars.filter fun v => !(m.value v).isNull :=
      List.mem_filter.2 ⟨own, by rw [set]; rfl⟩
    obtain ⟨violations, done⟩ := ok_of_mapM run valued
    obtain ⟨t, -, done⟩ := bind_eq_ok.1 done
    obtain ⟨least, -, done⟩ := bind_eq_ok.1 done
    obtain ⟨n, whole, -⟩ := bind_eq_ok.1 done
    exact .of_asNumber whole

end Model

end numeric

theorem Session.forall_value_assignAll {P : Value → Prop} {s : Session}
    {pairs : List (Variable × Value)} (old : ∀ v, P (s.value v)) (new : ∀ p ∈ pairs, P p.2)
    (v : Variable) : P ((s.assignAll pairs).value v) := by
  induction pairs generalizing s with
  | nil => exact old v
  | cons pair pairs ih =>
    obtain ⟨first, others⟩ := List.forall_mem_cons.1 new
    rw [Session.assignAll_cons]
    refine ih (fun w => ?_) others
    rw [Session.value_assign]
    split
    · exact first
    · exact old w

namespace Bridge

variable {b : Bridge} {m : Model} {response kept : Value} {answer : Answer}

theorem isNumeric_of_valued {say : α → Value} (numeric : ∀ a, (say a).IsNumeric)
    {entries : Entries α} : ∀ p ∈ m.valued say entries, p.2.IsNumeric := by
  intro p member
  obtain ⟨entry, -, found⟩ := List.mem_filterMap.1 member
  obtain ⟨v, -, rfl⟩ := Option.map_eq_some_iff.1 found
  exact numeric entry.2

theorem value_found_numeric (typed : b.format ≠ .jslp) (read : b.read m response = .ok answer)
    (v : Variable) : ((b.found kept answer).1.value v).IsNumeric := by
  let start : Session := { response := kept, status := some answer.status }
  let result : SolveResult := { status := answer.status, kind := b.kind }
  have unset (w : Variable) : (start.value w).IsNumeric := .null
  change ((answer.take (start, result)).1.value v).IsNumeric
  unfold Bridge.read at read
  split at read
  · obtain ⟨r, -, -, ⟨-, -, nothing⟩ | ⟨-, -, all⟩⟩ := readGlpk_eq_ok read
    · rw [nothing]
      exact unset v
    · obtain ⟨values, rows, taken, -⟩ := Glpk.decode_eq m r start result
      simp only [all, taken]
      have pairs : ∀ p ∈ m.valued Value.real r.values, p.2.IsNumeric :=
        isNumeric_of_valued fun x => .number (.real x)
      exact Session.forall_value_assignAll unset pairs v
  · obtain ⟨r, -, -, ⟨-, -, nothing⟩ | ⟨-, -, all⟩⟩ := readHighs_eq_ok read
    · rw [nothing]
      exact unset v
    · obtain ⟨values, rows, taken, -⟩ := Highs.decode_eq m r start result
      simp only [all, taken]
      have pairs : ∀ p ∈ m.valued Highs.Column.said r.columns, p.2.IsNumeric :=
        isNumeric_of_valued fun c : Highs.Column => .ofOption_real c.primal
      exact Session.forall_value_assignAll unset pairs v
  next format => exact absurd format typed

theorem value_found_jslp (sound : m.WellFormed) (read : Bridge.jslp.read m response = .ok answer)
    (kept : Value) : ∃ r, Jslp.Response.read response = .ok r ∧ ∀ v,
      (Bridge.jslp.found kept answer).1.value v =
        if r.feasible = some true ∧ v ∈ m.registry.vars then Jslp.valueIn r v else .null := by
  let start : Session := { response := kept, status := some answer.status }
  let result : SolveResult := { status := answer.status, kind := Bridge.jslp.kind }
  change ∃ r, _ ∧ ∀ v, (answer.take (start, result)).1.value v = _
  obtain ⟨r, understood, -, ⟨infeasible, -, nothing⟩ | ⟨feasible, -, all⟩⟩ := readJslp_eq_ok read
  · refine ⟨r, understood, fun v => ?_⟩
    rw [nothing, if_neg fun h => infeasible h.1]
    rfl
  · refine ⟨r, understood, fun v => ?_⟩
    obtain ⟨values, taken⟩ := Jslp.decode_found m r start result
    have keys : (m.registry.vars.map fun v => (v, Jslp.valueIn r v)).map Prod.fst =
        m.registry.vars := by
      rw [List.map_map]
      exact List.map_id _
    rw [all, taken]
    by_cases own : v ∈ m.registry.vars
    · rw [if_pos ⟨feasible, own⟩]
      exact Session.value_assignAll (keys.symm ▸ List.Nodup.of_map _ sound.registry.nodup)
        (List.mem_map.2 ⟨v, own, rfl⟩)
    · rw [if_neg fun h => own h.2]
      exact Session.value_assignAll_of_fresh (keys.symm ▸ own)

end Bridge

namespace Model

section

variable {m n : Model} {kind response : Value} {elsewhere : Valuation} {result : SolveResult}
  (reachable : m.Reachable)
  (taken : m.readSolution .standard kind response elsewhere = (n, .ok result))

include taken in
theorem exists_found : ∃ format answer kept, result.kind = Format.kind format ∧
    (Bridge.ofFormat format).read m response = .ok answer ∧ n.registry = m.registry ∧
    n.value = ((Bridge.ofFormat format).found kept answer).1.value := by
  have taken : (Call.readSolution .standard kind response elsewhere).on m = (n, .ok result) := taken
  obtain ⟨b, response', answer, objectiveValue, kept, noted, heard, read, -, rfl, found⟩ :=
    Call.on_eq_ok taken
  obtain ⟨known, rfl⟩ := Call.heard_readSolution heard
  obtain ⟨format, rfl⟩ := Bridges.find_standard known
  have isKind : result.kind = format.kind := by
    rw [← Bridge.kind_ofFormat, found]
    exact (Bridge.found_keeps read kept).kind
  exact ⟨format, answer, kept, isKind, read, rfl, rfl⟩

include reachable taken

theorem isNumeric_of_response (typed : result.kind = "jslp" → ∀ r,
    Jslp.Response.read response = .ok r → r.feasible = some true →
      ∀ v ∈ m.registry.vars, (Jslp.valueIn r v).IsNumeric) (v : Variable) :
    (n.value v).IsNumeric := by
  obtain ⟨format, answer, kept, isKind, read, -, values⟩ := exists_found taken
  rw [values]
  cases format with
  | glpk => exact Bridge.value_found_numeric (by decide) read v
  | highs => exact Bridge.value_found_numeric (by decide) read v
  | jslp =>
    obtain ⟨r, understood, all⟩ := Bridge.value_found_jslp reachable.wellFormed read kept
    change ((Bridge.jslp.found kept answer).1.value v).IsNumeric
    rw [all]
    split
    next held => exact typed isKind r understood held.1 v held.2
    · exact .null

theorem response_of_isNumeric (numeric : ∀ v ∈ n.registry.vars, (n.value v).IsNumeric)
    (isJslp : result.kind = "jslp") {r : Jslp.Response}
    (understood : Jslp.Response.read response = .ok r) (feasible : r.feasible = some true) :
    ∀ v ∈ m.registry.vars, (Jslp.valueIn r v).IsNumeric := by
  intro v own
  obtain ⟨format, answer, kept, isKind, read, registry, values⟩ := exists_found taken
  obtain rfl : format = .jslp := by
    rw [isJslp] at isKind
    cases format with
    | jslp => rfl
    | glpk => exact absurd isKind (by decide)
    | highs => exact absurd isKind (by decide)
  obtain ⟨r', same, all⟩ := Bridge.value_found_jslp reachable.wellFormed read kept
  obtain rfl : r = r' := Except.ok.inj (understood.symm.trans same)
  have left : n.value v = Jslp.valueIn r v := by
    rw [values]
    exact (all v).trans (if_pos ⟨feasible, own⟩)
  exact left ▸ numeric v (registry ▸ own)

/-- What a response leaves is numbers, but in the format where a response may have anything for a
variable: there it is numbers exactly if the response has numbers for all variables. Nothing is then
of the wrong sort for a check or a sum; and a check that comes to its end has met only numbers. -/
theorem readSolution_numeric :
    ((∀ v ∈ n.registry.vars, (n.value v).IsNumeric) ↔ (result.kind = "jslp" → ∀ r,
      Jslp.Response.read response = .ok r → r.feasible = some true →
        ∀ v ∈ m.registry.vars, (Jslp.valueIn r v).IsNumeric)) ∧
      ((∀ v ∈ n.registry.vars, (n.value v).IsNumeric) →
        (∀ (tolerance : Number) e, n.checkFeasibility tolerance = .error e →
          e = .overflow ∨ e = .wrongValue) ∧
        ∀ (expression : Expression) e, expression.evaluate n.value = .error e → e = .overflow) ∧
      ∀ tolerance found, n.checkFeasibility tolerance = .ok found →
        ∀ v ∈ n.registry.vars, (n.value v).IsNumeric := by
  have needed (numeric : ∀ v ∈ n.registry.vars, (n.value v).IsNumeric) (isJslp : result.kind = "jslp")
      (r : Jslp.Response) (understood : Jslp.Response.read response = .ok r)
      (feasible : r.feasible = some true) :=
    response_of_isNumeric reachable taken numeric isJslp understood feasible
  refine ⟨⟨needed, fun typed v _ => isNumeric_of_response reachable taken typed v⟩,
    fun numeric => ?_, fun tolerance found checked v own => isNumeric_of_checkFeasibility checked own⟩
  -- A variable of another model has no value, so that the sums may be about any variables.
  have all := isNumeric_of_response reachable taken (needed numeric)
  exact ⟨checkFeasibility_failsOnly all, fun expression => expression.evaluate_failsOnly all⟩

end

namespace Sample

def saying (x : Value) : Value :=
  .record [("feasible", .bool true), ("result", .int 1), ("x", x)]

def lone : Model :=
  let x : Variable := { name := "x", id := ⟨0, 0⟩ }
  (empty 0).run [
    .addVar { name := .text "x" },
    .setObjective (.list [.var x]) (.text "minimize")]

end Sample

theorem sample_readSolution_numeric :
    ∃ n result, Sample.lone.readSolution .standard (.text "jslp") (Sample.saying (.bool true))
        (fun _ => .null) = (n, .ok result) ∧
      (∀ v ∈ n.registry.vars, (n.value v).IsNumeric) ∧
      n.checkFeasibility Number.infinity ≠ .error .wrongSort := by
  have reachable : Sample.lone.Reachable := ⟨0, _, rfl⟩
  have typed : (Jslp.Response.read (Sample.saying (.bool true))).toOption.all (fun r =>
      decide (∀ v ∈ Sample.lone.registry.vars, (Jslp.valueIn r v).IsNumeric)) = true := by
    decide +kernel
  have accepted : (Sample.lone.readSolution .standard (.text "jslp")
      (Sample.saying (.bool true)) fun _ => .null).2.toOption.isSome = true := by decide +kernel
  match taken : Sample.lone.readSolution .standard (.text "jslp") (Sample.saying (.bool true))
      fun _ => .null with
  | (n, .error e) =>
    rw [taken] at accepted
    cases accepted
  | (n, .ok result) =>
    obtain ⟨exactly, comesToEnd, -⟩ := readSolution_numeric reachable taken
    have numeric := exactly.2 fun _ r understood _ => by
      rw [understood] at typed
      exact of_decide_eq_true typed
    refine ⟨n, result, rfl, numeric, fun failed => ?_⟩
    rcases (comesToEnd numeric).1 Number.infinity .wrongSort failed with wrong | wrong
    · cases wrong
    · cases wrong

/-- A response that gives a variable a text is taken over, and neither a check nor a sum comes to its
end afterwards. -/
theorem text_response_leaves_no_number :
    let left := Sample.lone.readSolution .standard (.text "jslp") (Sample.saying (.text "abc"))
      fun _ => .null
    Sample.lone.Reachable ∧ left.2.toOption.isSome = true ∧
      left.1.registry.vars.map (fun v => (left.1.value v).sort) = ["str"] ∧
      left.1.checkFeasibility (.int 0) = .error .wrongSort ∧
      left.1.objective.expression.evaluate left.1.value = .error .wrongSort := by
  exact ⟨⟨0, _, rfl⟩, by decide +kernel⟩

end Model

end LinOpt
