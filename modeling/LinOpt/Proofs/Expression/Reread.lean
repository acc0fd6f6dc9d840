import LinOpt.Proofs.Expression.Canonical
import LinOpt.Proofs.Number.Exact
import Mathlib.Algebra.Ring.Int.Defs

namespace LinOpt

namespace Binary64

theorem settled_ofQuanta {quanta : Int} {negativeZero : Bool}
    (h : quanta ≠ 0 ∨ negativeZero = false) :
    (ofQuanta quanta negativeZero).settled = ofQuanta quanta negativeZero := by
  by_cases zero : quanta = 0
  · obtain rfl := h.resolve_left (not_not.2 zero)
    rw [ofQuanta, if_pos zero, ofQuotient]
    split <;> rfl
  · exact settled_ofQuotient (Int.natAbs_ne_zero.2 zero)

theorem settled_add {x : Binary64} (settled : x.settled = x) (y : Binary64) :
    (x.add y).settled = x.add y := by
  cases x with
  | nan => rfl
  | infinite s =>
    cases y with
    | infinite t => cases s <;> cases t <;> rfl
    | _ => rfl
  | finite s a =>
    cases y with
    | finite t b =>
      -- A sum is a negative zero only if both numbers are.
      refine settled_ofQuanta ?_
      cases s with
      | false => exact .inr rfl
      | true =>
        have nonzero : a ≠ 0 := by simpa [Binary64.settled] using settled
        cases t with
        | false => exact .inr rfl
        | true =>
          refine .inl ?_
          simp only [signed, if_true]
          omega
    | _ => rfl

end Binary64

namespace Number

variable {a b sum : Number}

theorem settled_double {x : Binary64} (notRatio : a.isRatio = false) (settled : a.settled = a)
    (read : a.toBinary64? = some x) : x.settled = x := by
  cases a with
  | real y =>
    cases read
    exact Number.real.inj settled
  | int n =>
    rw [toBinary64?] at read
    split at read
    · cases read
    · rw [← Option.some.inj read]
      exact Binary64.settled_ofQuanta (.inr rfl)
  | ratio q => cases notRatio

/-- A number that a sum has from its start, `int 0`. A ratio is kept out: one that is next to zero
and below it is a negative zero as a double. -/
structure IsTotal (n : Number) : Prop where
  settled : n.settled = n
  notRatio : n.isRatio = false

theorem IsTotal.add (h : a.IsTotal) (notRatio : b.isRatio = false) (added : a.add b = some sum) :
    sum.IsTotal := by
  have rounded (h' : (do return Number.real (Binary64.add (← a.toBinary64?) (← b.toBinary64?))) =
      some sum) : sum.IsTotal := by
    obtain ⟨x, first, h'⟩ := Option.bind_eq_some_iff.1 h'
    obtain ⟨y, -, h'⟩ := Option.bind_eq_some_iff.1 h'
    cases h'
    have settled := settled_double h.notRatio h.settled first
    exact ⟨congrArg Number.real (Binary64.settled_add settled y), rfl⟩
  cases a with
  | ratio p => cases h.notRatio
  | real x => exact rounded added
  | int m =>
    cases b with
    | ratio q => cases notRatio
    | real y => exact rounded added
    | int n =>
      cases added
      exact ⟨rfl, rfl⟩

end Number

def Value.isRatio : Value → Bool
  | number n => n.isRatio
  | _ => false

namespace Item

variable {registry : Option Registry} {i : Item}

theorem read_toValue (sound : i.Sound registry) : Item.read registry i.toValue = .ok i := by
  refine read_eq_ok.2 ?_
  cases i with
  | number n => exact .number n
  | term t =>
    obtain ⟨ordered, allowed⟩ := sound
    cases t with
    | linear c v => exact .linear c v rfl (allowed v List.mem_cons_self)
    | quadratic c v w =>
      have product : Term.product c v w = .quadratic c v w := if_neg (String.not_lt.2 ordered)
      have second := allowed w (List.mem_cons_of_mem v List.mem_cons_self)
      have written : Reads registry (term (.quadratic c v w)).toValue (term (.product c v w)) :=
        .quadratic c v w rfl (allowed v List.mem_cons_self) second
      rwa [product] at written

end Item

namespace Expression

section

variable {registry : Option Registry} {e : Expression} {given : Value}

theorem sum_reads {values : List Value} {items : List Item}
    (reads : List.Forall₂ (Item.Reads registry) values items) :
    canonicalize.sum registry values = inRange (ofItems items) := by
  have run (e : Expression) : values.foldlM (canonicalize.readItem registry) e =
      inRange (items.foldlM addItem e) := by
    induction reads generalizing e with
    | nil => rfl
    | @cons value i values items first _ ih =>
      have step : canonicalize.readItem registry e value = inRange (e.addItem i) := by
        rw [canonicalize.readItem, Item.read_eq_ok.2 first]
        rfl
      rw [List.foldlM_cons, List.foldlM_cons, step]
      cases e.addItem i with
      | none => rfl
      | some sum => exact ih sum
  rw [canonicalize.sum, run, ofItems]
  cases items.foldlM addItem {} <;> rfl

theorem sum_toValue {items : List Item} (sound : ∀ i ∈ items, i.Sound registry) :
    canonicalize.sum registry (items.map Item.toValue) = inRange (ofItems items) := by
  apply sum_reads
  rw [List.forall₂_map_left_iff, List.forall₂_same]
  intro i member
  exact Item.read_eq_ok.1 (Item.read_toValue (sound i member))

theorem isTotal_constant {items : List Value} (offered : offered? given = some items)
    (noRatio : ∀ item ∈ items, item.isRatio = false) (h : canonicalize registry given = .ok e) :
    e.constant.IsTotal := by
  rw [canonicalize_of_offered offered] at h
  obtain ⟨sum, added, h⟩ := bind_eq_ok.1 h
  cases h
  have kept : sum.constant.IsTotal := by
    refine foldlM_keeps (fun e : Expression => e.constant.IsTotal) ?_ ⟨rfl, rfl⟩ added
    intro value member e next isTotal step
    obtain ⟨i, read, step⟩ := bind_eq_ok.1 step
    cases i with
    | number n =>
      obtain ⟨c, total, same⟩ := Option.bind_eq_some_iff.1 (inRange_eq_ok.1 step)
      cases same
      have alone : n.isRatio = false := by
        cases Item.read_eq_ok.1 read
        exact noRatio _ member
      exact isTotal.add alone total
    | term t =>
      obtain ⟨terms, -, same⟩ := Option.bind_eq_some_iff.1 (inRange_eq_ok.1 step)
      cases same
      exact isTotal
  exact kept

theorem addItems_items (canonical : e.IsCanonical) :
    e.items.foldlM addItem {} = some { e with constant := e.constant.settled } := by
  have constant : ({} : Expression).addItem (.number e.constant) =
      some { constant := e.constant.settled } := by
    rw [addItem, Number.zero_add]
    rfl
  have distinct : ((([] : List Term) ++ e.terms).map Term.key).Nodup := canonical.keys_nodup
  rw [items, List.foldlM_cons, constant, Option.bind_eq_bind, Option.bind_some]
  exact addItems_terms distinct

theorem canonicalize_toValue (canonical : e.IsCanonical) (allowed : e.AllowedBy registry)
    (settled : e.constant.settled = e.constant) : canonicalize registry e.toValue = .ok e := by
  have sum : ofItems e.items = some e := by
    rw [ofItems, addItems_items canonical, settled, Option.map_eq_map, Option.map_some,
      dropZeros_eq canonical.nonzero]
  rw [toValue, canonicalize, sum_toValue (items_sound canonical allowed), sum]
  rfl

theorem allowedBy_none (e : Expression) : e.AllowedBy none :=
  fun _ _ _ _ => rfl

/-- A second canonicalization changes nothing, whether or not the registry is asked again. -/
theorem canonicalize_again {items : List Value} (offered : offered? given = some items)
    (noRatio : ∀ item ∈ items, item.isRatio = false) (h : canonicalize registry given = .ok e) :
    canonicalize registry e.toValue = .ok e ∧ canonicalize none e.toValue = .ok e := by
  obtain ⟨canonical, allowed⟩ := canonicalize_sound h
  have settled := (isTotal_constant offered noRatio h).settled
  exact ⟨canonicalize_toValue canonical allowed settled,
    canonicalize_toValue canonical (allowedBy_none e) settled⟩

end

namespace Sample

def x : Variable := { name := "x", id := ⟨0, 0⟩ }

def y : Variable := { name := "y", id := ⟨0, 1⟩ }

def registry : Registry := { owner := 0, issued := 2, vars := [x, y] }

def mixed : List Value := [
  .real (.zero true),
  .list [.int (10 ^ 400), .var x],
  .tuple [.real .nan, .var y],
  .list [Number.infinity, .var y, .var x],
  .var x]

def sum : Expression where
  constant := .real (.zero false)
  terms := [.linear (.int (10 ^ 400 + 1)) x, .linear (.real .nan) y, .quadratic .infinity x y]

end Sample

theorem sample_canonicalize_again :
    (∀ item ∈ Sample.mixed, item.isRatio = false) ∧
      canonicalize (some Sample.registry) (.list Sample.mixed) = .ok Sample.sum ∧
      canonicalize (some Sample.registry) Sample.sum.toValue = .ok Sample.sum ∧
      canonicalize none Sample.sum.toValue = .ok Sample.sum := by
  have summed : (canonicalize (some Sample.registry) (.list Sample.mixed)).toOption =
      some Sample.sum := by decide +kernel
  have given := toOption_eq_some.1 summed
  have noRatio : ∀ item ∈ Sample.mixed, item.isRatio = false := by decide
  have offered : offered? (.list Sample.mixed) = some Sample.mixed := rfl
  exact ⟨noRatio, given, canonicalize_again offered noRatio given⟩

end Expression

end LinOpt
