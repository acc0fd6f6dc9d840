import LinOpt.Number.Numeral
import LinOpt.Proofs.Number.Decimal
import LinOpt.Proofs.Text.Digits

namespace LinOpt

namespace Numeral

/-- A reading of digits under which those of the basic alphabet have their values, and no other
basic character is a digit. -/
structure Basic (digit? : Char → Option Nat) : Prop where
  digit : ∀ c, c.isDigit = true → digit? c = some (c.toNat - '0'.toNat)
  other : ∀ c, c.toNat < 128 → c.isDigit = false → digit? c = none

structure Ends (c : Char) : Prop where
  basic : c.toNat < 128
  notDigit : c.isDigit = false
  notPoint : c ≠ '.'
  notPower : c ≠ 'e' ∧ c ≠ 'E'

theorem ends_space : Ends ' ' :=
  ⟨by decide, rfl, by decide, by decide⟩

theorem ends_newline : Ends '\n' :=
  ⟨by decide, rfl, by decide, by decide⟩

structure Written where
  whole : List Char
  part : Option (List Char) := none
  power : Option (Bool × List Char) := none

namespace Written

def partText (w : Written) : List Char :=
  w.part.elim [] ('.' :: ·)

def powerText (w : Written) : List Char :=
  w.power.elim [] fun (negative, ds) => 'e' :: (if negative then '-' else '+') :: ds

def text (w : Written) : List Char :=
  w.whole ++ w.partText ++ w.powerText

def decimal (w : Written) : Decimal where
  digits := Nat.ofDigitChars 10 (w.whole ++ w.part.getD []) 0
  exponent :=
    w.power.elim 0 (fun (negative, ds) => Binary64.signed negative (Nat.ofDigitChars 10 ds 0))
      - (w.part.getD []).length

structure Sound (w : Written) : Prop where
  whole : ∀ c ∈ w.whole, c.isDigit = true
  nonempty : w.whole ≠ []
  part : ∀ c ∈ w.part.getD [], c.isDigit = true
  power : ∀ negative ds, w.power = some (negative, ds) → ds ≠ [] ∧ ∀ c ∈ ds, c.isDigit = true

end Written

variable {digit? : Char → Option Nat} {c : Char} {rest : List Char}

theorem digits_append (basic : Basic digit?) {ds : List Char} (are : ∀ c ∈ ds, c.isDigit = true)
    (ends : digit? c = none) :
    digits digit? (ds ++ c :: rest) = (ds.map fun c => c.toNat - '0'.toNat, c :: rest) := by
  induction ds with
  | nil =>
    rw [List.nil_append, digits, ends]
    rfl
  | cons d ds ih =>
    have first := basic.digit d (are d List.mem_cons_self)
    rw [List.cons_append, digits, first, ih fun e member => are e (List.mem_cons_of_mem d member)]
    rfl

theorem valueOf_map (ds : List Char) :
    valueOf (ds.map fun c => c.toNat - '0'.toNat) = Nat.ofDigitChars 10 ds 0 := by
  rw [valueOf, List.foldl_map, Nat.ofDigitChars_eq_foldl]

theorem power_append (basic : Basic digit?) {w : Written} (sound : w.Sound) (ends : Ends c) :
    power digit? (w.powerText ++ c :: rest) =
      (w.power.elim 0 fun (negative, ds) => Binary64.signed negative (Nat.ofDigitChars 10 ds 0),
        c :: rest) := by
  have stop := basic.other c ends.basic ends.notDigit
  cases isPower : w.power with
  | none =>
    rw [Written.powerText, isPower]
    change power digit? (c :: rest) = (0, c :: rest)
    rw [power]
    dsimp only
    split
    · rfl
    · rw [if_neg (by simp [ends.notPower])]
  | some found =>
    obtain ⟨negative, ds⟩ := found
    obtain ⟨nonempty, are⟩ := sound.power negative ds isPower
    rw [Written.powerText, isPower]
    have read : digits digit? (ds ++ c :: rest) = _ := digits_append basic are stop
    have signed : sign ((if negative then '-' else '+') :: (ds ++ c :: rest)) =
        (negative, ds ++ c :: rest) := by
      cases negative <;> rfl
    obtain ⟨d, ds, rfl⟩ := List.exists_cons_of_ne_nil nonempty
    change power digit? ('e' :: (if negative then '-' else '+') :: (d :: ds ++ c :: rest)) = _
    rw [power, signed]
    dsimp only
    rw [read, List.map_cons]
    dsimp only
    rw [← List.map_cons (f := fun c : Char => c.toNat - '0'.toNat), valueOf_map]
    rfl

theorem powerText_head (basic : Basic digit?) (w : Written) (ends : Ends c) (rest : List Char) :
    ∃ d t, w.powerText ++ c :: rest = d :: t ∧ digit? d = none ∧ d ≠ '.' := by
  cases isPower : w.power with
  | none =>
    refine ⟨c, rest, ?_, basic.other c ends.basic ends.notDigit, ends.notPoint⟩
    rw [Written.powerText, isPower]
    rfl
  | some found =>
    refine ⟨'e', (if found.1 then '-' else '+') :: (found.2 ++ c :: rest), ?_,
      basic.other 'e' (by decide) rfl, by decide⟩
    rw [Written.powerText, isPower]
    rfl

theorem fraction_append (basic : Basic digit?) {w : Written} (sound : w.Sound) (ends : Ends c) :
    fraction digit? (w.partText ++ (w.powerText ++ c :: rest)) =
      ((w.part.getD []).map fun c => c.toNat - '0'.toNat, w.powerText ++ c :: rest) := by
  obtain ⟨d, t, next, stop, notPoint⟩ := powerText_head basic w ends rest
  have are := sound.part
  rw [next, Written.partText]
  cases isPart : w.part with
  | none =>
    change fraction digit? (d :: t) = ([], d :: t)
    unfold fraction
    split
    next found => exact absurd (List.cons.inj found).1 notPoint
    next => rfl
  | some ds =>
    rw [isPart] at are
    exact digits_append basic are stop

theorem scan_written (basic : Basic digit?) {w : Written} (sound : w.Sound) (ends : Ends c) :
    scan digit? (w.text ++ c :: rest) = some (w.decimal, c :: rest) := by
  have whole : digits digit? (w.whole ++ (w.partText ++ (w.powerText ++ c :: rest))) =
      (w.whole.map fun c => c.toNat - '0'.toNat, w.partText ++ (w.powerText ++ c :: rest)) := by
    cases isPart : w.part with
    | none =>
      obtain ⟨d, t, next, stop, -⟩ := powerText_head basic w ends rest
      rw [Written.partText, isPart, next]
      exact digits_append basic sound.whole stop
    | some ds =>
      rw [Written.partText, isPart]
      exact digits_append basic sound.whole (basic.other '.' (by decide) rfl)
  obtain ⟨d, ds, nonempty⟩ := List.exists_cons_of_ne_nil sound.nonempty
  have some : (w.whole.map fun c => c.toNat - '0'.toNat).isEmpty = false := by
    rw [nonempty]
    rfl
  rw [Written.text, List.append_assoc, List.append_assoc, scan, whole]
  dsimp only
  rw [fraction_append basic sound ends]
  dsimp only
  rw [power_append basic sound ends, some, Bool.false_and, ← List.map_append, valueOf_map,
    List.length_map]
  rfl

end Numeral

namespace Decimal

open Numeral (Written)

def written (d : Decimal) : Written :=
  let digits := Nat.toDigits 10 d.digits
  let point := d.exponent + digits.length
  if -4 < point && point ≤ 16 then
    if point ≤ 0 then ⟨['0'], some (List.replicate (-point).toNat '0' ++ digits), none⟩
    else if digits.length ≤ point then
      ⟨digits ++ List.replicate (point - digits.length).toNat '0', some ['0'], none⟩
    else ⟨digits.take point.toNat, some (digits.drop point.toNat), none⟩
  else
    let power := point - 1
    ⟨digits.take 1, if (digits.drop 1).isEmpty then none else some (digits.drop 1),
      some (decide (power < 0),
        (if power.natAbs < 10 then ['0'] else []) ++ Nat.toDigits 10 power.natAbs)⟩

theorem toList_zeros (n : Int) : (zeros n).toList = List.replicate n.toNat '0' := by
  rw [zeros, String.pushn_eq_repeat_push]
  induction n.toNat with
  | zero => rfl
  | succ k ih => rw [Nat.repeat, String.toList_push, ih, List.replicate_succ']

theorem toList_text (d : Decimal) : d.text.toList = d.written.text := by
  unfold text written
  dsimp only
  split
  · split
    · simp [Written.text, Written.partText, Written.powerText, toList_zeros]
    · split
      · simp [Written.text, Written.partText, Written.powerText, toList_zeros]
      · simp [Written.text, Written.partText, Written.powerText]
  · generalize d.exponent + (Nat.toDigits 10 d.digits).length - 1 = power
    have sign : (if power < 0 then "e-" else "e+").toList =
        ['e', if decide (power < 0) then '-' else '+'] := by
      by_cases negative : power < 0 <;> simp [negative]
    have pad : (if power.natAbs < 10 then "0" else "").toList =
        if power.natAbs < 10 then ['0'] else [] := by
      split <;> rfl
    have fraction : (if ((Nat.toDigits 10 d.digits).drop 1).isEmpty = true then ""
        else "." ++ String.ofList ((Nat.toDigits 10 d.digits).drop 1)).toList =
          (if ((Nat.toDigits 10 d.digits).drop 1).isEmpty = true then none
            else some ((Nat.toDigits 10 d.digits).drop 1)).elim [] ('.' :: ·) := by
      split <;> simp
    simp only [String.toList_append, sign, pad, fraction, String.toList_ofList, toList_toString,
      Written.text, Written.partText, Written.powerText, Option.elim_some, List.append_assoc,
      List.cons_append, List.nil_append]

theorem digits_of_mem {n : Nat} {c : Char} (h : c ∈ Nat.toDigits 10 n) : c.isDigit = true :=
  Nat.isDigit_of_mem_toDigits (by decide) (by decide) h

theorem digits_of_mem_zeros {k : Nat} {c : Char} (h : c ∈ List.replicate k '0') :
    c.isDigit = true := by
  rw [(List.mem_replicate.1 h).2]
  rfl

theorem take_ne_nil {n : Nat} {k : Nat} (positive : 0 < k) : (Nat.toDigits 10 n).take k ≠ [] := by
  have nonempty : Nat.toDigits 10 n ≠ [] := Nat.toDigits_ne_nil
  simp [nonempty, Nat.ne_of_gt positive]

theorem written_sound (d : Decimal) : d.written.Sound := by
  have zero : ∀ c ∈ ['0'], c.isDigit = true := by simp
  unfold written
  dsimp only
  split
  · split
    · refine ⟨zero, by simp, fun c member => ?_, fun _ _ none => by cases none⟩
      rcases List.mem_append.1 member with member | member
      · exact digits_of_mem_zeros member
      · exact digits_of_mem member
    · split
      · refine ⟨fun c member => ?_, by simp, zero, fun _ _ none => by cases none⟩
        rcases List.mem_append.1 member with member | member
        · exact digits_of_mem member
        · exact digits_of_mem_zeros member
      · refine ⟨fun c member => digits_of_mem (List.mem_of_mem_take member), ?_,
          fun c member => digits_of_mem (List.mem_of_mem_drop member), fun _ _ none => by cases none⟩
        exact take_ne_nil (by omega)
  · refine ⟨fun c member => digits_of_mem (List.mem_of_mem_take member),
      take_ne_nil Nat.one_pos, fun c member => ?_, fun negative ds isPower => ?_⟩
    · dsimp only at member
      split at member
      · cases member
      · exact digits_of_mem (List.mem_of_mem_drop member)
    · cases isPower
      refine ⟨by simp, fun c member => ?_⟩
      rcases List.mem_append.1 member with member | member
      · split at member
        · exact zero c member
        · cases member
      · exact digits_of_mem member

theorem value_padded (n k : Nat) :
    Nat.ofDigitChars 10 (List.replicate k '0' ++ Nat.toDigits 10 n) 0 = n := by
  rw [Nat.ofDigitChars_append, Nat.ofDigitChars_replicate_zero, Nat.mul_zero,
    Nat.ofDigitChars_ten_toDigits]

theorem value_shifted (n k : Nat) :
    Nat.ofDigitChars 10 (Nat.toDigits 10 n ++ List.replicate k '0') 0 = n * tenPower k := by
  rw [Nat.ofDigitChars_append, Nat.ofDigitChars_ten_toDigits, Nat.ofDigitChars_replicate_zero,
    Nat.mul_comm]
  rfl

theorem signed_power (power : Int) :
    Binary64.signed (decide (power < 0)) (Nat.ofDigitChars 10
      ((if power.natAbs < 10 then ['0'] else []) ++ Nat.toDigits 10 power.natAbs) 0) = power := by
  have pad : (if power.natAbs < 10 then ['0'] else []) =
      List.replicate (if power.natAbs < 10 then 1 else 0) '0' := by
    split <;> rfl
  rw [pad, value_padded, Binary64.signed]
  by_cases below : power < 0
  · rw [if_pos (decide_eq_true below)]
    omega
  · rw [if_neg (by simp [below])]
    omega

theorem ofDecimal_written (negative : Bool) (d : Decimal) :
    Binary64.ofDecimal negative d.written.decimal = Binary64.ofDecimal negative d := by
  obtain ⟨digits, exponent⟩ := d
  have length := Nat.length_toDigits_pos (b := 10) (n := digits)
  have value := Nat.ofDigitChars_ten_toDigits (n := digits)
  unfold written
  dsimp only
  split
  · split
    · -- A fraction: the zeros after the point count for nothing.
      have padded : Nat.ofDigitChars 10 (['0'] ++ (List.replicate _ '0' ++ _)) 0 = digits :=
        value_padded digits ((-(exponent + (Nat.toDigits 10 digits).length)).toNat + 1)
      simp only [Written.decimal, Option.getD_some, Option.elim_none, padded, List.length_append,
        List.length_replicate]
      congr 2
      omega
    · split
      · -- A whole number: zeros up to the point are powers of ten, and one more stands after it.
        have shifted := value_shifted digits (exponent.toNat + 1)
        rw [List.replicate_succ', ← List.append_assoc] at shifted
        have power : (exponent + (Nat.toDigits 10 digits).length
            - (Nat.toDigits 10 digits).length).toNat = exponent.toNat := by omega
        have exponents : (0 : Int) - (1 : Nat) = exponent - (exponent.toNat + 1 : Nat) := by omega
        simp only [Written.decimal, Option.getD_some, Option.elim_none, power, shifted,
          List.length_singleton, exponents]
        exact Binary64.ofDecimal_mul_tenPower negative digits _ exponent
      · -- The point stands inside the digits.
        simp only [Written.decimal, Option.getD_some, Option.elim_none, List.take_append_drop,
          value, List.length_drop]
        congr 2
        omega
  · -- One digit stands before the point, and the power of ten takes up the rest.
    generalize exponents : exponent + (Nat.toDigits 10 digits).length - 1 = power
    simp only [Written.decimal, Option.elim_some, signed_power]
    split
    next single =>
      have all : (Nat.toDigits 10 digits).take 1 = Nat.toDigits 10 digits := by
        rw [List.isEmpty_iff, List.drop_eq_nil_iff] at single
        exact List.take_of_length_le single
      have one : (Nat.toDigits 10 digits).length = 1 := by
        rw [List.isEmpty_iff, List.drop_eq_nil_iff] at single
        omega
      simp only [Option.getD_none, List.append_nil, all, value, List.length_nil]
      congr 2
      omega
    next =>
      simp only [Option.getD_some, List.take_append_drop, value, List.length_drop]
      congr 2
      omega

end Decimal

end LinOpt
