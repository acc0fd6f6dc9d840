import Mathlib.Logic.Function.Basic

namespace LinOpt

theorem toList_toString (n : Nat) : (toString n).toList = Nat.toDigits 10 n := by
  simp

theorem toString_injective : Function.Injective (toString : Nat → String) := by
  intro m n same
  have digits : Nat.toDigits 10 m = Nat.toDigits 10 n := by
    rw [← toList_toString m, ← toList_toString n, same]
  rw [← Nat.ofDigitChars_ten_toDigits (n := m), digits, Nat.ofDigitChars_ten_toDigits]

theorem append_toString_injective (front : String) :
    Function.Injective fun n : Nat => front ++ toString n := by
  intro m n same
  apply toString_injective
  have lists := congrArg String.toList same
  simp only [String.toList_append, List.append_cancel_left_eq] at lists
  exact String.toList_injective lists

theorem exists_digit_last (front : String) (n : Nat) :
    ∃ c, (front ++ toString n).toList.getLast? = some c ∧ c.isDigit = true := by
  have nonempty : Nat.toDigits 10 n ≠ [] := Nat.toDigits_ne_nil
  refine ⟨(Nat.toDigits 10 n).getLast nonempty, ?_, ?_⟩
  · rw [String.toList_append, toList_toString, List.getLast?_append,
      List.getLast?_eq_some_getLast nonempty, Option.some_or]
  · exact Nat.isDigit_of_mem_toDigits (by decide) (by decide) (List.getLast_mem nonempty)

end LinOpt
