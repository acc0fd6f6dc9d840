import LinOpt.Proofs.Expression.Canonical

namespace LinOpt

/-- Whether an item of an expression has a variable as one of its parts. -/
def Value.Mentions (v : Variable) : Value → Prop
  | .var w => w = v
  | .list parts | .tuple parts => .var v ∈ parts
  | _ => False

namespace Item

variable {r : Registry} {v : Variable}

end Item

/-- What is wrong with the first of the items that cannot be read. -/
inductive FirstFault (r : Registry) : List Value → TermFault → Prop
  | here {item : Value} {items : List Value} {fault : TermFault}
      (unread : Item.read (some r) item = .error (.invalidTerm fault)) :
      FirstFault r (item :: items) fault
  | later {item : Value} {i : Item} {items : List Value} {fault : TermFault}
      (read : Item.read (some r) item = .ok i) (among : FirstFault r items fault) :
      FirstFault r (item :: items) fault

namespace FirstFault

variable {r : Registry} {items others : List Value} {fault : TermFault}

theorem append (h : FirstFault r items fault) : FirstFault r (items ++ others) fault := by
  induction h with
  | here unread => exact .here unread
  | later read _ ih => exact .later read ih

theorem after (read : ∀ item ∈ items, ∃ i, Item.read (some r) item = .ok i)
    (h : FirstFault r others fault) : FirstFault r (items ++ others) fault := by
  induction items with
  | nil => exact h
  | cons item items ih =>
    obtain ⟨⟨i, first⟩, rest⟩ := List.forall_mem_cons.1 read
    exact .later first (ih rest)

end FirstFault

namespace Expression

variable {r : Registry} {v : Variable} {given item : Value} {before after items : List Value}

end Expression

end LinOpt
