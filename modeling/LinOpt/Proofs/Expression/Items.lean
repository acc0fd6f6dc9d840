import LinOpt.Expression.Canonical
import LinOpt.Proofs.Outcome

namespace LinOpt

def Value.parts? : Value → Option (List Value)
  | .list parts | .tuple parts => some parts
  | _ => none

namespace Item

variable {registry : Option Registry}

theorem readVariable_eq_ok {item value : Value} {v : Variable} :
    readVariable registry item value = .ok v ↔
      value = .var v ∧ registry.all (·.owns v) = true := by
  unfold readVariable
  split
  · rename_i w
    split
    next owned =>
      constructor
      · rintro h
        cases h
        exact ⟨rfl, owned⟩
      · rintro ⟨same, -⟩
        cases same
        rfl
    next foreign =>
      refine iff_of_false nofun ?_
      rintro ⟨same, owned⟩
      cases same
      exact foreign owned
  · rename_i other
    exact iff_of_false nofun fun h => other v h.1

theorem readCoefficient_eq_ok {item value : Value} {c : Number} :
    readCoefficient item value = .ok c ↔ value = .number c := by
  unfold readCoefficient
  split
  · simp
  · rename_i other
    exact iff_of_false nofun (other c)

inductive Reads (registry : Option Registry) : Value → Item → Prop
  | number (n : Number) : Reads registry (.number n) (.number n)
  | single (v : Variable) (allowed : registry.all (·.owns v) = true) :
    Reads registry (.var v) (.term (.linear 1 v))
  | linear {item : Value} (c : Number) (v : Variable)
    (parts : item.parts? = some [.number c, .var v])
    (allowed : registry.all (·.owns v) = true) : Reads registry item (.term (.linear c v))
  | quadratic {item : Value} (c : Number) (v w : Variable)
    (parts : item.parts? = some [.number c, .var v, .var w])
    (first : registry.all (·.owns v) = true) (second : registry.all (·.owns w) = true) :
    Reads registry item (.term (.product c v w))

theorem readParts_reads {item : Value} {parts : List Value} {i : Item}
    (isParts : item.parts? = some parts) (h : readParts registry item parts = .ok i) :
    Reads registry item i := by
  unfold readParts at h
  split at h
  · obtain ⟨c, isNumber, h⟩ := bind_eq_ok.1 h
    obtain ⟨v, isVar, h⟩ := bind_eq_ok.1 h
    cases h
    obtain rfl := readCoefficient_eq_ok.1 isNumber
    obtain ⟨rfl, allowed⟩ := readVariable_eq_ok.1 isVar
    exact .linear c v isParts allowed
  · obtain ⟨c, isNumber, h⟩ := bind_eq_ok.1 h
    obtain ⟨v, isFirst, h⟩ := bind_eq_ok.1 h
    obtain ⟨w, isSecond, h⟩ := bind_eq_ok.1 h
    cases h
    obtain rfl := readCoefficient_eq_ok.1 isNumber
    obtain ⟨rfl, first⟩ := readVariable_eq_ok.1 isFirst
    obtain ⟨rfl, second⟩ := readVariable_eq_ok.1 isSecond
    exact .quadratic c v w isParts first second
  · cases h

theorem readVariable_of_allowed {v : Variable} (allowed : registry.all (·.owns v) = true)
    (item : Value) : readVariable registry item (.var v) = .ok v :=
  readVariable_eq_ok.2 ⟨rfl, allowed⟩

theorem read_of_parts {item : Value} {parts : List Value} (isParts : item.parts? = some parts) :
    Item.read registry item = readParts registry item parts := by
  cases item <;> cases isParts <;> rfl

theorem read_eq_ok {item : Value} {i : Item} :
    Item.read registry item = .ok i ↔ Reads registry item i := by
  constructor
  · intro h
    cases item with
    | number n =>
      cases h
      exact .number n
    | var v =>
      obtain ⟨w, isVar, h⟩ := bind_eq_ok.1 h
      cases h
      obtain ⟨same, allowed⟩ := readVariable_eq_ok.1 isVar
      cases same
      exact .single v allowed
    | list parts => exact readParts_reads rfl h
    | tuple parts => exact readParts_reads rfl h
    | _ => cases h
  · intro h
    cases h with
    | number n => rfl
    | single v allowed =>
      simp only [Item.read, readVariable_of_allowed allowed]
      rfl
    | linear c v parts allowed =>
      simp only [read_of_parts parts, readParts, readCoefficient, readVariable_of_allowed allowed]
      rfl
    | quadratic c v w parts first second =>
      simp only [read_of_parts parts, readParts, readCoefficient, readVariable_of_allowed first,
        readVariable_of_allowed second]
      rfl

theorem isOk_read {item : Value} :
    (Item.read registry item).isOk = true ↔ ∃ i, Reads registry item i := by
  simp only [← read_eq_ok]
  cases Item.read registry item with
  | error wrong => exact iff_of_false nofun fun ⟨_, found⟩ => by cases found
  | ok i => exact iff_of_true rfl ⟨i, rfl⟩

end Item

end LinOpt
