
namespace LinOpt

abbrev Entries (α : Type) := List (String × α)

namespace Entries

def get? (entries : Entries α) (name : String) : Option α :=
  (entries.find? (·.1 == name)).map Prod.snd

def names (entries : Entries α) : List String :=
  entries.map Prod.fst

/-- Replaces the entry of a name in its place, or makes a last one. -/
def put (name : String) (a : α) : Entries α → Entries α
  | [] => [(name, a)]
  | e :: entries => if e.1 = name then (name, a) :: entries else e :: put name a entries

def ofList (pairs : List (String × α)) : Entries α :=
  pairs.foldl (fun entries (name, a) => put name a entries) []

theorem get?_put (entries : Entries α) (name other : String) (a : α) :
    get? (put name a entries) other = if name = other then some a else get? entries other := by
  induction entries with
  | nil => by_cases same : name = other <;> simp [put, get?, same]
  | cons e entries ih =>
    by_cases here : e.1 = name
    · by_cases same : name = other <;> simp_all [put, get?]
    · by_cases same : e.1 = other
      · subst same
        simp [put, get?, here, Ne.symm here]
      · simp_all [put, get?]

end Entries

end LinOpt
