import LinOpt.Text.Quoted
import LinOpt.Value.Basic

namespace LinOpt

/-- Why there is no text for a value. -/
inductive Unshown
  | tooManyDigits
  | tooDeep

/-- How variables are shown where values may be nested to some depth. -/
abbrev Showing := Nat → Variable → Except Unshown String

def unlessTooLong : Option String → Except Unshown String
  | some s => .ok s
  | none => .error .tooManyDigits

def Number.render (n : Number) : Except Unshown String :=
  unlessTooLong n.shown?

namespace Value

mutual

def renderWithin (shown : Showing) : Nat → Value → Except Unshown String
  | 0, _ => .error .tooDeep
  | _ + 1, null => .ok "None"
  | _ + 1, bool b => .ok (if b then "True" else "False")
  | _ + 1, number n => n.render
  | _ + 1, text s => .ok (Text.quoted s)
  | depth + 1, list items => do
    return "[" ++ ", ".intercalate (← renderAll shown depth items) ++ "]"
  | _ + 1, tuple [] => .ok "()"
  | depth + 1, tuple [item] => do return "(" ++ (← renderWithin shown depth item) ++ ",)"
  | depth + 1, tuple (item :: items) => do
    let texts := (← renderWithin shown depth item) :: (← renderAll shown depth items)
    return "(" ++ ", ".intercalate texts ++ ")"
  | depth + 1, map entries => do
    return "\x7b" ++ ", ".intercalate (← renderEntries shown depth entries) ++ "\x7d"
  | depth + 1, var v => shown (depth + 1) v

def renderAll (shown : Showing) : Nat → List Value → Except Unshown (List String)
  | _, [] => .ok []
  | depth, item :: items => do
    return (← renderWithin shown depth item) :: (← renderAll shown depth items)

def renderEntries (shown : Showing) : Nat → List (Value × Value) → Except Unshown (List String)
  | _, [] => .ok []
  | depth, (key, value) :: entries => do
    let entry := (← renderWithin shown depth key) ++ ": " ++ (← renderWithin shown depth value)
    return entry :: (← renderEntries shown depth entries)

end

def shownDepth : Nat := 988

/-- The text that shows a value in a message; `shown` gives that of a variable. -/
def render (shown : Showing) (value : Value) : Except Unshown String :=
  value.renderWithin shown shownDepth

/-- A text or a number as it is, and any other value as `render` shows it. -/
def display (shown : Showing) : Value → Except Unshown String
  | text s => .ok s
  | number n => unlessTooLong n.text?
  | value => value.render shown

/-- What stands for a collection inside itself. -/
def elided? : Value → Option String
  | list (_ :: _) => some "[...]"
  | tuple (_ :: _) => some "(...)"
  | map (_ :: _) => some "\x7b...\x7d"
  | _ => none

end Value

def Variable.render (v : Variable) (value : Except Unshown String) : Except Unshown String := do
  let lower ← v.lower.render
  let upper ← v.upper.render
  return "Var(name=" ++ Text.quoted v.name ++ ", lb=" ++ lower ++ ", ub=" ++ upper ++ ", vtype="
    ++ Text.quoted v.kind.text ++ ", value=" ++ (← value) ++ ")"

namespace Valuation

/-- Shows a variable inside the values of `around`, which are collections. It takes two levels of
the depth, and `limit` is how many variables there may be inside each other. -/
def shownInside (values : Valuation) : (limit : Nat) → List Variable → Showing
  | limit + 1, around, depth + 2, v =>
    v.render (match values v, if around.contains v then (values v).elided? else none with
      | .var w, _ => shownInside values limit around depth w
      | _, some again => .ok again
      | value, none => value.renderWithin (shownInside values limit (v :: around)) depth)
  | _, _, _, _ => .error .tooDeep

def shown (values : Valuation) : Showing :=
  shownInside values Value.shownDepth []

end Valuation

end LinOpt
