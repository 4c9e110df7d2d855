import Rehearsal.Fault
import Rehearsal.Text.Lower

/-! A step is shown by its name and referred to by its id. A step without id is referred to by its
name in lower case, with a hyphen for every character that is neither a letter nor a digit of ASCII.
-/

namespace Rehearsal.Step

/-- A member of a mapping, or null if it has none; other values have no members. -/
def member (name : String) (v : Value) : Except Fault Value :=
  match v.opened with
  | .map entries => .ok ((Table.find? (.str name) entries).getD .null)
  | _ => .error .notMapping

def name (step : Value) (index : Nat) : Except Fault String := do
  let stated ← member "name" step
  if stated.isPresent then orUnfit stated.plain else return "Step " ++ toString (index + 1)

def slug (name : String) : String :=
  String.ofList ((Text.lower name.toList).map fun c =>
    if ('a' ≤ c ∧ c ≤ 'z') ∨ c.isDigit ∨ c = '-' then c else '-')

def id (step : Value) (index : Nat) : Except Fault String := do
  let stated ← member "id" step
  if stated.isPresent then orUnfit stated.plain else return slug (← name step index)

end Rehearsal.Step
