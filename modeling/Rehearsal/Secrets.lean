import Rehearsal.Text.Search
import Rehearsal.Value.Text

/-! The secret values that were entered, and texts in which they are masked. A longer secret is
masked before a shorter one, so that a secret that holds another one disappears as a whole. -/

namespace Rehearsal

/-- The secret values entered so far, without repetition, the earliest first. -/
structure Secrets where
  values : List String := []
  deriving Repr

namespace Secrets

def mark : String := "***"

def register (value : String) (s : Secrets) : Secrets :=
  if value = "" ∨ value ∈ s.values then s else ⟨s.values ++ [value]⟩

def longestFirst (s : Secrets) : List String :=
  s.values.mergeSort fun a b => b.length ≤ a.length

def mask (s : Secrets) (text : String) : String :=
  String.ofList (s.longestFirst.foldl
    (fun text secret => Text.replaceAll secret.toList mark.toList text) text.toList)

def maskString (s : Secrets) : Value → Value
  | .str text => .str (s.mask text)
  | v => v

/-- Masks the values of a mapping: strings, strings in lists, and those of mappings in it. -/
def maskEntries (s : Secrets) : List (Scalar × Value) → List (Scalar × Value)
  | [] => []
  | (k, .map entries) :: rest => (k, .map (maskEntries s entries)) :: maskEntries s rest
  | (k, .list items) :: rest => (k, .list (items.map s.maskString)) :: maskEntries s rest
  | (k, v) :: rest => (k, s.maskString v) :: maskEntries s rest

/-- Masks the arguments of a log record: a mapping, or the strings among a list of them. -/
def maskArguments (s : Secrets) : Value → Value
  | .map entries => .map (s.maskEntries entries)
  | .list items => .list (items.map s.maskString)
  | v => v

def maskRecord (s : Secrets) (message arguments : Value) : Except Unfit (String × Value) := do
  return (s.mask (← message.plain), s.maskArguments arguments)

end Secrets
end Rehearsal
